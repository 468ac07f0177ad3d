import Mathlib.Data.Rat.Floor
import IoTware.LwMsg.Object

/-!
# Parameters

The parameters of tasks and microservices and their way to and from the text
of a message. A parameter's value is the memory it points to, on a platform
with 32-bit `int`, `long` and pointers; how that platform encodes reals and
addresses is the parameter `Platform`.
-/

namespace IoTware.Micro

open CText LwMsg

/-- What the C library and the processor decide. -/
structure Platform where
  atof : Text → Rat
  floatBytes : Rat → List UInt8
  doubleBytes : Rat → List UInt8
  floatValue : List UInt8 → Rat
  doubleValue : List UInt8 → Rat
  /-- `(float)` of a double. -/
  toFloat : Rat → Rat
  /-- The bytes of the pointer to a string. -/
  address : Option Text → List UInt8
  /-- What the value of an object that is no string reads as a text. -/
  textAt : LWMObject → Text
  /-- The rest of a string that goes on behind a value without a zero byte. -/
  behind : List UInt8 → Text

def samplePlatform : Platform where
  atof _ := 0
  floatBytes _ := [0, 0, 0, 0]
  doubleBytes _ := [0, 0, 0, 0, 0, 0, 0, 0]
  floatValue _ := 0
  doubleValue _ := 0
  toFloat q := q
  address _ := [0, 0, 0, 0]
  textAt _ := []
  behind _ := []

structure Parameter where
  name : Text
  aliasName : Text
  type : ParamType
  value : List UInt8
  deriving DecidableEq

def digitsValue (acc : Nat) : Text → Nat
  | [] => acc
  | c :: t => if isDigit c then digitsValue (acc * 10 + (c.toNat - 48)) t else acc

/-- A value that no `long` holds becomes `LONG_MIN` or `LONG_MAX`. -/
def saturate (v : Int) : Int32 := Int32.ofInt (max (-2147483648) (min v 2147483647))

/-- `atoi` and `atol`: blanks, a sign and digits. -/
def atol (t : Text) : Int32 :=
  match t.dropWhile isSpace with
  | '-' :: t => saturate (-digitsValue 0 t)
  | '+' :: t => saturate (digitsValue 0 t)
  | t => saturate (digitsValue 0 t)

def atoi : Option Text → Except Fault Int32
  | none => .error .nullPointer
  | some t => .ok (atol t)

def toBytes : Nat → Nat → List UInt8
  | 0, _ => []
  | n + 1, v => UInt8.ofNat v :: toBytes n (v / 256)

def ofBytes : List UInt8 → Nat
  | [] => 0
  | b :: bytes => b.toNat + 256 * ofBytes bytes

def stringAt (pf : Platform) (bytes : List UInt8) : Text :=
  (bytes.takeWhile (· ≠ 0)).map (fun b => Char.ofNat b.toNat) ++
    if 0 ∈ bytes then [] else pf.behind bytes

/-- `_parameter_set_by_string`: `atol` and `atof` read through the string, the
other types do not. `atof` is called for `eP_FLOAT` only. -/
def parameterSetByString (pf : Platform) (param : Parameter) (str : Option Text) :
    Except Fault Parameter :=
  match param.type, str with
  | .int8, some s | .uint8, some s => .ok { param with value := toBytes 1 (atol s).toUInt32.toNat }
  | .int16, some s | .uint16, some s => .ok { param with value := toBytes 2 (atol s).toUInt32.toNat }
  | .int32, some s | .uint32, some s => .ok { param with value := toBytes 4 (atol s).toUInt32.toNat }
  | .float, some s => .ok { param with value := pf.floatBytes (pf.toFloat (pf.atof s)) }
  | .double, _ => .ok { param with value := pf.doubleBytes 0 }
  | .string, str => .ok { param with value := pf.address str }
  | .unknown, _ => .ok param
  | _, none => .error .nullPointer

def newLwmObjectFromTypeValue (pf : Platform) (type : ParamType) (value : List UInt8) :
    Option LWMObject :=
  match type with
  | .int8 => some (.number (.int32 (Int8.ofInt (ofBytes value)).toInt32))
  | .int16 => some (.number (.int32 (Int16.ofInt (ofBytes value)).toInt32))
  | .int32 => some (.number (.int32 (Int32.ofInt (ofBytes value))))
  | .uint8 | .uint16 | .uint32 => some (.number (.int32 (Int32.ofNat (ofBytes value))))
  | .float => some (.number (.float (pf.floatValue value)))
  | .double => some (.number (.float (pf.toFloat (pf.doubleValue value))))
  | .string => some (.string (some (stringAt pf value)))
  | .unknown => none

/-- `get_parameter_from_param_list` by an alias, taken as a lookup that
tolerates NULL. A list whose counter is 0 counts as empty. -/
def getParameterFromParamList (params : List Parameter) : Option Text → Option Parameter
  | none => none
  | some aliasName =>
    if nodeNum params = 0 then none else params.find? fun param => param.aliasName = aliasName

theorem getParameterFromParamList_some {aliasName : Text}
    (h : getParameterFromParamList params (some aliasName) = some param) :
    params.find? (fun param => param.aliasName = aliasName) = some param := by
  unfold getParameterFromParamList at h
  dsimp only at h
  split at h
  · cases h
  · exact h

end IoTware.Micro
