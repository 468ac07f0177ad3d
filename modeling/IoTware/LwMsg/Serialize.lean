import IoTware.LwMsg.Object

/-!
# The lightweight message serializer

`serialize_lwm_message` and what it calls, every allocation succeeding. The
text behind an opening bracket is collected in `acc`; a separator is written
once that is not empty. `int` and `long` have 32 bits.
-/

namespace IoTware.LwMsg

open CText (Text)

def decimal (n : Int) : Text := (toString n).toList

/-- What `snprintf` leaves of `t` in a buffer of which it may write `n`. -/
def snprintf (n : Nat) (t : Text) : Text := t.take (n - 1)

/-- `"%d.%d"` of the number and of its hundredths. -/
def fixedPoint (x : Rat) : Text :=
  let trunc (y : Rat) : Int := y.num.tdiv y.den
  decimal (trunc x) ++ '.' :: decimal ((trunc (x * 100)).tmod 100)

def serializeLwmNumber : LWMNumber → Text
  | .int32 v => snprintf 11 (decimal v.toInt)
  | .uint32 v => snprintf 10 (decimal v.toInt32.toInt)
  | .int16 v => snprintf 6 (decimal v.toInt)
  | .uint16 v => snprintf 5 (decimal v.toNat)
  | .int8 v => snprintf 4 (decimal v.toInt)
  | .uint8 v => snprintf 3 (decimal v.toNat)
  | .float x => snprintf 20 (fixedPoint x)
  | .double x => snprintf 20 (fixedPoint x)

/-- The body of the loops of `serialize_lwm_array` and
`serialize_lwm_dictionary`. -/
def catSerialized (sep : Char) (acc : Text) : Option Text → Text
  | none => acc
  | some temp => if acc = [] then temp else acc ++ sep :: temp

def serializeLwmKvo (key : Option Text) (strValue : Option Text) : Option Text := do
  return (← key) ++ '=' :: (← strValue)

mutual
def serializeLwmObject : LWMObject → Option Text
  | .number num => some (serializeLwmNumber num)
  | .string value => value
  | .array items => some ('[' :: (serializeItems [] items ++ [']']))
  | .dictionary dict => some ('{' :: (serializeEntries [] dict ++ ['}']))
def serializeItems (acc : Text) : List LWMObject → Text
  | [] => acc
  | obj :: items => serializeItems (catSerialized ',' acc (serializeLwmObject obj)) items
def serializeEntries (acc : Text) : LWMDictionary → Text
  | [] => acc
  | (key, value) :: dict =>
    serializeEntries (catSerialized ';' acc (serializeLwmKvo key (serializeLwmObject value))) dict
end

def serializeLwmArray (items : List LWMObject) : Text := '[' :: (serializeItems [] items ++ [']'])

def serializeLwmDictionary (dict : LWMDictionary) : Text := '{' :: (serializeEntries [] dict ++ ['}'])

def serializeLwmMessage (msg : LWMessage) : Text :=
  serializeLwmDictionary msg.header ++
    if nodeNum msg.body > 0 then serializeLwmDictionary msg.body else []

@[simp] theorem serializeLwmKvo_some (k v : Text) :
    serializeLwmKvo (some k) (some v) = some (k ++ '=' :: v) := rfl

end IoTware.LwMsg
