import IoTware.LwMsg.Numbers
import IoTware.LwMsg.Message
import IoTware.Micro.Parameter

/-!
# Values in and out of parameters

A request writes a parameter from a text, and an answer builds an object from
the parameter's memory. The two agree on the integers that an `int32_t` holds;
the answer prints those that have at most ten characters.
-/

namespace IoTware.Micro

open CText LwMsg Numerals

def InRange : ParamType → Int → Prop
  | .int8, v => -128 ≤ v ∧ v < 128
  | .uint8, v => 0 ≤ v ∧ v < 256
  | .int16, v => -32768 ≤ v ∧ v < 32768
  | .uint16, v => 0 ≤ v ∧ v < 65536
  | .int32, v => -2147483648 ≤ v ∧ v < 2147483648
  | .uint32, v => 0 ≤ v ∧ v < 4294967296
  | .float, _ | .double, _ | .string, _ | .unknown, _ => False

def decimalSize : ParamType → Nat
  | .int8 | .uint8 => 1
  | .int16 | .uint16 => 2
  | .int32 | .uint32 => 4
  | .float | .double | .string | .unknown => 0

def valueBytes (type : ParamType) (v : Int) : List UInt8 :=
  toBytes (decimalSize type) (Int32.ofInt v).toUInt32.toNat

theorem ofBytes_toBytes (n v : Nat) : ofBytes (toBytes n v) = v % 256 ^ n := by
  induction n generalizing v with
  | zero => simp [toBytes, ofBytes, Nat.mod_one]
  | succ n ih =>
    have hpow : 256 ^ (n + 1) = 256 * 256 ^ n := Nat.pow_succ'
    rw [toBytes, ofBytes, ih, UInt8.toNat_ofNat', hpow, Nat.mod_mul ]

theorem toNat_toUInt32_ofInt (v : Int) : (Int32.ofInt v).toUInt32.toNat = (v % 4294967296).toNat := by
  have h : (Int32.ofInt v).toUInt32.toNat = (BitVec.ofInt 32 v).toNat := rfl
  rw [h, BitVec.toNat_ofInt]
  rfl

theorem ofBytes_valueBytes (type : ParamType) (v : Int) :
    ofBytes (valueBytes type v) = (v % 4294967296).toNat % 256 ^ decimalSize type := by
  unfold valueBytes
  rw [ofBytes_toBytes, toNat_toUInt32_ofInt]

theorem newLwmObjectFromTypeValue_decimal (pf : Platform) (h : InRange type v) :
    newLwmObjectFromTypeValue pf type (valueBytes type v) =
      some (.number (.int32 (Int32.ofInt v))) := by
  have hbytes := ofBytes_valueBytes type v
  have hint : ∀ w : Int32, w.toInt = v.bmod 4294967296 →
      some (LWMObject.number (.int32 w)) = some (.number (.int32 (Int32.ofInt v))) := by
    intro w hw
    rw [Int32.toInt_inj.mp (hw.trans Int32.toInt_ofInt.symm)]
  cases type with
  | int8 =>
    refine hint _ ?_
    rw [Int8.toInt_toInt32, Int8.toInt_ofInt, hbytes]
    simp only [decimalSize, InRange, Int8.size, Int.bmod] at h ⊢
    omega
  | int16 =>
    refine hint _ ?_
    rw [Int16.toInt_toInt32, Int16.toInt_ofInt, hbytes]
    simp only [decimalSize, InRange, Int16.size, Int.bmod] at h ⊢
    omega
  | int32 =>
    refine hint _ ?_
    rw [Int32.toInt_ofInt, hbytes]
    simp only [decimalSize, InRange, Int32.size, Int.bmod] at h ⊢
    omega
  | uint8 | uint16 | uint32 =>
    refine hint _ ?_
    rw [← Int32.ofInt_eq_ofNat, Int32.toInt_ofInt, hbytes]
    simp only [decimalSize, InRange, Int32.size, Int.bmod] at h ⊢
    omega
  | float | double | string | unknown => cases h

theorem toInt_ofInt_iff (h : InRange type v) : (Int32.ofInt v).toInt = v ↔ v < 2147483648 := by
  have hrange : -2147483648 ≤ v ∧ v < 4294967296 := by
    cases type <;> simp only [InRange] at h <;> omega
  rw [Int32.toInt_ofInt]
  simp only [Int32.size, Int.bmod]
  omega

-- ---------------------------------------------------------------------------
-- The texts of integers
-- ---------------------------------------------------------------------------

theorem newLwmReqMessage_if (interfaceId : UInt32) (dri di : Option Text) :
    ∃ msg, newLwmReqMessage interfaceId dri di = .ok msg ∧
      getLwmObjectFromDict msg.header "if".toList = .ok (some (.number (.uint32 interfaceId))) := by
  cases dri <;> cases di <;> exact ⟨_, rfl, rfl⟩

def PrintsValue (pf : Platform) (type : ParamType) (v : Int) : Prop :=
  (newLwmObjectFromTypeValue pf type (valueBytes type v)).bind serializeLwmObject = some (decimal v)

def PrintsInterfaceId (interfaceId : UInt32) (dri di : Option Text) : Prop :=
  ∃ msg obj, newLwmReqMessage interfaceId dri di = .ok msg ∧
    getLwmObjectFromDict msg.header "if".toList = .ok (some obj) ∧
    serializeLwmObject obj = some (decimal interfaceId.toNat)

theorem printsValue_iff (pf : Platform) (h : InRange type v) :
    PrintsValue pf type v ↔ -1000000000 < v ∧ v < 2147483648 := by
  have hrange : -2147483648 ≤ v ∧ v < 4294967296 := by
    cases type <;> simp only [InRange] at h <;> omega
  unfold PrintsValue
  rw [newLwmObjectFromTypeValue_decimal pf h, Option.bind_some, serializeLwmObject,
    serializeLwmNumber, Option.some.injEq]
  by_cases hfits : v < 2147483648
  · rw [(toInt_ofInt_iff h).mpr hfits, snprintf_decimal_iff (by decide)]
    omega
  · -- the numeral of an unsigned value that wraps has a sign
    have hneg : (Int32.ofInt v).toInt < 0 := by
      rw [Int32.toInt_ofInt]
      simp only [Int32.size, Int.bmod]
      omega
    obtain ⟨n, rfl⟩ := Int.eq_ofNat_of_zero_le (by omega : 0 ≤ v)
    exact iff_of_false (snprintf_neg_ne hneg n 9) fun h => hfits h.2

theorem printsInterfaceId_iff (interfaceId : UInt32) (dri di : Option Text) :
    PrintsInterfaceId interfaceId dri di ↔ interfaceId.toNat < 1000000000 := by
  obtain ⟨msg, hmsg, hif⟩ := newLwmReqMessage_if interfaceId dri di
  have hprints : PrintsInterfaceId interfaceId dri di ↔
      snprintf 10 (decimal interfaceId.toInt32.toInt) = decimal interfaceId.toNat := by
    constructor
    · rintro ⟨_, obj, hmsg', hif', htext⟩
      rw [hmsg] at hmsg'
      cases hmsg'
      rw [hif] at hif'
      cases hif'
      rw [serializeLwmObject, serializeLwmNumber] at htext
      exact Option.some.inj htext
    · intro htext
      refine ⟨msg, _, hmsg, hif, ?_⟩
      rw [serializeLwmObject, serializeLwmNumber, htext]
  have hlt : interfaceId.toNat < 4294967296 := interfaceId.toNat_lt
  have hint : interfaceId.toInt32.toInt = (interfaceId.toNat : Int).bmod 4294967296 := by
    have hof : interfaceId.toInt32 = Int32.ofNat interfaceId.toNat := by
      rw [← UInt32.toInt32_ofNat', UInt32.ofNat_toNat]
    rw [hof, Int32.toInt_ofNat']
  rw [hprints]
  by_cases hfits : interfaceId.toNat < 2147483648
  · have hsame : interfaceId.toInt32.toInt = interfaceId.toNat := by
      rw [hint, Int.bmod]
      omega
    rw [hsame, snprintf_decimal_iff (by decide)]
    omega
  · have hneg : interfaceId.toInt32.toInt < 0 := by
      rw [hint, Int.bmod]
      omega
    exact iff_of_false (snprintf_neg_ne hneg _ 8) (by omega)

/-- A value is printed in full exactly if its numeral has at most ten characters
and an `int32_t` holds it, an interface id if it has at most nine digits. -/
theorem integers_printed_iff (pf : Platform) (h : InRange type v) (interfaceId : UInt32)
    (dri di : Option Text) :
    (PrintsValue pf type v ↔ -1000000000 < v ∧ v < 2147483648) ∧
      (PrintsInterfaceId interfaceId dri di ↔ interfaceId.toNat < 1000000000) :=
  ⟨printsValue_iff pf h, printsInterfaceId_iff interfaceId dri di⟩

theorem integers_printed_sample :
    PrintsValue samplePlatform .int16 (-32768) ∧ PrintsInterfaceId 14 (some "1".toList) none := by
  have hprints := integers_printed_iff samplePlatform
    (show InRange .int16 (-32768) from ⟨by decide, by decide⟩) 14 (some "1".toList) none
  exact ⟨hprints.1.mpr ⟨by decide, by decide⟩, hprints.2.mpr (by decide)⟩

/-- The least `INT32` loses its last digit, and so does the id 1000000000. -/
theorem integers_cut :
    ¬∀ pf type v (interfaceId : UInt32) dri di, InRange type v →
      PrintsValue pf type v ∧ PrintsInterfaceId interfaceId dri di := by
  intro h
  have hrange : InRange .int32 (-2147483648) := ⟨by decide, by decide⟩
  have hprints := (h samplePlatform .int32 (-2147483648) 1000000000 none none hrange).1
  exact absurd ((printsValue_iff _ hrange).mp hprints).1 (by decide)

-- ---------------------------------------------------------------------------
-- Setting and reading
-- ---------------------------------------------------------------------------

/-- What an object says. -/
inductive Meaning
  | integer (v : Int)
  | real (q : Rat)
  | text (t : Text)

def meaning : LWMObject → Option Meaning
  | .number (.int8 v) => some (.integer v.toInt)
  | .number (.uint8 v) => some (.integer v.toNat)
  | .number (.int16 v) => some (.integer v.toInt)
  | .number (.uint16 v) => some (.integer v.toNat)
  | .number (.int32 v) => some (.integer v.toInt)
  | .number (.uint32 v) => some (.integer v.toNat)
  | .number (.float q) | .number (.double q) => some (.real q)
  | .string text => text.map .text
  | .array _ | .dictionary _ => none

/-- What a text says as a value of a type. The object of a real parameter holds
a `float`. -/
def Converts (pf : Platform) : ParamType → Text → Meaning → Prop
  | .string, s, m => m = .text s
  | .float, s, m | .double, s, m => m = .real (pf.toFloat (pf.atof s))
  | .unknown, _, _ => False
  | type, s, m => ∃ v, intValue s = some v ∧ InRange type v ∧ m = .integer v

/-- The object built from a parameter that was set from the text says `m`. The
message that held the text is not looked at any more. -/
def SetReadAgree (pf : Platform) (param : Parameter) (s : Text) (m : Meaning) : Prop :=
  ∃ param' obj, parameterSetByString pf param (some s) = .ok param' ∧
    newLwmObjectFromTypeValue pf param'.type param'.value = some obj ∧ meaning obj = some m

/-- What the platform does with the reals of a text. -/
structure RealLaws (pf : Platform) (s : Text) : Prop where
  float : pf.floatValue (pf.floatBytes (pf.toFloat (pf.atof s))) = pf.toFloat (pf.atof s)
  zero : pf.toFloat (pf.doubleValue (pf.doubleBytes 0)) = 0

/-- The reader gets what the writer was given: a `UINT32` has no sign bit set, a
`DOUBLE` is 0, and the pointer stored for a `STRING` spells its text. -/
def ReadableAs (pf : Platform) : ParamType → Text → Prop
  | .uint32, s => ∀ v, intValue s = some v → v < 2147483648
  | .double, s => pf.toFloat (pf.atof s) = 0
  | .string, s => stringAt pf (pf.address (some s)) = s
  | _, _ => True

theorem digitsValue_eq {t : Text} (h : ∀ c ∈ t, isDigit c = true) (acc : Nat) :
    digitsValue acc t = Nat.ofDigitChars 10 t acc := by
  induction t generalizing acc with
  | nil => rfl
  | cons c t ih =>
    rw [digitsValue, if_pos (h c List.mem_cons_self), ih fun c hc => h c (List.mem_cons_of_mem _ hc),
      Nat.ofDigitChars_cons, Nat.mul_comm]
    rfl

theorem digitsValue_of_natValue (h : natValue t = some n) : digitsValue 0 t = n := by
  unfold natValue at h
  split at h
  · rename_i hdigits
    exact (digitsValue_eq hdigits.2 0).trans (Option.some.inj h)
  · cases h

theorem atol_digit (h : isDigit c = true) (t : Text) :
    atol (c :: t) = saturate (digitsValue 0 (c :: t)) := by
  have hspace : isSpace c = false := by
    simp only [isDigit, isSpace, Bool.and_eq_true, decide_eq_true_eq] at h ⊢
    simp
    omega
  obtain ⟨hminus, hplus, -⟩ := ne_of_isDigit h
  unfold atol
  rw [List.dropWhile_cons, hspace]
  split
  · rename_i heq
    exact absurd (List.cons.inj heq).1 hminus
  · rename_i heq
    exact absurd (List.cons.inj heq).1 hplus
  · rfl

theorem atol_of_intValue (h : intValue s = some v) : atol s = saturate v := by
  unfold intValue signed at h
  split at h
  · rename_i t
    simp only [Option.map_eq_some_iff] at h
    obtain ⟨_, ⟨n, hn, rfl⟩, rfl⟩ := h
    have hatol : atol ('-' :: t) = saturate (-digitsValue 0 t) := rfl
    rw [hatol, digitsValue_of_natValue hn]
  · rename_i t
    simp only [Option.map_eq_some_iff] at h
    obtain ⟨n, hn, rfl⟩ := h
    have hatol : atol ('+' :: t) = saturate (digitsValue 0 t) := rfl
    rw [hatol, digitsValue_of_natValue hn]
  · simp only [Option.map_eq_some_iff] at h
    obtain ⟨n, hn, rfl⟩ := h
    cases s with
    | nil => cases hn
    | cons c t =>
      have hc : isDigit c = true := by
        unfold natValue at hn
        split at hn
        · rename_i hdigits
          exact hdigits.2 c List.mem_cons_self
        · cases hn
      rw [atol_digit hc, digitsValue_of_natValue hn]

theorem InRange.saturate (h : InRange type v) : InRange type (min v 2147483647) := by
  cases type <;> simp only [InRange] at h ⊢ <;> omega

/-- A decimal parameter is set to the value of its text, as far as a `long` holds it. -/
theorem parameterSetByString_decimal (pf : Platform) (hv : intValue s = some v)
    (h : InRange param.type v) :
    parameterSetByString pf param (some s) =
      .ok { param with value := valueBytes param.type (min v 2147483647) } := by
  have hmin : -2147483648 ≤ v := by cases htype : param.type <;> simp only [InRange, htype] at h <;> omega
  have hatol : atol s = Int32.ofInt (min v 2147483647) := by
    rw [atol_of_intValue hv, Micro.saturate]
    congr 1
    omega
  unfold parameterSetByString valueBytes
  rw [← hatol]
  cases htype : param.type <;> rw [htype] at h
  case int8 | uint8 | int16 | uint16 | int32 | uint32 => rfl
  all_goals exact absurd h not_false

theorem setReadAgree_of (hset : parameterSetByString pf param (some s) = .ok param')
    (hobj : newLwmObjectFromTypeValue pf param'.type param'.value = some obj) :
    SetReadAgree pf param s m ↔ meaning obj = some m := by
  constructor
  · rintro ⟨_, obj', hset', hobj', hmeaning⟩
    rw [hset] at hset'
    cases hset'
    rw [hobj] at hobj'
    cases hobj'
    exact hmeaning
  · exact fun hmeaning => ⟨_, _, hset, hobj, hmeaning⟩

/-- The object of a decimal parameter that was set says the value exactly if an
`int32_t` holds it. -/
theorem setReadAgree_decimal (pf : Platform) (hv : intValue s = some v) (h : InRange param.type v) :
    SetReadAgree pf param s (.integer v) ↔ v < 2147483648 := by
  have hkept : (Int32.ofInt (min v 2147483647)).toInt = min v 2147483647 :=
    (toInt_ofInt_iff h.saturate).mpr (by omega)
  rw [setReadAgree_of (parameterSetByString_decimal pf hv h)
      (newLwmObjectFromTypeValue_decimal pf h.saturate),
    meaning, hkept, Option.some.injEq, Meaning.integer.injEq]
  omega

theorem InRange.lt_of_ne (h : InRange type v) (htype : type ≠ .uint32) : v < 2147483648 := by
  cases type <;> simp only [InRange] at h
  case uint32 => exact absurd rfl htype
  all_goals omega

theorem setReadAgree_float (hlaws : RealLaws pf s) (htype : param.type = .float) :
    SetReadAgree pf param s (.real (pf.toFloat (pf.atof s))) := by
  have hset : parameterSetByString pf param (some s) =
      .ok { param with value := pf.floatBytes (pf.toFloat (pf.atof s)) } := by
    unfold parameterSetByString
    rw [htype]
  have hobj : newLwmObjectFromTypeValue pf param.type (pf.floatBytes (pf.toFloat (pf.atof s))) =
      some (.number (.float (pf.toFloat (pf.atof s)))) := by
    rw [htype, newLwmObjectFromTypeValue, hlaws.float]
  exact (setReadAgree_of hset hobj).mpr rfl

theorem setReadAgree_double (hlaws : RealLaws pf s) (htype : param.type = .double) :
    SetReadAgree pf param s (.real q) ↔ q = 0 := by
  have hset : parameterSetByString pf param (some s) =
      .ok { param with value := pf.doubleBytes 0 } := by
    unfold parameterSetByString
    rw [htype]
  have hobj : newLwmObjectFromTypeValue pf param.type (pf.doubleBytes 0) =
      some (.number (.float 0)) := by
    rw [htype, newLwmObjectFromTypeValue, hlaws.zero]
  rw [setReadAgree_of hset hobj, meaning, Option.some.injEq, Meaning.real.injEq]
  exact eq_comm

theorem setReadAgree_string (htype : param.type = .string) :
    SetReadAgree pf param s (.text t) ↔ stringAt pf (pf.address (some s)) = t := by
  have hset : parameterSetByString pf param (some s) =
      .ok { param with value := pf.address (some s) } := by
    unfold parameterSetByString
    rw [htype]
  have hobj : newLwmObjectFromTypeValue pf param.type (pf.address (some s)) =
      some (.string (some (stringAt pf (pf.address (some s))))) := by
    rw [htype, newLwmObjectFromTypeValue]
  rw [setReadAgree_of hset hobj, meaning, Option.map_some, Option.some.injEq, Meaning.text.injEq]

/-- Setting and reading agree exactly on what can be read back. -/
theorem set_read_agree_iff (hlaws : RealLaws pf s) (h : Converts pf param.type s m) :
    SetReadAgree pf param s m ↔ ReadableAs pf param.type s := by
  cases htype : param.type <;> rw [htype] at h
  case int8 | uint8 | int16 | uint16 | int32 =>
    obtain ⟨v, hv, hrange, rfl⟩ := h
    have hlt := hrange.lt_of_ne ParamType.noConfusion
    exact iff_of_true ((setReadAgree_decimal pf hv (htype ▸ hrange)).mpr hlt) trivial
  case uint32 =>
    obtain ⟨v, hv, hrange, rfl⟩ := h
    rw [setReadAgree_decimal pf hv (htype ▸ hrange), ReadableAs, hv]
    simp
  case float =>
    cases show m = _ from h
    exact iff_of_true (setReadAgree_float hlaws htype) trivial
  case double =>
    cases show m = _ from h
    exact setReadAgree_double hlaws htype
  case string =>
    cases show m = _ from h
    exact setReadAgree_string htype
  case unknown => cases h

/-- A platform that is right about the text "65535": its single is `47 7f ff 00`. -/
def numeralPlatform : Platform :=
  { samplePlatform with
    atof := fun t => ((intValue t).getD 0 : Int)
    floatBytes := fun q => if q = 65535 then [0x00, 0xff, 0x7f, 0x47] else [0, 0, 0, 0]
    floatValue := fun bytes => if bytes = [0x00, 0xff, 0x7f, 0x47] then 65535 else 0 }

def sampleParameter (type : ParamType) : Parameter := ⟨"limit".toList, "limit".toList, type, []⟩

theorem set_read_agree_uint16 :
    SetReadAgree numeralPlatform (sampleParameter .uint16) "65535".toList (.integer 65535) := by
  have hconverts : Converts numeralPlatform (sampleParameter .uint16).type "65535".toList
      (.integer 65535) := ⟨65535, by decide +kernel, ⟨by decide, by decide⟩, rfl⟩
  exact (set_read_agree_iff ⟨by decide +kernel, by decide +kernel⟩ hconverts).mpr trivial

/-- A `DOUBLE` that is set to 65535 is read as 0. -/
theorem set_double_not_read :
    ¬∀ pf param s m, RealLaws pf s → Converts pf param.type s m → SetReadAgree pf param s m := by
  intro h
  have hagree := h numeralPlatform (sampleParameter .double) "65535".toList (.real 65535)
    ⟨by decide +kernel, by decide +kernel⟩ (congrArg Meaning.real (by decide +kernel))
  have hobj : newLwmObjectFromTypeValue numeralPlatform .double (numeralPlatform.doubleBytes 0) =
      some (.number (.float 0)) := rfl
  rw [setReadAgree_of rfl hobj] at hagree
  have hreal := Meaning.real.inj (Option.some.inj hagree)
  exact absurd hreal (by decide)

end IoTware.Micro
