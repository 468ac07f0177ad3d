import IoTware.Lib.CArray
import IoTware.LwMsg.Frames

/-!
# The buffers of the serializer

`serialize_lwm_message` and what it calls, on the arrays they allocate. Every
allocation succeeds; what `realloc` finds behind the old block is `junk`. No
string function writes behind its array, and the arrays hold the texts that
`serializeLwmMessage` and the others give.
-/

namespace IoTware.LwMsg.Buffered

open CText Loops CArray

def numberSize : LWMNumber → Nat
  | .int32 _ => 12
  | .uint32 _ => 11
  | .int16 _ => 7
  | .uint16 _ => 6
  | .int8 _ => 5
  | .uint8 _ => 4
  | .float _ | .double _ => 21

section
variable (junk : Nat → Char)

/-- The body of the loops of `serialize_lwm_array` and
`serialize_lwm_dictionary`. -/
def catSerialized (sep : Text) (str : List Char) :
    Option (List Char) → Except OutOfBounds (List Char)
  | none => return str
  | some temp => do
    let str := realloc junk str ((← strlen str) + (← strlen temp) + 3)
    let str ← if (← read str 1) ≠ nul then strcat str (terminated sep) else pure str
    strcat str temp

/-- `serialize_lwm_kvo` behind the test for NULL, when its value serializes to
`strValue`. -/
def catKvo (key : Text) : Option (List Char) → Except OutOfBounds (Option (List Char))
  | none => return none
  | some strValue => do
    let str := calloc ((← strlen (terminated key)) + (← strlen strValue) + 2)
    let str ← strcpy str (terminated key)
    let str ← strcat str (terminated ['='])
    return some (← strcat str strValue)

/-- The block of three characters with the opening bracket, which `fill` is to
fill, and behind that the closing bracket. -/
def bracketed (opening closing : Char)
    (fill : List Char → Except OutOfBounds (List Char)) : Except OutOfBounds (List Char) := do
  let str ← strcpy (calloc 3) (terminated [opening])
  let str ← fill str
  strcat str (terminated [closing])

mutual
def serializeLwmObject : LWMObject → Except OutOfBounds (Option (List Char))
  | .number num => do
    return some (← strcpy (calloc (numberSize num)) (terminated (serializeLwmNumber num)))
  | .string none => return none
  | .string (some value) => do
    let len ← strlen (terminated value)
    return some (← memcpy (calloc (len + 1)) (terminated value) len)
  | .array items => do
    return some (← bracketed '[' ']' fun str => serializeItems str items)
  | .dictionary dict => do
    return some (← bracketed '{' '}' fun str => serializeEntries str dict)
def serializeItems (str : List Char) : List LWMObject → Except OutOfBounds (List Char)
  | [] => return str
  | obj :: items => do
    let str ← catSerialized junk [','] str (← serializeLwmObject obj)
    serializeItems str items
def serializeEntries (str : List Char) : LWMDictionary → Except OutOfBounds (List Char)
  | [] => return str
  | (none, _) :: dict => do
    let str ← catSerialized junk [';'] str none
    serializeEntries str dict
  | (some key, value) :: dict => do
    let temp ← catKvo key (← serializeLwmObject value)
    let str ← catSerialized junk [';'] str temp
    serializeEntries str dict
end

def serializeLwmKvo : Option LWMKVObject → Except OutOfBounds (Option (List Char))
  | some (some key, value) => do catKvo key (← serializeLwmObject junk value)
  | some (none, _) | none => return none

def serializeLwmArray (array : Option (List LWMObject)) : Except OutOfBounds (List Char) :=
  bracketed '[' ']' fun str => serializeItems junk str (array.getD [])

def serializeLwmDictionary (dict : Option LWMDictionary) : Except OutOfBounds (List Char) :=
  bracketed '{' '}' fun str => serializeEntries junk str (dict.getD [])

def serializeLwmMessage : Option LWMessage → Except OutOfBounds (Option (List Char))
  | none => return none
  | some msg => do
    let header ← serializeLwmDictionary junk (some msg.header)
    if nodeNum msg.body > 0 then
      let body ← serializeLwmDictionary junk (some msg.body)
      let str := calloc ((← strlen header) + (← strlen body) + 1)
      let str ← strcpy str header
      return some (← strcat str body)
    else
      let str := calloc ((← strlen header) + 1)
      return some (← strcpy str header)

end

-- ---------------------------------------------------------------------------
-- What a block holds
-- ---------------------------------------------------------------------------

/-- The result of a serializer: NULL, or a block that holds a text. -/
inductive Serialized : Option (List Char) → Option Text → Prop
  | null : Serialized none none
  | block : string a = .ok t → Serialized (some a) (some t)

/-- Between two elements a block holds the bracket and the text so far, and it
has room for the closing bracket and the terminator. -/
structure Room (opening : Char) (str : List Char) (acc : Text) : Prop where
  holds : string str = .ok (opening :: acc)
  fits : acc.length + 3 ≤ str.length

theorem string_char (h : c ≠ nul) : string (terminated [c]) = .ok [c] :=
  string_terminated_of (by simpa [IsCString] using h.symm)

theorem room_opening (h : opening ≠ nul) :
    ∃ str, strcpy (calloc 3) (terminated [opening]) = .ok str ∧ Room opening str [] := by
  have hfits : [opening].length < (calloc 3).length := Nat.lt_of_sub_pos (Nat.succ_pos 1)
  obtain ⟨str, hcopy, hstr, hlen⟩ := strcpy_ok (string_char h) hfits
  exact ⟨str, hcopy, hstr, Nat.le_of_eq hlen.symm⟩

/-- The three characters that are allocated beyond the two texts are for the
separator, the closing bracket and the terminator. -/
theorem catSerialized_room (junk : Nat → Char) (sep : Char) (hsep : sep ≠ nul)
    (hstr : Room opening str acc) (htemp : Serialized temp t) :
    ∃ str', catSerialized junk [sep] str temp = .ok str' ∧
      Room opening str' (LwMsg.catSerialized sep acc t) := by
  cases htemp with
  | null => exact ⟨str, rfl, hstr⟩
  | @block temp t htemp =>
    have hnew := string_realloc junk hstr.holds (n := (opening :: acc).length + t.length + 3) (by omega)
    have hlen := length_realloc junk str ((opening :: acc).length + t.length + 3)
    obtain ⟨d, hread, hd⟩ := read_one hnew
    have hcons : (opening :: acc).length = acc.length + 1 := List.length_cons
    by_cases hacc : acc = []
    · obtain ⟨str', hcat, hstr', hlen'⟩ := strcat_ok hnew htemp (by omega)
      refine ⟨str', ?_, ?_⟩
      · refine bind_ok.mpr ⟨_, strlen_of_string hstr.holds, bind_ok.mpr ⟨_, strlen_of_string htemp, ?_⟩⟩
        refine bind_ok.mpr ⟨d, hread, ?_⟩
        rw [if_neg (not_not.mpr (hd.mpr hacc))]
        exact hcat
      · subst hacc
        exact ⟨hstr', by rw [LwMsg.catSerialized, if_pos rfl]; omega⟩
    · obtain ⟨str₁, hcat₁, hstr₁, hlen₁⟩ := strcat_ok hnew (string_char hsep)
        (by rw [List.length_singleton]; omega)
      obtain ⟨str₂, hcat₂, hstr₂, hlen₂⟩ := strcat_ok hstr₁ htemp
        (by rw [List.length_append, List.length_singleton]; omega)
      refine ⟨str₂, ?_, ?_⟩
      · refine bind_ok.mpr ⟨_, strlen_of_string hstr.holds, bind_ok.mpr ⟨_, strlen_of_string htemp, ?_⟩⟩
        refine bind_ok.mpr ⟨d, hread, ?_⟩
        rw [if_pos fun h => hacc (hd.mp h)]
        exact bind_ok.mpr ⟨str₁, hcat₁, hcat₂⟩
      · rw [LwMsg.catSerialized, if_neg hacc]
        rw [List.append_assoc] at hstr₂
        exact ⟨hstr₂, by rw [List.length_append, List.length_cons]; omega⟩

theorem catKvo_serialized (key : Text) (hvalue : Serialized strValue v) :
    ∃ r t, catKvo key strValue = .ok r ∧ Serialized r t ∧
      (IsCString key → t = LwMsg.serializeLwmKvo (some key) v) := by
  cases hvalue with
  | null => exact ⟨none, none, rfl, .null, fun _ => rfl⟩
  | @block strValue v hvalue =>
    have hkey := string_terminated key
    have hroom : (text (terminated key)).length <
        (calloc ((text (terminated key)).length + v.length + 2)).length := by
      rw [length_calloc]
      omega
    obtain ⟨str₁, hcopy, hstr₁, hlen₁⟩ := strcpy_ok hkey hroom
    rw [length_calloc] at hlen₁
    obtain ⟨str₂, hcat₂, hstr₂, hlen₂⟩ := strcat_ok hstr₁ (string_char (c := '=') (by decide))
      (by rw [List.length_singleton]; omega)
    obtain ⟨str₃, hcat₃, hstr₃, -⟩ := strcat_ok hstr₂ hvalue
      (by rw [List.length_append, List.length_singleton]; omega)
    refine ⟨some str₃, _, ?_, .block hstr₃, fun hcs => ?_⟩
    · refine bind_ok.mpr ⟨_, strlen_of_string hkey, bind_ok.mpr ⟨_, strlen_of_string hvalue, ?_⟩⟩
      exact bind_ok.mpr ⟨str₁, hcopy, bind_ok.mpr ⟨str₂, hcat₂, bind_ok.mpr ⟨str₃, hcat₃, rfl⟩⟩⟩
    · have htext : text (terminated key) = key := text_append_nul hcs []
      rw [htext, List.append_assoc]
      rfl

theorem bracketed_ok (opening closing : Char) {P : Text → Prop}
    {fill : List Char → Except OutOfBounds (List Char)} (hopen : opening ≠ nul)
    (hclose : closing ≠ nul)
    (hfill : ∀ str, Room opening str [] →
      ∃ str' acc, fill str = .ok str' ∧ Room opening str' acc ∧ P acc) :
    ∃ a acc, bracketed opening closing fill = .ok a ∧ string a = .ok (opening :: (acc ++ [closing])) ∧
      P acc := by
  obtain ⟨str₀, hcopy, hroom₀⟩ := room_opening hopen
  obtain ⟨str, acc, hloop, hroom, hacc⟩ := hfill str₀ hroom₀
  have hfits : (opening :: acc).length + [closing].length < str.length := hroom.fits
  obtain ⟨a, hcat, hstr, -⟩ := strcat_ok hroom.holds (string_char hclose) hfits
  exact ⟨a, acc, bind_ok.mpr ⟨str₀, hcopy, bind_ok.mpr ⟨str, hloop, hcat⟩⟩, hstr, hacc⟩

theorem length_serializeLwmNumber (num : LWMNumber) :
    (serializeLwmNumber num).length < numberSize num := by
  have hprintf : ∀ n t, (snprintf n t).length ≤ n - 1 := fun n t => List.length_take_le _ _
  cases num <;> refine Nat.lt_of_le_of_lt (hprintf _ _) ?_ <;> exact of_decide_eq_true rfl

-- ---------------------------------------------------------------------------
-- The serializers
-- ---------------------------------------------------------------------------

section
variable (junk : Nat → Char)

mutual
theorem serializeLwmObject_ok : (obj : LWMObject) →
    ∃ r t, serializeLwmObject junk obj = .ok r ∧ Serialized r t ∧
      (obj.CStrings → t = LwMsg.serializeLwmObject obj)
  | .number num => by
    have hnum := string_terminated_of (isCString_serializeLwmNumber num)
    have hroom : (serializeLwmNumber num).length < (calloc (numberSize num)).length := by
      rw [length_calloc]
      exact length_serializeLwmNumber num
    obtain ⟨a, hcopy, hstr, -⟩ := strcpy_ok hnum hroom
    refine ⟨some a, _, ?_, .block hstr, fun _ => rfl⟩
    rw [serializeLwmObject, hcopy]
    rfl
  | .string none => ⟨none, none, by rw [serializeLwmObject]; rfl, .null, fun _ => rfl⟩
  | .string (some value) => by
    have hvalue := string_terminated value
    obtain ⟨a, hcopy, hstr⟩ := memcpy_calloc hvalue
    refine ⟨some a, _, ?_, .block hstr, fun hcs => ?_⟩
    · rw [serializeLwmObject]
      exact bind_ok.mpr ⟨_, strlen_of_string hvalue, bind_ok.mpr ⟨a, hcopy, rfl⟩⟩
    · rw [show text (terminated value) = value from text_append_nul (hcs value rfl) []]
      rfl
  | .array items => by
    obtain ⟨a, acc, hok, hstr, hacc⟩ := bracketed_ok '[' ']'
      (by decide) (by decide) fun _ hroom => serializeItems_ok items hroom
    refine ⟨some a, _, ?_, .block hstr, fun hcs => ?_⟩
    · rw [serializeLwmObject, hok]
      rfl
    · rw [hacc hcs]
      rfl
  | .dictionary dict => by
    obtain ⟨a, acc, hok, hstr, hacc⟩ := bracketed_ok '{' '}'
      (by decide) (by decide) fun _ hroom => serializeEntries_ok dict hroom
    refine ⟨some a, _, ?_, .block hstr, fun hcs => ?_⟩
    · rw [serializeLwmObject, hok]
      rfl
    · rw [hacc hcs]
      rfl
theorem serializeItems_ok {opening : Char} {str : List Char} {acc : Text} :
    (items : List LWMObject) → Room opening str acc →
    ∃ str' acc', serializeItems junk str items = .ok str' ∧ Room opening str' acc' ∧
      (itemsCStrings items → acc' = LwMsg.serializeItems acc items)
  | [], hroom => ⟨str, acc, by rw [serializeItems]; rfl, hroom, fun _ => rfl⟩
  | obj :: items, hroom => by
    obtain ⟨temp, t, htemp, hser, ht⟩ := serializeLwmObject_ok obj
    obtain ⟨str₁, hcat, hroom₁⟩ := catSerialized_room junk ',' (by decide) hroom hser
    obtain ⟨str', acc', hrest, hroom', hacc'⟩ := serializeItems_ok items hroom₁
    refine ⟨str', acc', ?_, hroom', fun hcs => ?_⟩
    · rw [serializeItems]
      exact bind_ok.mpr ⟨temp, htemp, bind_ok.mpr ⟨str₁, hcat, hrest⟩⟩
    · rw [hacc' hcs.2, ht hcs.1]
      rfl
theorem serializeEntries_ok {opening : Char} {str : List Char} {acc : Text} :
    (dict : LWMDictionary) → Room opening str acc →
    ∃ str' acc', serializeEntries junk str dict = .ok str' ∧ Room opening str' acc' ∧
      (entriesCStrings dict → acc' = LwMsg.serializeEntries acc dict)
  | [], hroom => ⟨str, acc, by rw [serializeEntries]; rfl, hroom, fun _ => rfl⟩
  | (none, _) :: dict, hroom => by
    obtain ⟨str', acc', hrest, hroom', hacc'⟩ := serializeEntries_ok dict hroom
    refine ⟨str', acc', ?_, hroom', fun hcs => hacc' hcs.2.2⟩
    rw [serializeEntries]
    exact hrest
  | (some key, value) :: dict, hroom => by
    obtain ⟨r, v, hval, hser, hv⟩ := serializeLwmObject_ok value
    obtain ⟨temp, t, hkvo, hser', ht⟩ := catKvo_serialized key hser
    obtain ⟨str₁, hcat, hroom₁⟩ := catSerialized_room junk ';' (by decide) hroom hser'
    obtain ⟨str', acc', hrest, hroom', hacc'⟩ := serializeEntries_ok dict hroom₁
    refine ⟨str', acc', ?_, hroom', fun hcs => ?_⟩
    · rw [serializeEntries]
      exact bind_ok.mpr ⟨r, hval, bind_ok.mpr ⟨temp, hkvo, bind_ok.mpr ⟨str₁, hcat, hrest⟩⟩⟩
    · rw [hacc' hcs.2.2, ht (hcs.1 key rfl), hv hcs.2.1]
      rfl
end

theorem serializeLwmKvo_ok (kvo : Option LWMKVObject) : Loops.Succeeds (serializeLwmKvo junk kvo) := by
  rcases kvo with _ | ⟨_ | key, value⟩
  · exact ⟨none, rfl⟩
  · exact ⟨none, rfl⟩
  · obtain ⟨r, v, hval, hser, -⟩ := serializeLwmObject_ok junk value
    obtain ⟨temp, -, hkvo, -⟩ := catKvo_serialized key hser
    exact ⟨temp, bind_ok.mpr ⟨r, hval, hkvo⟩⟩

theorem serializeLwmArray_ok (array : Option (List LWMObject)) :
    ∃ a t, serializeLwmArray junk array = .ok a ∧ string a = .ok t ∧
      (itemsCStrings (array.getD []) → t = LwMsg.serializeLwmArray (array.getD [])) := by
  obtain ⟨a, acc, hok, hstr, hacc⟩ := bracketed_ok '[' ']'
    (by decide) (by decide) fun _ hroom => serializeItems_ok junk (array.getD []) hroom
  refine ⟨a, _, hok, hstr, fun hcs => ?_⟩
  rw [hacc hcs]
  rfl

theorem serializeLwmDictionary_ok (dict : Option LWMDictionary) :
    ∃ a t, serializeLwmDictionary junk dict = .ok a ∧ string a = .ok t ∧
      (entriesCStrings (dict.getD []) → t = LwMsg.serializeLwmDictionary (dict.getD [])) := by
  obtain ⟨a, acc, hok, hstr, hacc⟩ := bracketed_ok '{' '}'
    (by decide) (by decide) fun _ hroom => serializeEntries_ok junk (dict.getD []) hroom
  refine ⟨a, _, hok, hstr, fun hcs => ?_⟩
  rw [hacc hcs]
  rfl

theorem serializeLwmMessage_ok (msg : Option LWMessage) :
    ∃ r t, serializeLwmMessage junk msg = .ok r ∧ Serialized r t ∧
      ((∀ m ∈ msg, m.CStrings) → t = msg.map LwMsg.serializeLwmMessage) := by
  cases msg with
  | none => exact ⟨none, none, rfl, .null, fun _ => rfl⟩
  | some msg =>
    obtain ⟨header, t, hheader, ht, htext⟩ := serializeLwmDictionary_ok junk (some msg.header)
    by_cases hbody : nodeNum msg.body > 0
    · obtain ⟨body, u, hbody', hu, hutext⟩ := serializeLwmDictionary_ok junk (some msg.body)
      have hroom : t.length < (calloc (t.length + u.length + 1)).length := by
        rw [length_calloc]
        omega
      obtain ⟨str₁, hcopy, hstr₁, hlen₁⟩ := strcpy_ok ht hroom
      rw [length_calloc] at hlen₁
      obtain ⟨str₂, hcat, hstr₂, -⟩ := strcat_ok hstr₁ hu (by omega)
      refine ⟨some str₂, some (t ++ u), ?_, .block hstr₂, fun hcs => ?_⟩
      · refine bind_ok.mpr ⟨header, hheader, ?_⟩
        rw [if_pos hbody]
        refine bind_ok.mpr ⟨body, hbody', bind_ok.mpr ⟨_, strlen_of_string ht, ?_⟩⟩
        refine bind_ok.mpr ⟨_, strlen_of_string hu, bind_ok.mpr ⟨str₁, hcopy, ?_⟩⟩
        exact bind_ok.mpr ⟨str₂, hcat, rfl⟩
      · rw [htext (hcs msg rfl).1, hutext (hcs msg rfl).2, Option.map_some, LwMsg.serializeLwmMessage,
          if_pos hbody]
        rfl
    · have hroom : t.length < (calloc (t.length + 1)).length := by
        rw [length_calloc]
        omega
      obtain ⟨str, hcopy, hstr, -⟩ := strcpy_ok ht hroom
      refine ⟨some str, some t, ?_, .block hstr, fun hcs => ?_⟩
      · refine bind_ok.mpr ⟨header, hheader, ?_⟩
        rw [if_neg hbody]
        exact bind_ok.mpr ⟨_, strlen_of_string ht, bind_ok.mpr ⟨str, hcopy, rfl⟩⟩
      · rw [htext (hcs msg rfl).1, Option.map_some, LwMsg.serializeLwmMessage, if_neg hbody,
          List.append_nil]
        rfl

/-- No string function of the serializers leaves the block it writes to. -/
theorem serializer_buffers_suffice :
    (∀ kvo, Loops.Succeeds (serializeLwmKvo junk kvo)) ∧
      (∀ array, Loops.Succeeds (serializeLwmArray junk array)) ∧
      (∀ dict, Loops.Succeeds (serializeLwmDictionary junk dict)) ∧
      ∀ msg, Loops.Succeeds (serializeLwmMessage junk msg) := by
  refine ⟨serializeLwmKvo_ok junk, fun array => ?_, fun dict => ?_, fun msg => ?_⟩
  · obtain ⟨a, -, hok, -⟩ := serializeLwmArray_ok junk array
    exact ⟨a, hok⟩
  · obtain ⟨a, -, hok, -⟩ := serializeLwmDictionary_ok junk dict
    exact ⟨a, hok⟩
  · obtain ⟨r, -, hok, -⟩ := serializeLwmMessage_ok junk msg
    exact ⟨r, hok⟩

end

end IoTware.LwMsg.Buffered
