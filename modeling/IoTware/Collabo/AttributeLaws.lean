import IoTware.Collabo.Attributes

/-!
# Laws of the attributes

Size, encoder and decoder of an array of attributes line up, for the attributes with
values and for those without.
-/

namespace IoTware.Collabo

open Codec Memory

-- ---------------------------------------------------------------------------
-- Writing and reading
-- ---------------------------------------------------------------------------

theorem cmAttributeRealValueLength_eq (n : Nat) : cmAttributeRealValueLength n = 2 ^ n := by
  induction n with
  | zero => rfl
  | succ n ih => rw [cmAttributeRealValueLength, ih, Nat.pow_succ]

theorem readArray_length (as : List α) : readArray as as.length = .ok as := by
  rw [readArray, if_pos (Nat.le_refl _), List.take_length]

theorem memcpy_append {done free bytes : List UInt8} (hdest : dest = done.length)
    (h : bytes.length ≤ free.length) :
    memcpy (done ++ free) dest bytes = .ok (done ++ bytes ++ free.drop bytes.length) := by
  rw [memcpy, hdest, store_append h]

theorem memcpy_zeros {done bytes : List UInt8} (hdest : dest = done.length)
    (hsize : size = bytes.length + n) :
    memcpy (done ++ List.replicate size 0) dest bytes =
      .ok (done ++ bytes ++ List.replicate n 0) := by
  have hfree : bytes.length ≤ (List.replicate size (0 : UInt8)).length := by
    rw [List.length_replicate]
    omega
  rw [memcpy_append hdest hfree, List.drop_replicate, hsize, Nat.add_sub_cancel_left]

/-- The array of `good` attributes is the bytes of its elements one after the other.
`claimed` is the length of the bytes in memory that say to be a number of attributes. -/
structure AttributesFormat.Lawful (F : AttributesFormat α) (good : α → Prop)
    (wire : α → List UInt8) (claimed : Bytes → Nat → Nat → Nat) : Prop where
  size : ∀ as, (∀ a ∈ as, good a) →
    F.serializeSize (.object as) as.length = .ok (as.flatMap wire).length
  serialize : ∀ as done free, (∀ a ∈ as, good a) → (as.flatMap wire).length ≤ free.length →
    F.serialize (.object as) as.length (done ++ free) done.length =
      .ok (done ++ as.flatMap wire ++ free.drop (as.flatMap wire).length)
  parse_wire : ∀ as mem pt size n, (∀ a ∈ as, good a) → as.length = n + 1 → 0 < size →
    block mem pt (as.flatMap wire).length = as.flatMap wire →
    (F.parse mem pt size n).value = .object as
  parse_good : ∀ mem pt size n, 0 < size → ∃ as, (F.parse mem pt size n).value = .object as ∧
    (∀ a ∈ as, good a) ∧ as.length = n + 1 ∧
    as.flatMap wire = block mem pt (claimed mem pt (n + 1))
  within : ∀ mem pt size n limit, 0 < size →
    (Reads.Within limit (F.parse mem pt size n) ↔ pt + claimed mem pt (n + 1) ≤ limit)
  absent : ∀ mem pt n, F.parse mem pt 0 n = pure .null
  wire_pos : ∀ a, 0 < (wire a).length
  claimed_pos : ∀ mem pt n, 0 < claimed mem pt (n + 1)

-- ---------------------------------------------------------------------------
-- Attributes are one byte each
-- ---------------------------------------------------------------------------

theorem size_attribute : CMAttributePayload.format.size = 1 := rfl

theorem length_flatMap_pack (as : List CMAttributePayload) :
    (as.flatMap CMAttributePayload.format.pack).length = as.length := by
  induction as with
  | nil => rfl
  | cons a as ih =>
    rw [List.flatMap_cons, List.length_append, ih, CMAttributePayload.format.length_pack,
      List.length_cons, Nat.add_comm]
    rfl

theorem parseAttributes_value (h : block mem pt as.length = as.flatMap CMAttributePayload.format.pack) :
    (parseAttributes mem pt as.length).value = as := by
  induction as generalizing pt with
  | nil => rfl
  | cons a as ih =>
    rw [List.length_cons, Nat.add_comm, block_add, List.flatMap_cons] at h
    obtain ⟨hfirst, hrest⟩ := List.append_inj h
      ((length_block mem pt 1).trans (CMAttributePayload.format.length_pack a).symm)
    have hunpack : CMAttributePayload.format.unpack (block mem pt 1) = a := by
      rw [hfirst, CMAttributePayload.format.unpack_pack]
    simp only [List.length_cons, parseAttributes, Reads.value_bind, Reads.value_bytes,
      Reads.value_pure]
    exact congrArg₂ List.cons hunpack (ih hrest)

theorem parseAttributes_pack (mem : Bytes) (pt n : Nat) :
    (parseAttributes mem pt n).value.length = n ∧
      (parseAttributes mem pt n).value.flatMap CMAttributePayload.format.pack = block mem pt n := by
  induction n generalizing pt with
  | zero => exact ⟨rfl, rfl⟩
  | succ n ih =>
    obtain ⟨hlength, hwire⟩ := ih (pt + CMAttributePayload.format.size)
    simp only [parseAttributes, Reads.value_bind, Reads.value_bytes, Reads.value_pure,
      List.length_cons, List.flatMap_cons]
    refine ⟨congrArg (· + 1) hlength, ?_⟩
    rw [hwire, CMAttributePayload.format.pack_unpack _ (length_block _ _ _), Nat.add_comm n]
    exact (block_add mem pt 1 n).symm

theorem within_parseAttributes (limit : Nat) (mem : Bytes) (pt n : Nat) :
    Reads.Within limit (parseAttributes mem pt n) ↔ n = 0 ∨ pt + n ≤ limit := by
  induction n generalizing pt with
  | zero => simp [parseAttributes]
  | succ n ih =>
    simp only [parseAttributes, Reads.within_bind, Reads.within_bytes, Reads.within_pure, ih,
      size_attribute, and_true]
    omega

theorem cmAttributesParse_of_pos (mem : Bytes) (msg attrCount : Nat) (h : 0 < size) :
    cmAttributesParse mem msg size attrCount =
      Pointer.object <$> parseAttributes mem msg (attrCount + 1) :=
  if_pos h

theorem attributesFormat_lawful :
    attributesFormat.Lawful (fun _ => True) CMAttributePayload.format.pack fun _ _ n => n where
  size as _ := by
    rw [length_flatMap_pack]
    exact congrArg Except.ok (Nat.one_mul as.length)
  serialize as done free _ hfree := by
    show cmAttributesSerialize _ _ _ _ = _
    unfold cmAttributesSerialize
    split
    · simp only [Pointer.deref, readArray_length, bind, Except.bind]
      exact memcpy_append rfl hfree
    next hnone =>
      obtain rfl : as = [] := List.length_eq_zero_iff.mp (by omega)
      simp
  parse_wire as mem pt size n _ hlength hsize hwire := by
    rw [length_flatMap_pack] at hwire
    show (cmAttributesParse mem pt size n).value = _
    rw [cmAttributesParse_of_pos mem pt n hsize, ← hlength]
    exact congrArg Pointer.object (parseAttributes_value hwire)
  parse_good mem pt size n hsize := by
    obtain ⟨hlength, hwire⟩ := parseAttributes_pack mem pt (n + 1)
    refine ⟨_, ?_, fun _ _ => trivial, hlength, hwire⟩
    show (cmAttributesParse mem pt size n).value = _
    rw [cmAttributesParse_of_pos mem pt n hsize]
    rfl
  within mem pt size n limit hsize := by
    show Reads.Within limit (cmAttributesParse mem pt size n) ↔ _
    rw [cmAttributesParse_of_pos mem pt n hsize, Reads.within_map, within_parseAttributes]
    simp
  absent _ _ _ := rfl
  wire_pos a := by
    rw [CMAttributePayload.format.length_pack, size_attribute]
    exact Nat.one_pos
  claimed_pos _ _ n := Nat.succ_pos n

-- ---------------------------------------------------------------------------
-- Attributes with their values
-- ---------------------------------------------------------------------------

theorem CMAttributeValuePayload.wire_of {a : CMAttributeValuePayload}
    (h : a.values = .object bytes) :
    a.wire = CMAttributePayload.format.pack a.toCMAttributePayload ++ bytes := by
  rw [wire, h]

theorem CMAttributeValuePayload.HasValues.length_wire {a : CMAttributeValuePayload}
    (h : a.HasValues) : a.wire.length = 1 + 2 ^ a.valueLength.toNat := by
  obtain ⟨bytes, hvalues, hlength⟩ := h
  rw [wire_of hvalues, List.length_append, CMAttributePayload.format.length_pack, hlength,
    size_attribute]

theorem valueLengths_eq {as : List CMAttributeValuePayload} (h : ∀ a ∈ as, a.HasValues) :
    ∃ size, valueLengths as as.length = .ok size ∧
      size + as.length = (as.flatMap CMAttributeValuePayload.wire).length := by
  induction as with
  | nil => exact ⟨0, rfl, rfl⟩
  | cons a as ih =>
    obtain ⟨ha, has⟩ := List.forall_mem_cons.mp h
    obtain ⟨size, hsize, htotal⟩ := ih has
    refine ⟨2 ^ a.valueLength.toNat + size, ?_, ?_⟩
    · rw [List.length_cons, valueLengths, hsize, cmAttributeRealValueLength_eq]
      rfl
    · rw [List.flatMap_cons, List.length_append, ha.length_wire, ← htotal, List.length_cons]
      omega

theorem serializeValues_cons {a : CMAttributeValuePayload} (ha : a.HasValues)
    (hfree : a.wire.length ≤ free.length) (hpt : pt = done.length)
    (as : List CMAttributeValuePayload) (n : Nat) :
    serializeValues (a :: as) (n + 1) (done ++ free) pt =
      serializeValues as n (done ++ a.wire ++ free.drop a.wire.length)
        (done ++ a.wire).length := by
  obtain ⟨bytes, hvalues, hlength⟩ := ha
  obtain ⟨head, hhead⟩ : ∃ head, CMAttributePayload.format.pack a.toCMAttributePayload = head :=
    ⟨_, rfl⟩
  have hone : head.length = sizeofAttributeValuePayload :=
    hhead ▸ CMAttributePayload.format.length_pack a.toCMAttributePayload
  have hwire : a.wire = head ++ bytes := hhead ▸ CMAttributeValuePayload.wire_of hvalues
  rw [hwire, List.length_append] at hfree
  have hread : readArray bytes (cmAttributeRealValueLength a.valueLength.toNat) = .ok bytes := by
    rw [cmAttributeRealValueLength_eq, ← hlength, readArray_length]
  have hfirst := memcpy_append hpt (show head.length ≤ free.length by omega)
  have hrest : bytes.length ≤ (free.drop head.length).length := by
    rw [List.length_drop]
    omega
  have hpos : pt + sizeofAttributeValuePayload = (done ++ head).length := by
    rw [List.length_append, hpt, hone]
  have hsecond := memcpy_append hpos hrest
  rw [serializeValues, hhead]
  simp only [hfirst, hvalues, Pointer.deref, hread, hsecond, bind, Except.bind]
  rw [hwire, List.length_append, List.drop_drop, List.append_assoc done, hpos,
    cmAttributeRealValueLength_eq, ← hlength, List.length_append, List.length_append,
    List.length_append, Nat.add_assoc]

theorem serializeValues_eq {as : List CMAttributeValuePayload} (h : ∀ a ∈ as, a.HasValues)
    (hfree : (as.flatMap CMAttributeValuePayload.wire).length ≤ free.length) :
    serializeValues as as.length (done ++ free) done.length =
      .ok (done ++ as.flatMap CMAttributeValuePayload.wire ++
        free.drop (as.flatMap CMAttributeValuePayload.wire).length) := by
  induction as generalizing done free with
  | nil => simp [serializeValues]
  | cons a as ih =>
    obtain ⟨ha, has⟩ := List.forall_mem_cons.mp h
    rw [List.flatMap_cons, List.length_append] at hfree
    have hrest : (as.flatMap CMAttributeValuePayload.wire).length ≤
        (free.drop a.wire.length).length := by
      rw [List.length_drop]
      omega
    rw [List.length_cons, serializeValues_cons ha (by omega) rfl, ih has hrest,
      List.flatMap_cons, List.length_append, List.drop_drop, List.append_assoc done]

theorem parseAttributeValues_succ (mem : Bytes) (pt n : Nat) :
    (parseAttributeValues mem pt (n + 1)).value =
      { headAt mem pt with
        values := .object (block mem (pt + 1) (2 ^ (headAt mem pt).valueLength.toNat)) } ::
      (parseAttributeValues mem (pt + (1 + 2 ^ (headAt mem pt).valueLength.toNat)) n).value := by
  rw [← cmAttributeRealValueLength_eq, ← Nat.add_assoc]
  rfl

theorem parseAttributeValues_value {as : List CMAttributeValuePayload}
    (h : ∀ a ∈ as, a.HasValues)
    (hwire : block mem pt (as.flatMap CMAttributeValuePayload.wire).length =
      as.flatMap CMAttributeValuePayload.wire) :
    (parseAttributeValues mem pt as.length).value = as := by
  induction as generalizing pt with
  | nil => rfl
  | cons a as ih =>
    obtain ⟨ha, has⟩ := List.forall_mem_cons.mp h
    have hlength := ha.length_wire
    obtain ⟨bytes, hvalues, hbytes⟩ := ha
    rw [List.flatMap_cons, List.length_append, block_add] at hwire
    obtain ⟨hfirst, hrest⟩ := List.append_inj hwire (length_block _ _ _)
    rw [hlength, block_add, CMAttributeValuePayload.wire_of hvalues] at hfirst
    obtain ⟨hhead, htail⟩ := List.append_inj hfirst
      ((length_block mem pt 1).trans (CMAttributePayload.format.length_pack _).symm)
    have hunpack : headAt mem pt = a.toCMAttributePayload := by
      rw [headAt, hhead, CMAttributePayload.format.unpack_pack]
    rw [List.length_cons, parseAttributeValues_succ, hunpack, htail, ← hvalues, ← hlength,
      ih has hrest]

theorem parseAttributeValues_wire (mem : Bytes) (pt n : Nat) :
    (∀ a ∈ (parseAttributeValues mem pt n).value, a.HasValues) ∧
      (parseAttributeValues mem pt n).value.length = n ∧
      (parseAttributeValues mem pt n).value.flatMap CMAttributeValuePayload.wire =
        block mem pt (claimedValues mem pt n) := by
  induction n generalizing pt with
  | zero => exact ⟨fun a ha => absurd ha List.not_mem_nil, rfl, rfl⟩
  | succ n ih =>
    obtain ⟨hgood, hlength, hwire⟩ :=
      ih (pt + (1 + 2 ^ (headAt mem pt).valueLength.toNat))
    rw [parseAttributeValues_succ]
    refine ⟨List.forall_mem_cons.mpr ⟨⟨_, rfl, length_block _ _ _⟩, hgood⟩,
      congrArg (· + 1) hlength, ?_⟩
    rw [List.flatMap_cons, hwire, CMAttributeValuePayload.wire_of rfl, claimedValues, block_add,
      block_add]
    refine congrArg (· ++ _) (congrArg (· ++ _) ?_)
    exact CMAttributePayload.format.pack_unpack _ (length_block _ _ _)

theorem within_parseAttributeValues (limit : Nat) (mem : Bytes) (pt n : Nat) :
    Reads.Within limit (parseAttributeValues mem pt n) ↔
      n = 0 ∨ pt + claimedValues mem pt n ≤ limit := by
  induction n generalizing pt with
  | zero => simp [parseAttributeValues]
  | succ n ih =>
    have hpos : 0 < 2 ^ (headAt mem pt).valueLength.toNat := Nat.two_pow_pos _
    rw [parseAttributeValues, sizeofAttributeValuePayload]
    simp only [Reads.within_bind, Reads.within_bytes, Reads.within_pure, Reads.value_bytes,
      size_attribute, cmAttributeRealValueLength_eq, claimedValues, ih, and_true]
    rw [← headAt, Nat.add_assoc pt 1]
    cases n with
    | zero =>
      rw [claimedValues]
      omega
    | succ n => omega

theorem cmAttributeValuesParse_of_pos (mem : Bytes) (msg attrCount : Nat) (h : 0 < size) :
    cmAttributeValuesParse mem msg size attrCount =
      Pointer.object <$> parseAttributeValues mem msg (attrCount + 1) :=
  if_pos h

theorem attributeValuesFormat_lawful :
    attributeValuesFormat.Lawful CMAttributeValuePayload.HasValues CMAttributeValuePayload.wire
      claimedValues where
  size as h := by
    obtain ⟨size, hsize, htotal⟩ := valueLengths_eq h
    show cmAttributeValuesSerializeSize _ _ = _
    unfold cmAttributeValuesSerializeSize
    rw [Pointer.deref, ← htotal]
    simp only [hsize, bind, Except.bind]
    exact congrArg (fun n => Except.ok (size + n)) (Nat.one_mul as.length)
  serialize as done free h hfree := by
    show cmAttributeValuesSerialize _ _ _ _ = _
    unfold cmAttributeValuesSerialize
    split
    · exact serializeValues_eq h hfree
    next hnone =>
      obtain rfl : as = [] := List.length_eq_zero_iff.mp (by omega)
      simp
  parse_wire as mem pt size n h hlength hsize hwire := by
    show (cmAttributeValuesParse mem pt size n).value = _
    rw [cmAttributeValuesParse_of_pos mem pt n hsize, ← hlength]
    exact congrArg Pointer.object (parseAttributeValues_value h hwire)
  parse_good mem pt size n hsize := by
    refine ⟨_, ?_, parseAttributeValues_wire mem pt (n + 1)⟩
    show (cmAttributeValuesParse mem pt size n).value = _
    rw [cmAttributeValuesParse_of_pos mem pt n hsize]
    rfl
  within mem pt size n limit hsize := by
    show Reads.Within limit (cmAttributeValuesParse mem pt size n) ↔ _
    rw [cmAttributeValuesParse_of_pos mem pt n hsize, Reads.within_map,
      within_parseAttributeValues]
    simp
  absent _ _ _ := rfl
  wire_pos a := by
    rw [CMAttributeValuePayload.wire, List.length_append, CMAttributePayload.format.length_pack,
      size_attribute]
    exact Nat.lt_add_right _ Nat.one_pos
  claimed_pos mem pt n := by
    rw [claimedValues, Nat.add_assoc]
    exact Nat.lt_add_right _ Nat.one_pos

end IoTware.Collabo
