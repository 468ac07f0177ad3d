import IoTware.Oal.NumberFields

/-!
# The values of number fields

A field keeps its value unless the precision cuts digits off, which only `u` lets
it do, or zeros follow the digits.
-/

namespace IoTware.Oal

open CText Loops CArray Digits
open Nat (toDigits digitChar)

def digitsValue (base : Nat) (t : Text) : Nat :=
  t.foldl (fun n c => n * base + ((hexDigit c).getD 0).toNat) 0

def fieldValue (base : Nat) (field : Text) : Int :=
  match field.filter (· ≠ ' ') with
  | '-' :: t => -digitsValue base t
  | t => digitsValue base t

/-- The sign and the digits, with blanks on one side or zeros between them. -/
inductive Padded (sign digits : Text) : Text → Prop
  | left (k : Nat) : Padded sign digits (List.replicate k ' ' ++ (sign ++ digits))
  | right (k : Nat) : Padded sign digits (sign ++ digits ++ List.replicate k ' ')
  | zeros (k : Nat) : Padded sign digits (sign ++ (List.replicate k '0' ++ digits))

/-- The field is the numeral of the argument, padded to the width. -/
structure KeepsValue (spec : NumberSpec) (arg : UInt32) (field : Text) : Prop where
  padded : Padded (spec.conv.sign arg) (spec.conv.digits arg) field
  wide : spec.fmin ≤ field.length
  value : fieldValue spec.conv.base field = spec.conv.value arg

/-- No digits are cut off, and no zeros are put behind them; a zero stays one, and
zeros that are cut off can be put back. -/
def NumberSpec.Faithful (spec : NumberSpec) (arg : UInt32) : Prop :=
  if spec.conv = .u ∧ spec.fmax ≠ 0 ∧ spec.fmax < (spec.conv.digits arg).length then
    spec.minus ∧ spec.zero ∧ spec.fmin = (spec.conv.digits arg).length ∧
      ∀ c ∈ (spec.conv.digits arg).drop spec.fmax, c = '0'
  else
    spec.minus ∧ spec.zero → (spec.conv.sign arg).length + (spec.conv.digits arg).length < spec.fmin →
      arg = 0

-- ---------------------------------------------------------------------------
-- The digits
-- ---------------------------------------------------------------------------

namespace NumberConv

variable (conv : NumberConv) (arg : UInt32)

theorem one_lt_base : 1 < conv.base := by cases conv <;> decide

theorem hexDigit_digitCase : ∀ n < conv.base,
    hexDigit (conv.digitCase (digitChar n)) = some (UInt32.ofNat n) := by
  cases conv <;> decide

theorem digit_ne : ∀ n < conv.base, conv.digitCase (digitChar n) ≠ ' ' ∧
    conv.digitCase (digitChar n) ≠ '-' ∧ (conv.digitCase (digitChar n) = '0' → n = 0) := by
  cases conv <;> decide

theorem blank_not_mem_sign : ' ' ∉ conv.sign arg := by
  unfold sign
  split <;> decide

theorem blank_not_mem_digits : ' ' ∉ conv.digits arg := by
  intro hmem
  obtain ⟨n, hn, heq⟩ := mem_numeral conv.one_lt_base hmem
  exact absurd heq.symm (conv.digit_ne n hn).1

theorem minus_not_mem_digits : '-' ∉ conv.digits arg := by
  intro hmem
  obtain ⟨n, hn, heq⟩ := mem_numeral conv.one_lt_base hmem
  exact absurd heq.symm (conv.digit_ne n hn).2.1

theorem magnitude_eq_zero (h : conv.magnitude arg = 0) : arg = 0 := by
  unfold magnitude at h
  split at h
  · rw [← UInt32.neg_neg (a := arg), h]
    rfl
  · exact h

theorem digits_head (h : arg ≠ 0) : ∃ c rest, conv.digits arg = c :: rest ∧ c ≠ '0' := by
  have hmag : (conv.magnitude arg).toNat ≠ 0 := by
    intro hzero
    exact h (conv.magnitude_eq_zero arg (UInt32.toNat_inj.mp hzero))
  obtain ⟨n, rest, hdigits, hpos, hn⟩ := toDigits_head conv.one_lt_base hmag
  refine ⟨conv.digitCase (digitChar n), rest.map conv.digitCase, ?_, fun heq => ?_⟩
  · rw [digits, numeral, hdigits, List.map_cons]
  · exact absurd ((conv.digit_ne n hn).2.2 heq) (Nat.ne_of_gt hpos)

theorem digits_zero : conv.digits 0 = ['0'] := by cases conv <;> decide

theorem digitsValue_digits : digitsValue conv.base (conv.digits arg) = (conv.magnitude arg).toNat := by
  have hbase : conv.base ≤ 16 := by cases conv <;> decide
  have hdigit : ∀ m n, n < conv.base →
      m * conv.base + ((hexDigit (conv.digitCase (digitChar n))).getD 0).toNat =
        m * conv.base + n := by
    intro m n hn
    rw [conv.hexDigit_digitCase n hn, Option.getD_some, UInt32.toNat_ofNat',
      Nat.mod_eq_of_lt (by omega)]
  unfold digitsValue digits numeral
  rw [List.foldl_map]
  exact foldl_toDigits id conv.one_lt_base hdigit _

theorem value_eq : conv.value arg =
    if conv.negative arg then -((conv.magnitude arg).toNat : Int)
    else (conv.magnitude arg).toNat := by
  have hint : arg.toInt32.toInt =
      if 2 * arg.toNat < 2 ^ 32 then (arg.toNat : Int) else (arg.toNat : Int) - 2 ^ 32 :=
    BitVec.toInt_eq_toNat_cond arg.toBitVec
  have hlt := arg.toNat_lt
  have hsize : UInt32.size = 2 ^ 32 := rfl
  unfold value magnitude
  by_cases hd : conv = .d
  · have hneg : conv.negative arg = decide (arg.toInt32 < 0) := by simp [negative, hd]
    have hcomp : arg.toInt32 < 0 ↔ arg.toInt32.toInt < 0 := Int32.lt_iff_toInt_lt
    rw [if_pos hd, hneg]
    by_cases hlow : 2 * arg.toNat < 2 ^ 32
    · rw [if_pos hlow] at hint
      have hnot : ¬ arg.toInt32 < 0 := by
        rw [hcomp]
        omega
      rw [decide_eq_false hnot, hint]
      rfl
    · rw [if_neg hlow] at hint
      have hyes : arg.toInt32 < 0 := by
        rw [hcomp]
        omega
      rw [decide_eq_true hyes, hint, if_pos rfl, if_pos rfl, UInt32.toNat_neg, hsize]
      omega
  · have hneg : conv.negative arg = false := by simp [negative, hd]
    rw [if_neg hd, hneg]
    rfl

end NumberConv

-- ---------------------------------------------------------------------------
-- Padding
-- ---------------------------------------------------------------------------

theorem filter_replicate_blank (k : Nat) : (List.replicate k ' ').filter (· ≠ ' ') = [] := by
  rw [List.filter_replicate]
  rfl

theorem take_append_eq_iff {s t : Text} : s.take n ++ t = s ↔ s.drop n = t := by
  constructor
  · intro h
    have hsplit : s.take n ++ s.drop n = s := List.take_append_drop n s
    exact List.append_cancel_left (hsplit.trans h.symm)
  · rintro rfl
    exact List.take_append_drop n s

theorem blank_not_mem_zeros (k : Nat) : ' ' ∉ List.replicate k '0' :=
  fun hmem => absurd (List.eq_of_mem_replicate hmem) (by decide)

theorem filter_no_blank {t : Text} (h : ' ' ∉ t) : t.filter (· ≠ ' ') = t := by
  rw [List.filter_eq_self]
  exact fun c hc => decide_eq_true fun heq => h (heq ▸ hc)

theorem Padded.filter_blank (h : Padded sign digits field) (hsign : ' ' ∉ sign)
    (hdigits : ' ' ∉ digits) :
    ∃ k, field.filter (· ≠ ' ') = sign ++ (List.replicate k '0' ++ digits) := by
  cases h with
  | left k =>
    refine ⟨0, ?_⟩
    rw [List.filter_append, filter_replicate_blank, List.filter_append, filter_no_blank hsign,
      filter_no_blank hdigits]
    rfl
  | right k =>
    refine ⟨0, ?_⟩
    rw [List.filter_append, filter_replicate_blank, List.filter_append, filter_no_blank hsign,
      filter_no_blank hdigits, List.append_nil]
    rfl
  | zeros k =>
    refine ⟨k, ?_⟩
    rw [List.filter_append, List.filter_append, filter_no_blank hsign, filter_no_blank hdigits,
      filter_no_blank (blank_not_mem_zeros k)]

theorem digitsValue_zeros (base k : Nat) (t : Text) :
    digitsValue base (List.replicate k '0' ++ t) = digitsValue base t := by
  have hzero : ((hexDigit '0').getD 0).toNat = 0 := rfl
  induction k with
  | zero => rfl
  | succ k ih =>
    unfold digitsValue at ih ⊢
    rw [List.replicate_succ, List.cons_append, List.foldl_cons, hzero, Nat.zero_mul]
    exact ih

theorem fieldValue_padded {conv : NumberConv} (h : Padded (conv.sign arg) (conv.digits arg) field) :
    fieldValue conv.base field = conv.value arg := by
  obtain ⟨k, hfilter⟩ := h.filter_blank (conv.blank_not_mem_sign arg) (conv.blank_not_mem_digits arg)
  have hvalue := digitsValue_zeros conv.base k (conv.digits arg)
  rw [conv.digitsValue_digits] at hvalue
  unfold fieldValue
  rw [hfilter, conv.value_eq]
  unfold NumberConv.sign
  cases conv.negative arg with
  | true => exact congrArg (fun n : Nat => -(n : Int)) hvalue
  | false =>
    rw [if_neg Bool.false_ne_true, if_neg Bool.false_ne_true, List.nil_append]
    split
    · rename_i t heq
      have hmem : '-' ∈ List.replicate k '0' ++ conv.digits arg := by simp [heq]
      rcases List.mem_append.mp hmem with hmem | hmem
      · exact absurd (List.eq_of_mem_replicate hmem) (by decide)
      · exact absurd hmem (conv.minus_not_mem_digits arg)
    · rw [hvalue]

theorem Padded.zeros_of_no_blank (h : Padded sign digits field) (hfield : ' ' ∉ field) :
    ∃ k, field = sign ++ (List.replicate k '0' ++ digits) := by
  cases h with
  | left k =>
    cases k with
    | zero => exact ⟨0, rfl⟩
    | succ k => exact absurd List.mem_cons_self hfield
  | right k =>
    cases k with
    | zero => exact ⟨0, by rw [List.replicate_zero, List.append_nil]; rfl⟩
    | succ k => exact absurd (List.mem_append_right _ List.mem_cons_self) hfield
  | zeros k => exact ⟨k, rfl⟩

theorem padded_self (sign digits : Text) : Padded sign digits (sign ++ digits) := .left 0

theorem eq_zero_of_head (hc : c ≠ '0') (h : List.replicate k '0' ++ t = c :: u) : k = 0 := by
  cases k with
  | zero => rfl
  | succ k => exact absurd (List.cons.inj h).1.symm hc

theorem padded_headed_iff (hblank : ' ' ∉ sign ++ body) (hbody : body = c :: rest) (hc : c ≠ '0') :
    Padded sign digits (sign ++ body) ↔ body = digits := by
  constructor
  · intro hpadded
    obtain ⟨k, hfield⟩ := hpadded.zeros_of_no_blank hblank
    have hsame := List.append_cancel_left hfield
    have hk : k = 0 := eq_zero_of_head hc (hsame.symm.trans hbody)
    rw [hsame, hk]
    rfl
  · rintro rfl
    exact padded_self sign body

theorem not_padded_zeros (hblank : ' ' ∉ kept) (hdigits : digits = c :: rest) (hc : c ≠ '0')
    (hlen : kept.length < digits.length) (j : Nat) :
    ¬ Padded [] digits (List.replicate j '0' ++ kept) := by
  intro hpadded
  have hnone : ' ' ∉ List.replicate j '0' ++ kept := by
    rw [List.mem_append, not_or]
    exact ⟨blank_not_mem_zeros j, hblank⟩
  obtain ⟨k, hfield⟩ := hpadded.zeros_of_no_blank hnone
  rw [List.nil_append] at hfield
  have hlength := congrArg List.length hfield
  rw [List.length_append, List.length_append, List.length_replicate, List.length_replicate] at hlength
  -- the zeros in front of the digits are the first of those in front of what was kept
  have hjk : j = k + (j - k) := by omega
  rw [hjk, ← List.replicate_append_replicate, List.append_assoc] at hfield
  have hhead := List.append_cancel_left hfield
  rw [hdigits] at hhead
  have hzeros := eq_zero_of_head hc hhead
  omega

theorem not_padded_blanks (hfield : field.filter (· ≠ ' ') = kept) (hsign : ' ' ∉ sign)
    (hdigits : ' ' ∉ digits) (hlen : kept.length < sign.length + digits.length) :
    ¬ Padded sign digits field := by
  intro hpadded
  obtain ⟨k, hk⟩ := hpadded.filter_blank hsign hdigits
  rw [hfield] at hk
  rw [hk, List.length_append, List.length_append] at hlen
  omega

-- ---------------------------------------------------------------------------
-- When the value is kept
-- ---------------------------------------------------------------------------

namespace NumberSpec

variable {spec : NumberSpec} {arg : UInt32}

theorem keepsValue_iff {field : Text} : KeepsValue spec arg field ↔
    Padded (spec.conv.sign arg) (spec.conv.digits arg) field ∧ spec.fmin ≤ field.length :=
  ⟨fun h => ⟨h.padded, h.wide⟩, fun h => ⟨h.1, h.2, fieldValue_padded h.1⟩⟩

theorem fmin_le_length (spec : NumberSpec) (arg : UInt32) : spec.fmin ≤ (spec.field arg).length := by
  unfold field padding
  split
  · simp only [List.length_append, List.length_replicate]
    omega
  · split <;> simp only [List.length_append, List.length_replicate] <;> omega

theorem arg_ne_zero_of_cut (hmax : spec.fmax ≠ 0) (hcut : spec.fmax < (spec.conv.digits arg).length) :
    arg ≠ 0 := by
  rintro rfl
  rw [spec.conv.digits_zero, List.length_singleton] at hcut
  omega

theorem sign_zero (conv : NumberConv) : conv.sign 0 = [] := by cases conv <;> decide

theorem padded_of_kept (hkept : spec.kept arg = spec.conv.digits arg) :
    Padded (spec.conv.sign arg) (spec.conv.digits arg) (spec.field arg) ↔
      (spec.minus ∧ spec.zero →
        (spec.conv.sign arg).length + (spec.conv.digits arg).length < spec.fmin → arg = 0) := by
  unfold field padding
  rw [hkept]
  cases hminus : spec.minus with
  | false =>
    refine iff_of_true ?_ fun h => absurd h.1 Bool.false_ne_true
    rw [if_neg Bool.false_ne_true]
    cases spec.zero with
    | true => exact .zeros _
    | false => exact .left _
  | true =>
    rw [if_pos rfl]
    cases hzero : spec.zero with
    | false => exact iff_of_true (.right _) fun h => absurd h.2 Bool.false_ne_true
    | true =>
      rw [if_pos rfl, forall_prop_of_true ⟨rfl, rfl⟩]
      generalize hk : spec.fmin - ((spec.conv.sign arg).length + (spec.conv.digits arg).length) = k
      cases k with
      | zero =>
        refine iff_of_true ?_ fun h => absurd h (by omega)
        rw [List.replicate_zero, List.append_nil]
        exact padded_self _ _
      | succ k =>
        rw [forall_prop_of_true (show _ < _ by omega)]
        constructor
        · intro hpadded
          by_contra harg
          obtain ⟨c, rest, hdigits, hc⟩ := spec.conv.digits_head arg harg
          have hblank : ' ' ∉ spec.conv.sign arg ++
              (spec.conv.digits arg ++ List.replicate (k + 1) '0') := by
            rw [List.mem_append, List.mem_append, not_or, not_or]
            exact ⟨spec.conv.blank_not_mem_sign arg, spec.conv.blank_not_mem_digits arg,
              blank_not_mem_zeros _⟩
          rw [List.append_assoc, padded_headed_iff hblank (congrArg (· ++ _) hdigits) hc,
            List.append_right_eq_self] at hpadded
          exact List.cons_ne_nil _ _ hpadded
        · rintro rfl
          rw [sign_zero, spec.conv.digits_zero]
          have hzeros : ['0'] ++ List.replicate (k + 1) '0' = List.replicate (k + 1) '0' ++ ['0'] :=
            List.replicate_succ'
          rw [List.nil_append, hzeros]
          exact .zeros (k + 1)

theorem padded_of_cut (hu : spec.conv = .u) (hmax : spec.fmax ≠ 0)
    (hcut : spec.fmax < (spec.conv.digits arg).length) :
    Padded (spec.conv.sign arg) (spec.conv.digits arg) (spec.field arg) ↔
      spec.minus ∧ spec.zero ∧ spec.fmin = (spec.conv.digits arg).length ∧
        ∀ c ∈ (spec.conv.digits arg).drop spec.fmax, c = '0' := by
  have hkept : spec.kept arg = (spec.conv.digits arg).take spec.fmax := if_pos ⟨hu, hmax⟩
  have hlen : (spec.kept arg).length = spec.fmax := by
    rw [hkept, List.length_take]
    omega
  have hsign : spec.conv.sign arg = [] := by
    unfold NumberConv.sign
    rw [spec.negative_of_u arg hu]
    rfl
  obtain ⟨c, rest, hdigits, hc⟩ := spec.conv.digits_head arg (arg_ne_zero_of_cut hmax hcut)
  have hblank : ' ' ∉ spec.kept arg := by
    rw [hkept]
    exact fun hmem => spec.conv.blank_not_mem_digits arg (List.mem_of_mem_take hmem)
  obtain ⟨first, hfirst⟩ : ∃ first, spec.kept arg = c :: first := by
    rw [hkept, hdigits]
    exact ⟨_, List.take_cons (Nat.pos_of_ne_zero hmax)⟩
  have hshort : (spec.kept arg).length < (spec.conv.digits arg).length := hlen ▸ hcut
  have hblanks (field : Text) (hfield : field.filter (· ≠ ' ') = spec.kept arg) :
      ¬ Padded [] (spec.conv.digits arg) field :=
    not_padded_blanks hfield List.not_mem_nil (spec.conv.blank_not_mem_digits arg)
      (by rwa [List.length_nil, Nat.zero_add])
  unfold field padding
  rw [hsign, List.nil_append, List.nil_append, List.length_nil, Nat.zero_add, hlen]
  cases hzero : spec.zero with
  | false =>
    refine iff_of_false ?_ fun h => absurd h.2.1 Bool.false_ne_true
    rw [if_neg Bool.false_ne_true, if_neg Bool.false_ne_true]
    split
    · refine hblanks _ ?_
      rw [List.filter_append, filter_no_blank hblank, filter_replicate_blank, List.append_nil]
    · refine hblanks _ ?_
      rw [List.filter_append, filter_no_blank hblank, filter_replicate_blank, List.nil_append]
  | true =>
    rw [if_pos rfl, if_pos rfl]
    generalize hj : spec.fmin - spec.fmax = j
    cases hminus : spec.minus with
    | false =>
      refine iff_of_false ?_ fun h => absurd h.1 Bool.false_ne_true
      rw [if_neg Bool.false_ne_true]
      exact not_padded_zeros hblank hdigits hc hshort j
    | true =>
      rw [if_pos rfl]
      have hnone : ' ' ∉ [] ++ (spec.kept arg ++ List.replicate j '0') := by
        rw [List.nil_append, List.mem_append, not_or]
        exact ⟨hblank, blank_not_mem_zeros j⟩
      have hheaded : Padded [] (spec.conv.digits arg) (spec.kept arg ++ List.replicate j '0') ↔
          spec.kept arg ++ List.replicate j '0' = spec.conv.digits arg :=
        padded_headed_iff hnone (congrArg (· ++ _) hfirst) hc
      rw [hheaded, hkept, take_append_eq_iff, List.eq_replicate_iff, List.length_drop]
      constructor
      · rintro ⟨hlength, hzeros⟩
        exact ⟨rfl, rfl, by omega, hzeros⟩
      · rintro ⟨-, -, hwidth, hzeros⟩
        exact ⟨by omega, hzeros⟩

theorem keepsValue_field_iff (spec : NumberSpec) (arg : UInt32) :
    KeepsValue spec arg (spec.field arg) ↔ spec.Faithful arg := by
  rw [keepsValue_iff, and_iff_left (spec.fmin_le_length arg)]
  unfold Faithful
  split
  · rename_i hcut
    exact padded_of_cut hcut.1 hcut.2.1 hcut.2.2
  · rename_i hnot
    refine padded_of_kept ?_
    unfold kept
    split
    · rename_i hmax
      refine List.take_of_length_le (Nat.le_of_not_lt fun hcut => ?_)
      exact hnot ⟨hmax.1, hmax.2, hcut⟩
    · rfl

end NumberSpec

/-- What is printed of a number in any format, and when it is the padded numeral of
the argument. -/
theorem dPrintf_keepsValue_iff (memory : UInt32 → List Char) (spec : NumberSpec) (arg : UInt32)
    (fmt : List Char) (args : List UInt32) :
    ∃ field, dPrintf memory (terminated spec.text) [arg] = .ok field ∧
      (dPrintf memory (spec.text ++ fmt) (arg :: args) = do
        return field ++ (← dPrintf memory fmt args)) ∧
      (KeepsValue spec arg field ↔ spec.Faithful arg) :=
  ⟨spec.field arg, dPrintf_number_alone memory spec arg, dPrintf_number memory spec arg fmt args,
    spec.keepsValue_field_iff arg⟩

def threeDigits : NumberSpec where
  minus := false
  zero := false
  width := []
  precision := some ['3']
  conv := .u
  width_digits := by decide
  width_head := by decide
  width_lt := by decide
  precision_digits := by decide
  precision_lt := by decide

/-- A number of five digits loses two of them. -/
theorem dPrintf_cuts_digits : ¬ ∀ (memory : UInt32 → List Char) (spec : NumberSpec) (arg : UInt32) field,
    dPrintf memory (terminated spec.text) [arg] = .ok field → KeepsValue spec arg field := by
  intro h
  have hfield : threeDigits.field 12345 = ['1', '2', '3'] := by decide
  have hprint := dPrintf_number_alone (fun _ => []) threeDigits 12345
  rw [hfield] at hprint
  exact absurd (h _ _ _ _ hprint).value (by decide)

end IoTware.Oal
