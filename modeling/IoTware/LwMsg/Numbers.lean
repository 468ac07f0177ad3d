import Mathlib.Data.List.TakeDrop
import Mathlib.Data.Rat.Lemmas
import Mathlib.Tactic.Linarith
import Mathlib.Tactic.Ring
import IoTware.Lib.Numerals
import IoTware.LwMsg.Serialize

/-!
# Numbers on the wire

The texts of the number objects. An integer is cut where it is longer than the
limit of `snprintf`; a real number is printed as its integer part and its
hundredths, each with a sign of its own and without leading zeros.
-/

namespace IoTware.LwMsg

open CText
open Numerals

-- ---------------------------------------------------------------------------
-- Integers
-- ---------------------------------------------------------------------------

theorem snprintf_eq_self_iff {t : Text} {k : Nat} : snprintf (k + 1) t = t ↔ t.length ≤ k := by
  unfold snprintf
  rw [Nat.add_sub_cancel, List.take_eq_self_iff]

theorem snprintf_decimal_iff {z : Int} {k : Nat} (hk : 0 < k) :
    snprintf (k + 2) (decimal z) = decimal z ↔ -10 ^ k < z ∧ z < 10 ^ (k + 1) :=
  snprintf_eq_self_iff.trans (length_toString_le_iff hk)

theorem snprintf_neg_ne {z : Int} (h : z < 0) (n k : Nat) :
    snprintf (k + 2) (decimal z) ≠ decimal n := by
  unfold snprintf decimal
  rw [toList_toString_neg h, toList_toString_ofNat]
  intro heq
  cases hdigits : Nat.toDigits 10 n with
  | nil => exact absurd hdigits Nat.toDigits_ne_nil
  | cons c digits =>
    rw [hdigits, Nat.add_sub_assoc (by decide), List.take_succ_cons] at heq
    have hc : isDigit c = true := isDigit_toDigits (n := n) (by rw [hdigits]; exact List.mem_cons_self)
    exact (ne_of_isDigit hc).1 (List.cons.inj heq).1.symm

-- ---------------------------------------------------------------------------
-- Reals
-- ---------------------------------------------------------------------------

theorem tdiv_num_den (n : Int) {d : Int} (hd : 0 < d) :
    ((n : Rat) / d).num.tdiv ((n : Rat) / d).den = n.tdiv d := by
  obtain ⟨c, hnum, hden⟩ := Rat.exists_eq_mul_div_num_and_eq_mul_div_den n hd.ne'
  have hc : 0 < c := by
    have hpos : (0 : Int) < ((n : Rat) / d).den := Int.natCast_pos.mpr (Rat.den_pos _)
    exact pos_of_mul_pos_left (hden ▸ hd) hpos.le
  generalize ((n : Rat) / d) = q at hnum hden ⊢
  rw [hnum, hden, Int.mul_tdiv_mul_of_pos _ _ hc]

theorem fixedPoint_hundredths (n : Int) :
    fixedPoint (n / 100) = decimal (n.tdiv 100) ++ '.' :: decimal (n.tmod 100) := by
  have hwhole : ((n : Rat) / 100).num.tdiv ((n : Rat) / 100).den = n.tdiv 100 := by
    exact_mod_cast tdiv_num_den n (by decide : (0 : Int) < 100)
  have hall : ((n : Rat) / 100 * 100).num.tdiv ((n : Rat) / 100 * 100).den = n := by
    rw [div_mul_cancel₀ _ (by norm_num)]
    simp
  unfold fixedPoint
  dsimp only
  rw [hwhole, hall]

theorem fixedPoint_ofNat (m : Nat) :
    fixedPoint (((m : Int) : Rat) / 100) =
      decimal (m / 100 : Nat) ++ '.' :: decimal (m % 100 : Nat) := by
  rw [fixedPoint_hundredths]
  rfl

theorem fixedPoint_neg (m : Nat) :
    fixedPoint (((-m : Int) : Rat) / 100) =
      decimal (-(m / 100 : Nat)) ++ '.' :: decimal (-(m % 100 : Nat)) := by
  rw [fixedPoint_hundredths, Int.neg_tdiv, Int.neg_tmod]
  rfl

theorem fixedValue_pos (whole : Nat) (fraction : Text) :
    fixedValue (decimal whole ++ '.' :: fraction) =
      (natValue fraction).map fun f => (whole : Rat) + f / 10 ^ fraction.length := by
  unfold fixedValue decimal
  rw [toList_toString_ofNat, signed_toDigits,
    pointValue_append fun c hc => isDigit_toDigits hc, natValue_toDigits]
  cases natValue fraction <;> rfl

theorem fixedValue_neg {whole : Nat} (h : 0 < whole) (fraction : Text) :
    fixedValue (decimal (-whole) ++ '.' :: fraction) =
      (natValue fraction).map fun f => -((whole : Rat) + f / 10 ^ fraction.length) := by
  have hsign : decimal (-whole) = '-' :: Nat.toDigits 10 whole := by
    unfold decimal
    rw [toList_toString_neg (by omega), Int.natAbs_neg, Int.natAbs_natCast]
  have hread : fixedValue ('-' :: (Nat.toDigits 10 whole ++ '.' :: fraction)) =
      (pointValue (Nat.toDigits 10 whole ++ '.' :: fraction)).map Neg.neg := rfl
  rw [hsign, List.cons_append, hread, pointValue_append fun c hc => isDigit_toDigits hc,
    natValue_toDigits]
  cases natValue fraction <;> rfl

/-- The object is printed, and its text reads as the number `x`. -/
def ReadsAs (num : LWMNumber) (x : Rat) : Prop :=
  ∃ text, serializeLwmObject (.number num) = some text ∧ fixedValue text = some x

theorem length_fixedPoint {n : Int} (h : n.natAbs < 2000000000) :
    (fixedPoint (n / 100)).length ≤ 19 := by
  have hsign : Int.sign 100 = 1 := rfl
  have hwhole : -10 ^ 8 < n.tdiv 100 ∧ n.tdiv 100 < 10 ^ (8 + 1) := by
    rw [Int.tdiv_eq_ediv]
    split <;> omega
  have hfraction : -10 ^ 2 < n.tmod 100 ∧ n.tmod 100 < 10 ^ (2 + 1) := by
    rw [Int.tmod_eq_emod]
    split <;> omega
  have hwhole := (length_toString_le_iff (by decide)).mpr hwhole
  have hfraction := (length_toString_le_iff (by decide)).mpr hfraction
  rw [fixedPoint_hundredths, List.length_append, List.length_cons]
  unfold decimal
  omega

theorem serialize_fixedPoint {n : Int} (h : n.natAbs < 2000000000)
    (hnum : num = .float (n / 100) ∨ num = .double (n / 100)) :
    serializeLwmObject (.number num) = some (fixedPoint (n / 100)) := by
  have hfull : snprintf 20 (fixedPoint (n / 100)) = fixedPoint (n / 100) :=
    snprintf_eq_self_iff.mpr (length_fixedPoint h)
  rcases hnum with rfl | rfl
  · rw [serializeLwmObject, serializeLwmNumber, hfull]
  · rw [serializeLwmObject, serializeLwmNumber, hfull]

theorem length_toDigits_hundredths {r : Nat} (h : r < 100) :
    (Nat.toDigits 10 r).length = if r < 10 then 1 else 2 := by
  split
  · rename_i hr
    rw [Nat.toDigits_of_lt_base hr]
    rfl
  · have hle := (Nat.length_toDigits_le_iff (b := 10) (n := r) (by decide) Nat.two_pos).mpr h
    have hgt := (Nat.length_toDigits_le_iff (b := 10) (n := r) (by decide) Nat.one_pos).not.mpr (by omega)
    omega

theorem fixedValue_ofNat (m : Nat) :
    fixedValue (fixedPoint (((m : Int) : Rat) / 100)) =
      some (((m / 100 : Nat) : Rat) + (m % 100 : Nat) / (if m % 100 < 10 then 10 else 100)) := by
  have hlength := length_toDigits_hundredths (Nat.mod_lt m (by decide : 100 > 0))
  rw [fixedPoint_ofNat, fixedValue_pos]
  unfold decimal
  rw [toList_toString_ofNat, natValue_toDigits, hlength]
  split <;> norm_num

theorem fixedValue_ofNeg (m : Nat) :
    fixedValue (fixedPoint (((-m : Int) : Rat) / 100)) =
      if m % 100 = 0 then some (-((m / 100 : Nat) : Rat)) else none := by
  rw [fixedPoint_neg]
  split
  · rename_i hr
    have hzero : decimal (-(m % 100 : Nat)) = ['0'] := by
      rw [hr]
      rfl
    have hnat : natValue ['0'] = some 0 := natValue_toDigits 0
    rcases Nat.eq_zero_or_pos (m / 100) with hq | hq
    · have hread := fixedValue_pos 0 (decimal (-(m % 100 : Nat)))
      rw [hq, show (-(0 : Nat) : Int) = (0 : Nat) from rfl, hread, hzero, hnat]
      norm_num
    · rw [fixedValue_neg hq, hzero, hnat]
      norm_num
  · rename_i hr
    -- the hundredths have a sign of their own
    have hnone : natValue (decimal (-(m % 100 : Nat))) = none := by
      unfold decimal
      rw [toList_toString_neg (by omega), natValue_sign]
    rcases Nat.eq_zero_or_pos (m / 100) with hq | hq
    · have hread := fixedValue_pos 0 (decimal (-(m % 100 : Nat)))
      rw [hq, show (-(0 : Nat) : Int) = (0 : Nat) from rfl, hread, hnone]
      rfl
    · rw [fixedValue_neg hq, hnone]
      rfl

/-- A real number with two decimals is printed right exactly if it is whole, or
positive with a first decimal that is not 0. -/
theorem fixed_point_reads_iff {n : Int} (h : n.natAbs < 2000000000)
    (hnum : num = .float (n / 100) ∨ num = .double (n / 100)) :
    ReadsAs num (n / 100) ↔ 100 ∣ n ∨ 0 ≤ n ∧ 10 ≤ n % 100 := by
  have hread : ReadsAs num (n / 100) ↔ fixedValue (fixedPoint (n / 100)) = some (n / 100 : Rat) := by
    unfold ReadsAs
    rw [serialize_fixedPoint h hnum]
    simp
  rw [hread]
  obtain ⟨m, rfl | rfl⟩ := n.eq_nat_or_neg
  · have hm : (m : Rat) = 100 * (m / 100 : Nat) + (m % 100 : Nat) := by
      exact_mod_cast (Nat.div_add_mod m 100).symm
    rw [fixedValue_ofNat, Option.some.injEq, Int.cast_natCast, hm]
    have hcond : (100 ∣ (m : Int) ∨ 0 ≤ (m : Int) ∧ 10 ≤ (m : Int) % 100) ↔
        (m % 100 : Nat) = 0 ∨ ¬m % 100 < 10 := by
      omega
    rw [hcond]
    split
    · rename_i hr
      have hzero : (m % 100 : Nat) = 0 ↔ ((m % 100 : Nat) : Rat) = 0 := Nat.cast_eq_zero.symm
      rw [hzero]
      constructor
      · intro heq
        left
        linarith
      · rintro (hr0 | hge)
        · linarith
        · exact absurd hr hge
    · rename_i hr
      refine iff_of_true ?_ (.inr hr)
      ring
  · have hcond : (100 ∣ (-m : Int) ∨ 0 ≤ (-m : Int) ∧ 10 ≤ (-m : Int) % 100) ↔ m % 100 = 0 := by
      omega
    rw [fixedValue_ofNeg, hcond]
    split
    · rename_i hr
      refine iff_of_true ?_ hr
      have hm : (m : Rat) = 100 * (m / 100 : Nat) := by
        exact_mod_cast (Nat.mul_div_cancel' (Nat.dvd_of_mod_eq_zero hr)).symm
      rw [Option.some.injEq, Int.cast_neg, Int.cast_natCast, hm]
      ring
    · rename_i hr
      exact iff_of_false (Option.some_ne_none _).symm hr

/-- 26.05 is printed as `26.5`. -/
theorem fixed_point_misread :
    ¬∀ (n : Int) num, n.natAbs < 2000000000 → num = .float (n / 100) ∨ num = .double (n / 100) →
      ReadsAs num (n / 100) := by
  intro h
  have hnum : LWMNumber.float ((2605 : Int) / 100) = .float ((2605 : Int) / 100) ∨
      LWMNumber.float ((2605 : Int) / 100) = .double ((2605 : Int) / 100) := .inl rfl
  obtain ⟨text, htext, hvalue⟩ := h 2605 _ (by decide) hnum
  rw [serialize_fixedPoint (by decide) hnum] at htext
  have htrue := fixedValue_ofNat 2605
  rw [show (((2605 : Nat) : Int) : Rat) = ((2605 : Int) : Rat) from rfl] at htrue
  rw [← Option.some.inj htext, htrue] at hvalue
  norm_num at hvalue

theorem fixed_point_reads_quarter : ReadsAs (.float ((2625 : Int) / 100)) ((2625 : Int) / 100) :=
  (fixed_point_reads_iff (by decide) (.inl rfl)).mpr (.inr ⟨by decide, by decide⟩)

end IoTware.LwMsg
