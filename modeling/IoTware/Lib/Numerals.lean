import Mathlib.Algebra.Order.Ring.Rat
import Mathlib.Tactic.Zify
import IoTware.Lib.CText

/-!
# Decimal numerals

What a decimal numeral denotes, and the numeral that `%d` prints. A numeral has
an optional sign and at least one digit; one with a point has digits on both
sides of it.
-/

namespace Numerals

open CText

def natValue (t : Text) : Option Nat :=
  if t ≠ [] ∧ ∀ c ∈ t, isDigit c = true then some (Nat.ofDigitChars 10 t 0) else none

def signed {α : Type} [Neg α] (value : Text → Option α) : Text → Option α
  | '-' :: t => (value t).map Neg.neg
  | '+' :: t => value t
  | t => value t

def intValue : Text → Option Int := signed fun t => (natValue t).map Nat.cast

def pointValue (t : Text) : Option Rat :=
  match t.dropWhile (· ≠ '.') with
  | _ :: fraction => do
    return (← natValue (t.takeWhile (· ≠ '.'))) + (← natValue fraction) / 10 ^ fraction.length
  | [] => none

def fixedValue : Text → Option Rat := signed pointValue

-- ---------------------------------------------------------------------------
-- The numeral of a number
-- ---------------------------------------------------------------------------

theorem isDigit_toDigits (h : c ∈ Nat.toDigits 10 n) : isDigit c = true := by
  have hdigit : c.isDigit = true := Nat.isDigit_of_mem_toDigits (by decide) (by decide) h
  rw [Char.isDigit, Bool.and_eq_true, decide_eq_true_eq, decide_eq_true_eq] at hdigit
  rw [isDigit, Bool.and_eq_true, decide_eq_true_eq, decide_eq_true_eq]
  exact hdigit

theorem natValue_toDigits (n : Nat) : natValue (Nat.toDigits 10 n) = some n := by
  unfold natValue
  rw [if_pos ⟨Nat.toDigits_ne_nil, fun c hc => isDigit_toDigits hc⟩, Nat.ofDigitChars_ten_toDigits]

theorem toList_toString_ofNat (n : Nat) : (toString (n : Int)).toList = Nat.toDigits 10 n := by
  rw [Int.toString_eq_repr, Int.repr_eq_if, if_pos (Int.natCast_nonneg n)]
  simp

theorem toList_toString_neg {z : Int} (h : z < 0) :
    (toString z).toList = '-' :: Nat.toDigits 10 z.natAbs := by
  rw [Int.toString_eq_repr, Int.repr_eq_if, if_neg (by omega)]
  simp [show (-z).toNat = z.natAbs by omega]

theorem length_toString_le_iff {z : Int} {k : Nat} (hk : 0 < k) :
    (toString z).toList.length ≤ k + 1 ↔ -10 ^ k < z ∧ z < 10 ^ (k + 1) := by
  rcases Int.lt_or_le z 0 with hz | hz
  · have hpow : (0 : Int) < 10 ^ (k + 1) := Int.pow_pos (by decide)
    obtain ⟨n, rfl⟩ : ∃ n : Nat, z = -n := ⟨z.natAbs, by omega⟩
    rw [toList_toString_neg hz, List.length_cons, Nat.add_le_add_iff_right,
      Nat.length_toDigits_le_iff (by decide) hk, Int.natAbs_neg, Int.natAbs_natCast]
    zify
    omega
  · obtain ⟨n, rfl⟩ := Int.eq_ofNat_of_zero_le hz
    have hpow : (0 : Int) < 10 ^ k := Int.pow_pos (by decide)
    rw [toList_toString_ofNat, Nat.length_toDigits_le_iff (by decide) (Nat.succ_pos k)]
    zify
    omega

-- ---------------------------------------------------------------------------
-- Reading
-- ---------------------------------------------------------------------------

theorem ne_of_isDigit (h : isDigit c = true) : c ≠ '-' ∧ c ≠ '+' ∧ c ≠ '.' := by
  refine ⟨?_, ?_, ?_⟩ <;> rintro rfl <;> exact absurd h (by decide)

theorem signed_digit {α : Type} [Neg α] {value : Text → Option α} (h : isDigit c = true) :
    signed value (c :: t) = value (c :: t) := by
  obtain ⟨hminus, hplus, -⟩ := ne_of_isDigit h
  unfold signed
  split
  · rename_i heq
    exact absurd (List.cons.inj heq).1 hminus
  · rename_i heq
    exact absurd (List.cons.inj heq).1 hplus
  · rfl

theorem signed_toDigits {α : Type} [Neg α] {value : Text → Option α} (n : Nat) (t : Text) :
    signed value (Nat.toDigits 10 n ++ t) = value (Nat.toDigits 10 n ++ t) := by
  cases h : Nat.toDigits 10 n with
  | nil => exact absurd h Nat.toDigits_ne_nil
  | cons c digits => exact signed_digit (isDigit_toDigits (n := n) (by rw [h]; exact List.mem_cons_self))

theorem natValue_sign (t : Text) : natValue ('-' :: t) = none :=
  if_neg fun h => absurd (h.2 '-' List.mem_cons_self) (by decide)

theorem pointValue_append {whole : Text} (h : ∀ c ∈ whole, isDigit c = true) (fraction : Text) :
    pointValue (whole ++ '.' :: fraction) = (do
      return ((← natValue whole) : Rat) + (← natValue fraction) / 10 ^ fraction.length) := by
  have hne : ∀ c ∈ whole, decide (c ≠ '.') = true := fun c hc =>
    decide_eq_true (ne_of_isDigit (h c hc)).2.2
  unfold pointValue
  rw [List.dropWhile_append_of_pos hne, List.takeWhile_append_of_pos hne]
  simp

end Numerals
