import Mathlib.Data.List.Basic

/-!
# Numerals in a base

The numeral of a number in a base, the most significant digit first: which
characters it has, and what a fold over it from the left computes.
-/

namespace Digits

open Nat (toDigits digitChar)

theorem toDigits_induction {motive : Nat → List Char → Prop} (hb : 1 < b)
    (digit : ∀ d, d < b → motive d [digitChar d])
    (step : ∀ n t d, 0 < n → d < b → motive n t → motive (n * b + d) (t ++ [digitChar d])) (n : Nat) :
    motive n (toDigits b n) := by
  induction n using Nat.strongRecOn with
  | _ n ih =>
    rcases Nat.lt_or_ge n b with hlt | hle
    · rw [Nat.toDigits_of_lt_base hlt]
      exact digit n hlt
    · have hpos : 0 < n / b := Nat.div_pos hle (Nat.zero_lt_of_lt hb)
      have hless : n / b < n := Nat.div_lt_self (Nat.lt_of_lt_of_le (Nat.zero_lt_of_lt hb) hle) hb
      have hmod : n % b < b := Nat.mod_lt n (Nat.zero_lt_of_lt hb)
      have hnext := step (n / b) (toDigits b (n / b)) (n % b) hpos hmod (ih (n / b) hless)
      rw [Nat.div_add_mod'] at hnext
      rw [Nat.toDigits_of_base_le hb hle]
      exact hnext

theorem mem_toDigits (hb : 1 < b) (h : c ∈ toDigits b n) : ∃ d, d < b ∧ c = digitChar d := by
  have hall : ∀ c ∈ toDigits b n, ∃ d, d < b ∧ c = digitChar d := by
    refine toDigits_induction (motive := fun _ t => ∀ c ∈ t, ∃ d, d < b ∧ c = digitChar d) hb ?_ ?_ n
    · intro d hd c hc
      exact ⟨d, hd, List.mem_singleton.mp hc⟩
    · intro n t d _ hd ih c hc
      rcases List.mem_append.mp hc with hc | hc
      · exact ih c hc
      · exact ⟨d, hd, List.mem_singleton.mp hc⟩
  exact hall c h

theorem toDigits_head (hb : 1 < b) (hn : n ≠ 0) :
    ∃ d rest, toDigits b n = digitChar d :: rest ∧ 0 < d ∧ d < b := by
  have hhead : n ≠ 0 → ∃ d rest, toDigits b n = digitChar d :: rest ∧ 0 < d ∧ d < b := by
    refine toDigits_induction
      (motive := fun n t => n ≠ 0 → ∃ d rest, t = digitChar d :: rest ∧ 0 < d ∧ d < b) hb ?_ ?_ n
    · intro d hd hne
      exact ⟨d, [], rfl, Nat.pos_of_ne_zero hne, hd⟩
    · intro n t d hn _ ih _
      obtain ⟨e, rest, rfl, he⟩ := ih (Nat.ne_of_gt hn)
      exact ⟨e, rest ++ [digitChar d], rfl, he⟩
  exact hhead hn

/-- A fold that appends a digit to the number read so far reads the number, in
whatever `cast` takes numbers to. -/
theorem foldl_toDigits {α : Type} {f : α → Char → α} (cast : Nat → α) (hb : 1 < b)
    (hf : ∀ m d, d < b → f (cast m) (digitChar d) = cast (m * b + d)) (n : Nat) :
    (toDigits b n).foldl f (cast 0) = cast n := by
  refine toDigits_induction (motive := fun n t => t.foldl f (cast 0) = cast n) hb ?_ ?_ n
  · intro d hd
    rw [List.foldl_cons, List.foldl_nil, hf 0 d hd, Nat.zero_mul, Nat.zero_add]
  · intro n t d _ hd ih
    rw [List.foldl_append, ih, List.foldl_cons, List.foldl_nil, hf n d hd]

end Digits
