import Mathlib.Data.List.Basic

/-!
# Streams of encoded values

Values that are encoded one behind the other. No encoding begins another one if there is
a reader that finds the value whatever follows, and then a stream can be read in one way
only, also while it is still arriving.
-/

namespace Streams

variable {α β : Type} {good : α → Prop} {wire : α → List β}

/-- What begins with the encodings of two values begins with one value. -/
def PrefixFree (good : α → Prop) (wire : α → List β) : Prop :=
  ∀ a b rest rest', good a → good b → wire a ++ rest = wire b ++ rest' → a = b

theorem PrefixFree.of_read {read : List β → Option α}
    (hread : ∀ a rest, good a → read (wire a ++ rest) = some a) : PrefixFree good wire := by
  intro a b rest rest' ha hb heq
  have h := hread a rest ha
  rw [heq, hread b rest' hb] at h
  exact (Option.some.inj h).symm

theorem PrefixFree.flatMap_prefix_iff (h : PrefixFree good wire) (hne : ∀ a, good a → wire a ≠ [])
    {as bs : List α} (has : ∀ a ∈ as, good a) (hbs : ∀ b ∈ bs, good b) :
    as.flatMap wire <+: bs.flatMap wire ↔ as <+: bs := by
  constructor
  · intro hprefix
    induction as generalizing bs with
    | nil => exact List.nil_prefix
    | cons a as ih =>
      obtain ⟨rest, hrest⟩ := hprefix
      have ha := has a (by simp)
      cases bs with
      | nil =>
        have hnil : wire a = [] := by simp_all
        exact absurd hnil (hne a ha)
      | cons b bs =>
        simp only [List.flatMap_cons, List.append_assoc] at hrest
        obtain rfl := h a b _ _ ha (hbs b (by simp)) hrest
        have hrest := List.append_cancel_left hrest
        have htail := ih (fun x hx => has x (by simp [hx])) (fun x hx => hbs x (by simp [hx])) ⟨rest, hrest⟩
        simpa using htail
  · rintro ⟨cs, rfl⟩
    simp

end Streams
