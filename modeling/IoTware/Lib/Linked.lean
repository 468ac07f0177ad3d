import Mathlib.Data.List.Nodup

/-!
# Doubly linked chains

Nodes that point to their successor and to their predecessor, and what a change
of the pointers makes of the chain they form. A pointer that leads nowhere is
`none`.
-/

namespace Linked

variable {α : Type} {next previous next' previous' : α → Option α} {before head : Option α}
  {a : α} {as : List α}

/-- Walking from `head` along `next` comes through the nodes `as` and ends. -/
def Visits (next : α → Option α) : Option α → List α → Prop
  | head, [] => head = none
  | head, a :: as => head = some a ∧ Visits next (next a) as

/-- Each node on the way also points back, the first one to `before`. -/
def Chain (next previous : α → Option α) : Option α → Option α → List α → Prop
  | _, head, [] => head = none
  | before, head, a :: as =>
    head = some a ∧ previous a = before ∧ Chain next previous (some a) (next a) as

theorem Chain.visits (h : Chain next previous before head as) : Visits next head as := by
  induction as generalizing before head with
  | nil => exact h
  | cons a as ih => exact ⟨h.1, ih h.2.2⟩

theorem Chain.head_eq_none_iff (h : Chain next previous before head as) : head = none ↔ as = [] := by
  cases as with
  | nil => exact iff_of_true h rfl
  | cons a as => exact iff_of_false (h.1 ▸ Option.some_ne_none a) (List.cons_ne_nil a as)

theorem Chain.head_mem (h : Chain next previous before (some a) as) : a ∈ as := by
  cases as with
  | nil => cases h
  | cons b as =>
    cases h.1
    exact List.mem_cons_self

theorem Chain.previous_head (h : Chain next previous before (some a) as) : previous a = before := by
  cases as with
  | nil => cases h
  | cons b as =>
    cases h.1
    exact h.2.1

theorem Chain.next_mem (h : Chain next previous before head as) (ha : a ∈ as)
    (hnext : next a = some b) : b ∈ as.tail := by
  induction as generalizing before head with
  | nil => cases ha
  | cons c as ih =>
    rcases List.mem_cons.mp ha with rfl | ha
    · exact (hnext ▸ h.2.2).head_mem
    · exact List.mem_of_mem_tail (ih h.2.2 ha)

theorem Chain.previous_mem (h : Chain next previous before head (a :: as)) (hb : b ∈ as) :
    ∃ c ∈ a :: as, previous b = some c ∧ next c = some b := by
  induction as generalizing a before head with
  | nil => cases hb
  | cons d as ih =>
    obtain ⟨-, -, hnext, hback, hrest⟩ := h
    rcases List.mem_cons.mp hb with rfl | hb
    · exact ⟨a, List.mem_cons_self, hback, hnext⟩
    · obtain ⟨c, hc, hlinks⟩ := ih ⟨hnext, hback, hrest⟩ hb
      exact ⟨c, List.mem_cons_of_mem a hc, hlinks⟩

theorem Chain.previous_of_next (h : Chain next previous before head as) (ha : a ∈ as)
    (hnext : next a = some b) : previous b = some a := by
  induction as generalizing before head with
  | nil => cases ha
  | cons c as ih =>
    rcases List.mem_cons.mp ha with rfl | ha
    · have hrest := h.2.2
      rw [hnext] at hrest
      cases as with
      | nil => cases hrest
      | cons d as =>
        cases hrest.1
        exact hrest.2.1
    · exact ih h.2.2 ha

theorem Chain.inverse (h : Chain next previous before head as) (hbefore : ∀ a ∈ before, a ∉ as)
    (ha : a ∈ as) (hb : b ∈ as) : next a = some b ↔ previous b = some a := by
  refine ⟨h.previous_of_next ha, fun hback => ?_⟩
  cases as with
  | nil => cases ha
  | cons c as =>
    rcases List.mem_cons.mp hb with rfl | hb
    · exact absurd ha (hbefore a (h.2.1.symm.trans hback))
    · obtain ⟨d, -, hd, hnext⟩ := h.previous_mem hb
      rw [Option.some.inj (hback.symm.trans hd)]
      exact hnext

theorem Chain.next_eq_none_iff (h : Chain next previous before head as) (hnodup : as.Nodup)
    (ha : a ∈ as) : next a = none ↔ as.getLast? = some a := by
  induction as generalizing before head with
  | nil => cases ha
  | cons b as ih =>
    obtain ⟨hb, hnodup⟩ := List.nodup_cons.mp hnodup
    rcases List.mem_cons.mp ha with rfl | ha
    · rw [h.2.2.head_eq_none_iff]
      cases as with
      | nil => simp
      | cons c as =>
        refine iff_of_false (List.cons_ne_nil c as) fun hlast => hb ?_
        rw [List.getLast?_cons_cons] at hlast
        exact List.mem_of_getLast? hlast
    · obtain ⟨c, as, rfl⟩ := List.exists_cons_of_ne_nil (List.ne_nil_of_mem ha)
      rw [List.getLast?_cons_cons]
      exact ih h.2.2 hnodup ha

-- ---------------------------------------------------------------------------
-- Changing pointers
-- ---------------------------------------------------------------------------

/-- The chain stays when the pointers of its nodes do, but for where its first
node points back. -/
theorem Chain.rehead (h : Chain next previous before head as) (hnodup : as.Nodup)
    (hnext : ∀ b ∈ as, next' b = next b)
    (hfirst : ∀ b ∈ as, head = some b → previous' b = before')
    (hprevious : ∀ b ∈ as, head ≠ some b → previous' b = previous b) :
    Chain next' previous' before' head as := by
  induction as generalizing before before' head with
  | nil => exact h
  | cons a as ih =>
    obtain ⟨rfl, hback, hrest⟩ := h
    obtain ⟨ha, hnodup⟩ := List.nodup_cons.mp hnodup
    refine ⟨rfl, hfirst a List.mem_cons_self rfl, ?_⟩
    have hne : ∀ b ∈ as, some a ≠ some b := fun b hb h => ha (Option.some.inj h ▸ hb)
    have hsame : ∀ b ∈ as, previous' b = previous b := fun b hb =>
      hprevious b (List.mem_cons_of_mem a hb) (hne b hb)
    rw [hnext a List.mem_cons_self]
    refine ih hrest hnodup (fun b hb => hnext b (List.mem_cons_of_mem a hb)) ?_
      fun b hb _ => hsame b hb
    intro b hb hhead
    cases as with
    | nil => cases hb
    | cons c as =>
      rw [hsame b hb]
      cases hhead.symm.trans hrest.1
      exact hrest.2.1

variable [DecidableEq α]

theorem Chain.push (h : Chain next previous none head as) (hnodup : as.Nodup) (ha : a ∉ as)
    (hnext : ∀ b, next' b = if b = a then head else next b)
    (hprevious : ∀ b, previous' b =
      if head = some b then some a else if b = a then none else previous b) :
    Chain next' previous' none (some a) (a :: as) := by
  have hne : ∀ b ∈ as, b ≠ a := fun b hb heq => ha (heq ▸ hb)
  have hhead : head ≠ some a := fun hhead => ha (hhead ▸ h).head_mem
  refine ⟨rfl, ?_, ?_⟩
  · rw [hprevious, if_neg hhead, if_pos rfl]
  · rw [hnext, if_pos rfl]
    refine h.rehead hnodup ?_ ?_ ?_
    · intro b hb
      rw [hnext, if_neg (hne b hb)]
    · intro b _ hfirst
      rw [hprevious, if_pos hfirst]
    · intro b hb hfirst
      rw [hprevious, if_neg hfirst, if_neg (hne b hb)]

theorem Chain.remove (h : Chain next previous before head as) (hnodup : as.Nodup)
    (hbefore : ∀ b ∈ before, b ∉ as) (ha : a ∈ as)
    (hnext : ∀ b, next' b = if previous a = some b then next a else next b)
    (hprevious : ∀ b, previous' b = if next a = some b then previous a else previous b) :
    Chain next' previous' before (if head = some a then next a else head) (as.erase a) := by
  induction as generalizing before head with
  | nil => cases ha
  | cons c as ih =>
    have hinverse : a ∈ as → (next c = some a ↔ previous a = some c) := fun ha =>
      h.inverse hbefore List.mem_cons_self (List.mem_cons_of_mem c ha)
    obtain ⟨rfl, rfl, hrest⟩ := h
    obtain ⟨hc, htail⟩ := List.nodup_cons.mp hnodup
    rcases List.mem_cons.mp ha with rfl | ha
    · -- the first node goes, and the next one points back to where it did
      rw [if_pos rfl, List.erase_cons_head]
      refine hrest.rehead htail ?_ ?_ ?_
      · intro b hb
        have hback : previous a ≠ some b := fun hback => hbefore b hback (List.mem_cons_of_mem a hb)
        rw [hnext, if_neg hback]
      · intro b _ hfirst
        rw [hprevious, if_pos hfirst]
      · intro b _ hfirst
        rw [hprevious, if_neg hfirst]
    · have hne : c ≠ a := fun heq => hc (heq ▸ ha)
      have hin := ih hrest htail (fun b hb => Option.some.inj hb ▸ hc) ha
      rw [if_neg fun heq => hne (Option.some.inj heq), List.erase_cons_tail (by simpa using hne)]
      refine ⟨rfl, ?_, ?_⟩
      · have hfar : next a ≠ some c := fun hnext => hc (List.mem_of_mem_tail (hrest.next_mem ha hnext))
        rw [hprevious, if_neg hfar]
      · have hlink : next' c = if next c = some a then next a else next c := by
          rw [hnext]
          exact if_congr (hinverse ha).symm rfl rfl
        rw [hlink]
        exact hin

end Linked
