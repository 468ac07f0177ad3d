import Mathlib.Algebra.Order.Group.Multiset
import Mathlib.Data.Multiset.Range
import Mathlib.Data.Multiset.UnionInter

/-!
# Blocks of memory

Blocks are numbered in the order of their allocation. A program owns some of them: each
one that was allocated is owned once, freed once or lost once, and only what is owned is
freed. `lost` is a history that no program reads: the blocks that no pointer leads to.
-/

namespace Blocks

structure Heap where
  allocated : Nat
  freed : Multiset Nat
  lost : Multiset Nat

def Heap.empty : Heap := ⟨0, 0, 0⟩

def Heap.alloc (h : Heap) : Nat × Heap := (h.allocated, { h with allocated := h.allocated + 1 })

def Heap.free (h : Heap) (b : Nat) : Heap := { h with freed := b ::ₘ h.freed }

def Heap.lose (h : Heap) (bs : Multiset Nat) : Heap := { h with lost := bs + h.lost }

@[simp] theorem Heap.alloc_lost (h : Heap) : h.alloc.2.lost = h.lost := rfl
@[simp] theorem Heap.free_lost (h : Heap) (b : Nat) : (h.free b).lost = h.lost := rfl
@[simp] theorem Heap.lose_lost (h : Heap) (bs : Multiset Nat) : (h.lose bs).lost = bs + h.lost := rfl

def Owns (owned : Multiset Nat) (h : Heap) : Prop :=
  Multiset.range h.allocated = owned + h.lost + h.freed

variable {owned owned' : Multiset Nat} {h : Heap} {b : Nat}

theorem Owns.empty : Owns 0 .empty := rfl

theorem Owns.congr (ho : Owns owned h) (heq : owned = owned') : Owns owned' h := heq ▸ ho

theorem Owns.alloc (ho : Owns owned h) : Owns (h.alloc.1 ::ₘ owned) h.alloc.2 := by
  unfold Owns Heap.alloc at *
  simp [ho]

theorem Owns.free (ho : Owns (b ::ₘ owned) h) : Owns owned (h.free b) := by
  unfold Owns Heap.free at *
  simp [ho]

theorem Owns.lose {bs : Multiset Nat} (ho : Owns (bs + owned) h) : Owns owned (h.lose bs) := by
  unfold Owns Heap.lose at *
  simp [ho, add_comm, add_left_comm]

theorem Owns.live (ho : Owns owned h) (hb : b ∈ owned) : b < h.allocated ∧ b ∉ h.freed := by
  have hnodup : (owned + h.lost + h.freed).Nodup := by
    rw [← ho]
    exact Multiset.nodup_range _
  constructor
  · rw [← Multiset.mem_range, ho]
    simp [hb]
  · exact Multiset.disjoint_left.mp (Multiset.nodup_add.mp hnodup).2.2
      (Multiset.mem_add.mpr (.inl hb))

theorem Owns.freed_once (ho : Owns owned h) : h.freed.Nodup := by
  have hnodup : (owned + h.lost + h.freed).Nodup := by
    rw [← ho]
    exact Multiset.nodup_range _
  exact (Multiset.nodup_add.mp hnodup).2.1

-- ---------------------------------------------------------------------------
-- Computations on a heap
-- ---------------------------------------------------------------------------

section
variable {α β γ δ ε : Type} {erase : α → γ} {erase' : β → δ} {Q : α → Heap → Prop}
  {R : β → Heap → Prop} {x x' : Except ε (α × Heap)} {y y' : Except ε γ}

/-- Where the computation succeeds, `Q` holds of its result and of the heap it leaves. -/
def Ensures (Q : α → Heap → Prop) (x : Except ε (α × Heap)) : Prop := ∀ r, x = .ok r → Q r.1 r.2

theorem Ensures.ok {a : α} (hQ : Q a h) : Ensures Q (.ok (a, h) : Except ε _) := by
  rintro _ ⟨⟩
  exact hQ

theorem Ensures.error {e : ε} : Ensures Q (.error e) := fun _ => nofun

theorem Ensures.bind {f : α × Heap → Except ε (β × Heap)} (hx : Ensures Q x)
    (hf : ∀ a h, Q a h → Ensures R (f (a, h))) : Ensures R (x >>= f) := by
  cases x with
  | error e => exact .error
  | ok r => exact hf r.1 r.2 (hx r rfl)

theorem Ensures.lift {z : Except ε γ} {f : γ → Except ε (β × Heap)}
    (hf : ∀ c, z = .ok c → Ensures R (f c)) : Ensures R (z >>= f) := by
  cases z with
  | error e => exact .error
  | ok c => exact hf c rfl

theorem Ensures.ite {p : Prop} [Decidable p] (hp : p → Ensures Q x) (hn : ¬p → Ensures Q x') :
    Ensures Q (if p then x else x') := by
  by_cases h : p
  · simpa [h] using hp h
  · simpa [h] using hn h

theorem Ensures.mono {Q' : α → Heap → Prop} (hx : Ensures Q x) (hQ : ∀ a h, Q a h → Q' a h) :
    Ensures Q' x :=
  fun r hr => hQ _ _ (hx r hr)

/-- The computation gives what `y` gives once the blocks are forgotten, and leaves a heap
of which `Q` holds. -/
def Follows (erase : α → γ) (Q : α → Heap → Prop) (x : Except ε (α × Heap)) (y : Except ε γ) : Prop :=
  x.map (fun r => erase r.1) = y ∧ Ensures Q x

theorem Follows.ok {a : α} (hQ : Q a h) (hc : erase a = c) :
    Follows erase Q (.ok (a, h) : Except ε _) (.ok c) :=
  ⟨congrArg Except.ok hc, .ok hQ⟩

theorem Follows.error {e : ε} : Follows erase Q (.error e) (.error e) := ⟨rfl, .error⟩

theorem Follows.bind {f : α × Heap → Except ε (β × Heap)} {g : γ → Except ε δ}
    (hx : Follows erase Q x y) (hf : ∀ a h, Q a h → Follows erase' R (f (a, h)) (g (erase a))) :
    Follows erase' R (x >>= f) (y >>= g) := by
  obtain ⟨rfl, hQ⟩ := hx
  cases x with
  | error e => exact .error
  | ok r => exact hf r.1 r.2 (hQ r rfl)

theorem Follows.lift {z : Except ε γ} {f : γ → Except ε (β × Heap)} {g : γ → Except ε δ}
    (hf : ∀ c, z = .ok c → Follows erase' R (f c) (g c)) :
    Follows erase' R (z >>= f) (z >>= g) := by
  cases z with
  | error e => exact .error
  | ok c => exact hf c rfl

theorem Follows.ite {p : Prop} [Decidable p] (hp : p → Follows erase Q x y)
    (hn : ¬p → Follows erase Q x' y') :
    Follows erase Q (if p then x else x') (if p then y else y') := by
  by_cases h : p
  · simpa [h] using hp h
  · simpa [h] using hn h

theorem Follows.succeeds (hx : Follows erase Q x (.ok c)) :
    ∃ a h, x = .ok (a, h) ∧ erase a = c ∧ Q a h := by
  obtain ⟨hmap, hQ⟩ := hx
  cases x with
  | error e => cases hmap
  | ok r => exact ⟨r.1, r.2, rfl, Except.ok.inj hmap, hQ r rfl⟩

end

end Blocks
