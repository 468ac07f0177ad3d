import Mathlib.Data.List.Perm.Basic
import Mathlib.Data.List.Nodup

/-!
# Handles of resources

A ledger records the handles that were given out and those that were given back. A
program holds some of them: where it gives back each handle it stops holding, and stops
holding each one it gives back, what it holds is live and nothing is given back twice.
-/

namespace Handles

structure Ledger (α : Type) where
  created : List α
  deleted : List α

variable {α : Type} {held held' : List α} {l : Ledger α}

def Ledger.create (l : Ledger α) (h : α) : Ledger α := { l with created := h :: l.created }

def Ledger.delete (l : Ledger α) (h : α) : Ledger α := { l with deleted := h :: l.deleted }

/-- What is held is held once, and only what was created is held or deleted. -/
structure Holds (held : List α) (l : Ledger α) : Prop where
  once : held.Nodup
  held_created : ∀ h ∈ held, h ∈ l.created
  deleted_created : ∀ h ∈ l.deleted, h ∈ l.created

/-- Nothing that is held was deleted, and nothing was deleted twice. -/
structure Live (held : List α) (l : Ledger α) : Prop where
  not_deleted : ∀ h ∈ held, h ∉ l.deleted
  once : l.deleted.Nodup

-- ---------------------------------------------------------------------------
-- What is held, whatever was deleted
-- ---------------------------------------------------------------------------

theorem Holds.perm (hp : held.Perm held') (h : Holds held l) : Holds held' l where
  once := hp.nodup_iff.mp h.once
  held_created x hx := h.held_created x (hp.mem_iff.mpr hx)
  deleted_created := h.deleted_created

theorem Holds.create (hfresh : x ∉ l.created) (h : Holds held l) : Holds (x :: held) (l.create x) where
  once := List.nodup_cons.mpr ⟨fun hx => hfresh (h.held_created x hx), h.once⟩
  held_created y hy := by
    rcases List.mem_cons.mp hy with rfl | hy
    · exact List.mem_cons_self
    · exact List.mem_cons_of_mem _ (h.held_created y hy)
  deleted_created y hy := List.mem_cons_of_mem _ (h.deleted_created y hy)

theorem Holds.delete (hx : x ∈ held) (h : Holds held l) : Holds held (l.delete x) where
  once := h.once
  held_created := h.held_created
  deleted_created y hy := by
    rcases List.mem_cons.mp hy with rfl | hy
    · exact h.held_created y hx
    · exact h.deleted_created y hy

theorem Holds.drop (h : Holds (x :: held) l) : Holds held l where
  once := (List.nodup_cons.mp h.once).2
  held_created y hy := h.held_created y (List.mem_cons_of_mem _ hy)
  deleted_created := h.deleted_created

-- ---------------------------------------------------------------------------
-- What is live
-- ---------------------------------------------------------------------------

theorem Live.perm (hp : held.Perm held') (h : Live held l) : Live held' l where
  not_deleted x hx := h.not_deleted x (hp.mem_iff.mpr hx)
  once := h.once

theorem Live.create (hfresh : x ∉ l.created) (hholds : Holds held l) (h : Live held l) :
    Live (x :: held) (l.create x) where
  not_deleted y hy := by
    rcases List.mem_cons.mp hy with rfl | hy
    · exact fun hdel => hfresh (hholds.deleted_created y hdel)
    · exact h.not_deleted y hy
  once := h.once

theorem Live.delete (hholds : Holds (x :: held) l) (h : Live (x :: held) l) :
    Live held (l.delete x) where
  not_deleted y hy hdel := by
    rcases List.mem_cons.mp hdel with rfl | hdel
    · exact (List.nodup_cons.mp hholds.once).1 hy
    · exact h.not_deleted y (List.mem_cons_of_mem _ hy) hdel
  once := List.nodup_cons.mpr ⟨h.not_deleted x List.mem_cons_self, h.once⟩

theorem not_live_of_deleted (hx : x ∈ held) (hdel : x ∈ l.deleted) : ¬Live held l :=
  fun h => h.not_deleted x hx hdel

-- ---------------------------------------------------------------------------
-- What is accounted for
-- ---------------------------------------------------------------------------

/-- Each handle was given out once, and is held or was given back. -/
structure Exact (held : List α) (l : Ledger α) : Prop where
  once : l.created.Nodup
  balance : l.created.Perm (held ++ l.deleted)

theorem Exact.perm (hp : held.Perm held') (h : Exact held l) : Exact held' l where
  once := h.once
  balance := h.balance.trans (hp.append_right _)

theorem Exact.create (hfresh : x ∉ l.created) (h : Exact held l) :
    Exact (x :: held) (l.create x) where
  once := List.nodup_cons.mpr ⟨hfresh, h.once⟩
  balance := h.balance.cons x

theorem Exact.delete (h : Exact (x :: held) l) : Exact held (l.delete x) where
  once := h.once
  balance := h.balance.trans List.perm_middle.symm

theorem Exact.live (h : Exact held l) (hx : x ∈ held) : x ∈ l.created ∧ x ∉ l.deleted := by
  refine ⟨h.balance.mem_iff.mpr (List.mem_append_left _ hx), fun hdel => ?_⟩
  have hnodup := h.balance.nodup_iff.mp h.once
  exact (List.nodup_append.mp hnodup).2.2 x hx x hdel rfl

end Handles
