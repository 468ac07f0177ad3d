import Mathlib.Data.List.Basic

/-!
# Outputs in the order of the inputs

What a process that works off its inputs one after another puts out, where an input
may lead to any number of outputs and some outputs may be lost.
-/

namespace Outputs

variable {α β : Type} {R : α → β → Prop}

/-- The outputs belong to the inputs in turn. -/
inductive InTurn (R : α → β → Prop) : List α → List β → Prop
  | nil : InTurn R [] []
  | next : InTurn R ins outs → InTurn R (a :: ins) outs
  | out : R a b → InTurn R (a :: ins) outs → InTurn R (a :: ins) (b :: outs)

theorem InTurn.nil_out (ins : List α) : InTurn R ins [] := by
  induction ins with
  | nil => exact .nil
  | cons a ins ih => exact .next ih

theorem InTurn.sublist (h : InTurn R ins outs) (hsub : outs'.Sublist outs) :
    InTurn R ins outs' := by
  induction h generalizing outs' with
  | nil =>
    cases hsub
    exact .nil
  | next _ ih => exact .next (ih hsub)
  | @out a b ins outs hab h ih =>
    cases hsub with
    | cons _ hsub => exact ih hsub
    | cons_cons _ hsub => exact .out hab (ih hsub)

theorem InTurn.append (h : InTurn R ins outs) (hgroup : ∀ b ∈ group, R a b) :
    InTurn R (ins ++ [a]) (outs ++ group) := by
  induction h with
  | nil =>
    induction group with
    | nil => exact .next .nil
    | cons b group ih =>
      obtain ⟨hb, hgroup⟩ := List.forall_mem_cons.mp hgroup
      exact .out hb (ih hgroup)
  | next _ ih => exact .next ih
  | out hab _ ih => exact .out hab ih

theorem InTurn.more_ins (h : InTurn R ins outs) (more : List α) : InTurn R (ins ++ more) outs := by
  induction h with
  | nil => exact .nil_out more
  | next _ ih => exact .next ih
  | out hab _ ih => exact .out hab ih

theorem InTurn.exists_in (h : InTurn R ins outs) (hb : b ∈ outs) : ∃ a ∈ ins, R a b := by
  induction h with
  | nil => cases hb
  | next _ ih =>
    obtain ⟨a, ha, hab⟩ := ih hb
    exact ⟨a, List.mem_cons_of_mem _ ha, hab⟩
  | @out a _ _ _ hab _ ih =>
    rcases List.mem_cons.mp hb with rfl | hb
    · exact ⟨a, List.mem_cons_self, hab⟩
    · exact ih hb

end Outputs
