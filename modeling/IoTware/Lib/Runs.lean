import Mathlib.Data.List.Forall2

/-!
# Runs of a step relation

A run is the list of its steps, each with the state it was taken in and the
event that took it.
-/

namespace Runs

variable {σ τ ε : Type} {step : σ → ε → σ → Prop}

/-- The runs from `s₀`: their steps and the state they end in. -/
inductive Run (step : σ → ε → σ → Prop) (s₀ : σ) : List (σ × ε) → σ → Prop
  | start : Run step s₀ [] s₀
  | step : Run step s₀ run s → step s e s' → Run step s₀ (run ++ [(s, e)]) s'

def Reaches (step : σ → ε → σ → Prop) (s₀ s : σ) : Prop := ∃ run, Run step s₀ run s

theorem Reaches.next (h : Reaches step s₀ s) (hs : step s e s') : Reaches step s₀ s' := by
  obtain ⟨run, hrun⟩ := h
  exact ⟨_, hrun.step hs⟩

theorem Run.invariant {I : σ → Prop} (hrun : Run step s₀ run s) (hinit : I s₀)
    (hstep : ∀ s e s', I s → step s e s' → I s') : I s := by
  induction hrun with
  | start => exact hinit
  | step _ hs ih => exact hstep _ _ _ ih hs

theorem Run.recorded {I : List (σ × ε) → σ → Prop} (hrun : Run step s₀ run s) (hinit : I [] s₀)
    (hstep : ∀ run s e s', I run s → step s e s' → I (run ++ [(s, e)]) s') : I run s := by
  induction hrun with
  | start => exact hinit
  | step _ hs ih => exact hstep _ _ _ _ ih hs

theorem Run.history {I : List ε → σ → Prop} (hrun : Run step s₀ run s) (hinit : I [] s₀)
    (hstep : ∀ es s e s', I es s → step s e s' → I (es ++ [e]) s') : I (run.map Prod.snd) s := by
  induction hrun with
  | start => exact hinit
  | step _ hs ih =>
    rw [List.map_append]
    exact hstep _ _ _ _ ih hs

theorem Run.eq_start (hrun : Run step s₀ [] s) : s = s₀ := by
  generalize hnil : [] = run at hrun
  cases hrun with
  | start => rfl
  | step => simp at hnil

/-- The steps of a run before one of its steps are a run to where it is taken. -/
theorem Run.before (hrun : Run step s₀ (first ++ x :: rest) s) : Run step s₀ first x.1 := by
  generalize hall : first ++ x :: rest = run at hrun
  induction hrun generalizing rest with
  | start => simp at hall
  | @step run s e s' hrun _ ih =>
    rcases List.eq_nil_or_concat rest with rfl | ⟨rest', last, rfl⟩
    · obtain ⟨rfl, hx⟩ := List.append_inj' hall rfl
      rw [List.head_eq_of_cons_eq hx]
      exact hrun
    · rw [List.concat_eq_append, ← List.cons_append, ← List.append_assoc] at hall
      exact ih (List.append_inj' hall rfl).1

theorem Run.last (hrun : Run step s₀ (run ++ [(s, e)]) s') : Run step s₀ run s ∧ step s e s' := by
  generalize hall : run ++ [(s, e)] = steps at hrun
  cases hrun with
  | start => simp at hall
  | step hrun hs =>
    obtain ⟨rfl, hx⟩ := List.append_inj' hall rfl
    cases hx
    exact ⟨hrun, hs⟩

theorem Run.step_of_mem (hrun : Run step s₀ run s) (hx : x ∈ run) : ∃ s', step x.1 x.2 s' := by
  induction hrun with
  | start => cases hx
  | step _ hs ih =>
    rcases List.mem_append.mp hx with hx | hx
    · exact ih hx
    · obtain rfl := List.mem_singleton.mp hx
      exact ⟨_, hs⟩

def visited (run : List (σ × ε)) (s : σ) : List σ := run.map Prod.fst ++ [s]

/-- Where a step from a good state leads to a good state exactly when it meets
`C`, all states of a run are good exactly when all its steps meet `C`. -/
theorem Run.always_iff {I P : σ → Prop} {C : σ → ε → Prop} (hrun : Run step s₀ run s)
    (hI : I s₀) (hP : P s₀) (hkeep : ∀ s e s', I s → step s e s' → I s')
    (hstep : ∀ s e s', I s → P s → step s e s' → (P s' ↔ C s e)) :
    (∀ t ∈ visited run s, P t) ↔ ∀ x ∈ run, C x.1 x.2 := by
  induction hrun with
  | start => simpa [visited] using hP
  | @step run s e s' hrun hs ih =>
    have hinv : I s := hrun.invariant hI hkeep
    have hstates : visited (run ++ [(s, e)]) s' = visited run s ++ [s'] := by
      simp [visited]
    rw [hstates, List.forall_mem_append, List.forall_mem_append, ih, List.forall_mem_singleton,
      List.forall_mem_singleton]
    refine and_congr_right fun hall => ?_
    have hgood : P s := ih.mpr hall s (by simp [visited])
    exact hstep _ _ _ hinv hgood hs

/-- A weak simulation: where every step with a label is matched by a step of the other
system, and every step without one by no step, the labels of a run are those of a run
there. -/
theorem Run.simulated {step : σ → Option ε → σ → Prop} {step' : τ → ε → τ → Prop}
    {R : σ → τ → Prop} (hrun : Run step s₀ run s) (hinit : R s₀ t₀)
    (hlabel : ∀ s e s' t, R s t → step s (some e) s' → ∃ t', step' t e t' ∧ R s' t')
    (hsilent : ∀ s s' t, R s t → step s none s' → R s' t) :
    ∃ run' t, Run step' t₀ run' t ∧ run'.map Prod.snd = run.filterMap Prod.snd ∧ R s t := by
  induction hrun with
  | start => exact ⟨[], t₀, .start, rfl, hinit⟩
  | @step run s e s' _ hs ih =>
    obtain ⟨run', t, hrun', hevents, hst⟩ := ih
    cases e with
    | none =>
      refine ⟨run', t, hrun', ?_, hsilent _ _ _ hst hs⟩
      rw [hevents, List.filterMap_append]
      exact (List.append_nil _).symm
    | some e =>
      obtain ⟨t', hs', hst'⟩ := hlabel _ _ _ _ hst hs
      refine ⟨run' ++ [(t, e)], t', hrun'.step hs', ?_, hst'⟩
      rw [List.map_append, hevents, List.filterMap_append]
      rfl

def trace (f : σ → ε → σ) (s : σ) : List ε → List (σ × ε)
  | [] => []
  | e :: es => (s, e) :: trace f (f s e) es

theorem Run.append_trace {f : σ → ε → σ} {run : List (σ × ε)}
    (hrun : Run (fun s e s' => s' = f s e) s₀ run s) (es : List ε) :
    Run (fun s e s' => s' = f s e) s₀ (run ++ trace f s es) (es.foldl f s) := by
  induction es generalizing run s with
  | nil =>
    rw [trace, List.append_nil]
    exact hrun
  | cons e es ih =>
    have hstep : Run _ s₀ (run ++ [(s, e)] ++ trace f (f s e) es) _ := ih (hrun.step rfl)
    rw [List.append_assoc] at hstep
    exact hstep

theorem run_trace (f : σ → ε → σ) (s : σ) (es : List ε) :
    Run (fun s e s' => s' = f s e) s (trace f s es) (es.foldl f s) :=
  Run.start.append_trace es

-- ---------------------------------------------------------------------------
-- One behind the other
-- ---------------------------------------------------------------------------

def Successive {α : Type} (ps : List (α → Prop)) (l : List α) : Prop :=
  ∃ xs, List.Sublist xs l ∧ List.Forall₂ (fun p x => p x) ps xs

theorem successive_nil {α : Type} (l : List α) : Successive [] l := ⟨[], List.nil_sublist l, .nil⟩

theorem Successive.mono {α : Type} {ps : List (α → Prop)} {l l' : List α} (h : Successive ps l)
    (hsub : List.Sublist l l') : Successive ps l' := by
  obtain ⟨xs, hxs, hps⟩ := h
  exact ⟨xs, hxs.trans hsub, hps⟩

theorem Successive.append {α : Type} {ps qs : List (α → Prop)} {l l' : List α} (h : Successive ps l)
    (h' : Successive qs l') : Successive (ps ++ qs) (l ++ l') := by
  obtain ⟨xs, hxs, hps⟩ := h
  obtain ⟨ys, hys, hqs⟩ := h'
  exact ⟨xs ++ ys, hxs.append hys, List.rel_append hps hqs⟩

theorem successive_singleton {α : Type} {p : α → Prop} {x : α} {l : List α} (hx : x ∈ l) (hp : p x) :
    Successive [p] l :=
  ⟨[x], List.singleton_sublist.mpr hx, .cons hp .nil⟩

theorem Successive.then {α : Type} {ps : List (α → Prop)} {p : α → Prop} {l rest : List α} {x : α}
    (h : Successive ps l) (hp : p x) : Successive (ps ++ [p]) (l ++ x :: rest) :=
  h.append (successive_singleton List.mem_cons_self hp)

end Runs
