import Mathlib.Data.List.Basic

/-!
# Loops that can fail

Computations in `Except`: when they succeed, and when a loop of them does.
`Succeeds` forgets the result; a loop whose body keeps an invariant succeeds
exactly if the body accepts every element it comes to.
-/

namespace Loops

variable {α β σ τ ε : Type}

theorem bind_ok {x : Except ε α} {f : α → Except ε β} :
    x >>= f = .ok b ↔ ∃ a, x = .ok a ∧ f a = .ok b := by
  cases x <;> simp [bind, Except.bind]

theorem pure_ok : (pure a : Except ε α) = .ok b ↔ a = b := by
  simp [pure, Except.pure]

def Succeeds (x : Except ε α) : Prop := ∃ a, x = .ok a

@[simp] theorem succeeds_ok (a : α) : Succeeds (.ok a : Except ε α) := ⟨a, rfl⟩

@[simp] theorem succeeds_pure (a : α) : Succeeds (pure a : Except ε α) := ⟨a, rfl⟩

@[simp] theorem not_succeeds_error (e : ε) : ¬ Succeeds (.error e : Except ε α) :=
  fun ⟨_, h⟩ => nomatch h

theorem succeeds_bind {x : Except ε α} {f : α → Except ε β} :
    Succeeds (x >>= f) ↔ ∃ a, x = .ok a ∧ Succeeds (f a) := by
  unfold Succeeds
  simp only [bind_ok]
  exact exists_comm.trans (exists_congr fun _ => exists_and_left)

theorem succeeds_bind_ok {x : Except ε α} {f : α → Except ε β} (h : x = .ok a) :
    Succeeds (x >>= f) ↔ Succeeds (f a) := by
  rw [h]
  rfl

theorem succeeds_bind_of {x : Except ε α} {f : α → Except ε β} (hf : ∀ a, x = .ok a → Succeeds (f a)) :
    Succeeds (x >>= f) ↔ Succeeds x := by
  rw [succeeds_bind]
  constructor
  · rintro ⟨a, h, -⟩
    exact ⟨a, h⟩
  · rintro ⟨a, h⟩
    exact ⟨a, h, hf a h⟩

-- ---------------------------------------------------------------------------
-- Loops over a list
-- ---------------------------------------------------------------------------

theorem foldlM_invariant_mem {I : σ → Prop} {f : σ → α → Except ε σ} {as : List α}
    (hf : ∀ s, ∀ a ∈ as, ∀ s', I s → f s a = .ok s' → I s') (hs : I s)
    (h : as.foldlM f s = .ok s') : I s' := by
  induction as generalizing s with
  | nil =>
    cases h
    exact hs
  | cons a as ih =>
    rw [List.foldlM_cons, bind_ok] at h
    obtain ⟨s₁, h₁, hrest⟩ := h
    obtain ⟨ha, has⟩ := List.forall_mem_cons.mp fun a ha s => hf s a ha
    exact ih (fun s a ha s' => has a ha s s') (ha s s₁ hs h₁) hrest

theorem foldlM_invariant {I : σ → Prop} {f : σ → α → Except ε σ} {as : List α}
    (hf : ∀ s a s', I s → f s a = .ok s' → I s') (hs : I s) (h : as.foldlM f s = .ok s') : I s' :=
  foldlM_invariant_mem (fun s a _ s' => hf s a s') hs h

theorem foldlM_history {I : List α → σ → Prop} {f : σ → α → Except ε σ} {as : List α}
    (hf : ∀ bs s a s', I bs s → f s a = .ok s' → I (bs ++ [a]) s') (hs : I [] s)
    (h : as.foldlM f s = .ok s') : I as s' := by
  have hgen : ∀ (as bs : List α) s, I bs s → as.foldlM f s = .ok s' → I (bs ++ as) s' := by
    intro as
    induction as with
    | nil =>
      intro bs s hs h
      cases h
      rw [List.append_nil]
      exact hs
    | cons a as ih =>
      intro bs s hs h
      rw [List.foldlM_cons, bind_ok] at h
      obtain ⟨s₁, h₁, hrest⟩ := h
      have hall := ih (bs ++ [a]) s₁ (hf bs s a s₁ hs h₁) hrest
      rw [List.append_assoc] at hall
      exact hall
  exact hgen as [] s hs h

theorem foldlM_simulates {R : σ → τ → Prop} {f : σ → α → Except ε σ}
    {g : τ → α → Except ε τ} {as : List α}
    (hstep : ∀ s t a s', R s t → f s a = .ok s' → ∃ t', g t a = .ok t' ∧ R s' t') (hR : R s t)
    (h : as.foldlM f s = .ok s') : ∃ t', as.foldlM g t = .ok t' ∧ R s' t' := by
  induction as generalizing s t with
  | nil =>
    cases h
    exact ⟨t, rfl, hR⟩
  | cons a as ih =>
    rw [List.foldlM_cons, bind_ok] at h
    obtain ⟨s₁, h₁, hrest⟩ := h
    obtain ⟨t₁, ht₁, hR₁⟩ := hstep s t a s₁ hR h₁
    rw [List.foldlM_cons, ht₁]
    exact ih hR₁ hrest

theorem foldlM_succeeds_iff {I : σ → Prop} {C : α → Prop} {f : σ → α → Except ε σ}
    (hkeep : ∀ s a s', I s → f s a = .ok s' → I s')
    (hstep : ∀ s a, I s → (Succeeds (f s a) ↔ C a)) (as : List α) (hs : I s) :
    Succeeds (as.foldlM f s) ↔ ∀ a ∈ as, C a := by
  induction as generalizing s with
  | nil => simp
  | cons a as ih =>
    rw [List.foldlM_cons, succeeds_bind, List.forall_mem_cons]
    constructor
    · rintro ⟨s', h, hrest⟩
      exact ⟨(hstep s a hs).mp ⟨s', h⟩, (ih (hkeep s a s' hs h)).mp hrest⟩
    · rintro ⟨ha, has⟩
      obtain ⟨s', h⟩ := (hstep s a hs).mpr ha
      exact ⟨s', h, (ih (hkeep s a s' hs h)).mpr has⟩

/-- A loop over a list that the flag of its body ends, by `break` or `return`. -/
def loop (body : σ → α → Except ε (σ × Bool)) : σ → List α → Except ε (σ × Bool)
  | s, [] => .ok (s, false)
  | s, a :: as => do
    let (s, stop) ← body s a
    if stop then return (s, true) else loop body s as

theorem loop_invariant {I : σ → Prop} {P : Prop} {body : σ → α → Except ε (σ × Bool)}
    (hbody : ∀ s a s' stop, I s → body s a = .ok (s', stop) → I s' ∧ (stop = true → P)) (hs : I s)
    (h : loop body s as = .ok (s', stop)) : I s' ∧ (stop = true → P) := by
  induction as generalizing s with
  | nil =>
    cases h
    exact ⟨hs, fun h => nomatch h⟩
  | cons a as ih =>
    rw [loop, bind_ok] at h
    obtain ⟨⟨s₁, stop₁⟩, h₁, hrest⟩ := h
    cases stop₁ with
    | true =>
      cases hrest
      exact hbody s a s' true hs h₁
    | false => exact ih (hbody s a s₁ false hs h₁).1 hrest

theorem loop_invariant_mem {I : σ → Prop} {body : σ → α → Except ε (σ × Bool)}
    (hbody : ∀ s, ∀ a ∈ as, ∀ s' stop, I s → body s a = .ok (s', stop) → I s') (hs : I s)
    (h : loop body s as = .ok (s', stop)) : I s' := by
  induction as generalizing s with
  | nil =>
    cases h
    exact hs
  | cons a as ih =>
    rw [loop, bind_ok] at h
    obtain ⟨⟨s₁, stop₁⟩, h₁, hrest⟩ := h
    obtain ⟨ha, has⟩ := List.forall_mem_cons.mp fun a ha s => hbody s a ha
    cases stop₁ with
    | true =>
      cases hrest
      exact ha s s' true hs h₁
    | false => exact ih (fun s a ha s' stop => has a ha s s' stop) (ha s s₁ false hs h₁) hrest

theorem loop_simulates {R : σ → τ → Prop} {f : σ → α → Except ε (σ × Bool)}
    {g : τ → α → Except ε (τ × Bool)}
    (hstep : ∀ s t a s' stop, R s t → f s a = .ok (s', stop) → ∃ t', g t a = .ok (t', stop) ∧ R s' t')
    (hR : R s t) (h : loop f s as = .ok (s', stop)) : ∃ t', loop g t as = .ok (t', stop) ∧ R s' t' := by
  induction as generalizing s t with
  | nil =>
    cases h
    exact ⟨t, rfl, hR⟩
  | cons a as ih =>
    rw [loop, bind_ok] at h
    obtain ⟨⟨s₁, stop₁⟩, h₁, hrest⟩ := h
    obtain ⟨t₁, ht₁, hR₁⟩ := hstep s t a s₁ stop₁ hR h₁
    rw [loop, ht₁]
    cases stop₁ with
    | true =>
      cases hrest
      exact ⟨t₁, rfl, hR₁⟩
    | false => exact ih hR₁ hrest

theorem loop_last {body : σ → α → Except ε (σ × Bool)} (h : loop body s as = .ok (s', stop))
    (has : as ≠ []) :
    ∃ front a rest s₁, as = front ++ a :: rest ∧ loop body s front = .ok (s₁, false) ∧
      body s₁ a = .ok (s', stop) := by
  induction as generalizing s with
  | nil => exact absurd rfl has
  | cons a as ih =>
    rw [loop, bind_ok] at h
    obtain ⟨⟨s₁, stop₁⟩, h₁, hrest⟩ := h
    cases stop₁ with
    | true =>
      cases hrest
      exact ⟨[], a, as, s, rfl, rfl, h₁⟩
    | false =>
      cases as with
      | nil =>
        cases hrest
        exact ⟨[], a, [], s, rfl, rfl, h₁⟩
      | cons b as =>
        obtain ⟨front, c, rest, s₂, heq, hfront, hlast⟩ := ih hrest (List.cons_ne_nil b as)
        refine ⟨a :: front, c, rest, s₂, by rw [heq, List.cons_append], ?_, hlast⟩
        rw [loop, h₁]
        exact hfront

theorem loop_succeeds_iff {I : σ → Prop} {C : α → Prop} {body : σ → α → Except ε (σ × Bool)}
    (hkeep : ∀ s a s' stop, I s → body s a = .ok (s', stop) → I s' ∧ (stop = true → ∀ a, C a))
    (hstep : ∀ s a, I s → (Succeeds (body s a) ↔ C a)) (as : List α) (hs : I s) :
    Succeeds (loop body s as) ↔ ∀ a ∈ as, C a := by
  induction as generalizing s with
  | nil => simp [loop]
  | cons a as ih =>
    rw [loop, succeeds_bind, List.forall_mem_cons]
    constructor
    · rintro ⟨⟨s', stop⟩, h, hrest⟩
      obtain ⟨hs', hstop⟩ := hkeep s a s' stop hs h
      refine ⟨(hstep s a hs).mp ⟨_, h⟩, ?_⟩
      cases stop with
      | true => exact fun a _ => hstop rfl a
      | false => exact (ih hs').mp hrest
    · rintro ⟨ha, has⟩
      obtain ⟨⟨s', stop⟩, h⟩ := (hstep s a hs).mpr ha
      refine ⟨(s', stop), h, ?_⟩
      cases stop with
      | true => exact succeeds_ok _
      | false => exact (ih (hkeep s a s' false hs h).1).mpr has

end Loops
