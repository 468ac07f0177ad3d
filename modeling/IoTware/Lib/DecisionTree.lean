import Mathlib.Data.List.Basic

/-!
# Decision trees

Binary trees whose nodes carry a key, by which a walk chooses its branch, and
a payload. A walk ends at the first node without branches; the leaf it reaches
is the path that leads there. `Levels` describes the trees in which every walk
asks for the same keys in the same order.
-/

namespace DecisionTree

inductive Tree (κ π : Type)
  | nil
  | node (key : κ) (on off : Tree κ π) (payload : π)
  deriving DecidableEq

variable {κ π : Type}

abbrev Path := List Bool

def Tree.isNil : Tree κ π → Bool
  | .nil => true
  | .node .. => false

def Tree.walk (test : κ → Bool) : Tree κ π → Option Path
  | .nil => none
  | .node key on off _ =>
    if on.isNil ∧ off.isNil then some []
    else if test key then (on.walk test).map (true :: ·)
    else (off.walk test).map (false :: ·)

def Tree.payload? : Tree κ π → Path → Option π
  | .nil, _ => none
  | .node _ _ _ p, [] => some p
  | .node _ on off _, b :: path => if b then on.payload? path else off.payload? path

def Tree.modify (f : π → π) : Path → Tree κ π → Tree κ π
  | _, .nil => .nil
  | [], .node key on off p => .node key on off (f p)
  | b :: path, .node key on off p =>
    if b then .node key (on.modify f path) off p else .node key on (off.modify f path) p

/-- Puts a new node under every node with the key, on its `off` branch only if
the key forks. -/
def Tree.graft [DecidableEq κ] (key : κ) (forks : Bool) (new : Tree κ π) : Tree κ π → Tree κ π
  | .nil => .nil
  | .node k on off p =>
    if k = key then .node k new (if forks then new else graft key forks new off) p
    else .node k (graft key forks new on) (graft key forks new off) p

@[simp] theorem Tree.isNil_iff (t : Tree κ π) : t.isNil ↔ t = .nil := by
  cases t <;> simp [isNil]

-- ---------------------------------------------------------------------------
-- Payloads
-- ---------------------------------------------------------------------------

@[simp] theorem Tree.isNil_modify (f : π → π) (path : Path) (t : Tree κ π) :
    (t.modify f path).isNil = t.isNil := by
  cases t with
  | nil => cases path <;> rfl
  | node key on off p =>
    cases path with
    | nil => rfl
    | cons b path => cases b <;> rfl

@[simp] theorem Tree.walk_modify (f : π → π) (path : Path) (t : Tree κ π) (test : κ → Bool) :
    (t.modify f path).walk test = t.walk test := by
  induction t generalizing path with
  | nil => cases path <;> rfl
  | node key on off p ihon ihoff =>
    cases path with
    | nil => rfl
    | cons b path =>
      cases b
      · simp only [modify, Bool.false_eq_true, if_false, walk, isNil_modify, ihoff]
      · simp only [modify, if_true, walk, isNil_modify, ihon]

theorem Tree.payload?_modify_self (f : π → π) (path : Path) (t : Tree κ π) :
    (t.modify f path).payload? path = (t.payload? path).map f := by
  induction t generalizing path with
  | nil => cases path <;> rfl
  | node key on off p ihon ihoff =>
    cases path with
    | nil => rfl
    | cons b path =>
      cases b
      · simpa [modify, payload?] using ihoff path
      · simpa [modify, payload?] using ihon path

theorem Tree.payload?_modify_ne (f : π → π) (t : Tree κ π) (h : path ≠ path') :
    (t.modify f path).payload? path' = t.payload? path' := by
  induction t generalizing path path' with
  | nil => cases path <;> rfl
  | node key on off p ihon ihoff =>
    cases path with
    | nil =>
      cases path' with
      | nil => exact absurd rfl h
      | cons b path' => rfl
    | cons b path =>
      cases path' with
      | nil => cases b <;> rfl
      | cons b' path' =>
        cases b <;> cases b'
        · simpa [modify, payload?] using ihoff fun he => h (by rw [he])
        · rfl
        · rfl
        · simpa [modify, payload?] using ihon fun he => h (by rw [he])

theorem Tree.payload?_isSome_of_walk {t : Tree κ π} (h : t.walk test = some path) :
    (t.payload? path).isSome := by
  induction t generalizing path with
  | nil => cases h
  | node key on off p ihon ihoff =>
    unfold walk at h
    split at h
    · cases h; rfl
    split at h
    · obtain ⟨rest, hrest, rfl⟩ := Option.map_eq_some_iff.mp h
      simpa [payload?] using ihon hrest
    · obtain ⟨rest, hrest, rfl⟩ := Option.map_eq_some_iff.mp h
      simpa [payload?] using ihoff hrest

-- ---------------------------------------------------------------------------
-- Trees by levels
-- ---------------------------------------------------------------------------

/-- Every node of a level has the level's key; it has an `on` branch unless the
level is the last one, and an `off` branch exactly if the key forks. -/
def Levels (forks : κ → Bool) : List κ → Tree κ π → Prop
  | [], _ => False
  | [k], t => ∃ p, t = .node k .nil .nil p
  | k :: k' :: ks, t => ∃ on off p, t = .node k on off p ∧ Levels forks (k' :: ks) on ∧
      if forks k then Levels forks (k' :: ks) off else off = .nil

theorem Levels.ne_nil {ks : List κ} {t : Tree κ π} (h : Levels forks ks t) : t.isNil = false := by
  cases ks with
  | nil => exact h.elim
  | cons k ks =>
    cases ks with
    | nil => obtain ⟨p, rfl⟩ := h; rfl
    | cons k' ks => obtain ⟨on, off, p, rfl, -, -⟩ := h; rfl

theorem Levels.walk {ks : List κ} {t : Tree κ π} (h : Levels forks ks t)
    (htest : ∀ k ∈ ks.dropLast, forks k = false → test k = true) :
    t.walk test = some (ks.dropLast.map test) := by
  induction ks generalizing t with
  | nil => exact h.elim
  | cons k ks ih =>
    cases ks with
    | nil =>
      obtain ⟨p, rfl⟩ := h
      simp [Tree.walk, Tree.isNil]
    | cons k' ks =>
      obtain ⟨on, off, p, rfl, hon, hoff⟩ := h
      simp only [List.dropLast_cons_cons, List.mem_cons, forall_eq_or_imp] at htest
      obtain ⟨hk, htest⟩ := htest
      simp only [Tree.walk, hon.ne_nil, Bool.false_eq_true, false_and, if_false,
        List.dropLast_cons_cons, List.map_cons]
      cases ht : test k with
      | true =>
        rw [if_pos rfl, ih hon htest]
        rfl
      | false =>
        have hfork : forks k = true := by
          by_contra hf
          rw [hk (by simpa using hf)] at ht
          cases ht
        rw [if_pos hfork] at hoff
        rw [if_neg (by simp), ih hoff htest]
        rfl

theorem Levels.walk_isSome_iff {ks : List κ} {t : Tree κ π} (h : Levels forks ks t) :
    (t.walk test).isSome ↔ ∀ k ∈ ks.dropLast, forks k = false → test k = true := by
  constructor
  · intro hsome
    induction ks generalizing t with
    | nil => exact h.elim
    | cons k ks ih =>
      cases ks with
      | nil => exact fun _ hk => absurd hk List.not_mem_nil
      | cons k' ks =>
        obtain ⟨on, off, p, rfl, hon, hoff⟩ := h
        rw [Tree.walk, if_neg (by simp [hon.ne_nil])] at hsome
        rw [List.dropLast_cons_cons, List.forall_mem_cons]
        cases ht : test k with
        | true =>
          rw [if_pos ht, Option.isSome_map] at hsome
          exact ⟨fun _ => rfl, ih hon hsome⟩
        | false =>
          rw [if_neg (by rw [ht]; exact Bool.false_ne_true), Option.isSome_map] at hsome
          split at hoff
          · rename_i hfork
            refine ⟨fun hnot => ?_, ih hoff hsome⟩
            rw [hfork] at hnot
            cases hnot
          · rw [hoff] at hsome
            cases hsome
  · intro htest
    rw [h.walk htest]
    rfl

theorem Levels.walk_ne {ks : List κ} {t : Tree κ π} (h : Levels forks ks t)
    (htest : ∀ k ∈ ks.dropLast, forks k = false → test k = true)
    (htest' : ∀ k ∈ ks.dropLast, forks k = false → test' k = true)
    (hk : k ∈ ks.dropLast) (hne : test k ≠ test' k) : t.walk test ≠ t.walk test' := by
  rw [h.walk htest, h.walk htest']
  intro heq
  have hmap : ks.dropLast.map test = ks.dropLast.map test' := Option.some.inj heq
  exact hne (List.map_inj_left.mp hmap k hk)

theorem Levels.modify {ks : List κ} {t : Tree κ π} (h : Levels forks ks t) (f : π → π)
    (path : Path) : Levels forks ks (t.modify f path) := by
  induction ks generalizing t path with
  | nil => exact h.elim
  | cons k ks ih =>
    cases ks with
    | nil =>
      obtain ⟨p, rfl⟩ := h
      cases path with
      | nil => exact ⟨f p, rfl⟩
      | cons b path => cases b <;> cases path <;> exact ⟨p, rfl⟩
    | cons k' ks =>
      obtain ⟨on, off, p, rfl, hon, hoff⟩ := h
      cases path with
      | nil => exact ⟨on, off, f p, rfl, hon, hoff⟩
      | cons b path =>
        cases b with
        | true => exact ⟨_, off, p, rfl, ih hon path, hoff⟩
        | false =>
          refine ⟨on, _, p, rfl, hon, ?_⟩
          split at hoff
          · rename_i hf
            rw [if_pos hf]
            exact ih hoff path
          · rename_i hf
            rw [if_neg hf, hoff]
            cases path <;> rfl

section graft

variable [DecidableEq κ]

theorem Levels.graft {ks : List κ} {last new : κ} {t : Tree κ π}
    (h : Levels forks (ks ++ [last]) t) (hfresh : last ∉ ks) (p : π) :
    Levels forks (ks ++ [last, new]) (Tree.graft last (forks last) (.node new .nil .nil p) t) := by
  induction ks generalizing t with
  | nil =>
    obtain ⟨q, rfl⟩ := h
    refine ⟨.node new .nil .nil p, if forks last then .node new .nil .nil p else .nil, q,
      by simp [Tree.graft], ⟨p, rfl⟩, ?_⟩
    split
    · exact ⟨p, rfl⟩
    · rfl
  | cons k ks ih =>
    simp only [List.mem_cons, not_or] at hfresh
    obtain ⟨hk, hfresh⟩ := hfresh
    obtain ⟨k', rest, hrest⟩ : ∃ k' rest, ks ++ [last] = k' :: rest := by
      cases ks with
      | nil => exact ⟨last, [], rfl⟩
      | cons k' ks => exact ⟨k', ks ++ [last], rfl⟩
    have hnext : ks ++ [last, new] = k' :: (rest ++ [new]) := by
      rw [← List.cons_append, ← hrest]
      simp
    rw [List.cons_append, hrest] at h
    obtain ⟨on, off, q, rfl, hon, hoff⟩ := h
    rw [← hrest] at hon hoff
    rw [List.cons_append, hnext]
    refine ⟨_, _, q, by rw [Tree.graft, if_neg (Ne.symm hk)], ?_, ?_⟩
    · rw [← hnext]
      exact ih hon hfresh
    · split at hoff
      · rename_i hf
        rw [if_pos hf, ← hnext]
        exact ih hoff hfresh
      · rename_i hf
        rw [if_neg hf, hoff]
        rfl

end graft

end DecisionTree
