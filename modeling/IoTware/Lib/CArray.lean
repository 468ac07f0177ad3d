import Mathlib.Data.List.TakeWhile
import IoTware.Lib.CText
import IoTware.Lib.Loops

/-!
# Character arrays

Arrays of characters of a declared or an allocated size, and the string
functions on them. A function that would touch a cell outside of its array ends
in `outOfBounds`.
-/

namespace CArray

open CText Loops

inductive OutOfBounds
  | outOfBounds
  deriving DecidableEq, Repr

def text (a : List Char) : Text := a.takeWhile (· ≠ nul)

def string (a : List Char) : Except OutOfBounds Text :=
  if nul ∈ a then .ok (text a) else .error .outOfBounds

def strlen (a : List Char) : Except OutOfBounds Nat := do return (← string a).length

def read (a : List Char) (i : Nat) : Except OutOfBounds Char :=
  match a[i]? with
  | some c => .ok c
  | none => .error .outOfBounds

def write (a : List Char) (offset : Nat) (cs : List Char) : Except OutOfBounds (List Char) :=
  if offset + cs.length ≤ a.length then
    .ok (a.take offset ++ cs ++ a.drop (offset + cs.length))
  else .error .outOfBounds

def strcpy (dest src : List Char) : Except OutOfBounds (List Char) := do
  write dest 0 (terminated (← string src))

def strcat (dest src : List Char) : Except OutOfBounds (List Char) := do
  write dest (← strlen dest) (terminated (← string src))

/-- The first `n` characters of `src`, written over the beginning of `dest`. -/
def memcpy (dest src : List Char) (n : Nat) : Except OutOfBounds (List Char) :=
  if n ≤ src.length then write dest 0 (src.take n) else .error .outOfBounds

/-- The first `n` characters of a string, with terminators behind a shorter one. -/
def strncpy (dest src : List Char) (n : Nat) : Except OutOfBounds (List Char) := do
  let s ← string src
  write dest 0 (s.take n ++ List.replicate (n - s.length) nul)

def calloc (n : Nat) : List Char := List.replicate n nul

/-- Behind what was there, `realloc` leaves what it finds: `junk` at a place. -/
def realloc (junk : Nat → Char) (a : List Char) (n : Nat) : List Char :=
  a.take n ++ (List.range' a.length (n - a.length)).map junk

-- ---------------------------------------------------------------------------
-- Strings
-- ---------------------------------------------------------------------------

theorem isCString_text (a : List Char) : IsCString (text a) := by
  intro h
  simpa using List.mem_takeWhile_imp h

theorem text_append_nul (h : IsCString s) (rest : List Char) : text (s ++ nul :: rest) = s := by
  have hs : ∀ c ∈ s, decide (c ≠ nul) = true := fun c hc =>
    decide_eq_true fun heq => h (heq ▸ hc)
  unfold text
  rw [List.takeWhile_append_of_pos hs, List.takeWhile_cons_of_neg (by simp), List.append_nil]

theorem string_ok_iff : string a = .ok s ↔ IsCString s ∧ ∃ rest, a = s ++ nul :: rest := by
  unfold string
  constructor
  · intro h
    split at h
    · rename_i hmem
      cases h
      refine ⟨isCString_text a, ?_⟩
      have hsplit : text a ++ a.dropWhile (· ≠ nul) = a := List.takeWhile_append_dropWhile
      cases hdrop : a.dropWhile (· ≠ nul) with
      | nil =>
        rw [hdrop, List.append_nil] at hsplit
        exact absurd hmem (hsplit ▸ isCString_text a)
      | cons c rest =>
        have hc : c = nul := by
          have hhead := List.head?_dropWhile_not (fun c : Char => decide (c ≠ nul)) a
          rw [hdrop] at hhead
          simpa using hhead
        rw [hdrop, hc] at hsplit
        exact ⟨rest, hsplit.symm⟩
    · cases h
  · rintro ⟨hs, rest, rfl⟩
    rw [if_pos (by simp), text_append_nul hs]

theorem string_append_nul (h : IsCString s) (rest : List Char) :
    string (s ++ nul :: rest) = .ok s :=
  string_ok_iff.mpr ⟨h, rest, rfl⟩

theorem string_terminated (s : Text) : string (terminated s) = .ok (text (terminated s)) :=
  if_pos (by simp [terminated])

theorem string_terminated_of (h : IsCString s) : string (terminated s) = .ok s :=
  string_append_nul h []

theorem length_lt_of_string (h : string a = .ok s) : s.length < a.length := by
  obtain ⟨-, rest, rfl⟩ := string_ok_iff.mp h
  rw [List.length_append, List.length_cons]
  omega

theorem strlen_of_string (h : string a = .ok s) : strlen a = .ok s.length := by
  unfold strlen
  rw [h]
  rfl

theorem read_one (h : string a = .ok (c :: s)) : ∃ d, read a 1 = .ok d ∧ (d = nul ↔ s = []) := by
  obtain ⟨hs, rest, rfl⟩ := string_ok_iff.mp h
  cases s with
  | nil => exact ⟨nul, rfl, by simp⟩
  | cons d s =>
    refine ⟨d, rfl, ?_⟩
    have hd : d ≠ nul := fun heq => hs (by simp [heq])
    simp [hd]

-- ---------------------------------------------------------------------------
-- Writing
-- ---------------------------------------------------------------------------

theorem write_ok (h : offset + cs.length ≤ a.length) :
    write a offset cs = .ok (a.take offset ++ cs ++ a.drop (offset + cs.length)) :=
  if_pos h

theorem write_succeeds_iff : Succeeds (write a offset cs) ↔ offset + cs.length ≤ a.length := by
  unfold write
  split
  · rename_i h
    exact iff_of_true (succeeds_ok _) h
  · rename_i h
    exact iff_of_false (not_succeeds_error _) h

theorem length_write (h : write a offset cs = .ok b) : b.length = a.length := by
  unfold write at h
  split at h
  · cases h
    rw [List.length_append, List.length_append, List.length_take, List.length_drop]
    omega
  · cases h

theorem strcpy_ok (hsrc : string src = .ok s) (h : s.length < dest.length) :
    ∃ a, strcpy dest src = .ok a ∧ string a = .ok s ∧ a.length = dest.length := by
  have hlen : 0 + (terminated s).length ≤ dest.length := by
    rw [terminated, List.length_append, List.length_singleton]
    omega
  have hcopy : strcpy dest src = write dest 0 (terminated s) := by
    unfold strcpy
    rw [hsrc]
    rfl
  rw [hcopy, write_ok hlen]
  refine ⟨_, rfl, ?_, length_write (write_ok hlen)⟩
  rw [List.take_zero, List.nil_append, terminated, List.append_assoc]
  exact string_append_nul (string_ok_iff.mp hsrc).1 _

theorem strcpy_succeeds_iff (hsrc : string src = .ok s) :
    Succeeds (strcpy dest src) ↔ s.length < dest.length := by
  unfold strcpy
  rw [succeeds_bind_ok hsrc, write_succeeds_iff, terminated, List.length_append,
    List.length_singleton]
  omega

theorem strcat_ok (hdest : string dest = .ok s) (hsrc : string src = .ok t)
    (h : s.length + t.length < dest.length) :
    ∃ a, strcat dest src = .ok a ∧ string a = .ok (s ++ t) ∧ a.length = dest.length := by
  have hlen : s.length + (terminated t).length ≤ dest.length := by
    rw [terminated, List.length_append, List.length_singleton]
    omega
  have hcat : strcat dest src = write dest s.length (terminated t) := by
    unfold strcat
    rw [strlen_of_string hdest, hsrc]
    rfl
  obtain ⟨hs, rest, rfl⟩ := string_ok_iff.mp hdest
  have ht := (string_ok_iff.mp hsrc).1
  have hst : IsCString (s ++ t) := by
    unfold IsCString at hs ht ⊢
    rw [List.mem_append, not_or]
    exact ⟨hs, ht⟩
  rw [hcat, write_ok hlen]
  refine ⟨_, rfl, ?_, length_write (write_ok hlen)⟩
  rw [List.take_left, terminated, ← List.append_assoc, List.append_assoc (s ++ t)]
  exact string_append_nul hst _

theorem memcpy_ok (hn : n ≤ src.length) (h : n ≤ dest.length) :
    memcpy dest src n = .ok (src.take n ++ dest.drop n) := by
  have hlen : (src.take n).length = n := List.length_take_of_le hn
  unfold memcpy
  rw [if_pos hn, write_ok (by omega), hlen, List.take_zero, List.nil_append, Nat.zero_add]

theorem string_append_drop_iff {a : List Char} (hs : IsCString s) :
    string (s ++ a.drop s.length) = .ok s ↔ a[s.length]? = some nul := by
  rw [string_ok_iff, and_iff_right hs, ← List.head?_drop]
  constructor
  · rintro ⟨rest, h⟩
    rw [List.append_cancel_left h]
    rfl
  · intro h
    obtain ⟨rest, hrest⟩ := List.head?_eq_some_iff.mp h
    exact ⟨rest, by rw [hrest]⟩

-- ---------------------------------------------------------------------------
-- Allocation
-- ---------------------------------------------------------------------------

@[simp] theorem length_calloc (n : Nat) : (calloc n).length = n := List.length_replicate

theorem memcpy_calloc (hsrc : string src = .ok s) :
    ∃ a, memcpy (calloc (s.length + 1)) src s.length = .ok a ∧ string a = .ok s := by
  have hlt := length_lt_of_string hsrc
  obtain ⟨hs, rest, rfl⟩ := string_ok_iff.mp hsrc
  refine ⟨_, memcpy_ok (Nat.le_of_lt hlt) (by rw [length_calloc]; omega), ?_⟩
  rw [List.take_left, calloc, List.drop_replicate, Nat.add_sub_cancel_left]
  exact string_append_nul hs []

theorem length_realloc (junk : Nat → Char) (a : List Char) (n : Nat) :
    (realloc junk a n).length = n := by
  unfold realloc
  rw [List.length_append, List.length_take, List.length_map, List.length_range']
  omega

theorem string_realloc (junk : Nat → Char) (ha : string a = .ok s) (h : s.length < n) :
    string (realloc junk a n) = .ok s := by
  obtain ⟨hs, rest, rfl⟩ := string_ok_iff.mp ha
  unfold realloc
  rw [List.take_append, List.take_of_length_le (Nat.le_of_lt h), List.append_assoc]
  obtain ⟨k, hk⟩ : ∃ k, n - s.length = k + 1 := ⟨n - s.length - 1, by omega⟩
  rw [hk, List.take_succ_cons, List.cons_append]
  exact string_append_nul hs _

-- ---------------------------------------------------------------------------
-- Arrays that are written over
-- ---------------------------------------------------------------------------

/-- The array holds `t`, and only terminators behind it. -/
def Zeroed (a : List Char) (t : Text) : Prop := IsCString t ∧ ∃ k, a = t ++ List.replicate (k + 1) nul

/-- What the characters of `s` leave of `t`. -/
def overlay (t s : Text) : Text := s ++ t.drop s.length

theorem Zeroed.string (h : Zeroed a t) : string a = .ok t := by
  obtain ⟨ht, k, rfl⟩ := h
  exact string_append_nul ht _

theorem zeroed_calloc (h : 0 < n) : Zeroed (calloc n) [] :=
  ⟨List.not_mem_nil, n - 1, by rw [calloc, Nat.sub_add_cancel h, List.nil_append]⟩

theorem Zeroed.memcpy (h : Zeroed a t) (hsrc : CArray.string src = .ok s) (hlen : s.length < a.length) :
    ∃ b, memcpy a src s.length = .ok b ∧ Zeroed b (overlay t s) ∧ b.length = a.length := by
  have hlt := length_lt_of_string hsrc
  obtain ⟨hs, rest, rfl⟩ := string_ok_iff.mp hsrc
  have hcopy := memcpy_ok (Nat.le_of_lt hlt) (Nat.le_of_lt hlen)
  obtain ⟨ht, k, rfl⟩ := h
  rw [List.length_append, List.length_replicate] at hlen
  refine ⟨_, hcopy, ⟨?_, k - (s.length - t.length), ?_⟩, ?_⟩
  · unfold IsCString overlay at *
    rw [List.mem_append, not_or]
    exact ⟨hs, fun hmem => ht (List.mem_of_mem_drop hmem)⟩
  · rw [List.take_left, List.drop_append, List.drop_replicate, overlay, List.append_assoc]
    congr 3
    omega
  · rw [List.take_left, List.length_append, List.length_drop, List.length_append,
      List.length_replicate]
    omega

theorem strncpy_strlen (hsrc : CArray.string src = .ok s) :
    strncpy dest src s.length = memcpy dest src s.length := by
  have hlt := length_lt_of_string hsrc
  obtain ⟨hs, rest, rfl⟩ := string_ok_iff.mp hsrc
  unfold strncpy CArray.memcpy
  rw [hsrc, if_pos (Nat.le_of_lt hlt), List.take_left]
  show write dest 0 (s.take s.length ++ List.replicate (s.length - s.length) nul) = _
  rw [List.take_length, Nat.sub_self, List.replicate_zero, List.append_nil]

theorem strncpy_ok (hsrc : CArray.string src = .ok s) (hn : n ≤ dest.length) :
    ∃ b, strncpy dest src n = .ok b ∧ b.length = dest.length := by
  have hlen : 0 + (s.take n ++ List.replicate (n - s.length) nul).length ≤ dest.length := by
    rw [List.length_append, List.length_take, List.length_replicate]
    omega
  exact ⟨_, bind_ok.mpr ⟨s, hsrc, write_ok hlen⟩, length_write (write_ok hlen)⟩

/-- What is left after texts have been written over one another is no longer than
the longest of them. -/
theorem length_foldl_overlay_le (ss : List Text) (t : Text) :
    (ss.foldl overlay t).length ≤ n ↔ t.length ≤ n ∧ ∀ s ∈ ss, s.length ≤ n := by
  induction ss generalizing t with
  | nil => simp
  | cons s ss ih =>
    have hlen : (overlay t s).length ≤ n ↔ t.length ≤ n ∧ s.length ≤ n := by
      rw [overlay, List.length_append, List.length_drop]
      omega
    rw [List.foldl_cons, ih, hlen, List.forall_mem_cons, and_assoc]

theorem overlay_eq_iff : overlay t s = s ↔ t.length ≤ s.length := by
  rw [overlay, List.append_right_eq_self, List.drop_eq_nil_iff]

theorem foldl_overlay_eq_iff (ss : List Text) (s : Text) :
    (ss ++ [s]).foldl overlay [] = s ↔ ∀ t ∈ ss ++ [s], t.length ≤ s.length := by
  rw [List.foldl_append, List.foldl_cons, List.foldl_nil, overlay_eq_iff, length_foldl_overlay_le,
    List.forall_mem_append, List.forall_mem_singleton]
  simp

-- ---------------------------------------------------------------------------
-- Comparing
-- ---------------------------------------------------------------------------

/-- `strcmp(a, b) == 0`. It ends at the first difference or at a common terminator. -/
def strcmpZero : List Char → List Char → Except OutOfBounds Bool
  | c :: a, d :: b => if c = d then if c = nul then .ok true else strcmpZero a b else .ok false
  | _, _ => .error .outOfBounds

variable {q t b : Text}

theorem strcmpZero_terminated (hq : IsCString q) (ht : IsCString t) (rest : List Char) :
    strcmpZero (terminated q) (t ++ nul :: rest) = .ok (decide (q = t)) := by
  induction q generalizing t with
  | nil =>
    cases t with
    | nil => rfl
    | cons d t =>
      have hd : nul ≠ d := fun heq => ht (heq ▸ List.mem_cons_self)
      simp [terminated, strcmpZero, hd]
  | cons c q ih =>
    have hc : c ≠ nul := fun heq => hq (heq ▸ List.mem_cons_self)
    cases t with
    | nil => simp [terminated, strcmpZero, hc]
    | cons d t =>
      have hrest := ih (fun h => hq (List.mem_cons_of_mem _ h)) fun h => ht (List.mem_cons_of_mem d h)
      by_cases heq : c = d
      · subst heq
        simpa [terminated, strcmpZero, hc] using hrest
      · simp [terminated, strcmpZero, heq]

theorem strcmpZero_unterminated (hq : IsCString q) (hb : IsCString b) :
    strcmpZero (terminated q) b = if b <+: q then .error .outOfBounds else .ok false := by
  induction b generalizing q with
  | nil => cases q <;> rfl
  | cons d b ih =>
    cases q with
    | nil =>
      have hd : nul ≠ d := fun heq => hb (heq ▸ List.mem_cons_self)
      simp [terminated, strcmpZero, hd]
    | cons c q =>
      have hc : c ≠ nul := fun heq => hq (heq ▸ List.mem_cons_self)
      have hrest := ih (fun h => hq (List.mem_cons_of_mem c h)) fun h => hb (List.mem_cons_of_mem d h)
      by_cases heq : c = d
      · subst heq
        simpa [terminated, strcmpZero, hc, List.cons_prefix_cons] using hrest
      · simp [terminated, strcmpZero, heq, List.cons_prefix_cons, Ne.symm heq]

end CArray
