import IoTware.LwMsg.Frames

/-!
# When a request is posted again

The time a transmission takes. It sleeps at each poll for a response and at each post that
the network refuses, so the number of its steps tells how long it has gone on.
-/

namespace IoTware.LwMsg

open Loops Runs

def TxEvent.isRefused : TxEvent → Bool
  | .post taken => !taken
  | .poll _ => false

def TxEvent.isPoll : TxEvent → Bool
  | .post _ => false
  | .poll _ => true

abbrev TxRun := List (TxPhase × TxEvent)

def refusedPosts (run : TxRun) : Nat := run.countP fun x => x.2.isRefused

def pollCount (run : TxRun) : Nat := run.countP fun x => x.2.isPoll

def sleptMs (run : TxRun) : Nat := 100 * pollCount run + 10 * refusedPosts run

@[simp] theorem posts_post (run : TxRun) (phase : TxPhase) (taken : Bool) :
    posts (run ++ [(phase, .post taken)]) = posts run + taken.toNat := by
  cases taken <;> simp [posts]

@[simp] theorem posts_poll (run : TxRun) (phase : TxPhase) (response : Option LWMessage) :
    posts (run ++ [(phase, .poll response)]) = posts run := by
  simp [posts]

@[simp] theorem refusedPosts_snoc (run : TxRun) (x : TxPhase × TxEvent) :
    refusedPosts (run ++ [x]) = refusedPosts run + x.2.isRefused.toNat := by
  cases h : x.2.isRefused <;> simp [refusedPosts, h]

@[simp] theorem pollCount_snoc (run : TxRun) (x : TxPhase × TxEvent) :
    pollCount (run ++ [x]) = pollCount run + x.2.isPoll.toNat := by
  cases h : x.2.isPoll <;> simp [pollCount, h]

theorem length_eq_counts (run : TxRun) :
    run.length = posts run + refusedPosts run + pollCount run := by
  induction run with
  | nil => rfl
  | cons x run ih =>
    obtain ⟨phase, e⟩ := x
    rw [List.length_cons, ih]
    unfold posts refusedPosts pollCount
    cases e with
    | post taken =>
      cases taken with
      | true => simp [TxEvent.isRefused, TxEvent.isPoll]; omega
      | false => simp [TxEvent.isRefused, TxEvent.isPoll]; omega
    | poll response => simp [TxEvent.isRefused, TxEvent.isPoll]; omega

-- ---------------------------------------------------------------------------
-- The phases
-- ---------------------------------------------------------------------------

def PacedAt (req : TxRequest) (posted refused polls : Nat) : TxPhase → Prop
  | .posting i => posted + refused = i ∧ polls = 100 * posted ∧ (i < retransmissionCount ∨ req.sendIf = 1)
  | .waiting i waited =>
    posted + refused = i + 1 ∧ 100 * polls + 10000 = 10000 * posted + waited ∧ waited < resonseWaitTime ∧
      (i < retransmissionCount ∨ req.sendIf = 1)
  | .broken _ =>
    polls ≤ 100 * posted ∧ 100 * posted < polls + 100 ∧
      (posted + refused ≤ retransmissionCount ∨ req.sendIf = 1)
  | .exhausted => posted + refused = retransmissionCount ∧ polls = 100 * posted ∧ req.sendIf ≠ 1

def Paced (req : TxRequest) (run : TxRun) (phase : TxPhase) : Prop :=
  PacedAt req (posts run) (refusedPosts run) (pollCount run) phase

variable {posted refused polls : Nat}

theorem pacedAt_attempt (hposts : posted + refused = i) (hpolls : polls = 100 * posted)
    (hi : i ≤ retransmissionCount ∨ req.sendIf = 1) : PacedAt req posted refused polls (attempt req i) := by
  unfold attempt
  split
  · rename_i htest
    exact ⟨hposts, hpolls, htest⟩
  · rename_i htest
    rw [not_or] at htest
    have hle := hi.resolve_right htest.2
    exact ⟨hposts.trans (Nat.le_antisymm hle (Nat.not_lt.mp htest.1)), hpolls, htest.2⟩

theorem pacedAt_waitOn (hposts : posted + refused = i + 1)
    (hpolls : 100 * polls + 10000 = 10000 * posted + waited) (hwaited : waited ≤ resonseWaitTime)
    (hi : i < retransmissionCount ∨ req.sendIf = 1) :
    PacedAt req posted refused polls (waitOn req i waited) := by
  unfold waitOn
  split
  · rename_i htest
    exact ⟨hposts, hpolls, htest, hi⟩
  · rename_i htest
    have heq : waited = 10000 := Nat.le_antisymm hwaited (Nat.not_lt.mp htest)
    exact pacedAt_attempt hposts (by omega) (hi.imp_left Nat.succ_le_of_lt)

theorem Paced.step (h : Paced req run phase) (hs : TxStep req phase e next) :
    Paced req (run ++ [(phase, e)]) next := by
  cases hs with
  | @post i taken =>
    obtain ⟨hposts, hpolls, hi⟩ := h
    cases taken with
    | true =>
      have hwait : (0 : Nat) < resonseWaitTime := by decide
      refine ⟨?_, ?_, hwait, hi⟩
      · simp [TxEvent.isRefused]
        omega
      · simp [TxEvent.isPoll]
        omega
    | false =>
      refine pacedAt_attempt ?_ ?_ (hi.imp_left Nat.succ_le_of_lt)
      · simp [TxEvent.isRefused]
        omega
      · simpa [TxEvent.isPoll] using hpolls
  | @poll i waited response _ hpoll =>
    obtain ⟨hposts, hpolls, hwaited, hi⟩ := h
    have hlt : waited < 10000 := hwaited
    have hpolls' : 100 * (pollCount run + 1) + 10000 = 10000 * posts run + (waited + 100) := by omega
    have hwaited' : waited + 100 ≤ resonseWaitTime := by
      have : waited + 100 ≤ 10000 := by omega
      exact this
    have hwaits : PacedAt req (posts run) (refusedPosts run) (pollCount run + 1) (waitOn req i (waited + 100)) :=
      pacedAt_waitOn hposts hpolls' hwaited' hi
    cases response with
    | none =>
      cases hpoll
      simpa [Paced, TxEvent.isRefused, TxEvent.isPoll] using hwaits
    | some msg =>
      simp only [afterPoll, bind_ok] at hpoll
      obtain ⟨effect, -, hpoll⟩ := hpoll
      cases effect with
      | none =>
        cases hpoll
        simpa [Paced, TxEvent.isRefused, TxEvent.isPoll] using hwaits
      | some effect =>
        cases hpoll
        simp only [Paced, PacedAt, posts_poll, refusedPosts_snoc, pollCount_snoc, TxEvent.isRefused,
          TxEvent.isPoll, Bool.toNat_false, Bool.toNat_true]
        refine ⟨by omega, by omega, ?_⟩
        exact hi.imp_left fun hlt => hposts ▸ Nat.succ_le_of_lt hlt

theorem Transmits.paced (h : Transmits msg req run phase) : Paced req run phase := by
  refine h.2.recorded ?_ fun _ _ _ _ hpaced hs => hpaced.step hs
  exact pacedAt_attempt rfl rfl (.inl (Nat.zero_le _))

theorem Paced.bounds (h : Paced req run phase) :
    pollCount run ≤ 100 * posts run ∧ 100 * posts run ≤ pollCount run + 100 ∧
      (posts run + refusedPosts run ≤ retransmissionCount ∨ req.sendIf = 1) := by
  cases phase with
  | posting i =>
    obtain ⟨hposts, hpolls, hi⟩ := h
    exact ⟨by omega, by omega, hi.imp_left fun hlt => by omega⟩
  | waiting i waited =>
    obtain ⟨hposts, hpolls, hwaited, hi⟩ := h
    have hlt : waited < 10000 := hwaited
    exact ⟨by omega, by omega, hi.imp_left fun hlt => by omega⟩
  | broken effect =>
    obtain ⟨hle, hlt, hi⟩ := h
    exact ⟨hle, by omega, hi⟩
  | exhausted =>
    obtain ⟨hposts, hpolls, -⟩ := h
    exact ⟨by omega, by omega, .inl (Nat.le_of_eq hposts)⟩

/-- A request is posted again only when the post before was refused or was waited on for the
whole time, in 100 polls. Only the registration is posted more than 50 times: any other
request leaves the loops after 5050 steps at most, and is given up only after 50 posts. -/
theorem retransmission_paced (h : Transmits msg req run phase) :
    (∀ before x after taken, run = before ++ x :: after → x.2 = .post taken →
      pollCount before = 100 * posts before) ∧
    (req.sendIf ≠ 1 → posts run + refusedPosts run ≤ 50 ∧ run.length ≤ 5050 ∧
      sleptMs run ≤ 500000) ∧
    (phase = .exhausted → req.sendIf ≠ 1 ∧ posts run + refusedPosts run = 50 ∧
      sleptMs run = 10000 * posts run + 10 * refusedPosts run) := by
  refine ⟨?_, fun hif => ?_, ?_⟩
  · rintro before ⟨current, e⟩ after taken rfl rfl
    have hbefore : Transmits msg req before current := ⟨h.1, h.2.before⟩
    obtain ⟨next, hs⟩ := h.2.step_of_mem (List.mem_append_right _ List.mem_cons_self)
    cases hs
    obtain ⟨-, hpolls, -⟩ := hbefore.paced
    exact hpolls
  · obtain ⟨hpolls, -, hposts⟩ := h.paced.bounds
    have hle : posts run + refusedPosts run ≤ 50 := hposts.resolve_right hif
    refine ⟨hle, ?_, ?_⟩
    · rw [length_eq_counts]
      omega
    · unfold sleptMs
      omega
  · rintro rfl
    obtain ⟨hposts, hpolls, hif⟩ := h.paced
    refine ⟨hif, hposts, ?_⟩
    unfold sleptMs
    omega

theorem run_refused (req : TxRequest) (k : Nat) (hk : k ≤ retransmissionCount) :
    Run (TxStep req) (attempt req 0) ((List.range k).map fun i => (.posting i, .post false))
      (attempt req k) := by
  induction k with
  | zero => exact .start
  | succ k ih =>
    have hposting : attempt req k = .posting k := if_pos (.inl hk)
    have hrun := ih (Nat.le_of_succ_le hk)
    rw [hposting] at hrun
    rw [List.range_succ, List.map_append]
    exact hrun.step .post

theorem retransmission_paced_refused :
    ∃ run, Transmits (infoRequest ['8']) (infoTx ['8']) run .exhausted ∧
      posts run + refusedPosts run = 50 ∧ sleptMs run = 10000 * posts run + 10 * refusedPosts run := by
  have hrun := run_refused (infoTx ['8']) retransmissionCount (Nat.le_refl _)
  have htransmits : Transmits (infoRequest ['8']) (infoTx ['8']) _ .exhausted := ⟨rfl, hrun⟩
  exact ⟨_, htransmits, ((retransmission_paced htransmits).2.2 rfl).2⟩

end IoTware.LwMsg
