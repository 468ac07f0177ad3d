import Mathlib.Algebra.Group.Nat.Defs
import Mathlib.Data.Nat.Basic
import IoTware.Micro.EventTask

/-!
# Repeated processing

The loop that `base_task_type4` runs for an item: it calls the functions of the task
until a period is over, it has done so a number of times, or the task is stopped. The
period is converted to ticks, and the passes are counted, in 32 bits. Like the other
tasks, `base_task_type4` does not get there, as the loop around ends before its first
turn.
-/

namespace IoTware.Micro

variable {σ α β : Type}

/-- What the loop reads of `struct stProcessingParam`. -/
structure RepetitionParam where
  totalSleepMs : UInt32
  totalSleepCount : UInt32

inductive RepetitionExit
  | period | count | stopped
  deriving DecidableEq

structure Repetition (σ α β : Type) where
  memory : σ
  count : UInt32
  exit : Option RepetitionExit
  log : List (TaskAction α β)

/-- What a pass reads: the tick count, and whether the task is `STOPPED`. -/
structure Pass where
  currWakeTime : UInt32
  stopped : Bool

def iwMsToTicks (tickPeriodMs : UInt32) (ms : UInt32) : UInt32 := ms / tickPeriodMs

def xMaxPeriod (tickPeriodMs : UInt32) (pparam : RepetitionParam) : UInt32 :=
  iwMsToTicks tickPeriodMs (pparam.totalSleepMs * 1000)

def repeatActions (fns : TaskFns σ α β) (ti : TaskInfo) (m : σ) (queueNum : Nat) (item : α) :
    σ × List (TaskAction α β) :=
  let ((m, hasOutput), before) := callBefore fns m queueNum item
  let sent := if hasOutput then sendOutput (fns.outputPtr m) ti.outputPorts else []
  let (m, after) := callAfter fns m queueNum item
  (m, before ++ sent ++ after)

section
variable (fns : TaskFns σ α β) (ti : TaskInfo) (queueNum : Nat) (item : α)
  (tickPeriodMs : UInt32) (pparam : RepetitionParam)

def repeatPass (xFirstWakeTime : UInt32) (r : Repetition σ α β) (pass : Pass) :
    Repetition σ α β :=
  let xMaxPeriod := xMaxPeriod tickPeriodMs pparam
  let count := r.count + 1
  if r.exit.isSome then r
  else if xMaxPeriod ≠ 0 ∧ xMaxPeriod ≤ pass.currWakeTime - xFirstWakeTime then
    { r with count := count, exit := some .period }
  else if pparam.totalSleepCount ≠ 0 ∧ pparam.totalSleepCount < count then
    { r with count := count, exit := some .count }
  else if pass.stopped then { r with count := count, exit := some .stopped }
  else
    let (m, actions) := repeatActions fns ti r.memory queueNum item
    { r with count := count, memory := m, log := r.log ++ actions }

def repeated (xFirstWakeTime : UInt32) (passes : Nat → Pass) (memory : σ) : Nat → Repetition σ α β
  | 0 => { memory := memory, count := 0, exit := none, log := [] }
  | n + 1 => repeatPass fns ti queueNum item tickPeriodMs pparam xFirstWakeTime
      (repeated xFirstWakeTime passes memory n) (passes n)
end

-- ---------------------------------------------------------------------------
-- Time
-- ---------------------------------------------------------------------------

/-- The ticks since the start when the loop begins and at each of its passes. They do
not decrease, and 32 bits hold what has elapsed. -/
structure TimeTrace where
  first : Nat
  time : Nat → Nat
  first_le : first ≤ time 0
  mono : Monotone time
  short : ∀ n, time n - first < 2 ^ 32

def TimeTrace.elapsed (trace : TimeTrace) (n : Nat) : Nat := trace.time n - trace.first

def TimeTrace.passes (trace : TimeTrace) (stopped : Nat → Bool) (n : Nat) : Pass :=
  ⟨UInt32.ofNat (trace.time n), stopped n⟩

/-- There is a period, and `m * 1000` ms have elapsed. -/
def PeriodReached (tickPeriodMs totalSleepMs : UInt32) (elapsed : Nat) : Prop :=
  0 < totalSleepMs ∧ totalSleepMs.toNat * 1000 ≤ elapsed * tickPeriodMs.toNat

def TimeTrace.constant (elapsed : Nat) (h : elapsed < 2 ^ 32) : TimeTrace where
  first := 0
  time _ := elapsed
  first_le := Nat.zero_le _
  mono := fun _ _ _ => Nat.le_refl _
  short _ := h

theorem TimeTrace.first_le_time (trace : TimeTrace) (n : Nat) : trace.first ≤ trace.time n :=
  trace.first_le.trans (trace.mono (Nat.zero_le n))

theorem TimeTrace.toNat_sub (trace : TimeTrace) (n : Nat) :
    (UInt32.ofNat (trace.time n) - UInt32.ofNat trace.first).toNat = trace.elapsed n := by
  have hle := trace.first_le_time n
  have hshort := trace.short n
  unfold TimeTrace.elapsed
  rw [UInt32.toNat_sub, UInt32.toNat_ofNat', UInt32.toNat_ofNat']
  omega

-- ---------------------------------------------------------------------------
-- The test of the period
-- ---------------------------------------------------------------------------

def PeriodTest (tickPeriodMs : UInt32) (pparam : RepetitionParam) (elapsed : Nat) : Prop :=
  xMaxPeriod tickPeriodMs pparam ≠ 0 ∧ (xMaxPeriod tickPeriodMs pparam).toNat ≤ elapsed

/-- Either the product does not overflow, or less than a tick is left of it and the
period is longer than 32 bits of ticks. -/
def PeriodFits (tickPeriodMs totalSleepMs : UInt32) : Prop :=
  totalSleepMs.toNat * 1000 < 2 ^ 32 ∨
    totalSleepMs.toNat * 1000 % 2 ^ 32 < tickPeriodMs.toNat ∧
      2 ^ 32 * tickPeriodMs.toNat ≤ totalSleepMs.toNat * 1000

theorem toNat_xMaxPeriod (tickPeriodMs : UInt32) (pparam : RepetitionParam) :
    (xMaxPeriod tickPeriodMs pparam).toNat =
      pparam.totalSleepMs.toNat * 1000 % 2 ^ 32 / tickPeriodMs.toNat := by
  unfold xMaxPeriod iwMsToTicks
  rw [UInt32.toNat_div, UInt32.toNat_mul]
  rfl

theorem xMaxPeriod_ne_zero_iff {tickPeriodMs : UInt32} {pparam : RepetitionParam} :
    xMaxPeriod tickPeriodMs pparam ≠ 0 ↔ 0 < (xMaxPeriod tickPeriodMs pparam).toNat := by
  rw [Nat.pos_iff_ne_zero, not_iff_not, ← UInt32.toNat_inj]
  rfl

section
variable {tickPeriodMs : UInt32} {pparam : RepetitionParam}

theorem ticks_of_dvd (hT : tickPeriodMs.toNat ∣ 1000) :
    ∃ k, 0 < tickPeriodMs.toNat ∧ 0 < k ∧ ∀ m, m * 1000 = tickPeriodMs.toNat * (m * k) := by
  obtain ⟨k, hk⟩ := hT
  refine ⟨k, Nat.pos_of_ne_zero fun hzero => ?_, Nat.pos_of_ne_zero fun hzero => ?_, fun m => ?_⟩
  · rw [hzero, Nat.zero_mul] at hk
    omega
  · rw [hzero, Nat.mul_zero] at hk
    omega
  · rw [hk, Nat.mul_left_comm]

theorem periodReached_iff_ticks (hpos : 0 < tickPeriodMs.toNat)
    (hticks : ∀ m, m * 1000 = tickPeriodMs.toNat * (m * k)) :
    PeriodReached tickPeriodMs m elapsed ↔ 0 < m.toNat ∧ m.toNat * k ≤ elapsed := by
  unfold PeriodReached
  rw [hticks, Nat.mul_comm elapsed, Nat.mul_le_mul_left_iff hpos]
  exact Iff.rfl

theorem periodTest_iff_reached (hT : tickPeriodMs.toNat ∣ 1000)
    (hfits : PeriodFits tickPeriodMs pparam.totalSleepMs) (helapsed : elapsed < 2 ^ 32) :
    PeriodTest tickPeriodMs pparam elapsed ↔
      PeriodReached tickPeriodMs pparam.totalSleepMs elapsed := by
  obtain ⟨k, hpos, hk, hticks⟩ := ticks_of_dvd hT
  rw [periodReached_iff_ticks hpos hticks, PeriodTest, xMaxPeriod_ne_zero_iff, toNat_xMaxPeriod]
  rcases hfits with hfits | ⟨hrest, hlong⟩
  · rw [Nat.mod_eq_of_lt hfits, hticks, Nat.mul_div_cancel_left _ hpos,
      Nat.mul_pos_iff_of_pos_right hk]
  · have hlong : 2 ^ 32 ≤ pparam.totalSleepMs.toNat * k := by
      rw [hticks, Nat.mul_comm] at hlong
      exact Nat.le_of_mul_le_mul_left hlong hpos
    rw [Nat.div_eq_of_lt hrest]
    constructor
    · rintro ⟨hzero, _⟩
      exact absurd hzero (Nat.lt_irrefl 0)
    · rintro ⟨_, hle⟩
      omega

theorem exists_periodTest_wrong (hT : tickPeriodMs.toNat ∣ 1000)
    (hfits : ¬PeriodFits tickPeriodMs pparam.totalSleepMs) :
    ∃ elapsed < 2 ^ 32, ¬(PeriodTest tickPeriodMs pparam elapsed ↔
      PeriodReached tickPeriodMs pparam.totalSleepMs elapsed) := by
  obtain ⟨k, hpos, hk, hticks⟩ := ticks_of_dvd hT
  obtain ⟨hover, hshort⟩ := not_or.mp hfits
  have hm : 0 < pparam.totalSleepMs.toNat := by omega
  rcases Nat.lt_or_ge (pparam.totalSleepMs.toNat * 1000 % 2 ^ 32) tickPeriodMs.toNat with
    hrest | hrest
  · -- The test is never met, and the period is reached.
    refine ⟨pparam.totalSleepMs.toNat * k, ?_, fun hiff => ?_⟩
    · have hshort := fun hlong => hshort ⟨hrest, hlong⟩
      rw [hticks, Nat.mul_comm, Nat.mul_le_mul_left_iff hpos] at hshort
      exact Nat.lt_of_not_le hshort
    · have htest := hiff.mpr ((periodReached_iff_ticks hpos hticks).mpr ⟨hm, Nat.le_refl _⟩)
      refine htest.1 (UInt32.toNat_inj.mp ?_)
      rw [toNat_xMaxPeriod, Nat.div_eq_of_lt hrest]
      rfl
  · -- The test is met too early.
    refine ⟨(xMaxPeriod tickPeriodMs pparam).toNat, UInt32.toNat_lt _, fun hiff => ?_⟩
    have hperiod : 0 < (xMaxPeriod tickPeriodMs pparam).toNat := by
      rw [toNat_xMaxPeriod]
      exact Nat.div_pos hrest hpos
    have hreached := (periodReached_iff_ticks hpos hticks).mp
      (hiff.mp ⟨xMaxPeriod_ne_zero_iff.mpr hperiod, Nat.le_refl _⟩)
    have hle := Nat.mul_le_mul_left tickPeriodMs.toNat hreached.2
    have hdiv := Nat.mul_div_le (pparam.totalSleepMs.toNat * 1000 % 2 ^ 32) tickPeriodMs.toNat
    rw [← hticks, toNat_xMaxPeriod] at hle
    omega
end

-- ---------------------------------------------------------------------------
-- The passes
-- ---------------------------------------------------------------------------

def TaskAction.isBefore : TaskAction α β → Bool
  | .before => true
  | _ => false

def beforeCalls (log : List (TaskAction α β)) : Nat := log.countP TaskAction.isBefore

theorem beforeCalls_append (log actions : List (TaskAction α β)) :
    beforeCalls (log ++ actions) = beforeCalls log + beforeCalls actions := List.countP_append

theorem beforeCalls_sendOutput (output : β) (ports : List (Option ConnectLine)) :
    beforeCalls (sendOutput output ports : List (TaskAction α β)) = 0 := by
  induction ports with
  | nil => rfl
  | cons port ports ih =>
    cases port with
    | none => exact ih
    | some line => exact ih

theorem beforeCalls_repeatActions (fns : TaskFns σ α β) (ti : TaskInfo) (m : σ) (queueNum : Nat)
    (item : α) :
    beforeCalls (repeatActions fns ti m queueNum item).2 = if fns.beforeFn.isSome then 1 else 0 := by
  have hafter : ∀ m, beforeCalls (callAfter fns m queueNum item).2 = 0 := by
    intro m
    unfold callAfter
    cases fns.afterFn <;> rfl
  unfold repeatActions
  dsimp only
  rw [beforeCalls_append, beforeCalls_append, hafter, Nat.add_zero]
  unfold callBefore
  cases fns.beforeFn with
  | none => rfl
  | some beforeFn =>
    dsimp only
    split
    · rw [beforeCalls_sendOutput]
      rfl
    · rfl

section
variable {fns : TaskFns σ α β} {ti : TaskInfo} {queueNum : Nat} {item : α}
  {tickPeriodMs : UInt32} {pparam : RepetitionParam} {memory : σ}
  {trace : TimeTrace} {stopped : Nat → Bool}

def repeatedOn (fns : TaskFns σ α β) (ti : TaskInfo) (queueNum : Nat) (item : α)
    (tickPeriodMs : UInt32) (pparam : RepetitionParam) (memory : σ) (trace : TimeTrace)
    (stopped : Nat → Bool) (n : Nat) : Repetition σ α β :=
  repeated fns ti queueNum item tickPeriodMs pparam (UInt32.ofNat trace.first)
    (trace.passes stopped) memory n

theorem periodTest_iff (n : Nat) :
    (xMaxPeriod tickPeriodMs pparam ≠ 0 ∧
        xMaxPeriod tickPeriodMs pparam ≤
          (trace.passes stopped n).currWakeTime - UInt32.ofNat trace.first) ↔
      PeriodTest tickPeriodMs pparam (trace.elapsed n) := by
  unfold PeriodTest
  rw [UInt32.le_iff_toNat_le, TimeTrace.passes, trace.toNat_sub]

variable (r : Repetition σ α β) (n : Nat)

theorem repeatPass_exit_period_iff (hrun : r.exit = none) :
    (repeatPass fns ti queueNum item tickPeriodMs pparam (UInt32.ofNat trace.first) r
        (trace.passes stopped n)).exit = some .period ↔
      PeriodTest tickPeriodMs pparam (trace.elapsed n) := by
  unfold repeatPass
  rw [if_neg (by rw [hrun]; exact Bool.false_ne_true)]
  by_cases htest : PeriodTest tickPeriodMs pparam (trace.elapsed n)
  · rw [if_pos ((periodTest_iff n).mpr htest)]
    exact iff_of_true rfl htest
  · rw [if_neg (mt (periodTest_iff n).mp htest)]
    refine iff_of_false (fun h => ?_) htest
    split at h
    · cases h
    · split at h
      · cases h
      · rw [hrun] at h
        cases h

theorem repeatPass_of_count (hrun : r.exit = none)
    (htest : ¬PeriodTest tickPeriodMs pparam (trace.elapsed n))
    (hcount : pparam.totalSleepCount ≠ 0 ∧ pparam.totalSleepCount < r.count + 1) :
    repeatPass fns ti queueNum item tickPeriodMs pparam (UInt32.ofNat trace.first) r
      (trace.passes stopped n) = { r with count := r.count + 1, exit := some .count } := by
  unfold repeatPass
  rw [if_neg (by rw [hrun]; exact Bool.false_ne_true), if_neg (mt (periodTest_iff n).mp htest),
    if_pos hcount]

theorem repeatPass_of_runs (hrun : r.exit = none)
    (htest : ¬PeriodTest tickPeriodMs pparam (trace.elapsed n))
    (hcount : ¬(pparam.totalSleepCount ≠ 0 ∧ pparam.totalSleepCount < r.count + 1))
    (hstopped : stopped n = false) :
    repeatPass fns ti queueNum item tickPeriodMs pparam (UInt32.ofNat trace.first) r
      (trace.passes stopped n) =
        { r with
          count := r.count + 1
          memory := (repeatActions fns ti r.memory queueNum item).1
          log := r.log ++ (repeatActions fns ti r.memory queueNum item).2 } := by
  unfold repeatPass
  rw [if_neg (by rw [hrun]; exact Bool.false_ne_true), if_neg (mt (periodTest_iff n).mp htest),
    if_neg hcount, if_neg (by rw [TimeTrace.passes, hstopped]; exact Bool.false_ne_true)]
variable {n}

def Undisturbed (r : Nat → Repetition σ α β) (periodOver : Nat → Prop) (stopped : Nat → Bool) : Prop :=
  ∀ n, (r n).exit = none → ¬periodOver n ∧ stopped n = false

theorem repeatedOn_of_runs {limit : Nat}
    (hquiet : Undisturbed
      (repeatedOn fns ti queueNum item tickPeriodMs pparam memory trace stopped)
      (fun n => PeriodTest tickPeriodMs pparam (trace.elapsed n)) stopped)
    (hcount : ∀ n < limit, ¬(pparam.totalSleepCount ≠ 0 ∧
      pparam.totalSleepCount < UInt32.ofNat n + 1)) (hn : n ≤ limit) :
    let r := repeatedOn fns ti queueNum item tickPeriodMs pparam memory trace stopped n
    r.exit = none ∧ r.count = UInt32.ofNat n ∧
      beforeCalls r.log = if fns.beforeFn.isSome then n else 0 := by
  induction n with
  | zero =>
    refine ⟨rfl, rfl, ?_⟩
    split <;> rfl
  | succ n ih =>
    obtain ⟨hrun, hn', hcalls⟩ := ih (by omega)
    obtain ⟨htest, hstopped⟩ := hquiet n hrun
    dsimp only
    unfold repeatedOn repeated
    rw [← repeatedOn, repeatPass_of_runs _ n hrun htest (by rw [hn']; exact hcount n (by omega))
      hstopped]
    refine ⟨hrun, ?_, ?_⟩
    · rw [hn', ← UInt32.toNat_inj, UInt32.toNat_add, UInt32.toNat_ofNat', UInt32.toNat_ofNat']
      exact Nat.mod_add_mod _ _ _
    · rw [beforeCalls_append, hcalls, beforeCalls_repeatActions]
      split <;> rfl

/-- Only in the pass after it has run this often the count is over, if it can be. -/
theorem count_over_iff {count : UInt32} (hpos : 0 < count) (hn : n ≤ count.toNat) :
    (count ≠ 0 ∧ count < UInt32.ofNat n + 1) ↔ n = count.toNat ∧ count.toNat ≠ 2 ^ 32 - 1 := by
  have hlt := count.toNat_lt
  have hpos := UInt32.lt_iff_toNat_lt.mp hpos
  rw [and_iff_right (UInt32.pos_iff_ne_zero.mp (UInt32.lt_iff_toNat_lt.mpr hpos)),
    UInt32.lt_iff_toNat_lt, UInt32.toNat_add, UInt32.toNat_ofNat']
  change count.toNat < (n % 2 ^ 32 + 1) % 2 ^ 32 ↔ _
  omega
theorem repeatedOn_of_count (hpos : 0 < pparam.totalSleepCount)
    (hmax : pparam.totalSleepCount.toNat ≠ 2 ^ 32 - 1)
    (hquiet : Undisturbed
      (repeatedOn fns ti queueNum item tickPeriodMs pparam memory trace stopped)
      (fun n => PeriodTest tickPeriodMs pparam (trace.elapsed n)) stopped) :
    let r := repeatedOn fns ti queueNum item tickPeriodMs pparam memory trace stopped
      (pparam.totalSleepCount.toNat + 1)
    r.exit = some .count ∧
      beforeCalls r.log = if fns.beforeFn.isSome then pparam.totalSleepCount.toNat else 0 := by
  have hruns := repeatedOn_of_runs hquiet
    (fun n (hn : n < pparam.totalSleepCount.toNat) hover => Nat.ne_of_lt hn ((count_over_iff hpos hn.le).mp hover).1) (Nat.le_refl _)
  obtain ⟨hrun, hcount, hcalls⟩ := hruns
  have hover := (count_over_iff hpos (Nat.le_refl _)).mpr ⟨rfl, hmax⟩
  dsimp only
  unfold repeatedOn repeated
  rw [← repeatedOn, repeatPass_of_count _ _ hrun (hquiet _ hrun).1 (by rw [hcount]; exact hover)]
  exact ⟨rfl, hcalls⟩

theorem repeatedOn_of_max (hmax : pparam.totalSleepCount.toNat = 2 ^ 32 - 1)
    (hquiet : Undisturbed
      (repeatedOn fns ti queueNum item tickPeriodMs pparam memory trace stopped)
      (fun n => PeriodTest tickPeriodMs pparam (trace.elapsed n)) stopped) :
    (repeatedOn fns ti queueNum item tickPeriodMs pparam memory trace stopped n).exit = none := by
  refine (repeatedOn_of_runs hquiet (fun n _ hover => ?_) (Nat.le_refl n)).1
  have hover := UInt32.lt_iff_toNat_lt.mp hover.2
  have hlt := (UInt32.ofNat n + 1).toNat_lt
  rw [hmax] at hover
  change 4294967295 < _ at hover
  omega

theorem beforeCalls_repeatedOn_of_none (hnone : ¬fns.beforeFn.isSome) :
    beforeCalls (repeatedOn fns ti queueNum item tickPeriodMs pparam memory trace stopped n).log =
      0 := by
  induction n with
  | zero => rfl
  | succ n ih =>
    unfold repeatedOn repeated
    rw [← repeatedOn]
    unfold repeatPass
    dsimp only
    split_ifs
    case neg =>
      rw [beforeCalls_append, ih, beforeCalls_repeatActions, if_neg hnone]
    all_goals exact ih

-- ---------------------------------------------------------------------------
-- Exactly when the bounds are right
-- ---------------------------------------------------------------------------

/-- A pass of the loop ends it at the test of the period exactly when the period is
reached. -/
def PeriodRight (tickPeriodMs totalSleepMs : UInt32) (trace : TimeTrace)
    (r : Nat → Repetition σ α β) : Prop :=
  ∀ n, (r n).exit = none →
    ((r (n + 1)).exit = some .period ↔ PeriodReached tickPeriodMs totalSleepMs (trace.elapsed n))

/-- A loop with a count that is not disturbed ends, and has called `before_fn` this often. -/
def CountRight (tickPeriodMs : UInt32) (pparam : RepetitionParam) (trace : TimeTrace)
    (stopped : Nat → Bool) (r : Nat → Repetition σ α β) : Prop :=
  0 < pparam.totalSleepCount →
    Undisturbed r
      (fun n => PeriodReached tickPeriodMs pparam.totalSleepMs (trace.elapsed n)) stopped →
    ∃ n, (r n).exit.isSome ∧ beforeCalls (r n).log = pparam.totalSleepCount.toNat

def BoundsRight (fns : TaskFns σ α β) (ti : TaskInfo) (queueNum : Nat) (item : α)
    (tickPeriodMs : UInt32) (pparam : RepetitionParam) (memory : σ) : Prop :=
  ∀ trace stopped,
    let r := repeatedOn fns ti queueNum item tickPeriodMs pparam memory trace stopped
    PeriodRight tickPeriodMs pparam.totalSleepMs trace r ∧
      CountRight tickPeriodMs pparam trace stopped r

theorem repeatedOn_exit_period_iff (hrun : (repeatedOn fns ti queueNum item tickPeriodMs pparam
    memory trace stopped n).exit = none) :
    (repeatedOn fns ti queueNum item tickPeriodMs pparam memory trace stopped (n + 1)).exit =
        some .period ↔ PeriodTest tickPeriodMs pparam (trace.elapsed n) :=
  repeatPass_exit_period_iff _ n hrun

/-- With the test of the period wrong for some time, the loop is wrong when this time has
elapsed before its first pass. -/
theorem periodFits_of_right (hT : tickPeriodMs.toNat ∣ 1000)
    (h : ∀ trace, PeriodRight tickPeriodMs pparam.totalSleepMs trace
      (repeatedOn fns ti queueNum item tickPeriodMs pparam memory trace fun _ => false)) :
    PeriodFits tickPeriodMs pparam.totalSleepMs := by
  by_contra hfits
  obtain ⟨elapsed, hshort, hwrong⟩ := exists_periodTest_wrong hT hfits
  have hright := h (.constant elapsed hshort) 0 rfl
  rw [repeatedOn_exit_period_iff rfl] at hright
  exact hwrong hright

theorem undisturbed_constant {r : Nat → Repetition σ α β} :
    Undisturbed r (fun n => PeriodReached tickPeriodMs pparam.totalSleepMs
      ((TimeTrace.constant 0 (by decide)).elapsed n)) fun _ => false := by
  rintro n -
  refine ⟨?_, rfl⟩
  rintro ⟨hm, hreached⟩
  have hm := UInt32.lt_iff_toNat_lt.mp hm
  change 0 < _ at hm
  change _ ≤ 0 * _ at hreached
  omega

/-- The bounds are right on every trace exactly when the period fits, the count is not
the largest one, and there is a `before_fn` where there is a count. -/
theorem boundsRight_iff (hT : tickPeriodMs.toNat ∣ 1000) :
    BoundsRight fns ti queueNum item tickPeriodMs pparam memory ↔
      PeriodFits tickPeriodMs pparam.totalSleepMs ∧ pparam.totalSleepCount.toNat ≠ 2 ^ 32 - 1 ∧
        (0 < pparam.totalSleepCount → fns.beforeFn.isSome) := by
  constructor
  · intro h
    have hfits : PeriodFits tickPeriodMs pparam.totalSleepMs :=
      periodFits_of_right hT fun trace => (h trace _).1
    have hcount := (h (.constant 0 (by decide)) fun _ => false).2
    have hquiet : ∀ r : Nat → Repetition σ α β, Undisturbed r
        (fun n => PeriodTest tickPeriodMs pparam
          ((TimeTrace.constant 0 (by decide)).elapsed n)) fun _ => false := by
      intro r n hrun
      refine ⟨fun htest => ?_, rfl⟩
      exact (undisturbed_constant n hrun).1
        ((periodTest_iff_reached hT hfits (TimeTrace.short _ n)).mp htest)
    have hmax : pparam.totalSleepCount.toNat ≠ 2 ^ 32 - 1 := by
      intro hmax
      obtain ⟨n, hend, _⟩ := hcount (UInt32.lt_iff_toNat_lt.mpr (by rw [hmax]; decide)) undisturbed_constant
      rw [repeatedOn_of_max hmax (hquiet _)] at hend
      exact Bool.false_ne_true hend
    refine ⟨hfits, hmax, fun hpos => ?_⟩
    obtain ⟨n, _, hcalls⟩ := hcount hpos undisturbed_constant
    by_contra hnone
    rw [beforeCalls_repeatedOn_of_none hnone] at hcalls
    exact Nat.ne_of_lt (UInt32.lt_iff_toNat_lt.mp hpos) hcalls
  · rintro ⟨hfits, hmax, hbefore⟩ trace stopped
    have htest : ∀ n, PeriodTest tickPeriodMs pparam (trace.elapsed n) ↔
        PeriodReached tickPeriodMs pparam.totalSleepMs (trace.elapsed n) := fun n =>
      periodTest_iff_reached hT hfits (trace.short n)
    refine ⟨fun n hrun => ?_, fun hpos hquiet => ?_⟩
    · rw [repeatedOn_exit_period_iff hrun]
      exact htest n
    · obtain ⟨hend, hcalls⟩ := repeatedOn_of_count hpos hmax fun n hrun =>
        ⟨mt (htest n).mp (hquiet n hrun).1, (hquiet n hrun).2⟩
      refine ⟨_, ?_, hcalls.trans (if_pos (hbefore hpos))⟩
      rw [hend]
      rfl
end

def sampleRepeating : TaskFns Unit Unit Unit := ⟨some fun _ _ _ => ((), true), none, fun _ => ()⟩

theorem boundsRight_sample :
    BoundsRight sampleRepeating sampleEventTask 0 () 10 ⟨1, 3⟩ () := by
  rw [boundsRight_iff (by decide)]
  exact ⟨.inl (by decide), by decide, fun _ => rfl⟩

/-- With a period of more than 49 days, the loop ends after 70 ticks of 10 ms. -/
theorem period_overflows :
    ¬BoundsRight sampleRepeating sampleEventTask 0 () 10 ⟨4294968, 0⟩ () := by
  intro h
  have hright := (h (.constant 70 (by decide)) fun _ => false).1 0 rfl
  rw [repeatedOn_exit_period_iff rfl] at hright
  have hreached := (hright.mp ⟨by decide, by decide⟩).2
  exact absurd hreached (by decide)

end IoTware.Micro
