import Mathlib.Logic.Relation
import IoTware.Oal.Fifo

/-!
# FIFOs between tasks

One task puts while another one gets, and between any two accesses to what they
share the other one may go on. The positions are the only words both tasks read
and either writes.
-/

namespace IoTware.Oal

open Memory Ring Runs

-- ---------------------------------------------------------------------------
-- Calls under way
-- ---------------------------------------------------------------------------

/-- How far a call of `iw_put_fifo` is. -/
inductive PutCall
  | idle
  | test (pdata : Nat) (putNextPos : Int32)
  | copy (pdata : Nat) (putNextPos : Int32) (rest : Copy)

/-- How far a call of `iw_get_fifo` is. -/
inductive GetCall
  | idle
  | test (pdata : Nat)
  | copy (pdata : Nat) (rest : Copy)

def PutCall.pdata? : PutCall → Option Nat
  | .idle => none
  | .test pdata _ => some pdata
  | .copy pdata _ _ => some pdata

def GetCall.pdata? : GetCall → Option Nat
  | .idle => none
  | .test pdata => some pdata
  | .copy pdata _ => some pdata

structure Tasks where
  mem : Bytes
  fifo : Fifo
  put : PutCall
  get : GetCall

def turnSize (c : Copy) : Nat := if 4 ≤ c.len then 4 else 1

def Unchanged (mem mem' : Bytes) (size : Nat) (pdata? : Option Nat) : Prop :=
  ∀ p ∈ pdata?, ∀ b, p ≤ b → b < p + size → mem' b = mem b

/-- A step of one of the tasks. A call takes effect where it stores its position, or
where its test fails. -/
inductive TaskStep (s : Tasks) : Option (QueueEvent (List UInt8)) → Tasks → Prop
  | caller (hbuffer : ∀ b, InBuffer s.fifo b → mem' b = s.mem b)
      (hput : Unchanged s.mem mem' s.fifo.blockSize.toNat s.put.pdata?)
      (hget : Unchanged s.mem mem' s.fifo.blockSize.toNat s.get.pdata?) :
      TaskStep s none { s with mem := mem' }
  | callPut (hcall : s.put = .idle) (hpdata : CallerBlock s.fifo pdata)
      (hapart : ∀ p ∈ s.get.pdata?,
        Apart pdata s.fifo.blockSize.toNat p s.fifo.blockSize.toNat) :
      TaskStep s none { s with put := .test pdata (putFifoNext s.fifo).toInt32 }
  | full (hcall : s.put = .test pdata next) (htest : ¬s.fifo.getPos ≠ next.toUInt32) :
      TaskStep s (some (.put (block s.mem pdata s.fifo.blockSize.toNat) false))
        { s with put := .idle }
  | room (hcall : s.put = .test pdata next) (htest : s.fifo.getPos ≠ next.toUInt32) :
      TaskStep s none
        { s with put := .copy pdata next ⟨putFifoPtr s.fifo, pdata, s.fifo.blockSize.toNat⟩ }
  | copyPut (hcall : s.put = .copy pdata next c) (hlen : c.len ≠ 0) :
      TaskStep s none
        { s with
          mem := assign s.mem c.dx c.sx (turnSize c)
          put := .copy pdata next (c.piece (turnSize c)) }
  | put (hcall : s.put = .copy pdata next c) (hlen : c.len = 0) :
      TaskStep s (some (.put (block s.mem pdata s.fifo.blockSize.toNat) true))
        { s with fifo := { s.fifo with putPos := next.toUInt32 }, put := .idle }
  | callGet (hcall : s.get = .idle) (hpdata : CallerBlock s.fifo pdata)
      (hapart : ∀ p ∈ s.put.pdata?,
        Apart p s.fifo.blockSize.toNat pdata s.fifo.blockSize.toNat) :
      TaskStep s none { s with get := .test pdata }
  | empty (hcall : s.get = .test pdata) (htest : ¬s.fifo.putPos ≠ s.fifo.getPos) :
      TaskStep s (some (.get none)) { s with get := .idle }
  | waiting (hcall : s.get = .test pdata) (htest : s.fifo.putPos ≠ s.fifo.getPos) :
      TaskStep s none
        { s with get := .copy pdata ⟨pdata, getFifoPtr s.fifo, s.fifo.blockSize.toNat⟩ }
  | copyGet (hcall : s.get = .copy pdata c) (hlen : c.len ≠ 0) :
      TaskStep s none
        { s with
          mem := assign s.mem c.dx c.sx (turnSize c)
          get := .copy pdata (c.piece (turnSize c)) }
  | get (hcall : s.get = .copy pdata c) (hlen : c.len = 0) :
      TaskStep s (some (.get (some (block s.mem pdata s.fifo.blockSize.toNat))))
        { s with fifo := { s.fifo with getPos := getFifoNext s.fifo }, get := .idle }

theorem turnSize_le {c : Copy} (hlen : c.len ≠ 0) : turnSize c ≤ c.len := by
  unfold turnSize
  split <;> omega

theorem inlineMemcpy_turn (mem : Bytes) (c : Copy) (hlen : c.len ≠ 0) :
    inlineMemcpy mem c.dx c.sx c.len =
      inlineMemcpy (assign mem c.dx c.sx (turnSize c)) (c.piece (turnSize c)).dx
        (c.piece (turnSize c)).sx (c.piece (turnSize c)).len := by
  obtain ⟨d, s, len⟩ := c
  match len with
  | 1 | 2 | 3 => rfl
  | len + 4 => simp [inlineMemcpy, Copy.piece, turnSize]

-- ---------------------------------------------------------------------------
-- Calls that are not interrupted
-- ---------------------------------------------------------------------------

def Silently : Tasks → Tasks → Prop := Relation.ReflTransGen fun s s' => TaskStep s none s'

theorem silently_copies (state : Bytes → Copy → Tasks)
    (hturn : ∀ mem c, c.len ≠ 0 →
      TaskStep (state mem c) none
        (state (assign mem c.dx c.sx (turnSize c)) (c.piece (turnSize c))))
    (mem : Bytes) (c : Copy) :
    ∃ c', c'.len = 0 ∧ Silently (state mem c) (state (inlineMemcpy mem c.dx c.sx c.len) c') := by
  induction hn : c.len using Nat.strongRecOn generalizing mem c with
  | _ n ih =>
    by_cases hlen : c.len = 0
    · obtain rfl : n = 0 := hn.symm.trans hlen
      exact ⟨c, hlen, .refl⟩
    · have hlt : (c.piece (turnSize c)).len < n := by
        simp only [Copy.piece, turnSize]
        split <;> omega
      obtain ⟨c', hlen', hrest⟩ := ih _ hlt _ (c.piece (turnSize c)) rfl
      rw [← hn, inlineMemcpy_turn mem c hlen]
      exact ⟨c', hlen', .head (hturn mem c hlen) hrest⟩

theorem silently_put (h : Holds n mem f q) (hpdata : CallerBlock f pdata)
    (hput : iwPutFifo mem f pdata = (mem', f', answer)) :
    ∃ s, Silently ⟨mem, f, .idle, .idle⟩ s ∧
      TaskStep s (some (.put (block mem pdata f.blockSize.toNat) (answer = .success)))
        ⟨mem', f', .idle, .idle⟩ := by
  have hstart : Silently _ _ := .single (.callPut (s := ⟨mem, f, .idle, .idle⟩) rfl hpdata nofun)
  unfold iwPutFifo at hput
  dsimp only at hput
  split at hput
  next htest =>
    cases hput
    obtain ⟨c, hlen, hcopies⟩ := silently_copies
      (fun mem c => ⟨mem, f, .copy pdata (putFifoNext f).toInt32 c, .idle⟩)
      (fun mem c hlen => .copyPut rfl hlen) mem ⟨putFifoPtr f, pdata, f.blockSize.toNat⟩
    have hblock : block (inlineMemcpy mem (putFifoPtr f) pdata f.blockSize.toNat) pdata
        f.blockSize.toNat = block mem pdata f.blockSize.toNat := by
      have hapart := slot_apart h.putPos_lt hpdata
      rw [h.putPtr, inlineMemcpy_eq mem hapart, block_assign_of_apart mem hapart]
    refine ⟨_, (hstart.tail (.room rfl htest)).trans hcopies, ?_⟩
    rw [← hblock]
    exact .put rfl hlen
  next htest =>
    cases hput
    exact ⟨_, hstart, .full rfl htest⟩

theorem silently_get (hpdata : CallerBlock f pdata)
    (hget : iwGetFifo mem f pdata = (mem', f', answer)) :
    ∃ s, Silently ⟨mem, f, .idle, .idle⟩ s ∧
      TaskStep s (some (.get
        (if answer = .success then some (block mem' pdata f.blockSize.toNat) else none)))
        ⟨mem', f', .idle, .idle⟩ := by
  have hstart : Silently _ _ := .single (.callGet (s := ⟨mem, f, .idle, .idle⟩) rfl hpdata nofun)
  unfold iwGetFifo at hget
  split at hget
  next htest =>
    cases hget
    obtain ⟨c, hlen, hcopies⟩ := silently_copies (fun mem c => ⟨mem, f, .idle, .copy pdata c⟩)
      (fun mem c hlen => .copyGet rfl hlen) mem ⟨pdata, getFifoPtr f, f.blockSize.toNat⟩
    refine ⟨_, (hstart.tail (.waiting rfl htest)).trans hcopies, ?_⟩
    exact .get rfl hlen
  next htest =>
    cases hget
    exact ⟨_, hstart, .empty rfl htest⟩

theorem silently_fifoStep (h : Holds n mem f q) (hstep : FifoStep (mem, f) (some e) (mem', f'))
    (hcall : e ≠ .flush ∧ ∀ k, e ≠ .count k) :
    ∃ s, Silently ⟨mem, f, .idle, .idle⟩ s ∧ TaskStep s (some e) ⟨mem', f', .idle, .idle⟩ := by
  cases hstep with
  | put hpdata hput => exact silently_put h hpdata hput
  | get hpdata hget => exact silently_get hpdata hget
  | count => exact absurd rfl (hcall.2 _)
  | flush => exact absurd rfl hcall.1

-- ---------------------------------------------------------------------------
-- What holds between two steps
-- ---------------------------------------------------------------------------

/-- A call that copies has room, and keeps it: only the other task changes the queue,
and it makes it shorter. -/
def PutCall.Sound (n : Nat) (mem : Bytes) (f : Fifo) (q : List (List UInt8)) : PutCall → Prop
  | .idle => True
  | .test pdata next => CallerBlock f pdata ∧ next = (putFifoNext f).toInt32
  | .copy pdata next c =>
    CallerBlock f pdata ∧ next = (putFifoNext f).toInt32 ∧ q.length < n - 1 ∧
      Copied mem (putFifoPtr f) pdata f.blockSize.toNat c

def GetCall.Sound (mem : Bytes) (f : Fifo) (q : List (List UInt8)) : GetCall → Prop
  | .idle => True
  | .test pdata => CallerBlock f pdata
  | .copy pdata c =>
    CallerBlock f pdata ∧ q ≠ [] ∧ Copied mem pdata (getFifoPtr f) f.blockSize.toNat c

structure Serves (n : Nat) (s : Tasks) (q : List (List UInt8)) : Prop where
  holds : Holds n s.mem s.fifo q
  put : s.put.Sound n s.mem s.fifo q
  get : s.get.Sound s.mem s.fifo q
  apart : ∀ p ∈ s.put.pdata?, ∀ p' ∈ s.get.pdata?,
    Apart p s.fifo.blockSize.toNat p' s.fifo.blockSize.toNat

theorem PutCall.Sound.callerBlock {put : PutCall} (h : put.Sound n mem f q) (hp : p ∈ put.pdata?) :
    CallerBlock f p := by
  cases put with
  | idle => cases hp
  | test => cases hp; exact h.1
  | copy => cases hp; exact h.1

theorem GetCall.Sound.callerBlock {get : GetCall} (h : get.Sound mem f q) (hp : p ∈ get.pdata?) :
    CallerBlock f p := by
  cases get with
  | idle => cases hp
  | test => cases hp; exact h
  | copy => cases hp; exact h.1

theorem PutCall.Sound.congr {put : PutCall} (h : put.Sound n mem f q)
    (hslot : ∀ b, putFifoPtr f ≤ b → b < putFifoPtr f + f.blockSize.toNat → mem' b = mem b)
    (hblock : Unchanged mem mem' f.blockSize.toNat put.pdata?) : put.Sound n mem' f q := by
  cases put with
  | idle => exact h
  | test => exact h
  | copy pdata =>
    obtain ⟨hpdata, hnext, hroom, hcopied⟩ := h
    exact ⟨hpdata, hnext, hroom, hcopied.congr hslot (hblock pdata rfl)⟩

theorem GetCall.Sound.congr {get : GetCall} (h : get.Sound mem f q)
    (hslot : q ≠ [] → ∀ b, getFifoPtr f ≤ b → b < getFifoPtr f + f.blockSize.toNat → mem' b = mem b)
    (hblock : Unchanged mem mem' f.blockSize.toNat get.pdata?) : get.Sound mem' f q := by
  cases get with
  | idle => exact h
  | test => exact h
  | copy pdata =>
    obtain ⟨hpdata, hne, hcopied⟩ := h
    exact ⟨hpdata, hne, hcopied.congr (hblock pdata rfl) (hslot hne)⟩

section

variable {n : Nat} {s : Tasks} {q : List (List UInt8)}

theorem Holds.put_inBuffer (h : Holds n mem f q) (hb : putFifoPtr f ≤ b)
    (hlt : b < putFifoPtr f + f.blockSize.toNat) : InBuffer f b := by
  rw [h.putPtr] at hb hlt
  exact slot_inBuffer h.putPos_lt hb hlt

theorem Holds.get_inBuffer (h : Holds n mem f q) (hb : getFifoPtr f ≤ b)
    (hlt : b < getFifoPtr f + f.blockSize.toNat) : InBuffer f b := by
  rw [h.getPtr] at hb hlt
  exact slot_inBuffer h.getPos_lt hb hlt

theorem Serves.caller (h : Serves n s q) (hbuffer : ∀ b, InBuffer s.fifo b → mem' b = s.mem b)
    (hput : Unchanged s.mem mem' s.fifo.blockSize.toNat s.put.pdata?)
    (hget : Unchanged s.mem mem' s.fifo.blockSize.toNat s.get.pdata?) :
    Serves n { s with mem := mem' } q where
  holds := h.holds.caller hbuffer
  put := h.put.congr (fun b hb hlt => hbuffer b (h.holds.put_inBuffer hb hlt)) hput
  get := h.get.congr (fun _ b hb hlt => hbuffer b (h.holds.get_inBuffer hb hlt)) hget
  apart := h.apart

theorem Serves.callPut (h : Serves n s q) (hpdata : CallerBlock s.fifo pdata)
    (hapart : ∀ p ∈ s.get.pdata?, Apart pdata s.fifo.blockSize.toNat p s.fifo.blockSize.toNat) :
    Serves n { s with put := .test pdata (putFifoNext s.fifo).toInt32 } q where
  holds := h.holds
  put := ⟨hpdata, rfl⟩
  get := h.get
  apart p hp p' hp' := by
    cases hp
    exact hapart p' hp'

theorem Serves.callGet (h : Serves n s q) (hpdata : CallerBlock s.fifo pdata)
    (hapart : ∀ p ∈ s.put.pdata?, Apart p s.fifo.blockSize.toNat pdata s.fifo.blockSize.toNat) :
    Serves n { s with get := .test pdata } q where
  holds := h.holds
  put := h.put
  get := hpdata
  apart p hp p' hp' := by
    cases hp'
    exact hapart p hp

theorem Serves.idlePut (h : Serves n s q) : Serves n { s with put := .idle } q where
  holds := h.holds
  put := trivial
  get := h.get
  apart p hp := by cases hp

theorem Serves.idleGet (h : Serves n s q) : Serves n { s with get := .idle } q where
  holds := h.holds
  put := h.put
  get := trivial
  apart p _ p' hp' := by cases hp'

theorem Serves.copyPut (h : Serves n s q) (hcall : s.put = .copy pdata next c)
    (hlen : c.len ≠ 0) :
    Serves n
      { s with
        mem := assign s.mem c.dx c.sx (turnSize c)
        put := .copy pdata next (c.piece (turnSize c)) } q := by
  have hput := h.put
  have hblocks := h.apart
  rw [hcall] at hput hblocks
  obtain ⟨hpdata, hnext, hroom, hcopied⟩ := hput
  have hn := turnSize_le hlen
  have hout : ∀ p m, Apart (putFifoPtr s.fifo) s.fifo.blockSize.toNat p m →
      ∀ b, p ≤ b → b < p + m → assign s.mem c.dx c.sx (turnSize c) b = s.mem b :=
    fun p m ha b => hcopied.assign_of_apart hn ha
  refine ⟨⟨h.holds.fits, h.holds.blocks, ?_⟩, ⟨hpdata, hnext, hroom, ?_⟩, ?_, hblocks⟩
  · refine h.holds.ring.congr_free fun p _ hne => block_congr (hout _ _ ?_)
    rw [h.holds.putPtr]
    exact slots_apart s.fifo.blockPdata (Ne.symm hne)
  · refine hcopied.piece ?_ hn
    rw [h.holds.putPtr]
    exact slot_apart h.holds.putPos_lt hpdata
  · refine h.get.congr (fun hne => hout _ _ ?_) fun p hp => hout _ _ ?_
    · rw [h.holds.putPtr, h.holds.getPtr]
      exact slots_apart s.fifo.blockPdata fun heq => hne (h.holds.ring.put_eq_get_iff.mp heq)
    · rw [h.holds.putPtr]
      exact slot_apart h.holds.putPos_lt (h.get.callerBlock hp)

theorem Serves.copyGet (h : Serves n s q) (hcall : s.get = .copy pdata c) (hlen : c.len ≠ 0) :
    Serves n
      { s with
        mem := assign s.mem c.dx c.sx (turnSize c)
        get := .copy pdata (c.piece (turnSize c)) } q := by
  have hget := h.get
  have hblocks := h.apart
  rw [hcall] at hget hblocks
  obtain ⟨hpdata, hne, hcopied⟩ := hget
  have hn := turnSize_le hlen
  have hbuffer : ∀ b, InBuffer s.fifo b → assign s.mem c.dx c.sx (turnSize c) b = s.mem b :=
    fun b hb => hcopied.assign_of_apart hn hpdata.symm hb.1 hb.2
  refine ⟨h.holds.caller hbuffer, ?_, ⟨hpdata, hne, ?_⟩, hblocks⟩
  · refine h.put.congr (fun b hb hlt => hbuffer b (h.holds.put_inBuffer hb hlt)) fun p hp b => ?_
    exact hcopied.assign_of_apart hn (hblocks p hp pdata rfl).symm
  · refine hcopied.piece ?_ hn
    rw [h.holds.getPtr]
    exact (slot_apart h.holds.getPos_lt hpdata).symm

theorem Serves.put_done (h : Serves n s q) (hcall : s.put = .copy pdata next c)
    (hlen : c.len = 0) :
    q.length < n - 1 ∧
      Serves n { s with fifo := { s.fifo with putPos := next.toUInt32 }, put := .idle }
        (q ++ [block s.mem pdata s.fifo.blockSize.toNat]) := by
  have hput := h.put
  rw [hcall] at hput
  obtain ⟨hpdata, rfl, hroom, hcopied⟩ := hput
  have hblock := hcopied.done hlen
  rw [h.holds.putPtr] at hblock
  refine ⟨hroom, ⟨h.holds.fits, h.holds.blocks, ?_⟩, trivial, ?_, fun p hp => by cases hp⟩
  · dsimp only
    rw [UInt32.toUInt32_toInt32, h.holds.putNext]
    exact h.holds.ring.push hroom hblock fun _ _ _ => rfl
  · have hget := h.get
    cases hcons : s.get with
    | idle => trivial
    | test => rwa [hcons] at hget
    | copy =>
      rw [hcons] at hget
      exact ⟨hget.1, by simp, hget.2.2⟩

theorem Serves.get_done (h : Serves n s q) (hcall : s.get = .copy pdata c) (hlen : c.len = 0) :
    ∃ q', q = block s.mem pdata s.fifo.blockSize.toNat :: q' ∧
      Serves n { s with fifo := { s.fifo with getPos := getFifoNext s.fifo }, get := .idle } q' := by
  have hget := h.get
  rw [hcall] at hget
  obtain ⟨hpdata, hne, hcopied⟩ := hget
  obtain ⟨b, q', rfl⟩ := List.exists_cons_of_ne_nil hne
  have hblock := hcopied.done hlen
  rw [h.holds.getPtr] at hblock
  have hfirst := h.holds.ring.first
  unfold slot at hfirst
  rw [hblock, hfirst]
  refine ⟨q', rfl, ⟨h.holds.fits, h.holds.blocks, ?_⟩, ?_, trivial, fun _ _ p' hp' => by cases hp'⟩
  · dsimp only
    rw [getFifoNext, toNat_next h.holds.getPos_lt, h.holds.blocks]
    exact h.holds.ring.pop
  · have hput := h.put
    cases hprod : s.put with
    | idle => trivial
    | test => rwa [hprod] at hput
    | copy =>
      rw [hprod] at hput
      exact ⟨hput.1, hput.2.1, Nat.lt_of_succ_lt hput.2.2.1, hput.2.2.2⟩

theorem Serves.silent (h : Serves n s q) (hstep : TaskStep s none s') : Serves n s' q := by
  cases hstep with
  | caller hbuffer hput hget => exact h.caller hbuffer hput hget
  | callPut hcall hpdata hapart => exact h.callPut hpdata hapart
  | callGet hcall hpdata hapart => exact h.callGet hpdata hapart
  | copyPut hcall hlen => exact h.copyPut hcall hlen
  | copyGet hcall hlen => exact h.copyGet hcall hlen
  | room hcall htest =>
    have hput := h.put
    have hblocks := h.apart
    rw [hcall] at hput hblocks
    obtain ⟨hpdata, rfl⟩ := hput
    exact ⟨h.holds, ⟨hpdata, rfl, h.holds.room_iff.mp htest, .start _ _ _ _⟩, h.get, hblocks⟩
  | waiting hcall htest =>
    have hget := h.get
    have hblocks := h.apart
    rw [hcall] at hget hblocks
    exact ⟨h.holds, h.put, ⟨hget, h.holds.nonempty_iff.mp htest, .start _ _ _ _⟩, hblocks⟩

theorem Serves.labelled (h : Serves n s q) (hstep : TaskStep s (some e) s') :
    ∃ q', QueueStep (n - 1) q e q' ∧ Serves n s' q' := by
  cases hstep with
  | full hcall htest =>
    have hput := h.put
    rw [hcall] at hput
    obtain ⟨-, rfl⟩ := hput
    exact ⟨q, .full fun hroom => htest (h.holds.room_iff.mpr hroom), h.idlePut⟩
  | put hcall hlen =>
    obtain ⟨hroom, hserves⟩ := h.put_done hcall hlen
    exact ⟨_, .put hroom, hserves⟩
  | empty hcall htest =>
    obtain rfl : q = [] := Classical.byContradiction fun hne =>
      htest (h.holds.nonempty_iff.mpr hne)
    exact ⟨[], .empty, h.idleGet⟩
  | get hcall hlen =>
    obtain ⟨q', rfl, hserves⟩ := h.get_done hcall hlen
    exact ⟨q', .get, hserves⟩

theorem taskStep_no_flush {s' : Tasks} : ¬TaskStep s (some .flush) s' := nofun

end

/-- However a task that puts and a task that gets interrupt each other, their calls take
effect one after another as those of a queue of one block less than there is room for:
what was got is what was put, in its order, and what was not got yet is waiting. -/
theorem fifoTasks_refine_queue {size count : UInt32} (hfits : size.toNat * count.toNat < 2 ^ 32)
    (hcount : 1 ≤ count.toNat)
    (hrun : Run TaskStep ⟨mem, (iwInitFifo pdata size count).1, .idle, .idle⟩ run s) :
    ∃ run' q, Run (QueueStep (count.toNat - 1)) [] run' q ∧
      run'.map Prod.snd = run.filterMap Prod.snd ∧
      (run.filterMap Prod.snd).filterMap QueueEvent.accepted =
        (run.filterMap Prod.snd).filterMap QueueEvent.answered ++ q ∧
      q.length ≤ count.toNat - 1 := by
  have hinit : Serves count.toNat ⟨mem, (iwInitFifo pdata size count).1, .idle, .idle⟩ [] :=
    ⟨iwInitFifo_holds mem pdata hfits hcount, trivial, trivial, fun p hp => by cases hp⟩
  obtain ⟨run', q, hrun', hevents, -⟩ := hrun.simulated hinit
    (fun _ _ _ _ h hstep => h.labelled hstep) (fun _ _ _ h hstep => h.silent hstep)
  have hflush : .flush ∉ run'.map Prod.snd := by
    rw [hevents]
    intro hmem
    obtain ⟨⟨t, e⟩, hx, rfl⟩ := List.mem_filterMap.mp hmem
    obtain ⟨t', hstep⟩ := hrun.step_of_mem hx
    exact taskStep_no_flush hstep
  have hblocks := run_queueStep_blocks hrun' hflush
  rw [hevents] at hblocks
  exact ⟨run', q, hrun', hevents, hblocks⟩

theorem fifoTasks_refine_queue_interrupted :
    ∃ run s, Run TaskStep ⟨UInt8.ofNat, (iwInitFifo 0 2 2).1, .idle, .idle⟩ run s ∧
      run.filterMap Prod.snd = [.get none, .put [4, 5] true, .get (some [4, 5])] ∧
      ∃ run' q, Run (QueueStep 1) [] run' q ∧
        run'.map Prod.snd = run.filterMap Prod.snd ∧
        (run.filterMap Prod.snd).filterMap QueueEvent.accepted =
          (run.filterMap Prod.snd).filterMap QueueEvent.answered ++ q ∧ q.length ≤ 1 := by
  have hstart : Run TaskStep ⟨UInt8.ofNat, (iwInitFifo 0 2 2).1, .idle, .idle⟩ [] _ := .start
  have hput := hstart.step (.callPut rfl (show CallerBlock _ 4 from .inl (by decide)) nofun)
  have hcopy := (hput.step (.room rfl (by decide))).step (.copyPut rfl (by decide))
  have hget := hcopy.step (.callGet rfl (show CallerBlock _ 6 from .inl (by decide))
    (by rintro p ⟨⟩; exact .inl (by decide)))
  have hempty := hget.step (.empty rfl (by decide))
  have hdone := (hempty.step (.copyPut rfl (by decide))).step (.put rfl rfl)
  have hagain := hdone.step (.callGet rfl (show CallerBlock _ 6 from .inl (by decide)) nofun)
  have hcopies := ((hagain.step (.waiting rfl (by decide))).step (.copyGet rfl (by decide))).step
    (.copyGet rfl (by decide))
  have hgot := hcopies.step (.get rfl rfl)
  exact ⟨_, _, hgot, rfl, fifoTasks_refine_queue (by decide) (by decide) hgot⟩

end IoTware.Oal
