import IoTware.Dist.Gate

/-!
# The conservation of messages

Every message the parser makes is held by a task, waits in a queue or was
deleted. Two ways lead out of this: a response that the response queue refuses,
and a request that its handler has answered itself.
-/

namespace IoTware.Dist

open CText LwMsg Micro Loops Runs

def RxTask.held : RxTask → List Nat
  | .receiving => []
  | .parsed m | .response m | .request m | .rejected m => [m.address]

def DistTask.held : DistTask → List Nat
  | .receiving => []
  | .received m => [m.address]
  | .answering m _ => (m.map Parsed.address).toList

def Polled.held : Polled → List Nat
  | .nothing => []
  | .unread m | .read m => [m.address]

def TxTask.held : TxTask → List Nat
  | .requesting _ _ polled => polled.held
  | _ => []

def System.waiting (s : System) : List Parsed := s.respQueue.getD []

/-- Where the messages are: the addresses in the tasks' variables, in the queues
and among the deleted ones. -/
def System.places (s : System) : List Nat :=
  s.rx.held ++ s.receiveQueue.map Parsed.address ++ s.dist.held ++
    s.waiting.map Parsed.address ++ s.tx.held ++ s.deleted

def Conserved (s : System) : Prop := ∀ a < s.created, s.places.count a = 1

inductive Leaks : System → Event → Prop
  | refused : s.rx = .response m → Leaks s (.rxSend false)
  | answered : s.dist = .received m → answeredByHandler s.services m.msg = true →
      Leaks s (.distHandle pf inits)

-- ---------------------------------------------------------------------------
-- What a step does to the messages
-- ---------------------------------------------------------------------------

/-- The messages stay or move, or the parser makes one. -/
def Keeps (s s' : System) : Prop :=
  s'.created = s.created ∧ (∀ a, s'.places.count a = s.places.count a) ∨
    s'.created = s.created + 1 ∧
      ∀ a, s'.places.count a = s.places.count a + if a = s.created then 1 else 0

def Loses (s s' : System) : Prop :=
  s'.created = s.created ∧
    ∃ b, ∀ a, s.places.count a = s'.places.count a + if a = b then 1 else 0

theorem System.count_places (s : System) (a : Nat) :
    s.places.count a = s.rx.held.count a + (s.receiveQueue.map Parsed.address).count a +
      s.dist.held.count a + (s.waiting.map Parsed.address).count a + s.tx.held.count a +
        s.deleted.count a := by
  simp only [System.places, List.count_append]

theorem count_head (b : Nat) (l : List Nat) (a : Nat) :
    (b :: l).count a = l.count a + if a = b then 1 else 0 := by
  rw [List.count_cons]
  congr 1
  exact if_congr (beq_iff_eq.trans eq_comm) rfl rfl

theorem count_put (queue : List Parsed) (m : Parsed) (a : Nat) :
    ((put queue m true).map Parsed.address).count a =
      (queue.map Parsed.address).count a + if a = m.address then 1 else 0 := by
  rw [put, if_pos rfl, List.map_append, List.count_append, List.map_singleton, count_head,
    List.count_nil, Nat.zero_add]

theorem Keeps.refl (s : System) : Keeps s s := .inl ⟨rfl, fun _ => rfl⟩

theorem Keeps.rx {rx : RxTask} (h : rx.held = s.rx.held) : Keeps s { s with rx := rx } := by
  refine .inl ⟨rfl, fun a => ?_⟩
  simp only [System.count_places, System.waiting, h]

theorem Keeps.tx {tx : TxTask} (h : tx.held = s.tx.held) : Keeps s { s with tx := tx } := by
  refine .inl ⟨rfl, fun a => ?_⟩
  simp only [System.count_places, System.waiting, h]

theorem rxBranch_held (h : rxBranch registered m = .ok rx) : rx.held = [m.address] := by
  simp only [rxBranch, bind_ok] at h
  obtain ⟨_, -, _, -, h⟩ := h
  split at h
  · cases h
    rfl
  split at h <;> cases h <;> rfl

theorem txBranch_held (h : txBranch msg = .ok tx) : tx.held = [] := by
  simp only [txBranch, bind_ok] at h
  obtain ⟨request, -, h⟩ := h
  cases request with
  | some req =>
    cases h
    rfl
  | none =>
    simp only [bind_ok] at h
    obtain ⟨_, -, _, -, _, -, h⟩ := h
    split at h <;> cases h <;> rfl

theorem Step.moves (hs : Step s e s') : ¬ Leaks s e ∧ Keeps s s' ∨ Leaks s e ∧ Loses s s' := by
  cases hs with
  | rxNull => exact .inl ⟨nofun, .refl s⟩
  | rxParse hrx =>
    refine .inl ⟨nofun, .inr ⟨rfl, fun a => ?_⟩⟩
    simp only [System.count_places, System.waiting, hrx, RxTask.held, count_head, List.count_nil]
    omega
  | rxBranch hrx hbranch =>
    refine .inl ⟨nofun, .rx ?_⟩
    rw [hrx, rxBranch_held hbranch]
    rfl
  | rxRespond hrx hqueue =>
    rename_i taken m
    cases taken with
    | true =>
      obtain ⟨queue, hqueue⟩ := Option.isSome_iff_exists.mp (hqueue rfl)
      refine .inl ⟨nofun, .inl ⟨rfl, fun a => ?_⟩⟩
      simp only [System.count_places, System.waiting, hrx, RxTask.held, hqueue, Option.map_some,
        Option.getD_some, count_put, count_head, List.count_nil]
      omega
    | false =>
      refine .inr ⟨.refused hrx, rfl, m.address, fun a => ?_⟩
      have hwaiting : (s.respQueue.map fun queue => put queue m false) = s.respQueue := by
        cases s.respQueue <;> rfl
      simp only [System.count_places, System.waiting, hrx, RxTask.held, hwaiting, count_head,
        List.count_nil]
      omega
  | rxRequest hrx =>
    rename_i taken m
    refine .inl ⟨?_, .inl ⟨rfl, fun a => ?_⟩⟩
    · rintro (hresponse | -)
      rw [hrx] at hresponse
      cases hresponse
    · cases taken with
      | true =>
        simp only [System.count_places, System.waiting, hrx, RxTask.held, if_true, count_put,
          count_head, List.count_nil]
        omega
      | false =>
        simp only [System.count_places, System.waiting, hrx, RxTask.held, put, Bool.false_eq_true,
          if_false]
  | rxDelete hrx =>
    refine .inl ⟨nofun, .inl ⟨rfl, fun a => ?_⟩⟩
    simp only [System.count_places, System.waiting, hrx, RxTask.held, count_head, List.count_nil]
    omega
  | distReceive hdist hqueue =>
    refine .inl ⟨nofun, .inl ⟨rfl, fun a => ?_⟩⟩
    simp only [System.count_places, System.waiting, hdist, hqueue, DistTask.held, List.map_cons,
      count_head, List.count_nil]
    omega
  | distHandle hdist hhandle hfinish =>
    rename_i pf inits dri r d m
    by_cases hcode : r.2 = 300
    · refine .inr ⟨.answered hdist ((distRequest_code hhandle).mp hcode), rfl, m.address, fun a => ?_⟩
      simp only [System.count_places, System.waiting, hdist, if_pos hcode, DistTask.held,
        Option.map_none, Option.toList_none, count_head, List.count_nil]
      omega
    · refine .inl ⟨?_, .inl ⟨rfl, fun a => ?_⟩⟩
      · rintro (- | ⟨hreceived, hanswered⟩)
        cases hdist.symm.trans hreceived
        exact hcode ((distRequest_code hhandle).mpr hanswered)
      · simp only [System.count_places, System.waiting, hdist, if_neg hcode, DistTask.held,
          Option.map_some, Option.toList_some]
  | distSend hdist =>
    refine .inl ⟨nofun, .inl ⟨rfl, fun a => ?_⟩⟩
    simp only [System.count_places, System.waiting, hdist, DistTask.held]
  | distFinish hdist =>
    refine .inl ⟨nofun, .inl ⟨rfl, fun a => ?_⟩⟩
    simp only [System.count_places, System.waiting, hdist, DistTask.held, List.count_append,
      List.count_nil]
    omega
  | txStart htx =>
    refine .inl ⟨nofun, .inl ⟨rfl, fun a => ?_⟩⟩
    have hwaiting : (s.respQueue.or (some [])).getD [] = s.respQueue.getD [] := by
      cases s.respQueue <;> rfl
    simp only [System.count_places, System.waiting, htx, TxTask.held, hwaiting]
  | txReceive htx _ hbranch =>
    refine .inl ⟨nofun, .tx ?_⟩
    rw [htx, txBranch_held hbranch]
    rfl
  | txPost htx | txPollNothing htx | txLeave htx | txRespond htx | txFinish htx =>
    refine .inl ⟨nofun, .tx ?_⟩
    rw [htx]
    rfl
  | txPoll htx hqueue =>
    refine .inl ⟨nofun, .inl ⟨rfl, fun a => ?_⟩⟩
    simp only [System.count_places, System.waiting, htx, hqueue, TxTask.held, Polled.held,
      Option.getD_some, List.map_cons, count_head, List.count_nil]
    omega
  | txRead htx _ heffect =>
    refine .inl ⟨nofun, ?_⟩
    rcases txEffect_cases heffect with rfl | ⟨-, rfl⟩ | ⟨-, _, _, rfl⟩ <;>
      refine .inl ⟨rfl, fun a => ?_⟩ <;>
      simp only [System.count_places, System.waiting, htx, TxTask.held, Polled.held]
  | txDelete htx =>
    refine .inl ⟨nofun, .inl ⟨rfl, fun a => ?_⟩⟩
    simp only [System.count_places, System.waiting, htx, TxTask.held, Polled.held, count_head,
      List.count_nil]
    omega
  | request | run => exact .inl ⟨nofun, .inl ⟨rfl, fun _ => rfl⟩⟩

-- ---------------------------------------------------------------------------
-- Runs
-- ---------------------------------------------------------------------------

def Placed (s : System) : Prop := ∀ a, s.places.count a ≤ if a < s.created then 1 else 0

theorem Step.placed (h : Placed s) (hs : Step s e s') : Placed s' := by
  intro a
  have ha := h a
  rcases hs.moves with ⟨-, ⟨hcreated, hcount⟩ | ⟨hcreated, hcount⟩⟩ | ⟨-, hcreated, b, hcount⟩
  · rw [hcreated, hcount]
    exact ha
  · rw [hcreated, hcount]
    split at ha <;> split <;> split <;> omega
  · rw [hcreated]
    have hcount := hcount a
    omega

theorem Step.conserved_iff (hplaced : Placed s) (h : Conserved s) (hs : Step s e s') :
    Conserved s' ↔ ¬ Leaks s e := by
  rcases hs.moves with ⟨hleak, ⟨hcreated, hcount⟩ | ⟨hcreated, hcount⟩⟩ | ⟨hleak, hcreated, b, hcount⟩
  · refine iff_of_true ?_ hleak
    intro a ha
    rw [hcount]
    exact h a (hcreated ▸ ha)
  · refine iff_of_true ?_ hleak
    intro a ha
    rw [hcount]
    by_cases hnew : a = s.created
    · have hnone := hplaced a
      rw [if_neg (hnew ▸ Nat.lt_irrefl _)] at hnone
      rw [if_pos hnew]
      omega
    · rw [if_neg hnew]
      exact h a (by omega)
  · refine iff_of_false ?_ (not_not.mpr hleak)
    intro hconserved
    have hb := hcount b
    have hplace := hplaced b
    rw [if_pos rfl] at hb
    split at hplace
    · rename_i hlt
      have hone := hconserved b (hcreated ▸ hlt)
      omega
    · omega

/-- All messages are conserved throughout a run exactly if no response is
refused in it and no request handled that its handler answers itself. -/
theorem messages_conserved_iff (hrun : Run Step (powerUp services) run s) :
    (∀ t ∈ visited run s, Conserved t) ↔ ∀ x ∈ run, ¬ Leaks x.1 x.2 := by
  refine hrun.always_iff (I := Placed) (C := fun s e => ¬ Leaks s e) ?_ ?_ (fun _ _ _ h hs => hs.placed h)
    fun _ _ _ hplaced h hs => hs.conserved_iff hplaced h
  · exact fun a => Nat.zero_le _
  · exact fun a ha => absurd ha (Nat.not_lt_zero a)

theorem answer_received (taken : Bool) :
    ∃ run s, Run Step (powerUp []) (run ++ [(s, .rxSend taken)])
        ((⟨false, [], 1, []⟩ : Sample).system .receiving .receiving
          (put [] ⟨0, sampleAnswerMsg ['1']⟩ taken)) ∧
      s.rx = .response ⟨0, sampleAnswerMsg ['1']⟩ ∧ ∀ x ∈ run, ¬ Leaks x.1 x.2 := by
  have h₁ : Run Step (powerUp []) _ _ :=
    (Run.start.step (.txStart rfl)).step (.rxParse rfl (parse_sampleAnswer ['1'] (by decide)))
  have h₂ := (h₁.step (.rxBranch rfl rfl)).step (e := .rxSend taken) (.rxRespond rfl fun _ => rfl)
  refine ⟨_, _, h₂, rfl, ?_⟩
  simp only [List.nil_append, List.cons_append, List.forall_mem_cons]
  exact ⟨nofun, nofun, nofun, fun _ h => absurd h List.not_mem_nil⟩

/-- A response that a full queue refuses is lost. -/
theorem refused_response_lost :
    ¬ ∀ services run s, Run Step (powerUp services) run s → ∀ t ∈ visited run s, Conserved t := by
  intro h
  obtain ⟨run, s, hrun, -, -⟩ := answer_received false
  have hlast := h _ _ _ hrun _ (List.mem_append_right _ (List.mem_singleton_self _)) 0 Nat.zero_lt_one
  exact absurd hlast (by decide)

theorem taken_response_conserved :
    ∃ run s, Run Step (powerUp []) run s ∧ s.waiting ≠ [] ∧ ∀ t ∈ visited run s, Conserved t := by
  obtain ⟨run, s, hrun, hrx, hleaks⟩ := answer_received true
  refine ⟨_, _, hrun, List.cons_ne_nil _ _, (messages_conserved_iff hrun).mpr ?_⟩
  rw [List.forall_mem_append]
  refine ⟨hleaks, ?_⟩
  rintro _ hx
  cases List.mem_singleton.mp hx
  exact nofun

end IoTware.Dist
