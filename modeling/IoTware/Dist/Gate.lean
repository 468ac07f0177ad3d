import IoTware.Dist.System
import IoTware.LwMsg.Complete

/-!
# The registration gate

No request reaches the dispatcher before the device is registered: the
registration was answered, and then the information that this answer asked for.
The flag is followed back to the second answer, and this one, through the send
queue and the request that is pending, to the first.
-/

namespace IoTware.Dist

open CText LwMsg Micro Loops Runs

/-- `iw_fw_lwMsgTx` reads a response of code 200 with the `dri` of its pending
request, which is of this interface. -/
def ReadsSuccess (interfaceId : UInt32) (x : System × Event) : Prop :=
  ∃ req phase m dri taken, x.1.tx = .requesting req phase (.unread m) ∧ x.2 = .txRead dri taken ∧
    req.sendIf = interfaceId ∧ LwMsg.Carries req m.msg ∧ LwMsg.Succeeds m.msg

def RegistrationAnswered (run : List (System × Event)) : Prop := ∃ x ∈ run, ReadsSuccess 1 x

def InformationAnswered (run : List (System × Event)) : Prop :=
  ∃ x y, List.Sublist [x, y] run ∧ ReadsSuccess 1 x ∧ ReadsSuccess 2 y

theorem RegistrationAnswered.append (h : RegistrationAnswered run) (x : System × Event) :
    RegistrationAnswered (run ++ [x]) := by
  obtain ⟨y, hy, hread⟩ := h
  exact ⟨y, List.mem_append_left _ hy, hread⟩

theorem InformationAnswered.append (h : InformationAnswered run) (x : System × Event) :
    InformationAnswered (run ++ [x]) := by
  obtain ⟨y, z, hsub, hreads⟩ := h
  exact ⟨y, z, hsub.trans (List.sublist_append_left run [x]), hreads⟩

theorem RegistrationAnswered.information (h : RegistrationAnswered run) (hx : ReadsSuccess 2 x) :
    InformationAnswered (run ++ [x]) := by
  obtain ⟨y, hy, hread⟩ := h
  exact ⟨y, x, (List.singleton_sublist.mpr hy).append (List.Sublist.refl [x]), hread, hx⟩

-- ---------------------------------------------------------------------------
-- The invariant
-- ---------------------------------------------------------------------------

structure Gated (run : List (System × Event)) (s : System) : Prop where
  flag : s.registered = true → InformationAnswered run
  forwarding : s.rx = .request m → s.registered = true
  queued : ∀ msg ∈ s.sendQueue, getLwmInterfaceId msg = .ok 2 → RegistrationAnswered run
  pending : s.tx = .requesting req phase polled → req.sendIf = 2 → RegistrationAnswered run
  responding : s.dist = .answering m msgs → ∀ msg ∈ msgs, IsResponse msg

theorem Gated.append (h : Gated run s) (x : System × Event) : Gated (run ++ [x]) s where
  flag hflag := (h.flag hflag).append x
  forwarding := h.forwarding
  queued msg hmsg hif := (h.queued msg hmsg hif).append x
  pending hpending hif := (h.pending hpending hif).append x
  responding := h.responding

theorem mem_put (h : a ∈ put queue b taken) : a ∈ queue ∨ a = b := by
  unfold put at h
  split at h
  · simpa using h
  · exact .inl h

theorem IsResponse.interface_ne (h : IsResponse msg) : getLwmInterfaceId msg ≠ .ok 2 := by
  unfold getLwmInterfaceId
  rw [h]
  decide

theorem Gated.put_queued (h : Gated run s)
    (hnew : getLwmInterfaceId new = .ok 2 → RegistrationAnswered run) (taken : Bool) :
    ∀ msg ∈ put s.sendQueue new taken, getLwmInterfaceId msg = .ok 2 → RegistrationAnswered run := by
  intro msg hmsg hif
  rcases mem_put hmsg with hold | rfl
  · exact h.queued msg hold hif
  · exact hnew hif

theorem rxBranch_request (h : rxBranch registered m = .ok (.request m')) : registered = true := by
  simp only [rxBranch, bind_ok] at h
  obtain ⟨_, -, _, -, h⟩ := h
  split at h
  · cases h
  split at h
  · rename_i hregistered
    exact hregistered
  · cases h

theorem txBranch_requesting (h : txBranch msg = .ok (.requesting req phase polled)) :
    getLwmInterfaceId msg = .ok req.sendIf := by
  simp only [txBranch, bind_ok] at h
  obtain ⟨request, hrequest, h⟩ := h
  cases request with
  | none =>
    simp only [bind_ok] at h
    obtain ⟨_, -, _, -, _, -, h⟩ := h
    split at h <;> cases h
  | some request =>
    cases h
    simp only [txRequest, bind_ok] at hrequest
    obtain ⟨_, -, _, -, _, -, hrequest⟩ := hrequest
    split at hrequest
    · simp only [bind_ok, pure_ok] at hrequest
      obtain ⟨sendIf, hid, heq⟩ := hrequest
      cases heq
      exact hid
    · cases hrequest

theorem txEffect_cases (h : txEffect dri taken s phase = .ok s') :
    s' = s ∨ phase = .broken .accepted ∧ s' = { s with registered := true } ∨
      (∃ di, phase = .broken (.registered di)) ∧
        ∃ services info, s' = { s with services := services, sendQueue := put s.sendQueue info taken } := by
  unfold txEffect at h
  split at h
  · simp only [bind_ok, pure_ok] at h
    obtain ⟨⟨services, info⟩, -, rfl⟩ := h
    exact .inr (.inr ⟨⟨_, rfl⟩, services, info, rfl⟩)
  · cases h
    exact .inr (.inl ⟨rfl, rfl⟩)
  · cases h
    exact .inl rfl

theorem Gated.step (h : Gated run s) (hs : Step s e s') : Gated (run ++ [(s, e)]) s' := by
  have hrun : Gated (run ++ [(s, e)]) s := h.append _
  cases hs with
  | rxNull => exact hrun
  | rxParse | rxRespond | rxDelete => exact { hrun with forwarding := nofun }
  | rxBranch _ hbranch =>
    refine { hrun with forwarding := ?_ }
    rintro m' rfl
    exact rxBranch_request hbranch
  | rxRequest =>
    refine { hrun with forwarding := ?_ }
    intro m' hrequest
    dsimp only at hrequest
    split at hrequest <;> cases hrequest
  | distReceive => exact { hrun with responding := nofun }
  | distHandle _ hhandle hfinish =>
    refine { hrun with responding := ?_ }
    rintro m' msgs ⟨⟩ msg hmsg
    have hnil : Responds ⟨s.services, []⟩ := fun _ hmsg => absurd hmsg List.not_mem_nil
    exact finishRequest_responds (distRequest_responds hnil hhandle) hfinish msg
      (List.mem_reverse.mp hmsg)
  | distSend hdist =>
    have hall := h.responding hdist
    refine { hrun with queued := hrun.put_queued ?_ _, responding := ?_ }
    · exact fun hif => absurd hif (hall _ List.mem_cons_self).interface_ne
    · rintro m' msgs ⟨⟩ msg hmsg
      exact hall msg (List.mem_cons_of_mem _ hmsg)
  | distFinish => exact { hrun with responding := nofun }
  | txStart | txRespond | txLeave | txFinish => exact { hrun with pending := nofun }
  | txReceive _ hqueue hbranch =>
    have hmem (msg) (hmsg : msg ∈ _) : msg ∈ s.sendQueue := hqueue ▸ List.mem_cons_of_mem _ hmsg
    refine { hrun with
      queued := fun msg hmsg => hrun.queued msg (hmem msg hmsg), pending := ?_ }
    rintro req phase polled rfl hif
    refine hrun.queued _ (hqueue ▸ List.mem_cons_self) ?_
    rw [txBranch_requesting hbranch, hif]
  | txPost htx | txPollNothing htx | txPoll htx | txDelete htx =>
    refine { hrun with pending := ?_ }
    rintro req phase polled ⟨⟩ hif
    exact hrun.pending htx hif
  | @txRead req phase phase' dri taken _ s₁ m htx hstep heffect =>
    have hpending : req.sendIf = 2 → RegistrationAnswered run := h.pending htx
    rcases txEffect_cases heffect with rfl | ⟨rfl, rfl⟩ | ⟨⟨di, rfl⟩, services, info, rfl⟩
    · refine { hrun with pending := ?_ }
      rintro req phase polled ⟨⟩ hif
      exact hrun.pending htx hif
    · obtain ⟨hif, hcarries, hsucceeds⟩ := onResponse_accepted hstep.read_response
      have hread : ReadsSuccess 2 (s, .txRead dri taken) :=
        ⟨req, phase, m, dri, taken, htx, rfl, hif, hcarries, hsucceeds⟩
      refine { hrun with
        flag := fun _ => (hpending hif).information hread
        forwarding := fun _ => rfl, pending := ?_ }
      rintro req phase polled ⟨⟩ hif
      exact hrun.pending htx hif
    · have hif := onResponse_registered hstep.read_response
      obtain ⟨hsucceeds, hcarries⟩ := onResponse_some hstep.read_response
      have hread : ReadsSuccess 1 (s, .txRead dri taken) :=
        ⟨req, phase, m, dri, taken, htx, rfl, hif, hcarries hif, hsucceeds⟩
      have hanswered : RegistrationAnswered (run ++ [(s, .txRead dri taken)]) :=
        ⟨_, List.mem_append_right _ (List.mem_singleton_self _), hread⟩
      refine { hrun with queued := hrun.put_queued (fun _ => hanswered) _, pending := ?_ }
      rintro req phase polled ⟨⟩ hif
      exact hanswered
  | request hif => exact { hrun with queued := hrun.put_queued (fun h => absurd h hif) _ }
  | run => exact { hrun with }

theorem gated (hrun : Run Step (powerUp services) run s) : Gated run s := by
  refine hrun.recorded ?_ fun _ _ _ _ h hs => h.step hs
  exact { flag := nofun, forwarding := nofun, queued := fun _ hmsg => absurd hmsg List.not_mem_nil,
          pending := nofun, responding := nofun }

theorem Step.forwards (hs : Step s e s') (hput : s.receiveQueue.length < s'.receiveQueue.length) :
    ∃ m, s.rx = .request m := by
  cases hs with
  | rxRequest hrx => exact ⟨_, hrx⟩
  | distReceive _ hqueue =>
    rw [hqueue] at hput
    exact absurd hput (by simp)
  | txRead _ _ heffect =>
    rcases txEffect_cases heffect with rfl | ⟨-, rfl⟩ | ⟨-, _, _, rfl⟩ <;>
      exact absurd hput (Nat.lt_irrefl _)
  | _ => exact absurd hput (Nat.lt_irrefl _)

/-- Before a request is put on the receive queue, the registration was answered
and then the information. -/
theorem registration_gate (hrun : Run Step (powerUp services) (run ++ [(s, e)]) s')
    (hput : s.receiveQueue.length < s'.receiveQueue.length) :
    ∃ x y, List.Sublist [x, y] run ∧ ReadsSuccess 1 x ∧ ReadsSuccess 2 y := by
  obtain ⟨hbefore, hs⟩ := hrun.last
  obtain ⟨m, hrx⟩ := hs.forwards hput
  have hgated : Gated run s := gated hbefore
  exact hgated.flag (hgated.forwarding hrx)

-- ---------------------------------------------------------------------------
-- A device that registers
-- ---------------------------------------------------------------------------

def sampleAnswer (dri : Text) : MessageTree where
  header := [("dri".toList, .text dri), ("rsc".toList, .text "200".toList)]
  body := some [("di".toList, .text "7".toList)]

def sampleAnswerMsg (dri : Text) : LWMessage where
  header := [(some "rsc".toList, .string (some "200".toList)), (some "dri".toList, .string (some dri))]
  body := [(some "di".toList, .string (some "7".toList))]

theorem parse_sampleAnswer (dri : Text) (h : PlainText dri) :
    parseLwmMessageStr (terminated (sampleAnswer dri).render) = .ok (some (sampleAnswerMsg dri)) := by
  refine MessageTree.NestsLast.parse_render ?_ ?_
  · simp [MessageTree.NestsLast, entriesNestLast, Tree.NestsLast, sampleAnswer, Tree.isDictionary]
  · simp [MessageTree.WellFormed, Tree.WellFormed, entriesWellFormed, sampleAnswer, h]
    decide

def sampleRequest (dri : Text) : MessageTree where
  header := [("if".toList, .text "3".toList), ("dri".toList, .text dri)]
  body := none

def sampleRequestMsg (dri : Text) : LWMessage where
  header := [(some "dri".toList, .string (some dri)), (some "if".toList, .string (some "3".toList))]
  body := []

theorem parse_sampleRequest (dri : Text) (h : PlainText dri) :
    parseLwmMessageStr (terminated (sampleRequest dri).render) = .ok (some (sampleRequestMsg dri)) := by
  refine MessageTree.NestsLast.parse_render ?_ ?_
  · simp [MessageTree.NestsLast, entriesNestLast, Tree.NestsLast, sampleRequest, Tree.isDictionary]
  · simp [MessageTree.WellFormed, Tree.WellFormed, entriesWellFormed, sampleRequest, h]
    decide

def sampleTx (interfaceId : UInt32) (dri : Text) (di : Option Text) (list : Text) : LWMessage where
  header := (di.map fun di => (some "di".toList, .string (some di))).toList ++
    [(some "dri".toList, .string (some dri)), (some "if".toList, .number (.uint32 interfaceId))]
  body := [(some list, .array [])]

structure Sample where
  registered : Bool
  sendQueue : List LWMessage
  created : Nat
  deleted : List Nat

def Sample.system (d : Sample) (rx : RxTask) (tx : TxTask) (respQueue : List Parsed) : System :=
  { powerUp [] with
    registered := d.registered, sendQueue := d.sendQueue, created := d.created,
    deleted := d.deleted, rx := rx, tx := tx, respQueue := some respQueue }

theorem answered_reaches (dri : Text) {d d' : Sample} (hdri : PlainText dri)
    (hqueue : d.sendQueue = [msg])
    (hbranch : txBranch msg = .ok (.requesting req (.posting 0) .nothing))
    (hresp : onResponse req (sampleAnswerMsg dri) = .ok (some effect))
    (heffect : ∀ rx tx respQueue deleted, txEffect ['2'] true
      ({ d with sendQueue := [], created := d.created + 1, deleted := deleted : Sample }.system
        rx tx respQueue) (.broken effect) =
      .ok ({ d' with deleted := deleted : Sample }.system rx tx respQueue))
    (hdeleted : d'.deleted = d.created :: d.deleted)
    (h : Reaches Step s (d.system .receiving .receiving [])) :
    Reaches Step s (d'.system .receiving .receiving []) := by
  let m : Parsed := ⟨d.created, sampleAnswerMsg dri⟩
  let d₁ : Sample := { d with sendQueue := [] }
  let d₂ : Sample := { d₁ with created := d.created + 1 }
  let waiting : Polled → TxTask := .requesting req (.waiting 0 0)
  have h₁ : Reaches Step s (d₁.system .receiving (.requesting req (.posting 0) .nothing) []) :=
    h.next (.txReceive rfl hqueue hbranch)
  have hpost : TxStep req (.posting 0) (.post true) (.waiting 0 0) := .post
  have h₂ : Reaches Step s (d₁.system .receiving (waiting .nothing) []) := h₁.next (.txPost rfl hpost)
  have h₃ : Reaches Step s (d₂.system (.parsed m) (waiting .nothing) []) :=
    h₂.next (.rxParse rfl (parse_sampleAnswer dri hdri))
  have h₄ : Reaches Step s (d₂.system (.response m) (waiting .nothing) []) :=
    h₃.next (.rxBranch rfl rfl)
  have h₅ : Reaches Step s (d₂.system .receiving (waiting .nothing) [m]) :=
    h₄.next (e := .rxSend true) (.rxRespond rfl fun _ => rfl)
  have h₆ : Reaches Step s (d₂.system .receiving (waiting (.unread m)) []) :=
    h₅.next (.txPoll rfl rfl)
  have hpoll : afterPoll req 0 0 (some m.msg) = .ok (.broken effect) := by
    simp only [afterPoll, m, hresp]
    rfl
  have h₇ : Reaches Step s ({ d' with deleted := d.deleted : Sample }.system .receiving
      (.requesting req (.broken effect) (.read m)) []) :=
    h₆.next (.txRead rfl (.poll hpoll) (heffect _ _ _ _))
  have h₈ : Reaches Step s ({ d' with deleted := d.created :: d.deleted : Sample }.system .receiving
      (.requesting req (.broken effect) .nothing) []) :=
    h₇.next (.txDelete (m := m) rfl)
  rw [← hdeleted] at h₈
  exact h₈.next (.txLeave rfl trivial)

theorem registration_gate_opens :
    ∃ run s s', Run Step (powerUp []) (run ++ [(s, .rxSend true)]) s' ∧
      s.receiveQueue.length < s'.receiveQueue.length ∧
      ∃ x y, List.Sublist [x, y] run ∧ ReadsSuccess 1 x ∧ ReadsSuccess 2 y := by
  let d₀ : Sample := ⟨false, [sampleTx 1 ['1'] none "mis".toList], 0, []⟩
  let d₁ : Sample := ⟨false, [sampleTx 2 ['2'] (some ['7']) "mif".toList], 1, [0]⟩
  let d₂ : Sample := ⟨true, [], 2, [1, 0]⟩
  have h₀ : Reaches Step (powerUp []) (d₀.system .receiving .receiving []) :=
    ⟨_, (Run.start.step (.txStart rfl)).step (e := .request _ true) (.request (by decide))⟩
  have h₁ : Reaches Step (powerUp []) (d₁.system .receiving .receiving []) :=
    answered_reaches ['1'] (by decide) rfl rfl rfl (fun _ _ _ _ => rfl) rfl h₀
  have h₂ : Reaches Step (powerUp []) (d₂.system .receiving .receiving []) :=
    answered_reaches ['2'] (by decide) rfl rfl rfl (fun _ _ _ _ => rfl) rfl h₁
  obtain ⟨run, hrun⟩ := (h₂.next (.rxParse rfl (parse_sampleRequest "9".toList (by decide)))).next (.rxBranch rfl rfl)
  have hlast := hrun.step (e := .rxSend true) (.rxRequest rfl)
  have hput : 0 < 1 := by decide
  exact ⟨run, _, _, hlast, hput, registration_gate hlast hput⟩

end IoTware.Dist
