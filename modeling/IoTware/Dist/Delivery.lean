import IoTware.Dist.AnswerOrder
import IoTware.LwMsg.ValueTexts

/-!
# The delivery of the answers

What the one who asked gets. The `dri` of an answer was read from a received frame, so
the answer is read again with this `dri` and with its code, whatever the `dri` is; its
body is where every dictionary in it is the last entry of what it stands in.
-/

namespace IoTware.Dist

open CText LwMsg Micro Loops Runs Outputs

-- ---------------------------------------------------------------------------
-- Requests and answers in the system
-- ---------------------------------------------------------------------------

def RxTask.message : RxTask → Option Parsed
  | .receiving => none
  | .parsed m | .response m | .request m | .rejected m => some m

def System.requests (s : System) : List Parsed :=
  s.rx.message.toList ++ s.receiveQueue ++ s.dist.request.toList

theorem mem_requests {s : System} : m ∈ s.requests ↔
    s.rx.message = some m ∨ m ∈ s.receiveQueue ∨ s.dist.request = some m := by
  simp [System.requests]

def System.outgoing (s : System) : List LWMessage := s.sendQueue ++ s.dist.responses

/-- The message has the header of a response to `dri`. -/
def HasAnswerHeader (dri : Option Text) (msg : LWMessage) : Prop :=
  ∃ rsc res, newLwmRespMessage dri rsc = .ok res ∧ msg.header = res.header

/-- If the message is a response, its `dri` is a text that is read again. -/
def Answers (msg : LWMessage) : Prop :=
  IsResponse msg → ∃ dri, HasAnswerHeader dri msg ∧ ∀ t ∈ dri, ValueText t

structure Deliverable (s : System) : Prop where
  requests : ∀ m ∈ s.requests, ValueTexts m.msg.header
  answers : ∀ msg ∈ s.outgoing, Answers msg

theorem answers_of_request (h : ¬IsResponse msg) : Answers msg := fun hmsg => absurd hmsg h

theorem ofResponses_hasAnswerHeader (dri : Option Text) : OfResponses dri (HasAnswerHeader dri) where
  new h := ⟨_, _, h, rfl⟩
  body h hmsg := by
    obtain ⟨rsc, res, hres, hheader⟩ := hmsg
    exact ⟨rsc, res, hres, (setLwmBodyObject_header h).trans hheader⟩

theorem valueText_of_get (h : ValueTexts dict)
    (hget : getLwmObjectFromDict dict key = .ok (some (.string (some t)))) : ValueText t := by
  induction dict with
  | nil => cases hget
  | cons kv dict ih =>
    obtain ⟨k, value⟩ := kv
    cases k with
    | none => cases hget
    | some k =>
      rw [getLwmObjectFromDict] at hget
      split at hget
      · cases hget
        exact h _ _ List.mem_cons_self
      · exact ih (h.subset (List.subset_cons_self _ dict)) hget

theorem distRequest_answerHeaders (hmsg : ValueTexts msg.header)
    (h : distRequest pf inits ⟨services, []⟩ msg = .ok (dri, r))
    (hfinish : finishRequest dri r = .ok d) : ∀ res ∈ d.sendQueue, Answers res := by
  have hsends : Sends (HasAnswerHeader dri) d :=
    finishRequest_sends (ofResponses_hasAnswerHeader dri)
      (distRequest_sends (ofResponses_hasAnswerHeader dri) (fun _ hres => absurd hres List.not_mem_nil) h)
      hfinish
  have hdri : ∀ t ∈ dri, ValueText t := by
    rintro t ⟨⟩
    unfold distRequest at h
    split at h
    · simp only [bind_ok] at h
      obtain ⟨cif, -, cdri, hcdri, _, -, h⟩ := h
      split at h
      · rename_i value
        simp only [bind_ok, pure_ok] at h
        obtain ⟨_, -, _, -, heq⟩ := h
        obtain ⟨htext, -⟩ := Prod.mk.inj heq
        cases value with
        | string text =>
          cases htext
          exact valueText_of_get hmsg hcdri
        | _ => cases htext
      · cases h
    · cases h
  exact fun res hres _ => ⟨dri, hsends res hres, hdri⟩

-- ---------------------------------------------------------------------------
-- What holds in a run
-- ---------------------------------------------------------------------------

theorem Deliverable.quiet (h : Deliverable s) (hrequests : s'.requests ⊆ s.requests)
    (houtgoing : s'.outgoing ⊆ s.outgoing) : Deliverable s' :=
  ⟨fun m hm => h.requests m (hrequests hm), fun msg hmsg => h.answers msg (houtgoing hmsg)⟩

theorem rxBranch_message (h : rxBranch registered m = .ok rx) : rx.message = some m := by
  simp only [rxBranch, bind_ok] at h
  obtain ⟨_, -, _, -, h⟩ := h
  split at h
  · cases h
    rfl
  split at h
  · cases h
    rfl
  · cases h
    rfl

theorem Deliverable.put_request (h : Deliverable s) (hmsg : ¬IsResponse msg) (taken : Bool)
    (hrequests : s'.requests ⊆ s.requests)
    (houtgoing : s'.outgoing ⊆ put s.sendQueue msg taken ++ s.dist.responses) : Deliverable s' := by
  refine ⟨fun m hm => h.requests m (hrequests hm), fun msg' hmsg' => ?_⟩
  rcases List.mem_append.mp (houtgoing hmsg') with hput | hresponse
  · rcases mem_put hput with hqueue | rfl
    · exact h.answers msg' (List.mem_append_left _ hqueue)
    · exact answers_of_request hmsg
  · exact h.answers msg' (List.mem_append_right _ hresponse)

theorem txEffect_deliverable (h : Deliverable s) (heffect : txEffect dri taken s phase = .ok s') :
    Deliverable s' := by
  unfold txEffect at heffect
  split at heffect
  · simp only [bind_ok, pure_ok] at heffect
    obtain ⟨⟨services, info⟩, hinfo, rfl⟩ := heffect
    exact h.put_request (makeDeviceInformationLwmsg_request hinfo) taken (List.Subset.refl _)
      (List.Subset.refl _)
  · cases heffect
    exact h.quiet (List.Subset.refl _) (List.Subset.refl _)
  · cases heffect
    exact h

theorem Deliverable.step (h : Deliverable s) (hothers : OthersRequest e) (hs : Step s e s') :
    Deliverable s' := by
  cases hs with
  | rxParse hrx hparse =>
    refine ⟨fun m hm => ?_, h.answers⟩
    rcases mem_requests.mp hm with hmsg | hrest
    · cases hmsg
      exact (parse_valueTexts hparse).1
    · exact h.requests m (mem_requests.mpr (.inr hrest))
  | rxBranch hrx hbranch =>
    refine h.quiet (fun m hm => ?_) (List.Subset.refl _)
    rcases mem_requests.mp hm with hmsg | hrest
    · have heq := (rxBranch_message hbranch).symm.trans hmsg
      exact mem_requests.mpr (.inl (hrx ▸ heq))
    · exact mem_requests.mpr (.inr hrest)
  | rxRespond hrx =>
    refine h.quiet ?_ (List.Subset.refl _)
    simp [System.requests, hrx, RxTask.message]
  | rxRequest hrx =>
    refine h.quiet ?_ (List.Subset.refl _)
    cases ‹Bool› <;> simp [System.requests, hrx, RxTask.message, put]
  | rxDelete hrx =>
    refine h.quiet ?_ (List.Subset.refl _)
    simp [System.requests, hrx, RxTask.message]
  | distReceive hdist hqueue =>
    refine h.quiet ?_ ?_
    · simp [System.requests, hdist, hqueue, DistTask.request]
    · simp [System.outgoing, hdist, DistTask.responses]
  | distHandle hdist hhandle hfinish =>
    have hm := h.requests _ (mem_requests.mpr (.inr (.inr (congrArg DistTask.request hdist))))
    have hanswers := distRequest_answerHeaders hm hhandle hfinish
    refine ⟨fun m hm => h.requests m ?_, fun msg hmsg => ?_⟩
    · rcases mem_requests.mp hm with hmsg | hqueue | ⟨⟨⟩⟩
      · exact mem_requests.mpr (.inl hmsg)
      · exact mem_requests.mpr (.inr (.inl hqueue))
    · rcases List.mem_append.mp hmsg with hqueue | hresponse
      · exact h.answers msg (List.mem_append_left _ hqueue)
      · exact hanswers msg (List.mem_reverse.mp hresponse)
  | distSend hdist =>
    refine h.quiet ?_ fun msg hmsg => ?_
    · simp [System.requests, hdist, DistTask.request]
    · simp only [System.outgoing, hdist, DistTask.responses, List.mem_append, List.mem_cons] at hmsg ⊢
      rcases hmsg with hput | hrest
      · rcases mem_put hput with hqueue | heq
        · exact .inl hqueue
        · exact .inr (.inl heq)
      · exact .inr (.inr hrest)
  | distFinish hdist =>
    refine h.quiet ?_ ?_
    · simp [System.requests, hdist, DistTask.request]
    · simp [System.outgoing, hdist, DistTask.responses]
  | txReceive _ hqueue =>
    refine h.quiet (List.Subset.refl _) ?_
    simp [System.outgoing, hqueue]
  | txRead _ _ heffect => exact (txEffect_deliverable h heffect).quiet (List.Subset.refl _) (List.Subset.refl _)
  | request => exact h.put_request hothers _ (List.Subset.refl _) (List.Subset.refl _)
  | _ => exact h.quiet (List.Subset.refl _) (List.Subset.refl _)

theorem deliverable (hrequests : s₀.requests = []) (houtgoing : s₀.outgoing = [])
    (hrun : Run Step s₀ run s) (hothers : ∀ x ∈ run, OthersRequest x.2) : Deliverable s := by
  induction hrun with
  | start => exact ⟨by simp [hrequests], by simp [houtgoing]⟩
  | step _ hs ih =>
    have hbefore := ih fun x hx => hothers x (List.mem_append_left _ hx)
    exact hbefore.step (hothers _ (List.mem_append_right _ List.mem_cons_self)) hs

theorem asking_nil {s : System} (h : s.requests = []) : s.asking = [] := by
  simp only [System.requests, List.append_eq_nil_iff] at h
  simp [System.asking, h.1.2, h.2]

theorem leaving_nil {s : System} (h : s.outgoing = []) : s.leaving = [] := by
  simp only [System.outgoing, List.append_eq_nil_iff] at h
  simp [System.leaving, h.1, h.2]

-- ---------------------------------------------------------------------------
-- What the one who asked gets
-- ---------------------------------------------------------------------------

theorem leavingDri_shape (h : leavingDri msg = some dri) :
    (∃ cdri, getLwmObjectFromDict msg.header "dri".toList = .ok (some cdri)) ∧
      ∃ crsc, getLwmObjectFromDict msg.header "rsc".toList = .ok (some crsc) := by
  unfold leavingDri at h
  split at h
  case h_2 => cases h
  rename_i htx
  simp only [txBranch, bind_ok] at htx
  obtain ⟨request, -, htx⟩ := htx
  cases request with
  | some req => cases htx
  | none =>
    simp only [bind_ok] at htx
    obtain ⟨_, -, cdri, hdri, crsc, hrsc, htx⟩ := htx
    split at htx
    · rename_i hshape
      obtain ⟨cdri, rfl⟩ := Option.isSome_iff_exists.mp hshape.2.1
      obtain ⟨crsc, rfl⟩ := Option.isSome_iff_exists.mp hshape.2.2
      exact ⟨⟨cdri, hdri⟩, crsc, hrsc⟩
    · cases htx

theorem HasAnswerHeader.leaving (h : HasAnswerHeader dri msg) (hleaving : leavingDri msg = some dri') :
    ∃ t rsc, dri = some t ∧ dri' = some t ∧ msg.header = answerHeader t rsc := by
  obtain ⟨rsc, res, hres, hheader⟩ := h
  obtain ⟨⟨cdri, hcdri⟩, crsc, hcrsc⟩ := leavingDri_shape hleaving
  have hdriOf := leavingDri_eq hleaving
  unfold driOf at hdriOf
  rw [hheader] at hcdri hcrsc hdriOf ⊢
  unfold newLwmRespMessage at hres
  split at hres
  · cases dri <;> cases hres <;> cases hcrsc
  · cases dri with
    | none =>
      cases hres
      cases hcdri
    | some t =>
      cases hres
      exact ⟨t, rsc, rfl, hdriOf.symm, rfl⟩

theorem rxBranch_readAnswer (msg : LWMessage) (dri : Text) (rsc : UInt32) (registered : Bool)
    (address : Nat) : rxBranch registered ⟨address, msg.readAnswer dri rsc⟩ =
      .ok (.response ⟨address, msg.readAnswer dri rsc⟩) := rfl

theorem sent_answer_iff {msg : LWMessage} (hdri : PlainText dri)
    (hheader : msg.header = answerHeader dri rsc) (hbody : msg.BodyPlain) :
    sent msg = .ok (some (msg.readAnswer dri rsc)) ↔ msg.BodyNestsLast := by
  have hwritten : msg.written.header = writtenEntries (answerHeader dri rsc) := by
    simp [LWMessage.written, hheader]
  have hwell : msg.written.WellFormed := ⟨hwritten ▸ answerHeader_wellFormed hdri rsc, hbody⟩
  have hreceived : msg.written.received = msg.readAnswer dri rsc := by
    simp [MessageTree.received, LWMessage.readAnswer, hwritten, mirrorEntries_answerHeader]
  refine ⟨fun hsent body hmem => ?_, sent_answer hdri.valueText hheader hbody⟩
  rw [← hreceived] at hsent
  exact (((sent_iff hwell).mp hsent).2 body hmem).1

theorem readAll_not_read_back (hdri : PlainText t) (h : readAll pf (some t) d task = .ok (d', rsc)) :
    ∃ msg, d'.sendQueue = msg :: d.sendQueue ∧
      (msg.BodyPlain → sent msg ≠ .ok (some (msg.readAnswer t 200))) := by
  unfold readAll at h
  simp only [bind_ok] at h
  obtain ⟨res, hres, h⟩ := h
  cases hres
  split at h
  · cases h
  simp only [bind_ok, pure_ok] at h
  obtain ⟨fpDict, -, spDict, -, _, hfp, _, hsp, heq⟩ := h
  cases hfp
  cases hsp
  cases heq
  refine ⟨_, rfl, fun hbody => mt (sent_answer_iff hdri rfl hbody).mp ?_⟩
  intro hnest
  have hfirst := (hnest _ rfl).2.1 rfl
  cases hfirst

/-- In every run in which other tasks send requests only, an answer that is to leave has the
`dri` of a request that was taken. It is read again as a response with this `dri` and its
code: always where it has no body, and with a body of plain texts where every dictionary in
it is the last entry of what it stands in. Where the `dri` is a plain text too, it is not
read again with a body that has another dictionary. -/
theorem answers_delivered (hrequests : s₀.requests = []) (houtgoing : s₀.outgoing = [])
    (hrun : Run Step s₀ run s) (hothers : ∀ x ∈ run, OthersRequest x.2) (hmsg : msg ∈ s.sendQueue)
    (hleaving : leavingDri msg = some dri) :
    ∃ t rsc, dri = some t ∧ some t ∈ run.filterMap askedAt ∧ msg.header = answerHeader t rsc ∧
      (∀ registered address, rxBranch registered ⟨address, msg.readAnswer t rsc⟩ =
        .ok (.response ⟨address, msg.readAnswer t rsc⟩)) ∧
      (msg.body = [] → sent msg = .ok (some (msg.readAnswer t rsc))) ∧
      (msg.BodyPlain → msg.BodyNestsLast → sent msg = .ok (some (msg.readAnswer t rsc))) ∧
      (msg.BodyPlain → PlainText t →
        (sent msg = .ok (some (msg.readAnswer t rsc)) ↔ msg.BodyNestsLast)) := by
  have hdeliverable := deliverable hrequests houtgoing hrun hothers
  obtain ⟨dri', hheader, hvalue⟩ :=
    hdeliverable.answers msg (List.mem_append_left _ hmsg) (leavingDri_isResponse hleaving)
  obtain ⟨t, rsc, rfl, rfl, hanswer⟩ := hheader.leaving hleaving
  have hdri := hvalue t rfl
  refine ⟨t, rsc, rfl, ?_, hanswer, rxBranch_readAnswer msg t rsc, fun hnil => ?_,
    sent_answer hdri hanswer, fun hbody hplain => sent_answer_iff hplain hanswer hbody⟩
  · obtain ⟨handled, horder⟩ := inOrder (asking_nil hrequests) (leaving_nil houtgoing) hrun hothers
    have hout : some t ∈ run.filterMap answeredAt ++ s.leaving :=
      List.mem_append_right _ (List.mem_append_left _ (List.mem_filterMap.mpr ⟨msg, hmsg, hleaving⟩))
    obtain ⟨_, hin, rfl⟩ := horder.turn.exists_in hout
    rw [horder.asked]
    exact List.mem_append_left _ hin
  · have hnone := LWMessage.written_body_nil hnil
    refine sent_answer hdri hanswer ?_ ?_ <;> intro body hbody <;> rw [hnone] at hbody <;> cases hbody

def sampleTasks : LWMessage := ⟨answerHeader "9".toList 200, [(some "tif".toList, .array [])]⟩

theorem answers_delivered_tasks :
    ∃ run s, Run Step ((⟨true, [], 2, [1, 0]⟩ : Sample).system .receiving .receiving []) run s ∧
      sampleTasks ∈ s.sendQueue ∧ ∃ t rsc, some t ∈ run.filterMap askedAt ∧
        sent sampleTasks = .ok (some (sampleTasks.readAnswer t rsc)) := by
  have hstart : Run Step ((⟨true, [], 2, [1, 0]⟩ : Sample).system .receiving .receiving []) [] _ :=
    .start
  have hasked := ((hstart.step (.rxParse rfl (parse_sampleRequest "9".toList (by decide)))).step
    (.rxBranch rfl rfl)).step (e := .rxSend true) (.rxRequest rfl)
  have hhandled := (hasked.step (.distReceive rfl rfl)).step
    (e := .distHandle samplePlatform fun _ => initAll false) (.distHandle rfl rfl rfl)
  have hsent := hhandled.step (e := .distSend true) (.distSend rfl)
  have hqueue : sampleTasks ∈ [sampleTasks] := List.mem_singleton.mpr rfl
  obtain ⟨t, rsc, -, ht, -, -, -, hread, -⟩ :=
    answers_delivered rfl rfl hsent (by simp [OthersRequest]) hqueue
      (rfl : leavingDri sampleTasks = some (some "9".toList))
  refine ⟨_, _, hsent, hqueue, t, rsc, ht, hread ?_ ?_⟩
  · rintro body ⟨⟩
    simp [sampleTasks, writtenEntries, writtenEntry, LWMObject.written, writtenItems, Tree.WellFormed,
      entriesWellFormed, itemsWellFormed]
    decide
  · rintro body ⟨⟩
    simp [sampleTasks, writtenEntries, writtenEntry, LWMObject.written, writtenItems, entriesNestLast,
      Tree.NestsLast, itemsNestLast, Tree.isDictionary]

end IoTware.Dist
