import IoTware.Dist.Gate
import IoTware.Lib.Outputs

/-!
# The order of the answers

Requests wait in the receive queue, are handled one at a time, and their responses
wait in the send queue. So however the tasks are interleaved, and whatever the queues
refuse, the responses leave in the order of the requests.
-/

namespace IoTware.Dist

open CText LwMsg Micro Loops Runs Outputs

def driOf (msg : LWMessage) : Option Text :=
  (lookup msg.header "dri".toList).bind LWMObject.stringValue

/-- The `dri` of a message that `iw_fw_lwMsgTx` sends as a response. -/
def leavingDri (msg : LWMessage) : Option (Option Text) :=
  match txBranch msg with
  | .ok (.responding _) => some (driOf msg)
  | _ => none

/-- The `dri` of a request that the receive queue takes. -/
def askedAt : System × Event → Option (Option Text)
  | (s, .rxSend true) =>
    match s.rx with
    | .request m => some (driOf m.msg)
    | _ => none
  | _ => none

/-- The `dri` of a response that leaves the device. -/
def answeredAt : System × Event → Option (Option Text)
  | (s, .txReceive) => s.sendQueue.head?.bind leavingDri
  | _ => none

def DistTask.request : DistTask → Option Parsed
  | .received m => some m
  | _ => none

def DistTask.responses : DistTask → List LWMessage
  | .answering _ responses => responses
  | _ => []

def OthersRequest : Event → Prop
  | .request msg _ => ¬IsResponse msg
  | _ => True

-- ---------------------------------------------------------------------------
-- Responses to a request
-- ---------------------------------------------------------------------------

/-- The response has the `dri`, or none like the request. -/
def AnswersTo (dri : Option Text) (msg : LWMessage) : Prop :=
  getLwmObjectFromDict msg.header "dri".toList = .ok (dri.map fun dri => .string (some dri))

theorem ofResponses_answersTo (dri : Option Text) : OfResponses dri (AnswersTo dri) where
  new h := by
    unfold newLwmRespMessage at h
    split at h <;> cases dri <;> cases h <;> rfl
  body h hmsg := by
    unfold AnswersTo
    rw [setLwmBodyObject_header h]
    exact hmsg

theorem AnswersTo.driOf (h : AnswersTo dri msg) : driOf msg = dri := by
  unfold Dist.driOf
  rw [lookup_of_ok h]
  cases dri <;> rfl

theorem leavingDri_isResponse (h : leavingDri msg = some dri) : IsResponse msg := by
  unfold leavingDri at h
  split at h
  case h_2 => cases h
  rename_i htx
  simp only [txBranch, bind_ok] at htx
  obtain ⟨request, -, htx⟩ := htx
  cases request with
  | some req => cases htx
  | none =>
    simp only [bind_ok] at htx
    obtain ⟨cif, hif, _, -, _, -, htx⟩ := htx
    split at htx
    · rename_i hshape
      rw [Option.isNone_iff_eq_none.mp hshape.1] at hif
      exact hif
    · cases htx

theorem leavingDri_eq (h : leavingDri msg = some dri) : driOf msg = dri := by
  unfold leavingDri at h
  split at h
  · exact Option.some.inj h
  · cases h

theorem distRequest_answers (h : distRequest pf inits ⟨services, []⟩ msg = .ok (dri, r))
    (hfinish : finishRequest dri r = .ok d) : ∀ res ∈ d.sendQueue, driOf res = driOf msg := by
  have hnil : Sends (AnswersTo dri) ⟨services, []⟩ := fun _ hmem => absurd hmem List.not_mem_nil
  have hsends := finishRequest_sends (ofResponses_answersTo dri)
    (distRequest_sends (ofResponses_answersTo dri) hnil h) hfinish
  have hunasked : (none, (⟨services, []⟩ : Device), (400 : UInt32)) = (dri, r) →
      ∀ res ∈ d.sendQueue, driOf res = driOf msg := by
    rintro ⟨⟩ res hres
    cases hfinish
    cases hres
  unfold distRequest at h
  split at h
  swap
  · exact hunasked (Except.ok.inj h)
  simp only [bind_ok] at h
  obtain ⟨cif, -, cdri, hdri, _, -, h⟩ := h
  split at h
  · simp only [bind_ok, pure_ok] at h
    obtain ⟨_, -, _, -, heq⟩ := h
    cases heq
    intro res hres
    rw [(hsends res hres).driOf]
    unfold driOf
    rw [lookup_of_ok hdri]
    rfl
  · exact hunasked (Except.ok.inj h)

theorem makeDeviceInformationLwmsg_request
    (h : makeDeviceInformationLwmsg services interfaceId dri di = .ok (services', msg)) :
    ¬IsResponse msg := by
  simp only [makeDeviceInformationLwmsg, bind_ok, pure_ok] at h
  obtain ⟨req, hreq, _, -, msg', hset, heq⟩ := h
  cases heq
  have hif : getLwmObjectFromDict req.header "if".toList =
      .ok (some (.number (.uint32 interfaceId))) := by
    cases dri <;> cases di <;> cases hreq <;> rfl
  unfold IsResponse
  rw [setLwmBodyObject_header hset, hif]
  exact nofun

-- ---------------------------------------------------------------------------
-- What holds in a run
-- ---------------------------------------------------------------------------

/-- The `dri` of the responses that are on their way out, the next one first. -/
def System.leaving (s : System) : List (Option Text) :=
  s.sendQueue.filterMap leavingDri ++ s.dist.responses.filterMap leavingDri

/-- The `dri` of the requests that wait to be handled. -/
def System.asking (s : System) : List (Option Text) :=
  (s.dist.request.toList ++ s.receiveQueue).map fun m => driOf m.msg

/-- What was asked was handled or waits, and the responses belong to the handled
requests in turn. -/
structure InOrder (run : List (System × Event)) (s : System) (handled : List (Option Text)) :
    Prop where
  asked : run.filterMap askedAt = handled ++ s.asking
  turn : InTurn Eq handled (run.filterMap answeredAt ++ s.leaving)
  once : (∀ t ∈ visited run s, t.dist.responses.length ≤ 1) →
    (run.filterMap answeredAt ++ s.leaving).Sublist handled

theorem filterMap_last (f : σ → Option τ) (xs : List σ) (x : σ) :
    (xs ++ [x]).filterMap f = xs.filterMap f ++ (f x).toList := by
  cases h : f x <;> simp [h]

theorem InOrder.quiet (h : InOrder run s handled)
    (hasking : s'.asking = s.asking ++ (askedAt (s, e)).toList)
    (hleaving : ((answeredAt (s, e)).toList ++ s'.leaving).Sublist s.leaving) :
    InOrder (run ++ [(s, e)]) s' handled := by
  have hsub : ((run ++ [(s, e)]).filterMap answeredAt ++ s'.leaving).Sublist
      (run.filterMap answeredAt ++ s.leaving) := by
    rw [filterMap_last, List.append_assoc]
    exact hleaving.append_left _
  refine ⟨?_, h.turn.sublist hsub, fun honce => hsub.trans (h.once fun t ht => honce t ?_)⟩
  · rw [filterMap_last, h.asked, hasking, List.append_assoc]
  · simp only [visited, List.map_append, List.mem_append, List.map_cons, List.map_nil] at ht ⊢
    exact .inl ht

theorem InOrder.handle {answers : List LWMessage} (h : InOrder run s handled)
    (hdist : s.dist = .received m) (hanswers : ∀ msg ∈ answers, driOf msg = driOf m.msg) :
    InOrder (run ++ [(s, Event.distHandle pf inits)])
      { s with services := services, dist := .answering m' answers }
      (handled ++ [driOf m.msg]) := by
  have hgroup : ∀ dri ∈ answers.filterMap leavingDri, driOf m.msg = dri := by
    intro dri hdri
    obtain ⟨msg, hmsg, hleaving⟩ := List.mem_filterMap.mp hdri
    exact (hanswers msg hmsg).symm.trans (leavingDri_eq hleaving)
  have hout : (run ++ [(s, Event.distHandle pf inits)]).filterMap answeredAt ++
      System.leaving { s with services := services, dist := .answering m' answers } =
      (run.filterMap answeredAt ++ s.leaving) ++ answers.filterMap leavingDri := by
    simp [System.leaving, DistTask.responses, hdist, answeredAt]
  refine ⟨?_, ?_, fun honce => ?_⟩
  · rw [filterMap_last, h.asked]
    simp [System.asking, DistTask.request, hdist, askedAt]
  · rw [hout]
    exact h.turn.append hgroup
  · rw [hout]
    have hbefore := h.once fun t ht => honce t (by
      simp only [visited, List.map_append, List.mem_append, List.map_cons, List.map_nil] at ht ⊢
      exact .inl ht)
    have hone : answers.length ≤ 1 := honce _ (List.mem_append_right _ List.mem_cons_self)
    refine hbefore.append ?_
    have hlen := (List.length_filterMap_le leavingDri answers).trans hone
    rcases hmap : answers.filterMap leavingDri with _ | ⟨dri, _ | ⟨_, _⟩⟩
    · exact List.nil_sublist _
    · rw [hgroup dri (hmap ▸ List.mem_cons_self)]
    · rw [hmap] at hlen
      simp at hlen

theorem leaving_put (queue : List LWMessage) (msg : LWMessage) (taken : Bool) :
    ((put queue msg taken).filterMap leavingDri).Sublist
      (queue.filterMap leavingDri ++ (leavingDri msg).toList) := by
  unfold put
  split
  · rw [filterMap_last]
  · exact List.sublist_append_left _ _

theorem leaving_put_request (queue : List LWMessage) (taken : Bool) (h : ¬IsResponse msg) :
    ((put queue msg taken).filterMap leavingDri).Sublist (queue.filterMap leavingDri) := by
  have hnone : leavingDri msg = none :=
    Option.eq_none_iff_forall_ne_some.mpr fun _ hleaving => h (leavingDri_isResponse hleaving)
  have hsub := leaving_put queue msg taken
  rwa [hnone, Option.toList_none, List.append_nil] at hsub

theorem txEffect_leaving (h : txEffect dri taken s phase = .ok s') :
    s'.asking = s.asking ∧ s'.leaving.Sublist s.leaving := by
  unfold txEffect at h
  split at h
  · simp only [bind_ok, pure_ok] at h
    obtain ⟨⟨services, info⟩, hinfo, rfl⟩ := h
    have hrequest := makeDeviceInformationLwmsg_request hinfo
    exact ⟨rfl, (leaving_put_request s.sendQueue taken hrequest).append_right _⟩
  · cases h
    exact ⟨rfl, List.Sublist.refl _⟩
  · cases h
    exact ⟨rfl, List.Sublist.refl _⟩

theorem InOrder.step (h : InOrder run s handled) (hothers : OthersRequest e) (hs : Step s e s') :
    ∃ handled', InOrder (run ++ [(s, e)]) s' handled' := by
  cases hs with
  | distHandle hdist hhandle hfinish =>
    have hanswers := distRequest_answers hhandle hfinish
    exact ⟨_, h.handle hdist fun msg hmsg => hanswers msg (List.mem_reverse.mp hmsg)⟩
  | rxRespond hrx =>
    refine ⟨_, h.quiet ?_ (List.Sublist.refl _)⟩
    cases ‹Bool› <;> simp [askedAt, hrx] <;> rfl
  | rxRequest hrx =>
    refine ⟨_, h.quiet ?_ (List.Sublist.refl _)⟩
    cases ‹Bool› <;> simp [askedAt, hrx, System.asking, put]
  | distReceive hdist hqueue =>
    refine ⟨_, h.quiet ?_ ?_⟩
    · simp [askedAt, System.asking, DistTask.request, hdist, hqueue]
    · simp [answeredAt, System.leaving, DistTask.responses, hdist]
  | distSend hdist =>
    refine ⟨_, h.quiet ?_ ?_⟩
    · simp [askedAt, System.asking, DistTask.request, hdist]
    · rename_i taken m rest msg
      have hput := (leaving_put s.sendQueue msg taken).append_right (rest.filterMap leavingDri)
      cases hleaving : leavingDri msg <;>
        simpa [answeredAt, System.leaving, DistTask.responses, hdist, hleaving] using hput
  | distFinish hdist =>
    refine ⟨_, h.quiet ?_ ?_⟩
    · simp [askedAt, System.asking, DistTask.request, hdist]
    · simp [answeredAt, System.leaving, DistTask.responses, hdist]
  | txReceive _ hqueue =>
    refine ⟨_, h.quiet (List.append_nil _).symm ?_⟩
    rename_i msg queue _ _ _
    cases hleaving : leavingDri msg <;> simp [answeredAt, System.leaving, hqueue, hleaving]
  | txRead _ _ heffect =>
    obtain ⟨hasking, hleaving⟩ := txEffect_leaving heffect
    exact ⟨_, h.quiet (hasking.trans (List.append_nil _).symm) hleaving⟩
  | request =>
    refine ⟨_, h.quiet (List.append_nil _).symm ?_⟩
    exact (leaving_put_request s.sendQueue _ hothers).append_right _
  | _ => exact ⟨_, h.quiet (List.append_nil _).symm (List.Sublist.refl _)⟩

theorem inOrder (hasking : s₀.asking = []) (hleaving : s₀.leaving = [])
    (hrun : Run Step s₀ run s) (hothers : ∀ x ∈ run, OthersRequest x.2) :
    ∃ handled, InOrder run s handled := by
  induction hrun with
  | start =>
    refine ⟨[], ?_, ?_, ?_⟩ <;> simp only [hasking, hleaving, List.filterMap_nil, List.append_nil]
    · exact .nil
    · exact fun _ => List.Sublist.refl _
  | step _ hs ih =>
    obtain ⟨handled, h⟩ := ih fun x hx => hothers x (List.mem_append_left _ hx)
    exact h.step (hothers _ (List.mem_append_right _ List.mem_cons_self)) hs

/-- In every run that starts without a request to handle and a response to send, as at
power-up, and in which other tasks send requests only, each response that leaves carries
the `dri` of a request that was taken, and the responses leave in the order of their
requests. Where no request gets two responses, none leaves twice. -/
theorem answers_in_order (hasking : s₀.asking = []) (hleaving : s₀.leaving = [])
    (hrun : Run Step s₀ run s) (hothers : ∀ x ∈ run, OthersRequest x.2) :
    InTurn Eq (run.filterMap askedAt) (run.filterMap answeredAt) ∧
      ((∀ t ∈ visited run s, t.dist.responses.length ≤ 1) →
        (run.filterMap answeredAt).Sublist (run.filterMap askedAt)) := by
  obtain ⟨handled, h⟩ := inOrder hasking hleaving hrun hothers
  rw [h.asked]
  refine ⟨(h.turn.sublist (List.sublist_append_left _ _)).more_ins _, fun honce => ?_⟩
  exact ((List.sublist_append_left _ _).trans (h.once honce)).trans (List.sublist_append_left _ _)

example (services : List MicroService) :
    (powerUp services).asking = [] ∧ (powerUp services).leaving = [] := ⟨rfl, rfl⟩

theorem answers_in_order_sample :
    ∃ run s, Run Step ((⟨true, [], 2, [1, 0]⟩ : Sample).system .receiving .receiving []) run s ∧
      run.filterMap askedAt = [some "9".toList, some "5".toList] ∧
      run.filterMap answeredAt = [some "9".toList, some "5".toList] ∧
      InTurn Eq (run.filterMap askedAt) (run.filterMap answeredAt) := by
  have hstart : Run Step ((⟨true, [], 2, [1, 0]⟩ : Sample).system .receiving .receiving []) [] _ :=
    .start
  have hfirst := ((hstart.step (.rxParse rfl (parse_sampleRequest "9".toList (by decide)))).step
    (.rxBranch rfl rfl)).step (e := .rxSend true) (.rxRequest rfl)
  have hboth := ((hfirst.step (.rxParse rfl (parse_sampleRequest "5".toList (by decide)))).step
    (.rxBranch rfl rfl)).step (e := .rxSend true) (.rxRequest rfl)
  have hanswered := (((hboth.step (.distReceive rfl rfl)).step
    (e := .distHandle samplePlatform fun _ => initAll false) (.distHandle rfl rfl rfl)).step
    (e := .distSend true) (.distSend rfl)).step (.distFinish rfl)
  have hhandled := ((hanswered.step (.distReceive rfl rfl)).step
    (e := .distHandle samplePlatform fun _ => initAll false) (.distHandle rfl rfl rfl)).step
    (e := .distSend true) (.distSend rfl)
  have hsent := (((hhandled.step (.txReceive rfl rfl rfl)).step (e := .txSend true) (.txRespond rfl)).step
    (.txFinish rfl)).step (.txReceive rfl rfl rfl)
  refine ⟨_, _, hsent, rfl, rfl, (answers_in_order rfl rfl hsent ?_).1⟩
  simp [OthersRequest]

end IoTware.Dist
