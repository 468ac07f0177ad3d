import IoTware.Dist.Answers

/-!
# What the dispatcher leaves behind

A request that its handler has answered itself is left with the code 300, by
which the dispatcher knows it. Whether it is, the request and the microservices
tell beforehand. All that the dispatcher sends are responses.
-/

namespace IoTware.Dist

open CText LwMsg Micro Loops

/-- The loop body of `lwmsg_dist_task` up to the answer: the device, `_dri` and
`rsc`. The code of a request without a handler is not read any more. -/
def distRequest (pf : Platform) (inits : Nat → Inits) (d : Device) (msg : LWMessage) :
    Except Fault (Option Text × Device × UInt32) := do
  if nodeNum msg.header > 0 then
    let cif ← getLwmObjectFromDict msg.header "if".toList
    let cdri ← getLwmObjectFromDict msg.header "dri".toList
    let _ ← getLwmObjectFromDict msg.header "rsc".toList
    match cif, cdri with
    | some cif, some cdri =>
      let interfaceId ← atoi cif.stringValue
      let dri := cdri.stringValue
      return (dri, ← handleRequest pf inits (.ofInt interfaceId) dri d msg)
    | _, _ => return (none, d, 400)
  else return (none, d, 400)

theorem lwmsgDist_eq (pf : Platform) (inits : Nat → Inits) (d : Device) (msg : LWMessage) :
    lwmsgDist pf inits d msg = (do
      let (dri, s) ← distRequest pf inits d msg
      finishRequest dri s) := by
  unfold lwmsgDist distRequest
  split
  · simp only [bind_assoc]
    congr 1
    funext cif
    congr 1
    funext cdri
    congr 1
    funext _
    cases cif with
    | none => rfl
    | some cif =>
      cases cdri with
      | none => rfl
      | some cdri =>
        simp only [bind_assoc]
        rfl
  · rfl

-- ---------------------------------------------------------------------------
-- Responses
-- ---------------------------------------------------------------------------

def IsResponse (msg : LWMessage) : Prop := getLwmObjectFromDict msg.header "if".toList = .ok none

theorem newLwmRespMessage_isResponse (h : newLwmRespMessage dri rsc = .ok msg) : IsResponse msg := by
  unfold newLwmRespMessage at h
  split at h <;> cases dri <;> cases h <;> rfl

theorem setLwmBodyObject_isResponse (h : setLwmBodyObject msg key value = .ok msg')
    (hmsg : IsResponse msg) : IsResponse msg' := by
  unfold IsResponse
  rw [setLwmBodyObject_header h]
  exact hmsg

def Responds (d : Device) : Prop := ∀ msg ∈ d.sendQueue, IsResponse msg

/-- A property of the responses to `dri`: new ones have it, and it is not about the body. -/
structure OfResponses (dri : Option Text) (P : LWMessage → Prop) : Prop where
  new : newLwmRespMessage dri rsc = .ok msg → P msg
  body : setLwmBodyObject msg key value = .ok msg' → P msg → P msg'

theorem ofResponses_isResponse (dri : Option Text) : OfResponses dri IsResponse :=
  ⟨newLwmRespMessage_isResponse, setLwmBodyObject_isResponse⟩

def Sends (P : LWMessage → Prop) (d : Device) : Prop := ∀ msg ∈ d.sendQueue, P msg

section
variable {P : LWMessage → Prop} {d : Device}

theorem Sends.response (h : Sends P d) (hmsg : P msg) : Sends P (responseLwmsg d msg) :=
  List.forall_mem_cons.mpr ⟨hmsg, h⟩

theorem answerOutput_sends (hP : OfResponses dri P) (hd : Sends P d)
    (h : answerOutput pf dri d param = .ok d') : Sends P d' := by
  unfold answerOutput at h
  split at h
  · cases h
    exact hd
  · simp only [bind_ok, pure_ok] at h
    obtain ⟨_, -, res, hres, res', hset, rfl⟩ := h
    exact hd.response (hP.body hset (hP.new hres))

theorem outputReadStep_sends (hP : OfResponses dri P) (hd : Sends P s.1)
    (h : outputReadStep pf dri s msid = .ok s') : Sends P s'.1 := by
  obtain ⟨-, rfl⟩ | ⟨ms, i, -, ⟨-, rfl⟩ | ⟨-, text, d', -, rfl, ⟨-, hd'⟩ | ⟨-, hd'⟩⟩⟩ :=
    outputReadStep_cases h
  · exact hd
  · exact hd
  · exact answerOutput_sends hP hd hd'
  · refine answerOutput_sends hP ?_ hd'
    exact hd

theorem readAll_sends (hP : OfResponses dri P) (hd : Sends P d)
    (h : readAll pf dri d ti = .ok s') : Sends P s'.1 := by
  unfold readAll at h
  rw [bind_ok] at h
  obtain ⟨res, hres, h⟩ := h
  split at h
  · cases h
  · simp only [bind_ok, pure_ok] at h
    obtain ⟨_, -, _, -, res₁, h₁, res₂, h₂, rfl⟩ := h
    exact hd.response (hP.body h₂ (hP.body h₁ (hP.new hres)))

theorem readNamed_sends (hP : OfResponses req.dri P) (hd : Sends P d)
    (h : readNamed pf req d ti = .ok s') : Sends P s'.1 := by
  unfold readNamed at h
  split at h
  · cases h
  simp only [bind_ok] at h
  obtain ⟨_, -, _, -, h⟩ := h
  split at h
  · simp only [bind_ok, pure_ok] at h
    obtain ⟨res, hres, res', hset, rfl⟩ := h
    exact hd.response (hP.body hset (hP.new hres))
  · cases h
    exact hd

theorem paramReadTask_sends (hP : OfResponses req.dri P) (hd : Sends P s.1)
    (h : paramReadTask pf req ms s obj = .ok s') : Sends P s'.1 := by
  unfold paramReadTask at h
  rw [bind_ok] at h
  obtain ⟨_, -, h⟩ := h
  split at h
  · exact readAll_sends hP hd h
  · exact readNamed_sends hP hd h

theorem paramReadStep_sends (hP : OfResponses dri P) (hd : Sends P s.1)
    (h : paramReadStep pf isAll dri body s msid = .ok (s', stop)) : Sends P s'.1 := by
  obtain ⟨-, rfl, -⟩ | ⟨ms, i, -, ⟨-, rfl, -⟩ | ⟨-, cti, cfp, csp, -, -, -, h⟩⟩ :=
    paramReadStep_cases h
  · exact hd
  · exact hd
  · obtain ⟨-, rfl, -⟩ | ⟨tis, -, -, hloop, -⟩ := h
    · exact hd
    · exact foldlM_invariant (I := fun s => Sends P s.1)
        (fun _ _ _ hs h => paramReadTask_sends hP hs h) hd hloop

theorem onServices_sends {result : Except Fault (List MicroService × UInt32)} (hd : Sends P d)
    (h : (do let (services, rsc) ← result; return ({ d with services := services }, rsc)) = .ok s') :
    Sends P s'.1 := by
  simp only [bind_ok, pure_ok] at h
  obtain ⟨_, -, rfl⟩ := h
  exact hd

theorem lwmsgParamRead_sends (hP : OfResponses dri P) (hd : Sends P d)
    (h : lwmsgParamRead pf isAll dri d msg = .ok s') : Sends P s'.1 := by
  unfold lwmsgParamRead at h
  rw [bind_ok] at h
  obtain ⟨_, -, h⟩ := h
  split at h
  · split at h
    · simp only [bind_ok, pure_ok] at h
      obtain ⟨⟨s, stop⟩, hloop, rfl⟩ := h
      exact (loop_invariant (I := fun s => Sends P s.1) (P := True)
        (fun _ _ _ _ hs h => ⟨paramReadStep_sends hP hs h, fun _ => trivial⟩) hd hloop).1
    · cases h
      exact hd
  · cases h
    exact hd

theorem lwmsgOutputParamRead_sends (hP : OfResponses dri P) (hd : Sends P d)
    (h : lwmsgOutputParamRead pf dri d msg = .ok s') : Sends P s'.1 := by
  unfold lwmsgOutputParamRead at h
  rw [bind_ok] at h
  obtain ⟨_, -, h⟩ := h
  split at h
  · exact foldlM_invariant (I := fun s => Sends P s.1) (fun _ _ _ hs h => outputReadStep_sends hP hs h)
      hd h
  · cases h
    exact hd

theorem handleRequest_sends (hP : OfResponses dri P) (hd : Sends P d)
    (h : handleRequest pf inits interfaceId dri d msg = .ok s') : Sends P s'.1 := by
  unfold handleRequest at h
  cases interfaceId with
  | devTaskInfoRequest =>
    simp only [bind_ok, pure_ok] at h
    obtain ⟨r, hreport, rfl⟩ := h
    have hreport := Pointers.makeDeviceInformationLwmsg2_ok hreport
    simp only [makeDeviceInformationLwmsg2, bind_ok, pure_ok] at hreport
    obtain ⟨msg, hmsg, _, -, res, hset, rfl⟩ := hreport
    exact hd.response (hP.body hset (hP.new hmsg))
  | msCreation | msRun | msStop | msDelete | taskParamSet | taskOn | taskOff =>
    exact onServices_sends hd h
  | taskParamRead | taskParamReadAll => exact lwmsgParamRead_sends hP hd h
  | msOutputParamRead => exact lwmsgOutputParamRead_sends hP hd h
  | other =>
    cases h
    exact hd

theorem distRequest_sends (hP : OfResponses dri P) (hd : Sends P d)
    (h : distRequest pf inits d msg = .ok (dri, s)) : Sends P s.1 := by
  unfold distRequest at h
  split at h
  · simp only [bind_ok] at h
    obtain ⟨_, -, _, -, _, -, h⟩ := h
    split at h
    · simp only [bind_ok, pure_ok] at h
      obtain ⟨_, -, s, hhandle, heq⟩ := h
      cases heq
      exact handleRequest_sends hP hd hhandle
    · cases h
      exact hd
  · cases h
    exact hd

theorem finishRequest_sends (hP : OfResponses dri P) (hd : Sends P s.1)
    (h : finishRequest dri s = .ok d') : Sends P d' := by
  unfold finishRequest at h
  split at h
  · cases h
    exact hd
  split at h
  · cases h
    exact hd
  · simp only [bind_ok, pure_ok] at h
    obtain ⟨res, hres, rfl⟩ := h
    exact hd.response (hP.new hres)

theorem distRequest_responds (hd : Responds d) (h : distRequest pf inits d msg = .ok (dri, s)) :
    Responds s.1 :=
  distRequest_sends (ofResponses_isResponse dri) hd h

theorem finishRequest_responds (hd : Responds s.1) (h : finishRequest dri s = .ok d') :
    Responds d' :=
  finishRequest_sends (ofResponses_isResponse dri) hd h

end

-- ---------------------------------------------------------------------------
-- The mark
-- ---------------------------------------------------------------------------

theorem outputReadStep_noDri (h : outputReadStep pf none s msid = .ok s') : s'.2 ≠ 300 := by
  obtain ⟨-, rfl⟩ | ⟨ms, i, -, ⟨-, rfl⟩ | ⟨-, text, d', hdri, -⟩⟩ := outputReadStep_cases h
  · exact notFound_ne
  · exact badReq_ne
  · cases hdri

def SameCode (s t : Device × UInt32) : Prop := s.1.services = t.1.services ∧ s.2 = t.2

theorem paramReadTask_dri (dri' : Option Text) (hst : SameCode s t)
    (h : paramReadTask pf ⟨dri, isAll, cfp, csp⟩ ms s obj = .ok s') :
    ∃ t', paramReadTask pf ⟨dri', isAll, cfp, csp⟩ ms t obj = .ok t' ∧ SameCode s' t' := by
  unfold paramReadTask at h ⊢
  rw [bind_ok] at h
  obtain ⟨index, hindex, h⟩ := h
  rw [hindex]
  obtain ⟨res', hres', hbody⟩ : ∃ res', newLwmRespMessage dri' 200 = .ok res' ∧ res'.body = [] := by
    obtain ⟨res', hres'⟩ := newLwmRespMessage_total dri' 200
    exact ⟨res', hres', newLwmRespMessage_body hres'⟩
  have hnil : KeysNonNull res'.body := hbody ▸ keysNonNull_nil
  dsimp only [bind, Except.bind] at h ⊢
  cases isAll with
  | true =>
    simp only [if_true] at h ⊢
    unfold readAll at h ⊢
    rw [bind_ok] at h
    obtain ⟨res, -, h⟩ := h
    split at h
    · cases h
    · simp only [bind_ok, pure_ok] at h
      obtain ⟨fpDict, hfp, spDict, hsp, _, -, _, -, rfl⟩ := h
      obtain ⟨res₁, h₁, -, hn₁⟩ := setLwmBodyObject_ok hnil "fp".toList (some (.dictionary fpDict))
      obtain ⟨res₂, h₂, -, -⟩ := setLwmBodyObject_ok hn₁ "sp".toList (some (.dictionary spDict))
      refine ⟨(responseLwmsg t.1 res₂, 300), ?_, hst.1, rfl⟩
      simp only [hres', hfp, hsp, h₁, h₂, bind, Except.bind]
      rfl
  | false =>
    simp only [Bool.false_eq_true, if_false] at h ⊢
    unfold readNamed at h ⊢
    split at h
    · cases h
    simp only [bind_ok] at h
    obtain ⟨names, hnames, ⟨cpDict, found⟩, hloop, h⟩ := h
    rename_i cp hcp
    simp only [hcp, hnames, hloop, bind, Except.bind]
    cases found with
    | false =>
      cases h
      exact ⟨_, rfl, hst.1, rfl⟩
    | true =>
      simp only [if_true, bind_ok, pure_ok] at h ⊢
      obtain ⟨_, -, _, -, rfl⟩ := h
      obtain ⟨res₁, h₁, -, -⟩ := setLwmBodyObject_ok hnil
        (if cfp.isSome then "fp".toList else "sp".toList) (some (.dictionary cpDict))
      refine ⟨(responseLwmsg t.1 res₁, 300), ?_, hst.1, rfl⟩
      simp only [hres', h₁]
      rfl

theorem paramReadStep_dri (dri' : Option Text) (hst : SameCode s t)
    (h : paramReadStep pf isAll dri body s msid = .ok (s', stop)) :
    ∃ t', paramReadStep pf isAll dri' body t msid = .ok (t', stop) ∧ SameCode s' t' := by
  unfold paramReadStep at h ⊢
  rw [← hst.1]
  split at h
  · cases h
    exact ⟨_, rfl, hst.1, rfl⟩
  rename_i ms i hinfo
  split at h
  · rename_i hstate
    cases h
    rw [if_pos hstate]
    exact ⟨_, rfl, hst.1, rfl⟩
  rename_i hstate
  rw [if_neg hstate]
  simp only [bind_ok] at h
  obtain ⟨cti, hcti, cfp, hcfp, csp, hcsp, h⟩ := h
  simp only [hcti, hcfp, hcsp, bind, Except.bind]
  split at h
  · split at h
    · rename_i hshape
      cases h
      simp only [if_pos hshape]
      exact ⟨t, rfl, hst⟩
    · rename_i hshape
      rw [bind_ok] at h
      obtain ⟨s₁, hloop, heq⟩ := h
      cases heq
      simp only [if_neg hshape]
      obtain ⟨t', ht', hst'⟩ := foldlM_simulates (R := SameCode)
        (g := paramReadTask pf ⟨dri', isAll, cfp, csp⟩ ms)
        (fun _ _ _ _ hst h => paramReadTask_dri dri' hst h) hst hloop
      exact ⟨t', by rw [ht']; rfl, hst'⟩
  · cases h
    exact ⟨t, rfl, hst⟩

theorem lwmsgParamRead_dri (dri' : Option Text) (h : lwmsgParamRead pf isAll dri d msg = .ok s) :
    ∃ t, lwmsgParamRead pf isAll dri' d msg = .ok t ∧ SameCode s t := by
  unfold lwmsgParamRead at h ⊢
  rw [bind_ok] at h
  obtain ⟨mis, hmis, h⟩ := h
  simp only [hmis, bind, Except.bind]
  split at h
  · split at h
    · rename_i hone
      simp only [bind_ok, pure_ok] at h
      obtain ⟨⟨s, stop⟩, hloop, rfl⟩ := h
      obtain ⟨t, ht, hst⟩ := loop_simulates (R := SameCode)
        (g := paramReadStep pf isAll dri' msg.body) (t := (d, 400))
        (fun _ _ _ _ _ hst h => paramReadStep_dri dri' hst h) ⟨rfl, rfl⟩ hloop
      simp only [if_pos hone]
      exact ⟨t, by rw [ht]; rfl, hst⟩
    · rename_i hmany
      cases h
      simp only [if_neg hmany]
      exact ⟨_, rfl, rfl, rfl⟩
  · cases h
    exact ⟨_, rfl, rfl, rfl⟩

def handlerMarks (interfaceId : LwmIf) (dri : Option Text) (services : List MicroService)
    (body : LWMDictionary) : Bool :=
  match dri with
  | some dri => lastOwn (handlerOutcomes interfaceId dri services body)
  | none => interfaceId ≠ .msOutputParamRead && lastOwn (handlerOutcomes interfaceId [] services body)

def answeredByHandler (services : List MicroService) (msg : LWMessage) : Bool :=
  decide (nodeNum msg.header > 0) &&
    match lookup msg.header "if".toList, lookup msg.header "dri".toList with
    | some cif, some cdri => cif.stringValue.any fun textIf =>
      handlerMarks (.ofInt (atol textIf)) cdri.stringValue services msg.body
    | _, _ => false

theorem handleRequest_code (h : handleRequest pf inits interfaceId dri d msg = .ok s) :
    s.2 = 300 ↔ handlerMarks interfaceId dri d.services msg.body = true := by
  cases dri with
  | some dri => exact (handleRequest_sent h).code
  | none =>
    unfold handlerMarks
    unfold handleRequest at h
    cases interfaceId with
    | devTaskInfoRequest =>
      simp only [bind_ok, pure_ok] at h
      obtain ⟨_, -, rfl⟩ := h
      exact iff_of_true rfl rfl
    | msCreation | msRun | msStop | msDelete =>
      exact (onServices_sent [] (fun _ h => lwmsgOperation_code h) h).code
    | taskParamSet => exact (onServices_sent [] (fun _ h => lwmsgParamSet_code h) h).code
    | taskOn | taskOff => exact (onServices_sent [] (fun _ h => lwmsgOffloarding_code h) h).code
    | taskParamRead | taskParamReadAll =>
      obtain ⟨t, ht, hst⟩ := lwmsgParamRead_dri (some []) h
      rw [hst.2]
      exact (lwmsgParamRead_sent ht).code
    | msOutputParamRead =>
      refine iff_of_false ?_ Bool.false_ne_true
      unfold lwmsgOutputParamRead at h
      rw [bind_ok] at h
      obtain ⟨_, -, h⟩ := h
      split at h
      · exact foldlM_invariant (I := fun s => s.2 ≠ 300) (fun _ _ _ _ h => outputReadStep_noDri h)
          badReq_ne h
      · cases h
        exact badReq_ne
    | other =>
      cases h
      exact iff_of_false badReq_ne Bool.false_ne_true

theorem distRequest_code (h : distRequest pf inits d msg = .ok (dri, s)) :
    s.2 = 300 ↔ answeredByHandler d.services msg = true := by
  unfold distRequest at h
  unfold answeredByHandler
  split at h
  · rename_i hheader
    simp only [bind_ok] at h
    obtain ⟨cif, hcif, cdri, hcdri, _, -, h⟩ := h
    rw [lookup_of_ok hcif, lookup_of_ok hcdri]
    split at h
    · rename_i cif cdri
      simp only [bind_ok, pure_ok] at h
      obtain ⟨interfaceId, hid, s, hhandle, heq⟩ := h
      cases heq
      cases htext : cif.stringValue with
      | none =>
        rw [htext] at hid
        cases hid
      | some text =>
        rw [htext] at hid
        cases hid
        simpa [hheader] using handleRequest_code hhandle
    · rename_i hnot
      cases h
      refine iff_of_false badReq_ne ?_
      cases cif with
      | none => simp
      | some cif =>
        cases cdri with
        | none => simp
        | some cdri => exact (hnot cif cdri rfl rfl).elim
  · rename_i hheader
    cases h
    exact iff_of_false badReq_ne (by simp [hheader])

end IoTware.Dist
