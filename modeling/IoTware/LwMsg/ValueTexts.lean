import IoTware.LwMsg.Nested
import IoTware.LwMsg.Sound

/-!
# The texts of values

A text that the parser has read as a value holds no delimiter and begins with no blank.
Such a text is read again wherever it is written, so an answer to the `dri` of a request
comes back with that `dri`, also where it is no plain text.
-/

namespace IoTware.LwMsg

open CText Loops

def TextChar (c : Char) : Prop := (isAlnum c || isSpace c || isPunct c) ∧ c ∉ delimiters

instance : Decidable (TextChar c) := inferInstanceAs (Decidable (_ ∧ _))

def ValueText (t : Text) : Prop :=
  t ≠ [] ∧ (∀ c ∈ t.head?, ¬ isSpace c) ∧ ∀ c ∈ t, TextChar c

instance (t : Text) : Decidable (ValueText t) := inferInstanceAs (Decidable (_ ∧ _ ∧ _))

-- ---------------------------------------------------------------------------
-- Characters
-- ---------------------------------------------------------------------------

theorem textChar_of_isSpace (h : isSpace c) : TextChar c := by
  simp [TextChar, h, isSpace_notMem h]

theorem TextChar.not_token (h : TextChar c) (hne : tokens ≠ []) (hs : tokens ⊆ delimiters) :
    ¬ lwmIsToken c tokens := by
  have hmem : c ∉ tokens := fun hc => h.2 (hs hc)
  simp only [lwmIsToken, h.1, Bool.not_true, Bool.or_false, Bool.or_eq_true, List.any_eq_true,
    beq_iff_eq, List.isEmpty_iff]
  rintro (hnil | ⟨d, hd, rfl⟩)
  · exact hne hnil
  · exact hmem hd

theorem TextChar.ne_nul (h : TextChar c) : c ≠ nul := by
  rintro rfl
  exact absurd h (by decide)

theorem class_of_not_token (hne : tokens ≠ []) (h : ¬ lwmIsToken c tokens) :
    (isAlnum c || isSpace c || isPunct c) ∧ c ∉ tokens := by
  obtain ⟨d, tokens, rfl⟩ := List.exists_cons_of_ne_nil hne
  have hclass : (isAlnum c || isSpace c || isPunct c) = true := by
    cases hc : (isAlnum c || isSpace c || isPunct c) with
    | true => rfl
    | false => simp [lwmIsToken, hc] at h
  exact ⟨hclass, fun hmem => h (lwmIsToken_self hmem)⟩

theorem ValueText.concat (h : ValueText t) (hc : TextChar c) : ValueText (t ++ [c]) := by
  obtain ⟨hne, hhead, hall⟩ := h
  obtain ⟨d, t, rfl⟩ := List.exists_cons_of_ne_nil hne
  refine ⟨by simp, by simpa using hhead, ?_⟩
  simpa [or_imp, forall_and, hc] using hall

theorem ValueText.cons (h : ValueText t) :
    ∃ c s, t = c :: s ∧ TextChar c ∧ ¬ isSpace c ∧ ∀ d ∈ s, TextChar d := by
  obtain ⟨hne, hhead, hall⟩ := h
  obtain ⟨c, s, rfl⟩ := List.exists_cons_of_ne_nil hne
  exact ⟨c, s, rfl, hall c (by simp), hhead c (by simp), fun d hd => hall d (by simp [hd])⟩

theorem PlainText.valueText (h : PlainText t) : ValueText t := by
  obtain ⟨c, s, rfl, hc, hspace, hs⟩ := h.cons
  have hchar : ∀ d, PlainChar d → TextChar d := fun d hd => ⟨class_of_isPrint hd.1, hd.2⟩
  refine ⟨by simp, by simpa using hspace, ?_⟩
  simpa using ⟨hchar c hc, fun d hd => hchar d (hs d hd)⟩

-- ---------------------------------------------------------------------------
-- What the parser reads
-- ---------------------------------------------------------------------------

theorem lwmKvoText_valueText (hpre : ValueText pre)
    (h : lwmKvoText (pre ++ p) p = .ok (some (some t), q)) : ValueText t := by
  induction p generalizing pre with
  | nil => cases h
  | cons c p ih =>
    have hstart : pre ++ c :: p = (pre ++ [c]) ++ p := by simp
    rw [lwmKvoText] at h
    split at h
    · cases h
    split at h
    · rename_i hspace
      rw [hstart] at h
      exact ih (hpre.concat (textChar_of_isSpace hspace)) h
    split at h
    · cases h
    rename_i hopen
    split at h
    · cases h
      simpa [between_append] using hpre
    · rename_i hclose
      have hopen := class_of_not_token (by simp) hopen
      have hclose := class_of_not_token (by simp) hclose
      rw [hstart] at h
      refine ih (hpre.concat ⟨hopen.1, ?_⟩) h
      simpa [delimiters, not_or, and_assoc, and_left_comm, and_comm] using And.intro hopen.2 hclose.2

theorem lwmNewDictParsing_dictionary (h : lwmNewDictParsing n p = .ok (some obj, q)) :
    ∃ dict, obj = .dictionary dict := by
  cases n with
  | zero => cases h
  | succ n =>
    cases p with
    | nil => cases h
    | cons c p =>
      simp only [lwmNewDictParsing, bind_ok, pure_ok] at h
      obtain ⟨⟨b, dict, r⟩, -, heq⟩ := h
      cases b
      · cases heq
      · cases heq
        exact ⟨dict, rfl⟩

theorem lwmNewArrayParsing_array (h : lwmNewArrayParsing n p = .ok (some obj, q)) :
    ∃ items, obj = .array items := by
  cases n with
  | zero => cases h
  | succ n =>
    cases p with
    | nil => cases h
    | cons c p =>
      rw [lwmNewArrayParsing] at h
      split at h
      · cases h
      split at h
      · cases h
        exact ⟨[], rfl⟩
      · simp only [bind_ok, pure_ok] at h
        obtain ⟨⟨arr, r⟩, -, heq⟩ := h
        cases arr with
        | none => cases heq
        | some arr =>
          cases heq
          exact ⟨arr, rfl⟩

theorem lwmKvoVal_valueText (h : lwmKvoVal n p = .ok (some (.string (some t)), q)) :
    ValueText t := by
  induction n generalizing p with
  | zero => cases h
  | succ n ih =>
    cases p with
    | nil => cases h
    | cons c p =>
      rw [lwmKvoVal] at h
      split at h
      · cases h
      split at h
      · exact ih h
      rename_i hspace
      split at h
      · obtain ⟨dict, hdict⟩ := lwmNewDictParsing_dictionary h
        cases hdict
      rename_i hbrace
      split at h
      · obtain ⟨items, hitems⟩ := lwmNewArrayParsing_array h
        cases hitems
      rename_i hbracket
      split at h
      · cases h
      rename_i htoken
      simp only [bind_ok, pure_ok] at h
      obtain ⟨⟨text, r⟩, htext, heq⟩ := h
      obtain ⟨hclass, hmem⟩ := class_of_not_token (by simp) htoken
      have hc : TextChar c := by
        refine ⟨hclass, ?_⟩
        simp [delimiters] at hmem ⊢
        simp [hbrace, hbracket, hmem]
      have hpre : ValueText [c] := ⟨by simp, by simpa using hspace, by simpa using hc⟩
      cases text with
      | none => cases heq
      | some text =>
        cases heq
        exact lwmKvoText_valueText hpre htext

def ValueTexts (dict : LWMDictionary) : Prop :=
  ∀ key t, (key, LWMObject.string (some t)) ∈ dict → ValueText t

theorem ValueTexts.subset (h : ValueTexts dict) (hsub : dict' ⊆ dict) : ValueTexts dict' :=
  fun key t hmem => h key t (hsub hmem)

theorem lwmKvoParsing_valueText (h : lwmKvoParsing n p = .ok (some (key, .string (some t)), q)) :
    ValueText t := by
  cases n with
  | zero => cases h
  | succ n =>
    simp only [lwmKvoParsing, bind_ok] at h
    obtain ⟨keyEnd, -, h⟩ := h
    cases keyEnd with
    | ended r => cases h
    | failed r => cases h
    | key text r =>
      simp only [bind_ok, pure_ok] at h
      obtain ⟨⟨value, r'⟩, hvalue, heq⟩ := h
      cases value with
      | none => cases heq
      | some value =>
        cases heq
        exact lwmKvoVal_valueText hvalue

theorem lwmDictLoop_valueTexts (hd : ValueTexts dict)
    (h : lwmDictLoop n dict p = .ok (b, dict', q)) : ValueTexts dict' := by
  induction n generalizing dict p with
  | zero => cases h
  | succ n ih =>
    cases p with
    | nil => cases h
    | cons c p =>
      rw [lwmDictLoop] at h
      split at h
      · cases h
        exact hd
      split at h
      · exact ih hd h
      split at h
      · cases h
        exact hd
      split at h
      · exact ih hd h
      simp only [bind_ok] at h
      obtain ⟨⟨kvo, r⟩, hkvo, h⟩ := h
      cases kvo with
      | none =>
        cases h
        exact hd
      | some kvo =>
        simp only [bind_ok] at h
        obtain ⟨rest, hdel, h⟩ := h
        have hrest := hd.subset (deleteLwmKvoByKey_sublist hdel).subset
        have hnew : ValueTexts (kvo :: rest) := by
          intro key t hmem
          rcases List.mem_cons.mp hmem with rfl | hmem
          · exact lwmKvoParsing_valueText hkvo
          · exact hrest key t hmem
        split at h
        · cases h
        split at h
        · cases h
          exact hnew
        · exact ih hnew h

theorem lwmDictParsing_valueTexts (hd : ValueTexts dict)
    (h : lwmDictParsing n dict p = .ok (dict', q)) : ValueTexts dict' := by
  cases p with
  | nil => cases h
  | cons c p =>
    simp only [lwmDictParsing, bind_ok, pure_ok] at h
    obtain ⟨⟨b, read, r⟩, hloop, heq⟩ := h
    have hread := lwmDictLoop_valueTexts hd hloop
    cases b
    · cases heq
      exact hread.subset (List.drop_subset _ _)
    · cases heq
      exact hread

def LWMessage.HasValueTexts (msg : LWMessage) : Prop :=
  ValueTexts msg.header ∧ ValueTexts msg.body

theorem lwmMessageLoop_valueTexts (hmsg : msg.HasValueTexts)
    (h : lwmMessageLoop n mode b msg p = .ok (b', msg')) : msg'.HasValueTexts := by
  induction n generalizing mode b msg p with
  | zero => cases h
  | succ n ih =>
    cases p with
    | nil => cases h
    | cons c p =>
      rw [lwmMessageLoop.eq_def] at h
      simp only at h
      split at h
      · cases h
        exact hmsg
      split at h
      · exact ih hmsg h
      split at h
      · cases h
        exact hmsg
      split at h
      · cases mode with
        | header =>
          simp only [bind_ok] at h
          obtain ⟨⟨header, q⟩, hdict, h⟩ := h
          have hread : (LWMessage.mk header msg.body).HasValueTexts :=
            ⟨lwmDictParsing_valueTexts hmsg.1 hdict, hmsg.2⟩
          exact ih hread h
        | body =>
          simp only [bind_ok] at h
          obtain ⟨⟨body, q⟩, hdict, h⟩ := h
          have hread : (LWMessage.mk msg.header body).HasValueTexts :=
            ⟨hmsg.1, lwmDictParsing_valueTexts hmsg.2 hdict⟩
          exact ih hread h
        | openable =>
          cases h
          exact hmsg
      · cases h
        exact hmsg

theorem valueTexts_nil : ValueTexts [] := fun _ _ h => absurd h List.not_mem_nil

theorem parse_valueTexts (h : parseLwmMessageStr buffer = .ok (some msg)) : msg.HasValueTexts := by
  cases buffer with
  | nil => cases h
  | cons c p =>
    rw [parseLwmMessageStr] at h
    split at h
    · cases h
    simp only [bind_ok, pure_ok] at h
    obtain ⟨⟨b, read⟩, hloop, heq⟩ := h
    cases b
    · cases heq
    · cases heq
      exact lwmMessageLoop_valueTexts ⟨valueTexts_nil, valueTexts_nil⟩ hloop

-- ---------------------------------------------------------------------------
-- Reading a text again
-- ---------------------------------------------------------------------------

theorem lwmKvoText_textChars (h : ∀ c ∈ t, TextChar c) (hd : d = ';' ∨ d = '}') :
    lwmKvoText s (t ++ d :: q) = .ok (some (some (between s (d :: q))), d :: q) := by
  induction t with
  | nil => exact lwmKvoText_plain (t := []) (by simp) hd
  | cons c t ih =>
    have hc := h c (by simp)
    have hrest := ih fun e he => h e (by simp [he])
    rw [List.cons_append, lwmKvoText, if_neg hc.ne_nul]
    split
    · exact hrest
    · rw [if_neg (hc.not_token (by decide) (by decide)),
        if_neg (hc.not_token (by decide) (by decide))]
      exact hrest

theorem lwmKvoVal_textChars (ht : ValueText t) (hd : d = ';' ∨ d = '}') :
    lwmKvoVal (n + 1) (t ++ d :: q) = .ok (some (.string (some t)), d :: q) := by
  obtain ⟨c, s, rfl, hc, hspace, hs⟩ := ht.cons
  have hbrace : c ≠ '{' := by
    rintro rfl
    exact absurd hc (by decide)
  have hbracket : c ≠ '[' := by
    rintro rfl
    exact absurd hc (by decide)
  rw [List.cons_append, lwmKvoVal, if_neg hc.ne_nul, if_neg hspace, if_neg hbrace, if_neg hbracket,
    if_neg (hc.not_token (by decide) (by decide)), lwmKvoText_textChars hs hd, ← List.cons_append,
    between_append]
  rfl

def answerHeader (dri : Text) (rsc : UInt32) : LWMDictionary :=
  [(some "rsc".toList, .number (.uint32 rsc)), (some "dri".toList, .string (some dri))]

def readHeader (dri : Text) (rsc : UInt32) : LWMDictionary :=
  [(some "dri".toList, .string (some dri)),
    (some "rsc".toList, .string (some (serializeLwmNumber (.uint32 rsc))))]

theorem lwmDictLoop_answerHeader (hdri : ValueText dri) (hn : 4 ≤ n) :
    lwmDictLoop n [] (renderEntries (writtenEntries (answerHeader dri rsc)) ++ '}' :: q) =
      .ok (true, readHeader dri rsc, '}' :: q) := by
  obtain ⟨n, rfl⟩ : ∃ m, n = m + 4 := ⟨n - 4, by omega⟩
  have hrsc := lwmKvoVal_text (n := n + 1) (d := ';')
    (q := "dri".toList ++ '=' :: (dri ++ '}' :: q)) (plainText_serializeLwmNumber (.uint32 rsc)) (.inl rfl)
  have hvalue := lwmKvoVal_textChars (n := n) (q := q) hdri (.inr rfl)
  have hfirst := lwmDictLoop_entry_ok (k := "rsc".toList) (by decide) hrsc
    (by simp [KeysNonNull]) (by simp [keys] : some "rsc".toList ∉ keys [])
  have hsecond := lwmDictLoop_entry_ok (k := "dri".toList) (by decide) hvalue (by simp [KeysNonNull])
    (by simp [keys] : some "dri".toList ∉
      keys [(some "rsc".toList, .string (some (serializeLwmNumber (.uint32 rsc))))])
  simp only [answerHeader, writtenEntries, writtenEntry, LWMObject.written, renderEntries, Tree.render,
    Option.map_some, Option.toList_some, List.cons_append, List.nil_append, List.append_assoc,
    pure, bind, Option.bind_some]
  rw [hfirst, if_neg (by decide), hsecond]
  rfl

theorem answerHeader_wellFormed (hdri : PlainText dri) (rsc : UInt32) :
    (Tree.dictionary (writtenEntries (answerHeader dri rsc))).WellFormed := by
  have hrsc := plainText_serializeLwmNumber (.uint32 rsc)
  have hkeys : PlainText "rsc".toList ∧ PlainText "dri".toList := by decide
  simpa [answerHeader, writtenEntries, writtenEntry, LWMObject.written, Tree.WellFormed,
    entriesWellFormed, hdri, hrsc] using hkeys

theorem mirrorEntries_answerHeader (dri : Text) (rsc : UInt32) :
    mirrorEntries (writtenEntries (answerHeader dri rsc)) [] = readHeader dri rsc := rfl

theorem serializeEntries_answerHeader (dri : Text) (rsc : UInt32) :
    serializeEntries [] (answerHeader dri rsc) =
      renderEntries (writtenEntries (answerHeader dri rsc)) := by
  simp [answerHeader, serializeEntries, serializeLwmKvo, serializeLwmObject, catSerialized,
    writtenEntries, writtenEntry, LWMObject.written, renderEntries, Tree.render]

def LWMessage.BodyPlain (msg : LWMessage) : Prop :=
  ∀ body ∈ msg.written.body, (Tree.dictionary body).WellFormed

/-- Every dictionary that is written in the body is the last entry of what it stands in. -/
def LWMessage.BodyNestsLast (msg : LWMessage) : Prop := ∀ body ∈ msg.written.body, entriesNestLast body

def LWMessage.readAnswer (msg : LWMessage) (dri : Text) (rsc : UInt32) : LWMessage :=
  ⟨readHeader dri rsc, msg.written.received.body⟩

theorem LWMessage.written_body_nil {msg : LWMessage} (h : msg.body = []) : msg.written.body = none := by
  simp [LWMessage.written, h, nodeNum]

theorem serializeLwmMessage_answer {msg : LWMessage} (hheader : msg.header = answerHeader dri rsc)
    (hbody : msg.BodyPlain) : serializeLwmMessage msg = msg.written.render := by
  have hentries := serializeEntries_answerHeader dri rsc
  rw [← hheader] at hentries
  unfold serializeLwmMessage MessageTree.render LWMessage.written serializeLwmDictionary
  simp only [hentries, Tree.render]
  by_cases hnum : nodeNum msg.body > 0
  · have hwritten := serializeEntries_written [] msg.body
      (hbody (writtenEntries msg.body) (by simp [LWMessage.written, hnum])).2
    simp [hnum, hwritten, catSerialized_nil_renderedEntries]
  · simp [hnum]

/-- An answer comes back with its `dri` and its code, and with its body where this is read back. -/
theorem sent_answer {msg : LWMessage} (hdri : ValueText dri) (hheader : msg.header = answerHeader dri rsc)
    (hbody : msg.BodyPlain) (hnest : msg.BodyNestsLast) :
    sent msg = .ok (some (msg.readAnswer dri rsc)) := by
  have hwritten : msg.written.header = writtenEntries (answerHeader dri rsc) := by
    simp [LWMessage.written, hheader]
  unfold sent LWMessage.readAnswer
  unfold LWMessage.BodyPlain at hbody
  unfold LWMessage.BodyNestsLast at hnest
  rw [serializeLwmMessage_answer hheader hbody, parse_terminated_render, lwmMessageLoop_header,
    lwmDictParsing_open, newLwmEmptyMessage, hwritten, lwmDictLoop_answerHeader hdri (by simp; omega)]
  simp only [bind, Except.bind, pure, Except.pure, if_true, List.tail_cons]
  generalize hm : msg.written.body = written at hbody hnest
  cases written with
  | none =>
    have hreceived : msg.written.received.body = [] := by simp [MessageTree.received, hm, mirrorEntries]
    rw [hreceived, MessageTree.behindHeader, hm, Option.map_none, Option.getD_none, List.nil_append,
      lwmMessageLoop_stop (by simp)]
    rfl
  | some body =>
    have hreceived : msg.written.received.body = mirrorEntries body [] := by
      simp [MessageTree.received, hm]
    simp only [MessageTree.behindHeader, hm, hreceived, Option.map_some, Option.getD_some, Tree.render,
      List.cons_append, List.append_assoc, List.nil_append]
    rw [lwmMessageLoop_body_render (hbody body rfl) (hnest body rfl) (by
      simp only [List.length_append, List.length_cons]
      omega)]
    rfl

end IoTware.LwMsg
