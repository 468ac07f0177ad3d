import IoTware.Lib.Numerals
import IoTware.LwMsg.Tx

/-!
# Frames

What `iw_fw_lwMsgTx` posts to the network. The queue takes 256 bytes from where the
text of a message begins, so a frame holds the whole text only if that is shorter. The
function reports a longer one, and posts it all the same.
-/

namespace IoTware.LwMsg

open CText Loops Runs Numerals

/-- The item size that `start_apps` gives to `xNetworkTx`. -/
def networkTxItemSize : Nat := 256

/-- What the queue copies: the text and its terminator, and what memory holds behind. -/
def postedFrame (text : Text) (behind : Nat → Char) : List Char :=
  (terminated text ++ (List.range networkTxItemSize).map behind).take networkTxItemSize

/-- The string at the start of a frame, if it ends in the frame. -/
def frameString (frame : List Char) : Option Text :=
  if nul ∈ frame then some (frame.takeWhile (· ≠ nul)) else none

/-- A message with `dri` and `rsc` and without `if` is a response. -/
def txResponse (msg : LWMessage) : Except Fault Bool := do
  let sendCif ← getLwmObjectFromDict msg.header "if".toList
  let sendCdri ← getLwmObjectFromDict msg.header "dri".toList
  let sendCrsc ← getLwmObjectFromDict msg.header "rsc".toList
  return sendCif.isNone && sendCdri.isSome && sendCrsc.isSome

def posts (run : List (TxPhase × TxEvent)) : Nat :=
  run.countP fun x => match x.2 with
    | .post taken => taken
    | .poll _ => false

/-- The frames that are posted for a pointer taken from the send queue. A response is
tried once. -/
inductive Posted : Option LWMessage → List (List Char) → Prop
  | null : Posted none []
  | request {behinds : List (Nat → Char)} :
      Transmits msg req run phase → behinds.length = posts run →
      Posted (some msg) (behinds.map (postedFrame req.frame))
  | response {behinds : List (Nat → Char)} : txResponse msg = .ok true → behinds.length ≤ 1 →
      Posted (some msg) (behinds.map (postedFrame (serializeLwmMessage msg)))
  | neither : txRequest msg = .ok none → txResponse msg = .ok false → Posted (some msg) []

/-- Every posted frame holds the whole message, and no message is posted that does not
fit. -/
def NotTruncated (msg : Option LWMessage) : Prop :=
  ∀ frames, Posted msg frames →
    (∀ frame ∈ frames, ∃ m ∈ msg, frameString frame = some (serializeLwmMessage m)) ∧
    ∀ m ∈ msg, networkTxItemSize ≤ (serializeLwmMessage m).length → frames = []

def Addressed (msg : LWMessage) : Prop :=
  (∃ req, txRequest msg = .ok (some req)) ∨ txResponse msg = .ok true

mutual
/-- The keys and texts at every level are C strings. -/
def LWMObject.CStrings : LWMObject → Prop
  | .number _ => True
  | .string value => ∀ text ∈ value, IsCString text
  | .array items => itemsCStrings items
  | .dictionary entries => entriesCStrings entries
def itemsCStrings : List LWMObject → Prop
  | [] => True
  | obj :: items => obj.CStrings ∧ itemsCStrings items
def entriesCStrings : LWMDictionary → Prop
  | [] => True
  | (key, value) :: entries =>
    (∀ text ∈ key, IsCString text) ∧ value.CStrings ∧ entriesCStrings entries
end

def LWMessage.CStrings (msg : LWMessage) : Prop :=
  entriesCStrings msg.header ∧ entriesCStrings msg.body

-- ---------------------------------------------------------------------------
-- Frames of a text
-- ---------------------------------------------------------------------------

theorem frameString_postedFrame_iff (h : IsCString text) (behind : Nat → Char) :
    frameString (postedFrame text behind) = some text ↔ text.length < networkTxItemSize := by
  have hchars : ∀ c ∈ text, decide (c ≠ nul) = true := by
    intro c hc
    exact decide_eq_true fun hnul => h (hnul ▸ hc)
  unfold postedFrame terminated
  rw [List.append_assoc, List.singleton_append]
  constructor
  · intro hframe
    by_contra hlong
    rw [List.take_append_of_le_length (Nat.le_of_not_lt hlong)] at hframe
    have hnot : nul ∉ text.take networkTxItemSize := fun hmem => h (List.mem_of_mem_take hmem)
    unfold frameString at hframe
    rw [if_neg hnot] at hframe
    cases hframe
  · intro hlt
    obtain ⟨rest, hrest⟩ := Nat.exists_eq_add_of_lt hlt
    rw [List.take_append, List.take_of_length_le (Nat.le_of_lt hlt), hrest, Nat.add_assoc,
      Nat.add_sub_cancel_left, List.take_succ_cons]
    unfold frameString
    rw [if_pos (List.mem_append_right _ List.mem_cons_self), List.takeWhile_append_of_pos hchars,
      List.takeWhile_cons_of_neg (by simp), List.append_nil]

-- ---------------------------------------------------------------------------
-- The serialized text
-- ---------------------------------------------------------------------------

theorem isCString_append : IsCString (s ++ t) ↔ IsCString s ∧ IsCString t := by
  unfold IsCString
  rw [List.mem_append, not_or]

theorem isCString_cons : IsCString (c :: s) ↔ nul ≠ c ∧ IsCString s := by
  unfold IsCString
  rw [List.mem_cons, not_or]

theorem isCString_decimal (n : Int) : IsCString (decimal n) := by
  have hdigits : ∀ k, IsCString (Nat.toDigits 10 k) :=
    fun k hmem => absurd (isDigit_toDigits hmem) (by decide)
  unfold decimal
  rcases Int.lt_or_le n 0 with hneg | hpos
  · rw [toList_toString_neg hneg]
    exact isCString_cons.mpr ⟨by decide, hdigits _⟩
  · obtain ⟨k, rfl⟩ := Int.eq_ofNat_of_zero_le hpos
    rw [toList_toString_ofNat]
    exact hdigits k

theorem isCString_serializeLwmNumber (num : LWMNumber) : IsCString (serializeLwmNumber num) := by
  have hprintf : ∀ n t, IsCString t → IsCString (snprintf n t) :=
    fun n t h hmem => h (List.mem_of_mem_take hmem)
  have hfixed : ∀ x, IsCString (fixedPoint x) := by
    intro x
    unfold fixedPoint
    refine isCString_append.mpr ⟨isCString_decimal _, isCString_cons.mpr ⟨by decide, ?_⟩⟩
    exact isCString_decimal _
  cases num with
  | float x | double x => exact hprintf _ _ (hfixed x)
  | _ => exact hprintf _ _ (isCString_decimal _)

theorem isCString_catSerialized (hsep : nul ≠ sep) (hacc : IsCString acc)
    (htemp : ∀ t ∈ temp, IsCString t) : IsCString (catSerialized sep acc temp) := by
  unfold catSerialized
  cases temp with
  | none => exact hacc
  | some t =>
    dsimp only
    split
    · exact htemp t rfl
    · exact isCString_append.mpr ⟨hacc, isCString_cons.mpr ⟨hsep, htemp t rfl⟩⟩

theorem isCString_serializeLwmKvo {key value : Option Text} (hkey : ∀ k ∈ key, IsCString k)
    (hvalue : ∀ v ∈ value, IsCString v) : ∀ t ∈ serializeLwmKvo key value, IsCString t := by
  cases key with
  | none => rintro _ ⟨⟩
  | some k =>
    cases value with
    | none => rintro _ ⟨⟩
    | some v =>
      rintro _ ⟨⟩
      exact isCString_append.mpr ⟨hkey k rfl, isCString_cons.mpr ⟨by decide, hvalue v rfl⟩⟩

theorem isCString_bracketed {opening closing : Char} (hopen : nul ≠ opening) (hclose : nul ≠ closing)
    (h : IsCString t) : IsCString (opening :: (t ++ [closing])) :=
  isCString_cons.mpr ⟨hopen, isCString_append.mpr ⟨h, by simpa [IsCString] using hclose⟩⟩

mutual
theorem isCString_serializeLwmObject : (obj : LWMObject) → obj.CStrings →
    ∀ t ∈ serializeLwmObject obj, IsCString t
  | .number num, _ => by
    rintro _ ⟨⟩
    exact isCString_serializeLwmNumber num
  | .string value, h => h
  | .array items, h => by
    rintro _ ⟨⟩
    exact isCString_bracketed (by decide) (by decide)
      (isCString_serializeItems items [] h List.not_mem_nil)
  | .dictionary dict, h => by
    rintro _ ⟨⟩
    exact isCString_bracketed (by decide) (by decide)
      (isCString_serializeEntries dict [] h List.not_mem_nil)
theorem isCString_serializeItems : (items : List LWMObject) → (acc : Text) → itemsCStrings items →
    IsCString acc → IsCString (serializeItems acc items)
  | [], _, _, hacc => hacc
  | obj :: items, _, h, hacc =>
    isCString_serializeItems items _ h.2
      (isCString_catSerialized (by decide) hacc (isCString_serializeLwmObject obj h.1))
theorem isCString_serializeEntries : (dict : LWMDictionary) → (acc : Text) → entriesCStrings dict →
    IsCString acc → IsCString (serializeEntries acc dict)
  | [], _, _, hacc => hacc
  | (_, value) :: dict, _, h, hacc =>
    isCString_serializeEntries dict _ h.2.2
      (isCString_catSerialized (by decide) hacc
        (isCString_serializeLwmKvo h.1 (isCString_serializeLwmObject value h.2.1)))
end

theorem isCString_serializeLwmMessage (h : msg.CStrings) : IsCString (serializeLwmMessage msg) := by
  have hdict : ∀ dict, entriesCStrings dict → IsCString (serializeLwmDictionary dict) :=
    fun dict h => isCString_bracketed (by decide) (by decide)
      (isCString_serializeEntries dict [] h List.not_mem_nil)
  unfold serializeLwmMessage
  refine isCString_append.mpr ⟨hdict _ h.1, ?_⟩
  split
  · exact hdict _ h.2
  · exact List.not_mem_nil

-- ---------------------------------------------------------------------------
-- What is posted
-- ---------------------------------------------------------------------------

theorem txRequest_frame (h : txRequest msg = .ok (some req)) : req.frame = serializeLwmMessage msg := by
  unfold txRequest at h
  simp only [bind_ok] at h
  obtain ⟨cif, -, cdri, -, crsc, -, h⟩ := h
  split at h
  · simp only [bind_ok, pure_ok] at h
    obtain ⟨sendIf, -, h⟩ := h
    cases h
    rfl
  · cases h

theorem Posted.copied {frames : List (List Char)} (h : Posted msg frames) : ∀ frame ∈ frames, ∃ m ∈ msg, ∃ behind,
    frame = postedFrame (serializeLwmMessage m) behind := by
  cases h with
  | null => exact fun _ hframe => absurd hframe List.not_mem_nil
  | request htx _ =>
    intro frame hframe
    obtain ⟨behind, -, rfl⟩ := List.mem_map.mp hframe
    rw [txRequest_frame htx.1]
    exact ⟨_, rfl, behind, rfl⟩
  | response _ _ =>
    intro frame hframe
    obtain ⟨behind, -, rfl⟩ := List.mem_map.mp hframe
    exact ⟨_, rfl, behind, rfl⟩
  | neither => exact fun _ hframe => absurd hframe List.not_mem_nil

theorem posted_of_addressed (h : Addressed msg) (behind : Nat → Char) :
    Posted (some msg) [postedFrame (serializeLwmMessage msg) behind] := by
  obtain ⟨req, hreq⟩ | hres := h
  · have hstart : attempt req 0 = .posting 0 := if_pos (.inl (by decide))
    have hrun : Run (TxStep req) (attempt req 0) [(attempt req 0, .post true)] (afterPost req 0 true) := by
      rw [hstart]
      exact Run.start.step .post
    have hposted : Posted (some msg) ([behind].map (postedFrame req.frame)) :=
      .request ⟨hreq, hrun⟩ rfl
    rw [txRequest_frame hreq] at hposted
    exact hposted
  · have hposted : Posted (some msg) ([behind].map (postedFrame (serializeLwmMessage msg))) :=
      .response hres (Nat.le_refl 1)
    exact hposted

theorem not_addressed_frames {frames : List (List Char)} (h : Posted (some msg) frames)
    (hmsg : ¬ Addressed msg) : frames = [] := by
  cases h with
  | request htx _ => exact absurd (.inl ⟨_, htx.1⟩) hmsg
  | response hres _ => exact absurd (.inr hres) hmsg
  | neither => rfl

/-- The frames of a message are whole exactly if it leaves room for the terminator, or
is no request and no response. -/
theorem notTruncated_iff {msg : Option LWMessage} (hmsg : ∀ m ∈ msg, m.CStrings) :
    NotTruncated msg ↔
      ∀ m ∈ msg, (serializeLwmMessage m).length < networkTxItemSize ∨ ¬ Addressed m := by
  constructor
  · rintro h m rfl
    by_contra hboth
    obtain ⟨hlong, haddressed⟩ := not_or.mp hboth
    have hposted := posted_of_addressed (not_not.mp haddressed) fun _ => nul
    have hnil := (h _ hposted).2 m rfl (Nat.le_of_not_lt hlong)
    exact absurd hnil (List.cons_ne_nil _ _)
  · intro h frames hposted
    constructor
    · intro frame hframe
      obtain ⟨m, rfl, behind, rfl⟩ := hposted.copied frame hframe
      refine ⟨m, rfl, ?_⟩
      rw [frameString_postedFrame_iff (isCString_serializeLwmMessage (hmsg m rfl))]
      refine (h m rfl).resolve_right fun hnot => ?_
      rw [not_addressed_frames hposted hnot] at hframe
      exact absurd hframe List.not_mem_nil
    · rintro m rfl hlong
      exact not_addressed_frames hposted ((h m rfl).resolve_left (Nat.not_lt.mpr hlong))

theorem cStrings_infoRequest (h : IsCString dri) : (infoRequest dri).CStrings := by
  simp only [LWMessage.CStrings, infoRequest, entriesCStrings, LWMObject.CStrings, Option.mem_def,
    Option.some.injEq, forall_eq', and_true]
  exact ⟨by decide, h, by decide⟩

theorem length_serialize_infoRequest (dri : Text) :
    (serializeLwmMessage (infoRequest dri)).length = dri.length + 11 := by
  have htext : serializeLwmMessage (infoRequest dri) =
      '{' :: ("dri=".toList ++ (dri ++ (";if=2".toList ++ ['}']))) := by
    show '{' :: ("dri=".toList ++ dri ++ ";if=2".toList ++ ['}']) ++ [] = _
    simp
  rw [htext, List.length_cons, List.length_append, List.length_append]
  show 4 + (dri.length + 6) + 1 = dri.length + 11
  omega

theorem notTruncated_info : NotTruncated (some (infoRequest ['8'])) := by
  refine (notTruncated_iff ?_).mpr ?_
  · rintro _ ⟨⟩
    exact cStrings_infoRequest (by decide)
  · rintro _ ⟨⟩
    exact .inl (by decide)

/-- A request whose text has 256 characters is posted without its terminator. -/
theorem full_frame_truncated :
    ¬ ∀ msg : Option LWMessage, (∀ m ∈ msg, m.CStrings) → NotTruncated msg := by
  intro h
  have hmsg : ∀ m ∈ some (infoRequest (List.replicate 245 'a')), m.CStrings := by
    rintro _ ⟨⟩
    exact cStrings_infoRequest fun hmem => absurd (List.eq_of_mem_replicate hmem) (by decide)
  have haddressed : Addressed (infoRequest (List.replicate 245 'a')) := .inl ⟨_, rfl⟩
  have hposted := posted_of_addressed haddressed fun _ => nul
  have hlong : networkTxItemSize ≤
      (serializeLwmMessage (infoRequest (List.replicate 245 'a'))).length := by
    rw [length_serialize_infoRequest, List.length_replicate]
    decide
  exact absurd ((h _ hmsg _ hposted).2 _ rfl hlong) (List.cons_ne_nil _ _)

end IoTware.LwMsg
