import IoTware.LwMsg.Cursor
import IoTware.LwMsg.Grammar

/-!
# Sound reading of the header

Where every character of the header stands where the routine that reads it
expects such a one, no routine fails, and the header is a dictionary of the
grammar that is read to its end. A dictionary as the value of an entry is
excluded, since its brace ends the dictionary around it too.
-/

namespace IoTware.LwMsg

open CText Loops

def takes : Spot → Char → Bool
  | .entries, c => isSpace c || c = ';' || c = '}' || PlainChar c
  | .key, c => isSpace c || c = '=' || PlainChar c
  | .value, c => isSpace c || c = '[' || PlainChar c
  | .text, c => isSpace c || c = ';' || c = '}' || PlainChar c
  | .opened, c => isSpace c || c = ']' || c = '{' || c = '[' || PlainChar c
  | .items, c => isSpace c || c = '{' || c = '[' || PlainChar c
  | .itemText, c => c = ',' || c = ']' || c ∉ delimiters
  | .behindItem, c => isSpace c || c = ',' || c = ']'

/-- The state is inside the dictionary of the message that `mode` reads. -/
def ScanState.within (mode : MessageMode) : ScanState → Option Spot
  | .inside spot _ m => if m = mode then some spot else none
  | _ => none

def allTaken (mode : MessageMode) : ScanState → Text → Bool
  | _, [] => true
  | s, c :: cs => (s.within mode).all (takes · c) && allTaken mode (scanStep s c) cs

/-- What is left of the text is taken, and the dictionary ends in it. -/
structure Goes (mode : MessageMode) (s : ScanState) (cs : Text) : Prop where
  text : IsCString cs
  taken : allTaken mode s cs = true
  closed : (cs.foldl scanStep s).within mode = none

theorem within_inside (spot : Spot) (outer : List Frame) (mode : MessageMode) :
    (ScanState.inside spot outer mode).within mode = some spot := if_pos rfl

theorem Goes.next (h : Goes mode (.inside spot outer mode) cs) :
    ∃ c rest, cs = c :: rest ∧ c ≠ nul ∧ takes spot c = true ∧
      Goes mode (scanStep (.inside spot outer mode) c) rest := by
  cases cs with
  | nil =>
    have hclosed := h.closed
    rw [List.foldl_nil, within_inside] at hclosed
    cases hclosed
  | cons c rest =>
    have htaken := h.taken
    rw [allTaken, within_inside, Option.all_some, Bool.and_eq_true] at htaken
    obtain ⟨hnul, htext⟩ := IsCString.cons h.text
    exact ⟨c, rest, rfl, hnul, htaken.1, htext, htaken.2, h.closed⟩

-- ---------------------------------------------------------------------------
-- Keys and texts
-- ---------------------------------------------------------------------------

section

variable {mode : MessageMode} {outer : List Frame} {q : List Char}

theorem isSpace_notMem (h : isSpace c) : c ∉ delimiters := by
  intro hmem
  have hall : ∀ d ∈ delimiters, isSpace d = false := by decide
  rw [hall c hmem] at h
  cases h

theorem takes_key (h : takes .key c) (hspace : ¬ isSpace c) : c = '=' ∨ PlainChar c := by
  simpa [takes, hspace] using h

theorem lwmKvoKey_taken (start : List Char) (h : Goes mode (.inside .key outer mode) cs) :
    ∃ t rest, cs = t ++ '=' :: rest ∧ (∀ c ∈ t, c ∉ delimiters) ∧
      lwmKvoKey (some start) (cs ++ q) =
        .ok (.key (between start ('=' :: (rest ++ q))) (rest ++ q)) ∧
      Goes mode (.inside .value outer mode) rest := by
  induction cs with
  | nil =>
    obtain ⟨c, rest, heq, -⟩ := h.next
    cases heq
  | cons c cs ih =>
    obtain ⟨_, _, ⟨⟩, hnul, htake, hgo⟩ := h.next
    have hon (hc : c ∉ delimiters)
        (hstay : scanStep (.inside .key outer mode) c = .inside .key outer mode) :
        ∃ t rest, c :: cs = t ++ '=' :: rest ∧ (∀ c ∈ t, c ∉ delimiters) ∧
          lwmKvoKey (some start) (cs ++ q) =
            .ok (.key (between start ('=' :: (rest ++ q))) (rest ++ q)) ∧
          Goes mode (.inside .value outer mode) rest := by
      rw [hstay] at hgo
      obtain ⟨t, rest, rfl, ht, hloop, hrest⟩ := ih hgo
      exact ⟨c :: t, rest, rfl, List.forall_mem_cons.mpr ⟨hc, ht⟩, hloop, hrest⟩
    rw [List.cons_append, lwmKvoKey, if_neg hnul]
    by_cases hspace : isSpace c
    · rw [if_pos hspace]
      exact hon (isSpace_notMem hspace) (by simp [scanStep, scanInside, hspace])
    rw [if_neg hspace]
    rcases takes_key htake hspace with rfl | hplain
    · exact ⟨[], cs, rfl, by simp, rfl, hgo⟩
    · have htoken : ¬ lwmIsToken c ['{', '[', ']', '}', ';', ','] :=
        hplain.not_token (by decide) (by decide)
      have heq : c ≠ '=' := hplain.ne_of_mem (by decide)
      rw [if_neg htoken, if_neg heq]
      exact hon hplain.2 (by simp [scanStep, scanInside, hspace, htoken, heq])

theorem takes_text (h : takes .text c) (hspace : ¬ isSpace c) :
    c = ';' ∨ c = '}' ∨ PlainChar c := by
  simpa [takes, hspace, or_assoc] using h

theorem lwmKvoText_taken (start : List Char) (h : Goes mode (.inside .text outer mode) cs) :
    ∃ t c rest, cs = t ++ c :: rest ∧ (∀ c ∈ t, c ∉ delimiters) ∧ (c = ';' ∨ c = '}') ∧
      lwmKvoText start (cs ++ q) =
        .ok (some (some (between start (c :: (rest ++ q)))), c :: (rest ++ q)) ∧
      Goes mode (leaveValue true c outer mode) rest := by
  induction cs with
  | nil =>
    obtain ⟨c, rest, heq, -⟩ := h.next
    cases heq
  | cons c cs ih =>
    obtain ⟨_, _, ⟨⟩, hnul, htake, hgo⟩ := h.next
    have hon (hc : c ∉ delimiters)
        (hstay : scanStep (.inside .text outer mode) c = .inside .text outer mode) :
        ∃ t d rest, c :: cs = t ++ d :: rest ∧ (∀ c ∈ t, c ∉ delimiters) ∧ (d = ';' ∨ d = '}') ∧
          lwmKvoText start (cs ++ q) =
            .ok (some (some (between start (d :: (rest ++ q)))), d :: (rest ++ q)) ∧
          Goes mode (leaveValue true d outer mode) rest := by
      rw [hstay] at hgo
      obtain ⟨t, d, rest, rfl, ht, hd, hloop, hrest⟩ := ih hgo
      exact ⟨c :: t, d, rest, rfl, List.forall_mem_cons.mpr ⟨hc, ht⟩, hd, hloop, hrest⟩
    rw [List.cons_append, lwmKvoText, if_neg hnul]
    by_cases hspace : isSpace c
    · rw [if_pos hspace]
      exact hon (isSpace_notMem hspace) (by simp [scanStep, scanInside, hspace])
    rw [if_neg hspace]
    rcases takes_text htake hspace with rfl | rfl | hplain
    · exact ⟨[], ';', cs, rfl, by simp, .inl rfl, rfl, hgo⟩
    · exact ⟨[], '}', cs, rfl, by simp, .inr rfl, rfl, hgo⟩
    · have hbad : ¬ lwmIsToken c ['{', '[', '=', ','] := hplain.not_token (by decide) (by decide)
      have hend : ¬ lwmIsToken c [']', '}', ';'] := hplain.not_token (by decide) (by decide)
      rw [if_neg hbad, if_neg hend]
      exact hon hplain.2 (by simp [scanStep, scanInside, hspace, hbad, hend])

end

-- ---------------------------------------------------------------------------
-- The recursive routines
-- ---------------------------------------------------------------------------

def ItemsFrom : ArrayMode → Text → Text → Prop
  | .openable, cs, rest => Items cs rest
  | .kvVal _, cs, rest => ∃ t cs₁, cs = t ++ cs₁ ∧ (∀ c ∈ t, c ∉ delimiters) ∧ ItemsRest cs₁ rest
  | .object, cs, rest => ItemsRest cs rest

/-- The value has been read up to `cs`: the cursor is on its bracket, or on the
character behind its text. -/
def Behind (c : Char) (rest cs : Text) : Prop :=
  c = ']' ∧ cs = rest ∨ (c = ';' ∨ c = '}') ∧ cs = c :: rest

/-- What the routines do on a text that is taken, at one amount of fuel. -/
structure TakenAt (n : Nat) : Prop where
  dictLoop : KeysNonNull dict → Goes mode (.inside .entries outer mode) cs → 2 * cs.length + 4 ≤ n →
    ∃ dict' ks rest, lwmDictLoop n dict (cs ++ q) = .ok (true, dict', '}' :: (rest ++ q)) ∧
      Entries ks cs ('}' :: rest) ∧ (∀ key, key ∈ keys dict' ↔ key ∈ keys dict ∨ key ∈ ks.map some) ∧
      Goes mode (leaveDict outer mode) rest ∧ rest.length < cs.length
  kvoVal : Goes mode (.inside .value outer mode) cs → 2 * cs.length + 4 ≤ n →
    ∃ obj c rest cs₁ cs₂, lwmKvoVal n (cs ++ q) = .ok (some obj, c :: (rest ++ q)) ∧
      Space cs cs₁ ∧ Value cs₁ cs₂ ∧ Behind c rest cs₂ ∧
      Goes mode (leaveValue true c outer mode) rest ∧ rest.length < cs.length
  kvo : Goes mode (.inside .entries outer mode) (c :: cs) → PlainChar c → ¬ isSpace c →
    2 * cs.length + 5 ≤ n →
    ∃ k obj d rest cs₁ cs₂ cs₃,
      lwmKvoParsing n (c :: cs ++ q) = .ok (some (some k, obj), d :: (rest ++ q)) ∧
      c :: cs = k ++ '=' :: cs₁ ∧ Word k ∧ Space cs₁ cs₂ ∧ Value cs₂ cs₃ ∧ Behind d rest cs₃ ∧
      Goes mode (leaveValue true d outer mode) rest ∧ rest.length < cs.length
  newDict : Goes mode (.inside .entries outer mode) cs → 2 * cs.length + 5 ≤ n →
    ∃ obj rest, lwmNewDictParsing n ('{' :: cs ++ q) = .ok (some obj, '}' :: (rest ++ q)) ∧
      Value ('{' :: cs) rest ∧ Goes mode (leaveDict outer mode) rest ∧ rest.length < cs.length
  arrayLoop (arr : List LWMObject) : Goes mode (.inside m.spot outer mode) cs → 2 * cs.length + 4 ≤ n →
    ∃ arr' rest, lwmArrayLoop n m arr (cs ++ q) = .ok (some arr', ']' :: (rest ++ q)) ∧
      ItemsFrom m cs (']' :: rest) ∧ Goes mode (leaveArray true outer mode) rest ∧
      rest.length < cs.length
  newArray : Goes mode (.inside .opened outer mode) cs → 2 * cs.length + 5 ≤ n →
    ∃ obj rest, lwmNewArrayParsing n ('[' :: cs ++ q) = .ok (some obj, ']' :: (rest ++ q)) ∧
      Value ('[' :: cs) rest ∧ Goes mode (leaveArray true outer mode) rest ∧ rest.length < cs.length

section

variable {mode : MessageMode} {outer : List Frame} {q : List Char}

theorem TakenAt.newDict_succ (ih : TakenAt n) (h : Goes mode (.inside .entries outer mode) cs)
    (hf : 2 * cs.length + 5 ≤ n + 1) :
    ∃ obj rest, lwmNewDictParsing (n + 1) ('{' :: cs ++ q) = .ok (some obj, '}' :: (rest ++ q)) ∧
      Value ('{' :: cs) rest ∧ Goes mode (leaveDict outer mode) rest ∧ rest.length < cs.length := by
  obtain ⟨dict, ks, rest, hloop, hentries, -, hgo, hlen⟩ :=
    ih.dictLoop (q := q) dictProper_nil.1.nonNull h (by omega)
  refine ⟨.dictionary dict, rest, ?_, .dictionary hentries, hgo, hlen⟩
  rw [List.cons_append, lwmNewDictParsing_open, hloop]
  rfl

theorem TakenAt.newArray_succ (ih : TakenAt n) (h : Goes mode (.inside .opened outer mode) cs)
    (hf : 2 * cs.length + 5 ≤ n + 1) :
    ∃ obj rest, lwmNewArrayParsing (n + 1) ('[' :: cs ++ q) = .ok (some obj, ']' :: (rest ++ q)) ∧
      Value ('[' :: cs) rest ∧ Goes mode (leaveArray true outer mode) rest ∧
      rest.length < cs.length := by
  obtain ⟨c, rest, rfl, hnul, htake, hgo⟩ := h.next
  by_cases hclose : c = ']'
  · subst hclose
    exact ⟨.array [], rest, lwmNewArrayParsing_empty, .empty .here, hgo, by simp⟩
  · have hitems : Goes mode (.inside .items outer mode) (c :: rest) := by
      refine ⟨h.text, ?_, ?_⟩
      · have htake : takes .items c = true := by simpa [takes, hclose] using htake
        have htaken := hgo.taken
        simp only [scanStep, scanInside, if_neg hclose] at htaken
        simp [allTaken, within_inside, htake, scanStep, scanInside, htaken]
      · have hclosed := hgo.closed
        simp only [scanStep, scanInside, if_neg hclose] at hclosed
        simpa [scanStep, scanInside] using hclosed
    obtain ⟨arr, post, hloop, hread, hgo, hlen⟩ :=
      ih.arrayLoop (m := .openable) (q := q) [] hitems (by omega)
    refine ⟨.array arr, post, ?_, .array hread, hgo, hlen⟩
    rw [List.cons_append, List.cons_append, lwmNewArrayParsing_open hclose, ← List.cons_append, hloop]
    rfl

theorem TakenAt.behindItem (ih : TakenAt n) (h : Goes mode (.inside .behindItem outer mode) cs)
    (hv : Value cs₁ cs) (hf : 2 * cs.length + 4 ≤ n) (arr : List LWMObject) :
    ∃ arr' rest, lwmArrayLoop n .object arr (cs ++ q) = .ok (some arr', ']' :: (rest ++ q)) ∧
      Items cs₁ (']' :: rest) ∧ Goes mode (leaveArray true outer mode) rest ∧
      rest.length < cs.length := by
  obtain ⟨arr', rest, hloop, hread, hgo, hlen⟩ :=
    ih.arrayLoop (m := .object) (q := q) arr h hf
  exact ⟨arr', rest, hloop, hv.items hread, hgo, hlen⟩

theorem takes_items (h : takes .items c) (hspace : ¬ isSpace c) : c = '{' ∨ c = '[' ∨ PlainChar c := by
  simpa [takes, hspace, or_assoc] using h

theorem ItemsFrom.skip (hc : isSpace c) (h : ItemsFrom m cs rest) : ItemsFrom m (c :: cs) rest := by
  cases m with
  | openable => exact Items.skip hc h
  | kvVal start =>
    obtain ⟨t, cs₁, rfl, ht, hrest⟩ := h
    exact ⟨c :: t, cs₁, rfl, List.forall_mem_cons.mpr ⟨isSpace_notMem hc, ht⟩, hrest⟩
  | object => exact ItemsRest.skip hc h

theorem TakenAt.arrayLoop_succ (ih : TakenAt n) (arr : List LWMObject)
    (h : Goes mode (.inside m.spot outer mode) cs) (hf : 2 * cs.length + 4 ≤ n + 1) :
    ∃ arr' rest, lwmArrayLoop (n + 1) m arr (cs ++ q) = .ok (some arr', ']' :: (rest ++ q)) ∧
      ItemsFrom m cs (']' :: rest) ∧ Goes mode (leaveArray true outer mode) rest ∧
      rest.length < cs.length := by
  obtain ⟨c, cs, rfl, hnul, htake, hgo⟩ := h.next
  simp only [List.length_cons] at hf
  rw [List.cons_append, lwmArrayLoop.eq_def]
  simp only [if_neg hnul]
  by_cases hspace : isSpace c
  · have hcomma : c ≠ ',' := by rintro rfl; exact absurd hspace (by decide)
    have hclose : c ≠ ']' := by rintro rfl; exact absurd hspace (by decide)
    have hstep : scanStep (.inside m.spot outer mode) c = .inside m.spot outer mode := by
      cases m <;> simp [scanStep, scanInside, scanItem, ArrayMode.spot, hspace, hcomma, hclose]
    rw [hstep] at hgo
    obtain ⟨arr', rest, hloop, hread, hgo, hlen⟩ := ih.arrayLoop (q := q) arr hgo (by omega)
    rw [if_pos hspace]
    exact ⟨arr', rest, hloop, hread.skip hspace, hgo, Nat.lt_succ_of_lt hlen⟩
  rw [if_neg hspace]
  cases m with
  | openable =>
    rcases takes_items htake hspace with rfl | rfl | hplain
    · obtain ⟨obj, rest, hnew, hv, hgo, hlen⟩ := ih.newDict (q := q) hgo (by omega)
      obtain ⟨arr', post, hloop, hread, hgo, hlen'⟩ := ih.behindItem (q := q) hgo hv (by omega) (obj :: arr)
      refine ⟨arr', post, ?_, hread, hgo, by simp only [List.length_cons]; omega⟩
      simp only [List.cons_append] at hnew
      simpa [hnew, bind, Except.bind, addLwmObjectToArray] using hloop
    · obtain ⟨obj, rest, hnew, hv, hgo, hlen⟩ := ih.newArray (q := q) hgo (by omega)
      obtain ⟨arr', post, hloop, hread, hgo, hlen'⟩ := ih.behindItem (q := q) hgo hv (by omega) (obj :: arr)
      refine ⟨arr', post, ?_, hread, hgo, by simp only [List.length_cons]; omega⟩
      simp only [List.cons_append] at hnew
      simpa [hnew, bind, Except.bind, addLwmObjectToArray] using hloop
    · have hend : ¬ (c = ',' ∨ c = ']') := by
        rintro (rfl | rfl)
        · exact hplain.2 (by decide)
        · exact hplain.2 (by decide)
      have hdict : c ≠ '{' := hplain.ne_of_mem (by decide)
      have hopen : c ≠ '[' := hplain.ne_of_mem (by decide)
      have hbad : ¬ lwmIsToken c ['}', ';', '='] := hplain.not_token (by decide) (by decide)
      have hstep : scanStep (.inside (ArrayMode.spot .openable) outer mode) c =
          .inside (ArrayMode.kvVal (c :: (cs ++ q))).spot outer mode := by
        simp [scanStep, scanInside, scanItem, ArrayMode.spot, hspace, hend, hdict, hopen, hbad]
      rw [hstep] at hgo
      obtain ⟨arr', rest, hloop, ⟨t, cs₁, rfl, ht, hread⟩, hgo, hlen⟩ :=
        ih.arrayLoop (q := q) arr hgo (by omega)
      simp only [if_neg hend, if_neg hdict, if_neg hopen, if_neg hbad]
      have hword : Word (c :: t) := ⟨List.cons_ne_nil c t, List.forall_mem_cons.mpr ⟨hplain.2, ht⟩⟩
      exact ⟨arr', rest, hloop, (Value.text hword).items hread, hgo, Nat.lt_succ_of_lt hlen⟩
  | kvVal start =>
    have htake : c = ',' ∨ c = ']' ∨ c ∉ delimiters := by
      simpa [takes, ArrayMode.spot, or_assoc] using htake
    rcases htake with rfl | rfl | hword
    · obtain ⟨arr', rest, hloop, hread, hgo, hlen⟩ := ih.arrayLoop (m := .openable) (q := q) _ hgo (by omega)
      exact ⟨arr', rest, hloop, ⟨[], ',' :: cs, rfl, by simp, .item .here hread⟩, hgo,
        Nat.lt_succ_of_lt hlen⟩
    · exact ⟨_, cs, rfl, ⟨[], ']' :: cs, rfl, by simp, .last .here⟩, hgo, by simp⟩
    · have hcomma : c ≠ ',' := by rintro rfl; exact hword (by decide)
      have hclose : c ≠ ']' := by rintro rfl; exact hword (by decide)
      have hstep : scanStep (.inside (ArrayMode.spot (.kvVal start)) outer mode) c =
          .inside (ArrayMode.kvVal start).spot outer mode := by
        simp [scanStep, scanInside, ArrayMode.spot, hcomma, hclose]
      rw [hstep] at hgo
      obtain ⟨arr', rest, hloop, ⟨t, cs₁, rfl, ht, hread⟩, hgo, hlen⟩ :=
        ih.arrayLoop (q := q) arr hgo (by omega)
      simp only [if_neg hcomma, if_neg hclose]
      exact ⟨arr', rest, hloop, ⟨c :: t, cs₁, rfl, List.forall_mem_cons.mpr ⟨hword, ht⟩, hread⟩, hgo,
        Nat.lt_succ_of_lt hlen⟩
  | object =>
    have htake : c = ',' ∨ c = ']' := by simpa [takes, ArrayMode.spot, hspace] using htake
    rcases htake with rfl | rfl
    · obtain ⟨arr', rest, hloop, hread, hgo, hlen⟩ := ih.arrayLoop (m := .openable) (q := q) _ hgo (by omega)
      exact ⟨arr', rest, hloop, .item .here hread, hgo, Nat.lt_succ_of_lt hlen⟩
    · exact ⟨_, cs, rfl, .last .here, hgo, by simp⟩

theorem takes_value (h : takes .value c) (hspace : ¬ isSpace c) : c = '[' ∨ PlainChar c := by
  simpa [takes, hspace] using h

theorem TakenAt.kvoVal_succ (ih : TakenAt n) (h : Goes mode (.inside .value outer mode) cs)
    (hf : 2 * cs.length + 4 ≤ n + 1) :
    ∃ obj c rest cs₁ cs₂, lwmKvoVal (n + 1) (cs ++ q) = .ok (some obj, c :: (rest ++ q)) ∧
      Space cs cs₁ ∧ Value cs₁ cs₂ ∧ Behind c rest cs₂ ∧
      Goes mode (leaveValue true c outer mode) rest ∧ rest.length < cs.length := by
  obtain ⟨c, cs, rfl, hnul, htake, hgo⟩ := h.next
  simp only [List.length_cons] at hf
  rw [List.cons_append, lwmKvoVal, if_neg hnul]
  by_cases hspace : isSpace c
  · have hstep : scanStep (.inside .value outer mode) c = .inside .value outer mode := by
      simp [scanStep, scanInside, hspace]
    rw [hstep] at hgo
    obtain ⟨obj, d, rest, cs₁, cs₂, hval, hsp, hv, hbehind, hgo, hlen⟩ := ih.kvoVal (q := q) hgo (by omega)
    rw [if_pos hspace]
    exact ⟨obj, d, rest, cs₁, cs₂, hval, .skip hspace hsp, hv, hbehind, hgo, Nat.lt_succ_of_lt hlen⟩
  rw [if_neg hspace]
  rcases takes_value htake hspace with rfl | hplain
  · obtain ⟨obj, rest, hnew, hv, hgo, hlen⟩ := ih.newArray (q := q) hgo (by omega)
    exact ⟨obj, ']', rest, _, rest, hnew, .here, hv, .inl ⟨rfl, rfl⟩, hgo, Nat.lt_succ_of_lt hlen⟩
  · have hdict : c ≠ '{' := hplain.ne_of_mem (by decide)
    have hopen : c ≠ '[' := hplain.ne_of_mem (by decide)
    have hbad : ¬ lwmIsToken c [']', '}', ';', '=', ','] := hplain.not_token (by decide) (by decide)
    have hstep : scanStep (.inside .value outer mode) c = .inside .text outer mode := by
      simp [scanStep, scanInside, hspace, hdict, hopen, hbad]
    rw [hstep] at hgo
    obtain ⟨t, d, rest, rfl, ht, hd, htext, hgo⟩ := lwmKvoText_taken (q := q) (c :: (cs ++ q)) hgo
    have hword : Word (c :: t) := ⟨List.cons_ne_nil c t, List.forall_mem_cons.mpr ⟨hplain.2, ht⟩⟩
    have hlen : rest.length < (c :: (t ++ d :: rest)).length := by simp; omega
    refine ⟨.string (some (between (c :: (t ++ d :: rest ++ q)) (d :: (rest ++ q)))), d, rest, _, _, ?_,
      .here, .text hword, .inr ⟨hd, rfl⟩, hgo, hlen⟩
    rw [if_neg hdict, if_neg hopen, if_neg hbad, htext]
    rfl

theorem TakenAt.kvo_succ (ih : TakenAt n) (h : Goes mode (.inside .entries outer mode) (c :: cs))
    (hplain : PlainChar c) (hspace : ¬ isSpace c) (hf : 2 * cs.length + 5 ≤ n + 1) :
    ∃ k obj d rest cs₁ cs₂ cs₃,
      lwmKvoParsing (n + 1) (c :: cs ++ q) = .ok (some (some k, obj), d :: (rest ++ q)) ∧
      c :: cs = k ++ '=' :: cs₁ ∧ Word k ∧ Space cs₁ cs₂ ∧ Value cs₂ cs₃ ∧ Behind d rest cs₃ ∧
      Goes mode (leaveValue true d outer mode) rest ∧ rest.length < cs.length := by
  obtain ⟨_, _, ⟨⟩, hnul, -, hgo⟩ := h.next
  have hsep : c ≠ ';' := hplain.ne_of_mem (by decide)
  have heq : c ≠ '=' := hplain.ne_of_mem (by decide)
  have hbad : ¬ lwmIsToken c ['{', '[', ']', '}', ';', ','] :=
    hplain.not_token (by decide) (by decide)
  have hstep : scanStep (.inside .entries outer mode) c = .inside .key outer mode := by
    simp [scanStep, scanInside, hspace, hsep, heq, hbad]
  rw [hstep] at hgo
  obtain ⟨t, cs₁, rfl, ht, hkey, hgo⟩ := lwmKvoKey_taken (q := q) (c :: (cs ++ q)) hgo
  have hlen : (t ++ '=' :: cs₁).length = t.length + cs₁.length + 1 := by simp; omega
  obtain ⟨obj, d, rest, cs₂, cs₃, hval, hsp, hv, hbehind, hgo, hlt⟩ := ih.kvoVal (q := q) hgo (by omega)
  have hword : Word (c :: t) := ⟨List.cons_ne_nil c t, List.forall_mem_cons.mpr ⟨hplain.2, ht⟩⟩
  have hbetween : between (c :: (t ++ '=' :: cs₁ ++ q)) ('=' :: (cs₁ ++ q)) = c :: t := by
    have h := between_append (c :: t) ('=' :: (cs₁ ++ q))
    simpa using h
  refine ⟨c :: t, obj, d, rest, cs₁, cs₂, cs₃, ?_, rfl, hword, hsp, hv, hbehind, hgo, by omega⟩
  rw [hbetween] at hkey
  rw [lwmKvoParsing, List.cons_append, lwmKvoKey, if_neg hnul, if_neg hspace, if_neg hbad, if_neg heq,
    Option.getD_none, hkey]
  simp only [bind, Except.bind, hval]
  rfl

theorem takes_entries (h : takes .entries c) (hspace : ¬ isSpace c) :
    c = ';' ∨ c = '}' ∨ PlainChar c := by
  simpa [takes, hspace, or_assoc] using h

theorem Behind.entries (hb : Behind d rest cs) (h : Entries ks rest post) (hd : d ≠ '}') :
    Entries ks cs post := by
  rcases hb with ⟨-, rfl⟩ | ⟨rfl | rfl, rfl⟩
  · exact h
  · exact h.skip (.inr rfl)
  · exact absurd rfl hd

theorem keys_insert (h : deleteLwmKvoByKey dict (some k) = .ok dict') :
    key ∈ keys ((some k, value) :: dict') ↔ key = some k ∨ key ∈ keys dict := by
  induction dict generalizing dict' with
  | nil =>
    cases h
    simp [keys]
  | cons kv dict ih =>
    obtain ⟨k', value'⟩ := kv
    cases k' with
    | none => cases h
    | some k' =>
      unfold deleteLwmKvoByKey at h
      split at h
      · rename_i hk
        cases h
        simp [keys, hk]
      · simp only [bind_ok, pure_ok] at h
        obtain ⟨rest, hrest, rfl⟩ := h
        have hih := ih hrest
        simp only [keys, List.map_cons, List.mem_cons] at hih ⊢
        rw [or_left_comm, hih, or_left_comm]

theorem TakenAt.dictLoop_succ (ih : TakenAt n) (hd : KeysNonNull dict)
    (h : Goes mode (.inside .entries outer mode) cs) (hf : 2 * cs.length + 4 ≤ n + 1) :
    ∃ dict' ks rest, lwmDictLoop (n + 1) dict (cs ++ q) = .ok (true, dict', '}' :: (rest ++ q)) ∧
      Entries ks cs ('}' :: rest) ∧ (∀ key, key ∈ keys dict' ↔ key ∈ keys dict ∨ key ∈ ks.map some) ∧
      Goes mode (leaveDict outer mode) rest ∧ rest.length < cs.length := by
  have hall := h
  obtain ⟨c, cs, rfl, hnul, htake, hgo⟩ := h.next
  simp only [List.length_cons] at hf
  rw [List.cons_append, lwmDictLoop, if_neg hnul]
  -- white space and separators
  have hskip (hc : isSpace c ∨ c = ';') : ∃ dict' ks rest,
      lwmDictLoop n dict (cs ++ q) = .ok (true, dict', '}' :: (rest ++ q)) ∧
      Entries ks (c :: cs) ('}' :: rest) ∧
      (∀ key, key ∈ keys dict' ↔ key ∈ keys dict ∨ key ∈ ks.map some) ∧
      Goes mode (leaveDict outer mode) rest ∧ rest.length < (c :: cs).length := by
    have hstep : scanStep (.inside .entries outer mode) c = .inside .entries outer mode := by
      simp [scanStep, scanInside, hc]
    rw [hstep] at hgo
    obtain ⟨dict', ks, rest, hloop, hread, hkeys, hgo, hlen⟩ := ih.dictLoop (q := q) hd hgo (by omega)
    exact ⟨dict', ks, rest, hloop, hread.skip hc, hkeys, hgo, Nat.lt_succ_of_lt hlen⟩
  by_cases hspace : isSpace c
  · rw [if_pos hspace]
    exact hskip (.inl hspace)
  rw [if_neg hspace]
  rcases takes_entries htake hspace with rfl | rfl | hplain
  · exact hskip (.inr rfl)
  · exact ⟨dict, [], cs, rfl, .done .here, by simp, hgo, by simp⟩
  obtain ⟨n, rfl⟩ : ∃ m, n = m + 1 := ⟨n - 1, by omega⟩
  obtain ⟨k, obj, d, rest, cs₁, cs₂, cs₃, hkvo, hkey, hword, hsp, hv, hbehind, hgo, hlen⟩ :=
    ih.kvo (q := q) hall hplain hspace (by omega)
  obtain ⟨dict', hdel, hdict'⟩ := deleteLwmKvoByKey_ok hd (some k)
  have hentry {ks : List Text} {post} (h : Entries ks cs₃ post) : Entries (k :: ks) (c :: cs) post := by
    rw [hkey]
    exact .entry .here hword .here hsp hv h
  rw [if_neg (hplain.ne_of_mem (by decide)), if_neg (hplain.ne_of_mem (by decide)), ← List.cons_append, hkvo]
  simp only [bind, Except.bind, hdel]
  by_cases hend : d = '}'
  · subst hend
    rcases hbehind with ⟨hd, -⟩ | ⟨-, rfl⟩
    · cases hd
    · rw [if_pos rfl]
      refine ⟨_, [k], rest, rfl, hentry (.done .here), ?_, hgo, Nat.lt_succ_of_lt hlen⟩
      intro key
      rw [keys_insert hdel]
      simp [or_comm]
  · have hkeys : KeysNonNull ((some k, obj) :: dict') := hdict'.cons
    rw [leaveValue, if_pos ⟨rfl, hend⟩] at hgo
    obtain ⟨dict'', ks, post, hloop, hread, hkeys, hgo, hlen'⟩ :=
      ih.dictLoop (q := q) hkeys hgo (by omega)
    refine ⟨dict'', k :: ks, post, ?_, hentry (hbehind.entries hread hend), ?_, hgo,
      by simp only [List.length_cons]; omega⟩
    · rw [if_neg hend]
      exact hloop
    · intro key
      rw [hkeys, keys_insert hdel]
      simp [or_assoc, or_left_comm]

theorem takenAt (n : Nat) : TakenAt n := by
  induction n with
  | zero => constructor <;> intros <;> omega
  | succ n ih =>
    exact ⟨ih.dictLoop_succ, ih.kvoVal_succ, ih.kvo_succ, ih.newDict_succ, ih.arrayLoop_succ,
      ih.newArray_succ⟩

end

-- ---------------------------------------------------------------------------
-- The message
-- ---------------------------------------------------------------------------

def ScanState.refuses : ScanState → Char → Bool
  | .message mode, c =>
    !isSpace c && !lwmIsToken c ['[', ']', '}', ';', '=', ','] && (c ≠ '{' || mode = .openable)
  | _, _ => false

def refused : ScanState → Text → Bool
  | _, [] => false
  | s, c :: cs => s.refuses c || refused (scanStep s c) cs

theorem refused_append (s : ScanState) (cs ds : Text) :
    refused s (cs ++ ds) = (refused s cs || refused (cs.foldl scanStep s) ds) := by
  induction cs generalizing s with
  | nil => rfl
  | cons c cs ih => rw [List.cons_append, refused, refused, ih, List.foldl_cons, Bool.or_assoc]

theorem refused_ended (cs : Text) : refused .ended cs = false := by
  induction cs with
  | nil => rfl
  | cons c cs ih => exact ih

theorem refused_foldl (h : refused s cs) : cs.foldl scanStep s = .ended := by
  induction cs generalizing s with
  | nil => cases h
  | cons c cs ih =>
    rw [refused, Bool.or_eq_true] at h
    rcases h with hc | hrest
    · cases s with
      | message mode =>
        simp only [ScanState.refuses, Bool.and_eq_true, Bool.not_eq_true', Bool.or_eq_true,
          decide_eq_true_eq] at hc
        obtain ⟨⟨hspace, -⟩, hopen⟩ := hc
        have hstep : scanStep (.message mode) c = .ended := by
          rw [scanStep, if_neg (by simp [hspace]), if_neg]
          rintro ⟨hc, hmode⟩
          rcases hopen with hne | heq
          · exact hne hc
          · exact hmode heq
        rw [List.foldl_cons, hstep, ended_foldl]
      | inside spot outer mode => cases hc
      | ended => cases hc
    · exact ih hrest

theorem lwmDictParsing_refused (hd : DictProper dict) (hcs : IsCString cs) (hf : 2 * cs.length + 4 ≤ n)
    (href : refused (.inside .entries [] mode) cs) :
    ∃ d c post, lwmDictParsing n dict ('{' :: cs ++ pad k) = .ok (d, c :: (post ++ pad k)) ∧
      DictProper d ∧ refused (.message mode.next) post ∧ IsCString post ∧ post.length < cs.length := by
  have hreads : Reads bindingView k (.inside .entries [] mode) cs _ _ := lwmDictParsing_reads hd hcs hf
  rcases hreads with ⟨pre, c, post, ⟨d, q⟩, rfl, hr, rfl, hp, hexit⟩ | ⟨hin, -⟩
  · refine ⟨d, c, post, hr, hp, ?_, fun hm => hcs (by simp [hm]), by simp; omega⟩
    rw [List.append_cons, refused_append, Bool.or_eq_true] at href
    rcases href with hpre | hpost
    · rw [refused_foldl hpre] at hexit
      cases hexit
    · rwa [hexit] at hpost
  · rw [refused_foldl href] at hin
    exact hin.elim

theorem lwmMessageLoop_refused (hmsg : msg.Proper) (hcs : IsCString cs) (hf : 2 * cs.length + 4 ≤ n)
    (href : refused (.message mode) cs) (msg' : LWMessage) :
    lwmMessageLoop n mode b msg (cs ++ pad k) ≠ .ok (true, msg') := by
  induction n generalizing cs mode b msg with
  | zero => omega
  | succ n ih =>
    cases cs with
    | nil => cases href
    | cons c cs =>
      obtain ⟨hnul, htail⟩ := IsCString.cons hcs
      simp only [List.length_cons] at hf
      by_cases hspace : isSpace c
      · rw [List.cons_append, lwmMessageLoop_space hnul hspace]
        refine ih hmsg htail (by omega) ?_
        simpa [refused, ScanState.refuses, scanStep, hspace] using href
      by_cases hopen : c = '{'
      · subst hopen
        cases mode with
        | header =>
          obtain ⟨d, c, post, hdict, hd, hpost, hcs, hlen⟩ :=
            lwmDictParsing_refused (k := k) (n := n) hmsg.1 htail (by omega) href
          rw [List.cons_append, lwmMessageLoop_header, ← List.cons_append, hdict]
          exact ih ⟨hd, hmsg.2⟩ hcs (by omega) hpost
        | body =>
          obtain ⟨d, c, post, hdict, hd, hpost, hcs, hlen⟩ :=
            lwmDictParsing_refused (k := k) (n := n) hmsg.2 htail (by omega) href
          rw [List.cons_append, lwmMessageLoop_body, ← List.cons_append, hdict]
          exact ih ⟨hmsg.1, hd⟩ hcs (by omega) hpost
        | openable =>
          rw [List.cons_append, lwmMessageLoop_third]
          rintro ⟨⟩
      · have hstep : scanStep (.message mode) c = .ended := by
          rw [scanStep, if_neg hspace, if_neg fun h => hopen h.1]
        have htoken : ¬ lwmIsToken c ['[', ']', '}', ';', '=', ','] := by
          intro htoken
          simp [refused, ScanState.refuses, hstep, htoken, refused_ended] at href
        rw [List.cons_append, lwmMessageLoop.eq_def]
        simp only [if_neg hnul, if_neg hspace, if_neg htoken, if_neg hopen]
        rintro ⟨⟩

theorem lwmMessageLoop_keepsHeader (hmode : mode ≠ .header)
    (h : lwmMessageLoop n mode b msg p = .ok (b', msg')) : msg'.header = msg.header := by
  induction n generalizing mode b msg p with
  | zero => cases h
  | succ n ih =>
    cases p with
    | nil => cases h
    | cons c p =>
      rw [lwmMessageLoop.eq_def] at h
      simp only at h
      split at h
      · cases h
        rfl
      split at h
      · exact ih hmode h
      split at h
      · cases h
        rfl
      split at h
      · cases mode with
        | header => exact absurd rfl hmode
        | body =>
          simp only [bind_ok] at h
          obtain ⟨⟨body, q⟩, -, h⟩ := h
          have hopenable : MessageMode.openable ≠ .header := by decide
          have hkept := ih hopenable h
          exact hkept
        | openable =>
          cases h
          rfl
      · cases h
        rfl

theorem Dict.skip (hc : isSpace c) (h : Dict ks cs rest) : Dict ks (c :: cs) rest := by
  obtain ⟨body, hspace, hentries⟩ := h
  exact ⟨body, .skip hc hspace, hentries⟩

/-- The header is read to its end, every character of it an expected one. -/
def HeaderTaken (s : Text) : Prop :=
  allTaken .header (.message .header) s ∧ (scan s).within .header = none

instance (s : Text) : Decidable (HeaderTaken s) := inferInstanceAs (Decidable (_ ∧ _))

theorem lwmMessageLoop_taken (hcs : IsCString cs) (htaken : HeaderTaken cs) (hf : 2 * cs.length + 4 ≤ n)
    (h : lwmMessageLoop n .header false newLwmEmptyMessage (cs ++ pad k) = .ok (true, msg)) :
    ∃ ks rest, Dict ks cs rest ∧ ∀ key, key ∈ keys msg.header ↔ key ∈ ks.map some := by
  induction cs generalizing n with
  | nil =>
    obtain ⟨n, rfl⟩ : ∃ m, n = m + 1 := ⟨n - 1, by simp at hf; omega⟩
    rw [List.nil_append, pad_eq, lwmMessageLoop_stop (by simp)] at h
    cases h
  | cons c cs ih =>
    obtain ⟨hnul, htail⟩ := IsCString.cons hcs
    obtain ⟨htaken, hclosed⟩ := htaken
    simp only [List.length_cons] at hf
    obtain ⟨n, rfl⟩ : ∃ m, n = m + 1 := ⟨n - 1, by omega⟩
    by_cases hspace : isSpace c
    · have hstep : scanStep (.message .header) c = .message .header := by simp [scanStep, hspace]
      rw [allTaken, hstep, Bool.and_eq_true] at htaken
      rw [scan, List.foldl_cons, hstep] at hclosed
      rw [List.cons_append, lwmMessageLoop_space hnul hspace] at h
      obtain ⟨ks, rest, hdict, hkeys⟩ := ih htail ⟨htaken.2, hclosed⟩ (by omega) h
      exact ⟨ks, rest, hdict.skip hspace, hkeys⟩
    by_cases hopen : c = '{'
    · subst hopen
      rw [allTaken, Bool.and_eq_true] at htaken
      have hgo : Goes .header (.inside .entries [] .header) cs := ⟨htail, htaken.2, hclosed⟩
      obtain ⟨dict, ks, rest, hloop, hentries, hkeys, -⟩ :=
        (takenAt n).dictLoop (q := pad k) dictProper_nil.1.nonNull hgo (by omega)
      rw [List.cons_append, lwmMessageLoop_header, lwmDictParsing_open] at h
      simp only [newLwmEmptyMessage, hloop, bind, Except.bind, pure, Except.pure, if_true] at h
      refine ⟨ks, rest, ⟨cs, .here, hentries⟩, fun key => ?_⟩
      rw [lwmMessageLoop_keepsHeader (by decide) h, hkeys]
      simp [keys]
    · rw [List.cons_append, lwmMessageLoop.eq_def] at h
      simp only [if_neg hnul, if_neg hspace, if_neg hopen] at h
      split at h
      · cases h
      · cases h

/-- Where the header is taken, or the message is given up, a message that is
returned has the keys of a dictionary at the front of the text. -/
theorem parse_sound (hs : IsCString s) (hread : HeaderTaken s ∨ refused (.message .header) s)
    (hparse : parseLwmMessageStr (s ++ pad k) = .ok (some msg)) :
    ∃ ks rest, Dict ks s rest ∧ ∀ key, key ∈ keys msg.header ↔ key ∈ ks.map some := by
  cases s with
  | nil => cases hparse
  | cons c cs =>
    rw [(parse_loop hs).1] at hparse
    cases hloop : lwmMessageLoop (parseFuel (c :: cs ++ pad k)) .header false newLwmEmptyMessage
        (c :: cs ++ pad k) with
    | error e =>
      rw [hloop] at hparse
      cases hparse
    | ok r =>
      obtain ⟨b, msg'⟩ := r
      rw [hloop] at hparse
      obtain ⟨rfl, rfl⟩ : b = true ∧ msg' = msg := by simpa [Functor.map, Except.map] using hparse
      have hf : 2 * (c :: cs).length + 4 ≤ parseFuel (c :: cs ++ pad k) := by
        simp [parseFuel, pad]; omega
      rcases hread with htaken | href
      · exact lwmMessageLoop_taken hs htaken hf hloop
      · exact absurd hloop (lwmMessageLoop_refused ⟨dictProper_nil, dictProper_nil⟩ hs hf href _)

theorem parse_sound_nested : ∃ msg,
    parseLwmMessageStr (terminated ['{', 'a', '=', '[', 'b', ',', '{', 'c', '=', 'd', '}', ']', '}']) =
      .ok (some msg) ∧
    ∃ ks rest, Dict ks ['{', 'a', '=', '[', 'b', ',', '{', 'c', '=', 'd', '}', ']', '}'] rest ∧
      ∀ key, key ∈ keys msg.header ↔ key ∈ ks.map some := by
  have hparse : parseLwmMessageStr
      (['{', 'a', '=', '[', 'b', ',', '{', 'c', '=', 'd', '}', ']', '}'] ++ pad 0) = .ok (some
        ⟨[(some ['a'], .array [.dictionary [(some ['c'], .string (some ['d']))], .string (some ['b'])])],
          []⟩) := rfl
  exact ⟨_, hparse, parse_sound (by decide) (.inl (by decide)) hparse⟩

/-- No key stands before the `=`, and the message has an empty header. -/
theorem parse_unsound : ¬ ∀ s msg, IsCString s → parseLwmMessageStr (terminated s) = .ok (some msg) →
    ∃ ks rest, Dict ks s rest ∧ ∀ key, key ∈ keys msg.header ↔ key ∈ ks.map some := by
  intro h
  obtain ⟨ks, rest, ⟨body, hspace, hentries⟩, -⟩ := h ['{', '=', '}'] ⟨[], []⟩ (by decide) rfl
  cases hspace with
  | skip hc _ => exact absurd hc (by decide)
  | here =>
    cases hentries with
    | done hgap =>
      cases hgap with
      | skip hc _ => exact absurd hc (by decide)
    | @entry _ k cs₁ _ _ _ _ _ hgap hword =>
      obtain ⟨c, k, rfl⟩ := List.exists_cons_of_ne_nil hword.1
      generalize hcs : c :: k ++ cs₁ = cs at hgap
      cases hgap with
      | skip hc _ => exact absurd hc (by decide)
      | here =>
        obtain ⟨rfl, -⟩ := List.cons.inj hcs
        exact hword.2 '=' List.mem_cons_self (by decide)

end IoTware.LwMsg
