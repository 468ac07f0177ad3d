import IoTware.LwMsg.Proper

/-!
# Where the cursor stops

Every routine of the parser stops at the terminator, and every caller of
`_lwm_dict_parsing` steps over the character it stopped at. `scan` follows the
nesting of the routines over the text, one character a step, with the routines
that are still running on a stack. `parse_safe_iff` says that the parser stays
inside its buffer exactly when the text does not end inside a dictionary. In a
longer buffer the routines find more terminators, and an entry in which the text
ends is the only thing they leave that is not proper.
-/

namespace IoTware.LwMsg

open CText

-- ---------------------------------------------------------------------------
-- The nesting of the routines
-- ---------------------------------------------------------------------------

inductive Frame
  | dict | array
  deriving DecidableEq

/-- What the innermost routine expects. `opened` is right behind `[`, where an
empty array may still close. -/
inductive Spot
  | entries | key | value | text | opened | items | itemText | behindItem
  deriving DecidableEq

/-- `inside` has the routines around the innermost one on its stack and the
dictionary of the message they read. -/
inductive ScanState
  | message (mode : MessageMode)
  | inside (spot : Spot) (outer : List Frame) (mode : MessageMode)
  | ended
  deriving DecidableEq

def ScanState.Inside : ScanState → Prop
  | .inside _ _ _ => True
  | _ => False

instance (s : ScanState) : Decidable s.Inside := by
  cases s <;> unfold ScanState.Inside <;> infer_instance

/-- The text ends in a key, before a value or in the text of an entry. -/
def ScanState.InEntry : ScanState → Prop
  | .inside .key _ _ | .inside .value _ _ | .inside .text _ _ => True
  | _ => False

instance (s : ScanState) : Decidable s.InEntry := by
  unfold ScanState.InEntry
  split <;> infer_instance

def MessageMode.next : MessageMode → MessageMode
  | .header => .body
  | .body => .openable
  | .openable => .openable

/-- A dictionary is over, by its brace or by an error: so is every dictionary
around it, up to an array. -/
def leaveDict : List Frame → MessageMode → ScanState
  | [], mode => .message mode.next
  | .dict :: outer, mode => leaveDict outer mode
  | .array :: outer, mode => .inside .behindItem outer mode

/-- An array is over. In a dictionary the error of an array is one of the
dictionary. -/
def leaveArray (closed : Bool) : List Frame → MessageMode → ScanState
  | .dict :: outer, mode => if closed then .inside .entries outer mode else leaveDict outer mode
  | .array :: outer, mode => .inside .behindItem outer mode
  | [], mode => .message mode.next

/-- A value is over at the character `c`. -/
def leaveValue (read : Bool) (c : Char) (outer : List Frame) (mode : MessageMode) : ScanState :=
  if read ∧ c ≠ '}' then .inside .entries outer mode else leaveDict outer mode

def scanItem (outer : List Frame) (mode : MessageMode) (c : Char) : ScanState :=
  if isSpace c then .inside .items outer mode
  else if c = ',' ∨ c = ']' then leaveArray false outer mode
  else if c = '{' then .inside .entries (.array :: outer) mode
  else if c = '[' then .inside .opened (.array :: outer) mode
  else if lwmIsToken c ['}', ';', '='] then leaveArray false outer mode
  else .inside .itemText outer mode

def scanInside (outer : List Frame) (mode : MessageMode) : Spot → Char → ScanState
  | .entries, c =>
    if isSpace c ∨ c = ';' then .inside .entries outer mode
    else if lwmIsToken c ['{', '[', ']', '}', ';', ','] ∨ c = '=' then leaveDict outer mode
    else .inside .key outer mode
  | .key, c =>
    if isSpace c then .inside .key outer mode
    else if lwmIsToken c ['{', '[', ']', '}', ';', ','] then leaveDict outer mode
    else if c = '=' then .inside .value outer mode
    else .inside .key outer mode
  | .value, c =>
    if isSpace c then .inside .value outer mode
    else if c = '{' then .inside .entries (.dict :: outer) mode
    else if c = '[' then .inside .opened (.dict :: outer) mode
    else if lwmIsToken c [']', '}', ';', '=', ','] then leaveDict outer mode
    else .inside .text outer mode
  | .text, c =>
    if isSpace c then .inside .text outer mode
    else if lwmIsToken c ['{', '[', '=', ','] then leaveDict outer mode
    else if lwmIsToken c [']', '}', ';'] then leaveValue true c outer mode
    else .inside .text outer mode
  | .opened, c => if c = ']' then leaveArray true outer mode else scanItem outer mode c
  | .items, c => scanItem outer mode c
  | .itemText, c =>
    if c = ',' then .inside .items outer mode
    else if c = ']' then leaveArray true outer mode
    else .inside .itemText outer mode
  | .behindItem, c =>
    if c = ',' then .inside .items outer mode
    else if c = ']' then leaveArray true outer mode
    else .inside .behindItem outer mode

def scanStep : ScanState → Char → ScanState
  | .message mode, c =>
    if isSpace c then .message mode
    else if c = '{' ∧ mode ≠ .openable then .inside .entries [] mode
    else .ended
  | .inside spot outer mode, c => scanInside outer mode spot c
  | .ended, _ => .ended

def scan (s : Text) : ScanState := s.foldl scanStep (.message .header)

-- ---------------------------------------------------------------------------
-- What a routine may do with its text
-- ---------------------------------------------------------------------------

/-- The buffer behind a text: its terminator and `k` more. -/
def pad (k : Nat) : List Char := List.replicate (k + 1) nul

/-- The cursor that a routine leaves in its result, whether the result is proper,
and what holds of it even where it is not. -/
structure View (β : Type) where
  cursor : β → List Char
  proper : β → Prop
  always : β → Prop := fun _ => True

/-- The routine has read the terminator: it stops at one, or behind the buffer.
Its result is proper if `proper` says so. -/
def AtEnd (v : View β) (k : Nat) (proper : Prop) (res : Except Fault β) : Prop :=
  res = .error .overrun ∨
    ∃ r j, res = .ok r ∧ v.cursor r = pad j ∧ j ≤ k ∧ v.always r ∧ (v.proper r ↔ proper)

/-- The routine that gave `res` either stops at a character of its text, in the
state `exit` describes, or the text ends while it runs. -/
def Reads (v : View β) (k : Nat) (s : ScanState) (cs : Text) (res : Except Fault β)
    (exit : β → Char → ScanState → Prop) : Prop :=
  (∃ pre c post r, cs = pre ++ c :: post ∧ res = .ok r ∧ v.cursor r = c :: (post ++ pad k) ∧
      v.proper r ∧ exit r c ((pre ++ [c]).foldl scanStep s)) ∨
    (cs.foldl scanStep s).Inside ∧ AtEnd v k (¬ (cs.foldl scanStep s).InEntry) res

section

variable {v : View β} {res : Except Fault β} {exit : β → Char → ScanState → Prop}
variable {v' : View γ} {res' : Except Fault γ} {exit' : γ → Char → ScanState → Prop}

theorem AtEnd.here (hr : res = .ok r) (hc : v.cursor r = pad k) (ha : v.always r)
    (hp : v.proper r ↔ proper) : AtEnd v k proper res :=
  .inr ⟨r, k, hr, hc, Nat.le_refl k, ha, hp⟩

theorem AtEnd.mono (h : AtEnd v j p res) (hj : j ≤ k) (hp : p ↔ proper) : AtEnd v k proper res := by
  rcases h with hover | ⟨r, i, hr, hc, hi, ha, hi'⟩
  · exact .inl hover
  · exact .inr ⟨r, i, hr, hc, Nat.le_trans hi hj, ha, hi'.trans hp⟩

theorem AtEnd.map {f : β → Except Fault γ} (h : AtEnd v k proper res)
    (hf : ∀ r j, v.cursor r = pad j → v.always r → AtEnd v' j (v.proper r) (f r)) :
    AtEnd v' k proper (res >>= f) := by
  rcases h with rfl | ⟨r, j, rfl, hc, hj, ha, hp⟩
  · exact .inl rfl
  · exact (hf r j hc ha).mono hj hp

theorem AtEnd.over {f : List Char → Except Fault γ} (hnil : f [] = .error .overrun)
    (hnext : ∀ i, AtEnd v' i proper (f (pad i))) : AtEnd v' j proper (f (pad j).tail) := by
  cases j with
  | zero => exact .inl hnil
  | succ i => exact (hnext i).mono (Nat.le_succ i) Iff.rfl

theorem Reads.nil (h : s.Inside) (hr : AtEnd v k (¬ s.InEntry) res) : Reads v k s [] res exit :=
  .inr ⟨h, hr⟩

theorem Reads.stop (hr : res = .ok r) (hc : v.cursor r = c :: (cs ++ pad k)) (hp : v.proper r)
    (he : exit r c (scanStep s c)) : Reads v k s (c :: cs) res exit :=
  .inl ⟨[], c, cs, r, rfl, hr, hc, hp, he⟩

theorem Reads.step (h : Reads v k (scanStep s c) cs res exit) : Reads v k s (c :: cs) res exit := by
  rcases h with ⟨pre, d, post, r, rfl, hr, hc, hp, he⟩ | h
  · exact .inl ⟨c :: pre, d, post, r, rfl, hr, hc, hp, he⟩
  · exact .inr h

theorem Reads.mono {exit' : β → Char → ScanState → Prop} (h : Reads v k s cs res exit)
    (hexit : ∀ r c s, exit r c s → exit' r c s) : Reads v k s cs res exit' := by
  rcases h with ⟨pre, c, post, r, hcs, hr, hc, hp, he⟩ | h
  · exact .inl ⟨pre, c, post, r, hcs, hr, hc, hp, hexit _ _ _ he⟩
  · exact .inr h

theorem Reads.congr_head (h : Reads v k s (c :: cs) res exit) (hs : scanStep s c = scanStep s' c) :
    Reads v k s' (c :: cs) res exit := by
  rcases h with ⟨pre, d, post, r, hcs, hr, hc, hp, he⟩ | h
  · refine .inl ⟨pre, d, post, r, hcs, hr, hc, hp, ?_⟩
    cases pre with
    | nil =>
      cases hcs
      simpa [hs] using he
    | cons e pre =>
      cases hcs
      simpa [hs] using he
  · exact .inr (by simpa [hs] using h)

/-- A routine that goes on with the result of another one: where the text ends
inside the callee it ends inside the caller, and elsewhere the caller stops at
the same character or goes on behind it. -/
theorem Reads.andThen {f : β → Except Fault γ} (h : Reads v k s cs res exit) (hcs : IsCString cs)
    (hend : ∀ r j, v.cursor r = pad j → v.always r → AtEnd v' j (v.proper r) (f r))
    (hgo : ∀ r c post s', post.length < cs.length → IsCString post →
      v.cursor r = c :: (post ++ pad k) → v.proper r → exit r c s' →
      (∃ r', f r = .ok r' ∧ v'.cursor r' = c :: (post ++ pad k) ∧ v'.proper r' ∧ exit' r' c s') ∨
        Reads v' k s' post (f r) exit') :
    Reads v' k s cs (res >>= f) exit' := by
  rcases h with ⟨pre, c, post, r, rfl, rfl, hc, hp, he⟩ | ⟨hin, hr⟩
  · have hlen : post.length < (pre ++ c :: post).length := by
      simp only [List.length_append, List.length_cons]; omega
    have hpost : IsCString post := fun hm => hcs (by simp [hm])
    have hbind : (Except.ok r >>= f) = f r := rfl
    rw [hbind]
    rcases hgo r c post _ hlen hpost hc hp he with ⟨r', hr', hc', hp', he'⟩ | hrest
    · exact .inl ⟨pre, c, post, r', rfl, hr', hc', hp', he'⟩
    · rw [Reads] at hrest ⊢
      rcases hrest with ⟨pre', d, post', r', rfl, hr', hc', hp', he'⟩ | ⟨hin, hr'⟩
      · exact .inl ⟨pre ++ c :: pre', d, post', r', by simp, hr', hc', hp', by simpa using he'⟩
      · have hall : (pre ++ c :: post).foldl scanStep s =
            post.foldl scanStep ((pre ++ [c]).foldl scanStep s) := by
          simp
        rw [hall]
        exact .inr ⟨hin, hr'⟩
  · exact .inr ⟨hin, hr.map hend⟩

end

-- ---------------------------------------------------------------------------
-- Keys and texts
-- ---------------------------------------------------------------------------

theorem IsCString.cons (h : IsCString (c :: cs)) : c ≠ nul ∧ IsCString cs := by
  simp only [IsCString, List.mem_cons, not_or] at h
  exact ⟨Ne.symm h.1, h.2⟩

theorem pad_eq (k : Nat) : pad k = nul :: List.replicate k nul := rfl

def textView : View (Option (Option Text) × List Char) where
  cursor := Prod.snd
  proper r := ∀ text ∈ r.1, text ≠ none

theorem lwmKvoText_reads (outer : List Frame) (mode : MessageMode) (start : List Char)
    (hcs : IsCString cs) :
    Reads textView k (.inside .text outer mode) cs (lwmKvoText start (cs ++ pad k))
      (fun r c s => s = leaveValue r.1.isSome c outer mode) := by
  induction cs with
  | nil => exact .nil trivial (.here (r := (some none, pad k)) rfl rfl trivial
      (by simp [textView, ScanState.InEntry]))
  | cons c cs ih =>
    obtain ⟨hnul, hcs⟩ := IsCString.cons hcs
    rw [List.cons_append, lwmKvoText, if_neg hnul]
    by_cases hspace : isSpace c
    · rw [if_pos hspace]
      refine .step ?_
      simpa [scanStep, scanInside, hspace] using ih hcs
    rw [if_neg hspace]
    by_cases hbad : lwmIsToken c ['{', '[', '=', ',']
    · rw [if_pos hbad]
      exact .stop rfl rfl (by simp [textView]) (by simp [scanStep, scanInside, hspace, hbad, leaveValue])
    rw [if_neg hbad]
    by_cases hend : lwmIsToken c [']', '}', ';']
    · rw [if_pos hend]
      exact .stop rfl rfl (by simp [textView]) (by simp [scanStep, scanInside, hspace, hbad, hend])
    · rw [if_neg hend]
      refine .step ?_
      simpa [scanStep, scanInside, hspace, hbad, hend] using ih hcs

def KeyEnd.cursor : KeyEnd → List Char
  | .ended p | .failed p => p
  | .key _ p => '=' :: p

def keyView : View KeyEnd where
  cursor := KeyEnd.cursor
  proper e := ∀ p, e ≠ .ended p

def leaveKey (outer : List Frame) (mode : MessageMode) : KeyEnd → Char → ScanState → Prop
  | .ended _, _, _ => False
  | .failed _, _, s => s = leaveDict outer mode
  | .key _ _, _, s => s = .inside .value outer mode

theorem lwmKvoKey_reads (hcs : IsCString cs) :
    Reads keyView k (.inside .key outer mode) cs (lwmKvoKey (some start) (cs ++ pad k))
      (leaveKey outer mode) := by
  induction cs with
  | nil =>
    exact .nil trivial (.here (r := .ended (pad k)) rfl rfl trivial
      (by simp [keyView, ScanState.InEntry]))
  | cons c cs ih =>
    obtain ⟨hnul, hcs⟩ := IsCString.cons hcs
    rw [List.cons_append, lwmKvoKey, if_neg hnul]
    by_cases hspace : isSpace c
    · rw [if_pos hspace]
      refine .step ?_
      simpa [scanStep, scanInside, hspace] using ih hcs
    rw [if_neg hspace]
    by_cases hbad : lwmIsToken c ['{', '[', ']', '}', ';', ',']
    · rw [if_pos hbad]
      exact .stop rfl rfl (by simp [keyView]) (by simp [scanStep, scanInside, hspace, hbad, leaveKey])
    rw [if_neg hbad]
    by_cases heq : c = '='
    · subst heq
      exact .stop rfl rfl (by simp [keyView]) (by simp [scanStep, scanInside, hspace, hbad, leaveKey])
    · rw [if_neg heq]
      refine .step ?_
      simpa [scanStep, scanInside, hspace, hbad, heq] using ih hcs

theorem lwmKvoKey_first (hcs : IsCString (c :: cs)) (hspace : ¬ isSpace c) (hsep : c ≠ ';') :
    Reads keyView k (.inside .entries outer mode) (c :: cs) (lwmKvoKey none (c :: cs ++ pad k))
      (leaveKey outer mode) := by
  obtain ⟨hnul, hcs⟩ := IsCString.cons hcs
  rw [List.cons_append, lwmKvoKey, if_neg hnul, if_neg hspace]
  by_cases hbad : lwmIsToken c ['{', '[', ']', '}', ';', ',']
  · rw [if_pos hbad]
    exact .stop rfl rfl (by simp [keyView]) (by simp [scanStep, scanInside, hspace, hsep, hbad, leaveKey])
  rw [if_neg hbad]
  by_cases heq : c = '='
  · subst heq
    exact .stop rfl rfl (by simp [keyView]) (by simp [scanStep, scanInside, isSpace, leaveKey])
  · rw [if_neg heq]
    refine .step ?_
    simpa [scanStep, scanInside, hspace, hsep, hbad, heq] using lwmKvoKey_reads hcs

-- ---------------------------------------------------------------------------
-- The recursive routines
-- ---------------------------------------------------------------------------

def ArrayMode.spot : ArrayMode → Spot
  | .openable => .items
  | .kvVal _ => .itemText
  | .object => .behindItem

def dictView : View (Bool × LWMDictionary × List Char) where
  cursor r := r.2.2
  proper r := DictProper r.2.1
  always r := r.1 = false → DictProper r.2.1

def objectView : View (Option LWMObject × List Char) where
  cursor := Prod.snd
  proper r := ∀ obj ∈ r.1, obj.Proper

def kvoView : View (Option LWMKVObject × List Char) where
  cursor := Prod.snd
  proper r := ∀ kv ∈ r.1, kv.1 ≠ none ∧ kv.2.Proper

def itemsView : View (Option (List LWMObject) × List Char) where
  cursor := Prod.snd
  proper r := ∀ items ∈ r.1, itemsProper items

/-- What the routines do to the cursor, at one amount of fuel. -/
structure CursorAt (n : Nat) : Prop where
  dictLoop : DictProper dict → IsCString cs → 2 * cs.length + 4 ≤ n →
    Reads dictView k (.inside .entries outer mode) cs (lwmDictLoop n dict (cs ++ pad k))
      (fun r c s => s = leaveDict outer mode ∧ (r.1 → c = '}'))
  kvoVal : IsCString cs → 2 * cs.length + 4 ≤ n →
    Reads objectView k (.inside .value outer mode) cs (lwmKvoVal n (cs ++ pad k))
      (fun r c s => s = leaveValue r.1.isSome c outer mode)
  kvo : IsCString (c :: cs) → ¬ isSpace c → c ≠ ';' → 2 * cs.length + 5 ≤ n →
    Reads kvoView k (.inside .entries outer mode) (c :: cs) (lwmKvoParsing n (c :: cs ++ pad k))
      (fun r d s => s = leaveValue r.1.isSome d outer mode)
  newDict : IsCString cs → 2 * cs.length + 5 ≤ n →
    Reads objectView k (.inside .entries outer mode) cs (lwmNewDictParsing n ('{' :: cs ++ pad k))
      (fun r c s => s = leaveDict outer mode ∧ (r.1.isSome → c = '}'))
  arrayLoop : itemsProper arr → IsCString cs → 2 * cs.length + 4 ≤ n →
    Reads itemsView k (.inside m.spot outer mode) cs (lwmArrayLoop n m arr (cs ++ pad k))
      (fun r c s => s = leaveArray r.1.isSome outer mode ∧ (r.1.isSome → c = ']'))
  newArray : IsCString cs → 2 * cs.length + 5 ≤ n →
    Reads objectView k (.inside .opened outer mode) cs (lwmNewArrayParsing n ('[' :: cs ++ pad k))
      (fun r c s => s = leaveArray r.1.isSome outer mode ∧ (r.1.isSome → c = ']'))

theorem CursorAt.newDict_succ (ih : CursorAt n) (hcs : IsCString cs) (hf : 2 * cs.length + 5 ≤ n + 1) :
    Reads objectView k (.inside .entries outer mode) cs
      (lwmNewDictParsing (n + 1) ('{' :: cs ++ pad k))
      (fun r c s => s = leaveDict outer mode ∧ (r.1.isSome → c = '}')) := by
  have hproper (b : Bool) (dict) (q) (h : b = false → DictProper dict) :
      objectView.proper (if b then some (.dictionary dict) else none, q) ↔ DictProper dict := by
    cases b with
    | true => simp [objectView, proper_dictionary]
    | false => simp [objectView, h rfl]
  rw [List.cons_append, lwmNewDictParsing_open]
  refine (ih.dictLoop dictProper_nil hcs (by omega)).andThen hcs ?_ ?_
  · rintro ⟨b, dict, q⟩ j hq hfailed
    exact .here rfl hq trivial (hproper b dict q hfailed)
  · rintro ⟨b, dict, q⟩ c post s - - hq hp ⟨hs, hb⟩
    refine .inl ⟨_, rfl, hq, (hproper b dict q fun _ => hp).mpr hp, hs, ?_⟩
    cases b <;> simp at hb ⊢
    exact hb

theorem CursorAt.newArray_succ (ih : CursorAt n) (hcs : IsCString cs)
    (hf : 2 * cs.length + 5 ≤ n + 1) :
    Reads objectView k (.inside .opened outer mode) cs
      (lwmNewArrayParsing (n + 1) ('[' :: cs ++ pad k))
      (fun r c s => s = leaveArray r.1.isSome outer mode ∧ (r.1.isSome → c = ']')) := by
  have hloop : Reads itemsView k (.inside .items outer mode) cs
      (lwmArrayLoop n .openable [] (cs ++ pad k)) _ :=
    ih.arrayLoop (m := .openable) trivial hcs (by omega)
  have hproper (arr : Option (List LWMObject)) (q) :
      objectView.proper (arr.map .array, q) ↔ itemsView.proper (arr, q) := by
    cases arr <;> simp [objectView, itemsView, proper_array]
  cases cs with
  | nil =>
    refine .nil trivial (.here (r := (some (.array []), pad k)) ?_ rfl trivial ?_)
    · obtain ⟨n, rfl⟩ : ∃ m, n = m + 1 := ⟨n - 1, by simp at hf; omega⟩
      rw [List.cons_append, List.nil_append, pad_eq, lwmNewArrayParsing_open (by decide)]
      simp [lwmArrayLoop, bind, Except.bind, pure, Except.pure]
    · simp [objectView, proper_array, itemsProper, ScanState.InEntry]
  | cons c cs =>
    by_cases hclose : c = ']'
    · subst hclose
      exact .stop lwmNewArrayParsing_empty rfl (by simp [objectView, proper_array, itemsProper])
        (by simp [scanStep, scanInside])
    · rw [List.cons_append, List.cons_append, lwmNewArrayParsing_open hclose]
      have hhead : scanStep (.inside .items outer mode) c = scanStep (.inside .opened outer mode) c := by
        simp [scanStep, scanInside, hclose]
      refine (hloop.congr_head hhead).andThen hcs ?_ ?_
      · rintro ⟨arr, q⟩ j hq -
        exact .here rfl hq trivial (hproper arr q)
      · rintro ⟨arr, q⟩ d post s - - hq hp hs
        refine .inl ⟨_, rfl, hq, (hproper arr q).mpr hp, ?_⟩
        simpa using hs

theorem CursorAt.behindItem (ih : CursorAt n) {res : Except Fault (Option LWMObject × List Char)}
    (h : Reads objectView k s cs res exit) (harr : itemsProper arr) (hcs : IsCString cs)
    (hf : 2 * cs.length + 4 ≤ n) (hexit : ∀ r c s, exit r c s → s = .inside .behindItem outer mode) :
    Reads itemsView k s cs (do
      let (obj, q) ← res
      lwmArrayLoop n .object (addLwmObjectToArray arr obj) q.tail)
      (fun r c s => s = leaveArray r.1.isSome outer mode ∧ (r.1.isSome → c = ']')) := by
  obtain ⟨n, rfl⟩ : ∃ m, n = m + 1 := ⟨n - 1, by omega⟩
  refine h.andThen hcs ?_ ?_
  · rintro ⟨obj, q⟩ j rfl -
    refine .over (f := lwmArrayLoop (n + 1) .object (addLwmObjectToArray arr obj)) (by simp [lwmArrayLoop])
      fun i => .here (r := (some (addLwmObjectToArray arr obj), pad i)) (by simp [lwmArrayLoop, pad_eq])
        rfl trivial ?_
    simpa [itemsView, objectView] using itemsProper_add harr obj
  · rintro ⟨obj, q⟩ c post s hlen hpost rfl hp he
    cases hexit _ _ _ he
    exact .inr (ih.arrayLoop (m := .object) ((itemsProper_add harr obj).mpr hp) hpost (by omega))

theorem CursorAt.arrayLoop_succ (ih : CursorAt n) (harr : itemsProper arr) (hcs : IsCString cs)
    (hf : 2 * cs.length + 4 ≤ n + 1) :
    Reads itemsView k (.inside m.spot outer mode) cs (lwmArrayLoop (n + 1) m arr (cs ++ pad k))
      (fun r c s => s = leaveArray r.1.isSome outer mode ∧ (r.1.isSome → c = ']')) := by
  cases cs with
  | nil =>
    refine .nil trivial (.here (r := (some arr, pad k)) (by simp [lwmArrayLoop, pad_eq]) rfl trivial ?_)
    cases m <;> simp [itemsView, harr, ScanState.InEntry, ArrayMode.spot]
  | cons c cs =>
    obtain ⟨hnul, htail⟩ := IsCString.cons hcs
    simp only [List.length_cons] at hf
    have hloop (m arr) (harr : itemsProper arr) : Reads itemsView k (.inside m.spot outer mode) cs
        (lwmArrayLoop n m arr (cs ++ pad k)) _ := ih.arrayLoop harr htail (by omega)
    have htext (text : Text) : itemsProper (.string (some text) :: arr) :=
      ⟨Option.some_ne_none text, harr⟩
    rw [List.cons_append, lwmArrayLoop.eq_def]
    simp only [if_neg hnul]
    by_cases hspace : isSpace c
    · have hcomma : c ≠ ',' := by rintro rfl; exact absurd hspace (by decide)
      have hclose : c ≠ ']' := by rintro rfl; exact absurd hspace (by decide)
      have hstep : scanStep (.inside m.spot outer mode) c = .inside m.spot outer mode := by
        cases m <;> simp [scanStep, scanInside, scanItem, ArrayMode.spot, hspace, hcomma, hclose]
      rw [if_pos hspace]
      refine .step ?_
      rw [hstep]
      exact hloop m arr harr
    rw [if_neg hspace]
    cases m with
    | openable =>
      simp only [ArrayMode.spot]
      by_cases hend : c = ',' ∨ c = ']'
      · rw [if_pos hend]
        exact .stop rfl rfl (by simp [itemsView]) (by simp [scanStep, scanInside, scanItem, hspace, hend])
      rw [if_neg hend]
      by_cases hdict : c = '{'
      · subst hdict
        exact .step (ih.behindItem (ih.newDict htail (by omega)) harr htail (by omega)
          fun _ _ _ he => he.1)
      rw [if_neg hdict]
      by_cases hopen : c = '['
      · subst hopen
        exact .step (ih.behindItem (ih.newArray htail (by omega)) harr htail (by omega)
          fun _ _ _ he => he.1)
      rw [if_neg hopen]
      by_cases hbad : lwmIsToken c ['}', ';', '=']
      · rw [if_pos hbad]
        exact .stop rfl rfl (by simp [itemsView])
          (by simp [scanStep, scanInside, scanItem, hspace, hend, hdict, hopen, hbad])
      · rw [if_neg hbad]
        refine .step ?_
        simpa [scanStep, scanInside, scanItem, hspace, hend, hdict, hopen, hbad, ArrayMode.spot]
          using hloop (.kvVal _) arr harr
    | kvVal start =>
      simp only [ArrayMode.spot]
      by_cases hcomma : c = ','
      · subst hcomma
        exact .step (hloop .openable _ (htext _))
      rw [if_neg hcomma]
      by_cases hclose : c = ']'
      · subst hclose
        exact .stop rfl rfl (by simpa [itemsView] using htext _) (by simp [scanStep, scanInside])
      · rw [if_neg hclose]
        refine .step ?_
        simpa [scanStep, scanInside, hcomma, hclose, ArrayMode.spot] using hloop (.kvVal start) arr harr
    | object =>
      simp only [ArrayMode.spot]
      by_cases hcomma : c = ','
      · subst hcomma
        exact .step (hloop .openable _ harr)
      rw [if_neg hcomma]
      by_cases hclose : c = ']'
      · subst hclose
        exact .stop rfl rfl (by simpa [itemsView] using harr) (by simp [scanStep, scanInside])
      · rw [if_neg hclose]
        refine .step ?_
        simpa [scanStep, scanInside, hcomma, hclose, ArrayMode.spot] using hloop .object arr harr

theorem CursorAt.kvoVal_succ (ih : CursorAt n) (hcs : IsCString cs) (hf : 2 * cs.length + 4 ≤ n + 1) :
    Reads objectView k (.inside .value outer mode) cs (lwmKvoVal (n + 1) (cs ++ pad k))
      (fun r c s => s = leaveValue r.1.isSome c outer mode) := by
  cases cs with
  | nil =>
    exact .nil trivial (.here (r := (some (.string none), pad k)) (by simp [lwmKvoVal, pad_eq]) rfl
      trivial (by simp [objectView, LWMObject.Proper, ScanState.InEntry]))
  | cons c cs =>
    obtain ⟨hnul, htail⟩ := IsCString.cons hcs
    simp only [List.length_cons] at hf
    rw [List.cons_append, lwmKvoVal, if_neg hnul]
    by_cases hspace : isSpace c
    · rw [if_pos hspace]
      refine .step ?_
      simpa [scanStep, scanInside, hspace] using ih.kvoVal htail (by omega)
    rw [if_neg hspace]
    by_cases hdict : c = '{'
    · rw [if_pos hdict]
      subst hdict
      have hnew : Reads objectView k (.inside .entries (.dict :: outer) mode) cs _ _ :=
        ih.newDict htail (by omega)
      refine .step (hnew.mono ?_)
      rintro ⟨obj, q⟩ c s ⟨rfl, hc⟩
      simp only at hc
      simp only [leaveValue, leaveDict]
      rw [if_neg fun h => h.2 (hc h.1)]
    rw [if_neg hdict]
    by_cases harr : c = '['
    · rw [if_pos harr]
      subst harr
      have hnew : Reads objectView k (.inside .opened (.dict :: outer) mode) cs _ _ :=
        ih.newArray htail (by omega)
      refine .step (hnew.mono ?_)
      rintro ⟨obj, q⟩ c s ⟨rfl, hc⟩
      simp only at hc
      simp only [leaveValue, leaveArray]
      cases obj with
      | none => rfl
      | some obj => simp [hc rfl]
    rw [if_neg harr]
    by_cases hbad : lwmIsToken c [']', '}', ';', '=', ',']
    · rw [if_pos hbad]
      exact .stop rfl rfl (by simp [objectView])
        (by simp [scanStep, scanInside, hspace, hdict, harr, hbad, leaveValue])
    rw [if_neg hbad]
    refine .step ?_
    rw [show scanStep (.inside .value outer mode) c = .inside .text outer mode by
      simp [scanStep, scanInside, hspace, hdict, harr, hbad]]
    have hproper (text : Option (Option Text)) (q) :
        objectView.proper (text.map .string, q) ↔ textView.proper (text, q) := by
      cases text <;> simp [objectView, textView, LWMObject.Proper]
    refine (lwmKvoText_reads outer mode (c :: (cs ++ pad k)) htail).andThen htail ?_ ?_
    · rintro ⟨text, q⟩ j hq -
      exact .here rfl hq trivial (hproper text q)
    · rintro ⟨text, q⟩ d post s - - hq hp hs
      refine .inl ⟨_, rfl, hq, (hproper text q).mpr hp, ?_⟩
      simpa using hs

theorem CursorAt.kvo_succ (ih : CursorAt n) (hcs : IsCString (c :: cs)) (hspace : ¬ isSpace c)
    (hsep : c ≠ ';') (hf : 2 * cs.length + 5 ≤ n + 1) :
    Reads kvoView k (.inside .entries outer mode) (c :: cs)
      (lwmKvoParsing (n + 1) (c :: cs ++ pad k))
      (fun r d s => s = leaveValue r.1.isSome d outer mode) := by
  have hproper (text : Text) (value : Option LWMObject) (q) :
      kvoView.proper (value.map (some text, ·), q) ↔ objectView.proper (value, q) := by
    cases value <;> simp [kvoView, objectView]
  rw [lwmKvoParsing]
  refine (lwmKvoKey_first hcs hspace hsep).andThen hcs ?_ ?_
  · intro e j hq _
    cases e with
    | ended q => exact .here rfl hq trivial (by simp [kvoView, keyView])
    | failed q => exact .here rfl hq trivial (by simp [kvoView, keyView])
    | key text q => simp [keyView, KeyEnd.cursor, pad_eq, nul] at hq
  · intro e d post s hlen hpost hq hp hs
    cases e with
    | ended q => exact hs.elim
    | failed q => exact .inl ⟨_, rfl, hq, by simp [kvoView], by simp only [leaveValue]; exact hs⟩
    | key text q =>
      cases hs
      cases hq
      simp only [List.length_cons] at hlen
      refine .inr ((ih.kvoVal hpost (by omega)).andThen hpost ?_ ?_)
      · rintro ⟨value, q⟩ j hq -
        exact .here rfl hq trivial (hproper text value q)
      · rintro ⟨value, q⟩ d post' s - - hq hp hs
        refine .inl ⟨_, rfl, hq, (hproper text value q).mpr hp, ?_⟩
        simpa using hs

theorem CursorAt.dictLoop_succ (ih : CursorAt n) (hd : DictProper dict) (hcs : IsCString cs)
    (hf : 2 * cs.length + 4 ≤ n + 1) :
    Reads dictView k (.inside .entries outer mode) cs (lwmDictLoop (n + 1) dict (cs ++ pad k))
      (fun r c s => s = leaveDict outer mode ∧ (r.1 → c = '}')) := by
  cases cs with
  | nil =>
    exact .nil trivial (.here (r := (true, dict, pad k)) (by simp [lwmDictLoop, pad_eq]) rfl
      (fun _ => hd) (by simp [dictView, hd, ScanState.InEntry]))
  | cons c cs =>
    obtain ⟨hnul, htail⟩ := IsCString.cons hcs
    simp only [List.length_cons] at hf
    rw [List.cons_append, lwmDictLoop, if_neg hnul]
    by_cases hspace : isSpace c
    · rw [if_pos hspace]
      refine .step ?_
      simpa [scanStep, scanInside, hspace] using ih.dictLoop hd htail (by omega)
    rw [if_neg hspace]
    by_cases hclose : c = '}'
    · subst hclose
      exact .stop rfl rfl hd (by simp [scanStep, scanInside, isSpace, lwmIsToken_self])
    rw [if_neg hclose]
    by_cases hsep : c = ';'
    · subst hsep
      exact .step (ih.dictLoop hd htail (by omega))
    rw [if_neg hsep]
    obtain ⟨n, rfl⟩ : ∃ m, n = m + 1 := ⟨n - 1, by omega⟩
    refine (ih.kvo hcs hspace hsep (by omega)).andThen hcs ?_ ?_
    · rintro ⟨kvo, q⟩ j rfl -
      cases kvo with
      | none => exact .here rfl rfl (fun _ => hd) (by simp [dictView, kvoView, hd])
      | some kvo =>
        obtain ⟨dict', hdel, -⟩ := deleteLwmKvoByKey_ok hd.1.nonNull kvo.1
        -- the character behind the entry is a terminator, so the loop goes on behind it
        have hover : AtEnd dictView j (kvoView.proper (some kvo, pad j))
            (lwmDictLoop (n + 1) (kvo :: dict') (pad j).tail) := by
          refine .over (f := lwmDictLoop (n + 1) (kvo :: dict')) (by simp [lwmDictLoop]) fun i => ?_
          refine .here (r := (true, kvo :: dict', pad i)) (by simp [lwmDictLoop, pad_eq]) rfl
            (by rintro ⟨⟩) ?_
          refine (hd.insert_iff hdel).trans ⟨?_, fun h => h kvo rfl⟩
          rintro h kv ⟨⟩
          exact h
        simpa [bind, Except.bind, hdel, pad_eq, nul] using hover
    · rintro ⟨kvo, q⟩ d post s hlen hpost rfl hp rfl
      simp only [List.length_cons] at hlen
      cases kvo with
      | none => exact .inl ⟨_, rfl, rfl, hd, by simp [leaveValue]⟩
      | some kvo =>
        obtain ⟨dict', hdel, -⟩ := deleteLwmKvoByKey_ok hd.1.nonNull kvo.1
        have hkvo : DictProper (kvo :: dict') := (hd.insert_iff hdel).mpr (hp kvo rfl)
        simp only [bind, Except.bind, hdel]
        by_cases hend : d = '}'
        · rw [if_pos hend]
          exact .inl ⟨_, rfl, rfl, hkvo, by simp [leaveValue, hend], fun _ => hend⟩
        · rw [if_neg hend]
          refine .inr ?_
          simpa [leaveValue, hend] using ih.dictLoop hkvo hpost (by omega)

theorem cursorAt (n : Nat) : CursorAt n := by
  induction n with
  | zero => constructor <;> intros <;> omega
  | succ n ih =>
    exact ⟨ih.dictLoop_succ, ih.kvoVal_succ, ih.kvo_succ, ih.newDict_succ, ih.arrayLoop_succ,
      ih.newArray_succ⟩

-- ---------------------------------------------------------------------------
-- The message
-- ---------------------------------------------------------------------------

/-- The outcome of a routine that has read the whole text, when that ended in
the state `s`: a buffer without more terminators is left exactly inside a
dictionary. -/
def Outcome (k : Nat) (proper : α → Prop) (s : ScanState) (res : Except Fault α) : Prop :=
  s.Inside ∧ (res = .error .overrun ∨ k ≠ 0 ∧ ∃ r, res = .ok r ∧ (proper r ↔ ¬ s.InEntry)) ∨
    ¬ s.Inside ∧ ∃ r, res = .ok r ∧ proper r

theorem ended_foldl (cs : Text) : cs.foldl scanStep .ended = .ended := by
  induction cs with
  | nil => rfl
  | cons c cs ih => exact ih

theorem Outcome.ended {proper : α → Prop} (cs : Text) (hp : proper r) :
    Outcome k proper (cs.foldl scanStep .ended) (.ok r) := by
  rw [ended_foldl]
  exact .inr ⟨id, r, rfl, hp⟩

def bindingView : View (LWMDictionary × List Char) where
  cursor := Prod.snd
  proper r := DictProper r.1

theorem lwmDictParsing_reads (hd : DictProper dict) (hcs : IsCString cs) (hf : 2 * cs.length + 4 ≤ n) :
    Reads bindingView k (.inside .entries [] mode) cs (lwmDictParsing n dict ('{' :: cs ++ pad k))
      (fun _ _ s => s = .message mode.next) := by
  have hproper (b : Bool) (dict : LWMDictionary) (q : List Char) (h : b = false → DictProper dict) :
      bindingView.proper (if b then dict else foreachToDel dict, q) ↔ DictProper dict := by
    cases b with
    | true => rfl
    | false => exact iff_of_true ((h rfl).sublist (List.drop_sublist _ _)) (h rfl)
  rw [List.cons_append, lwmDictParsing_open]
  refine ((cursorAt n).dictLoop hd hcs hf).andThen hcs ?_ ?_
  · rintro ⟨b, dict, q⟩ j hq hfailed
    exact .here rfl hq trivial (hproper b dict q hfailed)
  · rintro ⟨b, dict, q⟩ c post s - - hq hp ⟨rfl, -⟩
    exact .inl ⟨_, rfl, hq, (hproper b dict q fun _ => hp).mpr hp, rfl⟩

theorem Reads.outcome {res : Except Fault (LWMDictionary × List Char)} {proper : β → Prop}
    (next : LWMDictionary → List Char → Except Fault β)
    (h : Reads bindingView k s cs res (fun _ _ s => s = s')) (hcs : IsCString cs)
    (hnil : ∀ d, next d [] = .error .overrun)
    (hpad : ∀ d i, ∃ r, next d (pad i) = .ok r ∧ (proper r ↔ DictProper d))
    (hnext : ∀ d post, DictProper d → post.length < cs.length → IsCString post →
      Outcome k proper (post.foldl scanStep s') (next d (post ++ pad k))) :
    Outcome k proper (cs.foldl scanStep s) (do
      let (d, q) ← res
      next d q.tail) := by
  rcases h with ⟨pre, c, post, ⟨d, q⟩, rfl, rfl, rfl, hp, he⟩ | ⟨hin, rfl | ⟨⟨d, q⟩, j, rfl, rfl, hj, -, hp⟩⟩
  · have hpost := hnext d post hp (by simp only [List.length_append, List.length_cons]; omega)
      fun hm => hcs (by simp [hm])
    rw [← he] at hpost
    simpa [bind, Except.bind] using hpost
  · exact .inl ⟨hin, .inl rfl⟩
  · cases j with
    | zero => exact .inl ⟨hin, .inl (hnil d)⟩
    | succ i =>
      obtain ⟨r, hr, hproper⟩ := hpad d i
      exact .inl ⟨hin, .inr ⟨by omega, r, hr, hproper.trans hp⟩⟩

theorem lwmMessageLoop_outcome (mode : MessageMode) (b : Bool) (msg : LWMessage)
    (hmsg : msg.Proper) (hcs : IsCString cs) (hf : 2 * cs.length + 4 ≤ n) :
    Outcome k (fun r => r.2.Proper) (cs.foldl scanStep (.message mode))
      (lwmMessageLoop n mode b msg (cs ++ pad k)) := by
  induction n generalizing cs mode b msg with
  | zero => omega
  | succ n ih =>
    cases cs with
    | nil => exact .inr ⟨id, _, lwmMessageLoop_stop (by simp), hmsg⟩
    | cons c cs =>
      obtain ⟨hnul, htail⟩ := IsCString.cons hcs
      simp only [List.length_cons] at hf
      obtain ⟨m, rfl⟩ : ∃ m, n = m + 1 := ⟨n - 1, by omega⟩
      have hnil (mode b msg) : lwmMessageLoop (m + 1) mode b msg [] = .error .overrun := by
        simp [lwmMessageLoop]
      have hpad (mode b msg i) : lwmMessageLoop (m + 1) mode b msg (pad i) = .ok (b, msg) :=
        lwmMessageLoop_stop (by simp)
      by_cases hspace : isSpace c
      · rw [List.cons_append, lwmMessageLoop_space hnul hspace, List.foldl_cons, scanStep, if_pos hspace]
        exact ih _ _ _ hmsg htail (by omega)
      by_cases hopen : c = '{'
      · subst hopen
        cases mode with
        | header =>
          rw [List.cons_append, lwmMessageLoop_header]
          have hdict : Reads bindingView k (.inside .entries [] .header) cs _ _ :=
            lwmDictParsing_reads (n := m + 1) hmsg.1 htail (by omega)
          refine hdict.outcome (fun header => lwmMessageLoop (m + 1) .body true { msg with header })
            htail (fun _ => hnil _ _ _) (fun d i => ⟨_, hpad _ _ _ _, ?_⟩) ?_
          · simp [LWMessage.Proper, hmsg.2]
          · intro d post hd hlen hpost
            have hf : 2 * post.length + 4 ≤ m + 1 := by omega
            exact ih _ _ _ ⟨hd, hmsg.2⟩ hpost hf
        | body =>
          rw [List.cons_append, lwmMessageLoop_body]
          have hdict : Reads bindingView k (.inside .entries [] .body) cs _ _ :=
            lwmDictParsing_reads (n := m + 1) hmsg.2 htail (by omega)
          refine hdict.outcome (fun body => lwmMessageLoop (m + 1) .openable true { msg with body })
            htail (fun _ => hnil _ _ _) (fun d i => ⟨_, hpad _ _ _ _, ?_⟩) ?_
          · simp [LWMessage.Proper, hmsg.1]
          · intro d post hd hlen hpost
            have hf : 2 * post.length + 4 ≤ m + 1 := by omega
            exact ih _ _ _ ⟨hmsg.1, hd⟩ hpost hf
        | openable =>
          rw [List.cons_append, lwmMessageLoop_third]
          exact .ended cs hmsg
      · have hloop : ∃ b', lwmMessageLoop (m + 2) mode b msg (c :: cs ++ pad k) = .ok (b', msg) := by
          rw [List.cons_append, lwmMessageLoop.eq_def]
          simp only [if_neg hnul, if_neg hspace, if_neg hopen]
          split
          · exact ⟨_, rfl⟩
          · exact ⟨_, rfl⟩
        obtain ⟨b', hb⟩ := hloop
        rw [hb, List.foldl_cons, scanStep, if_neg hspace, if_neg fun h => hopen h.1]
        exact .ended cs hmsg

theorem parse_loop (hs : IsCString (c :: cs)) :
    parseLwmMessageStr (c :: cs ++ pad k) =
      (fun r => if r.1 then some r.2 else none) <$>
        lwmMessageLoop (parseFuel (c :: cs ++ pad k)) .header false newLwmEmptyMessage (c :: cs ++ pad k) ∧
    Outcome k (fun r => r.2.Proper) (scan (c :: cs))
      (lwmMessageLoop (parseFuel (c :: cs ++ pad k)) .header false newLwmEmptyMessage
        (c :: cs ++ pad k)) := by
  have hnul := (IsCString.cons hs).1
  constructor
  · rw [List.cons_append, parseLwmMessageStr, if_neg hnul]
    rfl
  · exact lwmMessageLoop_outcome .header false newLwmEmptyMessage ⟨dictProper_nil, dictProper_nil⟩ hs
      (by simp [parseFuel, pad]; omega)

theorem parse_outcome (hs : IsCString s) :
    Outcome 0 (fun _ => True) (scan s) (parseLwmMessageStr (terminated s)) := by
  cases s with
  | nil => exact .inr ⟨id, none, rfl, trivial⟩
  | cons c cs =>
    obtain ⟨hparse, hloop⟩ := parse_loop (k := 0) hs
    have hterm : terminated (c :: cs) = c :: cs ++ pad 0 := rfl
    rw [hterm, hparse]
    rcases hloop with ⟨hin, hr | ⟨hk, -⟩⟩ | ⟨hin, r, hr, -⟩
    · exact .inl ⟨hin, .inl (by rw [hr]; rfl)⟩
    · exact absurd rfl hk
    · exact .inr ⟨hin, _, by rw [hr]; rfl, trivial⟩

/-- The parser ends and stays inside its buffer exactly when the text does not
end inside a dictionary. -/
theorem parse_safe_iff (hs : IsCString s) :
    (∃ msg, parseLwmMessageStr (terminated s) = .ok msg) ↔ ¬ (scan s).Inside := by
  rcases parse_outcome hs with ⟨hin, hr | ⟨hk, -⟩⟩ | ⟨hin, r, hr, -⟩
  · simp [hin, hr]
  · exact absurd rfl hk
  · exact ⟨fun _ => hin, fun _ => ⟨r, hr⟩⟩

/-- A text cut behind the first key. -/
theorem parse_truncated :
    IsCString ['{', 'a'] ∧ ¬ ∃ msg, parseLwmMessageStr (terminated ['{', 'a']) = .ok msg := by
  refine ⟨by decide, ?_⟩
  rintro ⟨msg, h⟩
  have hover : parseLwmMessageStr (terminated ['{', 'a']) = .error .overrun := rfl
  rw [hover] at h
  cases h

theorem parse_closed :
    ∃ msg, parseLwmMessageStr (terminated ['{', 'a', '=', '[', 'b', '}', ']', '}', '=']) = .ok msg :=
  (parse_safe_iff (by decide)).mpr (by decide)

end IoTware.LwMsg
