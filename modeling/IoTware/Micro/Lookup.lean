import IoTware.Micro.Parameter

/-!
# The search for a parameter

`get_parameter_from_param_list` with the reads of its arguments, which may be NULL. The
guard reads the name before it is known to be there, so a search by alias only, which
is how requests name parameters, goes through NULL.
-/

namespace IoTware.Micro.Lookup

open CText LwMsg

def startsWithNul : Option Text → Except Fault Bool
  | none => .error .nullPointer
  | some text => .ok (text = [])

/-- The test before the search; `||` and `&&` stop at the operand that decides. -/
def nothingToFind (paramName paramAlias : Option Text) : Except Fault Bool := do
  if paramName = none ∧ paramAlias = none then return true
  else if ← startsWithNul paramName then startsWithNul paramAlias
  else return false

/-- The loop over the parameters, from the value `param` has before. -/
def search (paramName paramAlias : Option Text) : Option Parameter → List Parameter → Option Parameter
  | param, [] => param
  | _, param :: params =>
    if paramName = some param.name then some param
    else if paramAlias = some param.aliasName then some param
    else search paramName paramAlias none params

def getParameterFromParamList (params : Option (List Parameter))
    (paramName paramAlias : Option Text) : Except Fault (Option Parameter) :=
  match params with
  | none => .ok none
  | some params =>
    if nodeNum params = 0 then .ok none
    else do
      if ← nothingToFind paramName paramAlias then return none
      else return search paramName paramAlias none params

def getParameterValuePtr (userParams staticParams flexibleParams : List Parameter)
    (paramName : Option Text) : Except Fault (Option (List UInt8)) := do
  match ← getParameterFromParamList (some userParams) paramName none with
  | some param => return some param.value
  | none =>
    match ← getParameterFromParamList (some staticParams) paramName none with
    | some param => return some param.value
    | none =>
      let param ← getParameterFromParamList (some flexibleParams) paramName none
      return param.map Parameter.value

def Named (paramName paramAlias : Option Text) (param : Parameter) : Prop :=
  paramName = some param.name ∨ paramAlias = some param.aliasName

instance : DecidablePred (Named paramName paramAlias) :=
  fun _ => inferInstanceAs (Decidable (_ ∨ _))

def Given (text : Option Text) : Prop := text ≠ none ∧ text ≠ some []

instance : DecidablePred Given := fun _ => inferInstanceAs (Decidable (_ ∧ _))

/-- The search goes through no NULL and returns the first parameter that is named. -/
def FindsFirst (params : Option (List Parameter)) (paramName paramAlias : Option Text) : Prop :=
  getParameterFromParamList params paramName paramAlias =
    .ok ((params.getD []).find? fun param => Named paramName paramAlias param)

-- ---------------------------------------------------------------------------
-- The guard and the loop
-- ---------------------------------------------------------------------------

theorem search_eq (paramName paramAlias : Option Text) (params : List Parameter) :
    search paramName paramAlias none params =
      params.find? fun param => Named paramName paramAlias param := by
  induction params with
  | nil => rfl
  | cons param params ih =>
    unfold search
    rw [List.find?_cons]
    by_cases hname : paramName = some param.name
    · rw [if_pos hname, decide_eq_true (show Named paramName paramAlias param from .inl hname)]
    · rw [if_neg hname]
      by_cases halias : paramAlias = some param.aliasName
      · rw [if_pos halias, decide_eq_true (show Named paramName paramAlias param from .inr halias)]
      · have hnot : ¬ Named paramName paramAlias param := fun h => h.elim hname halias
        rw [if_neg halias, ih, decide_eq_false hnot]

theorem nothingToFind_noName {paramAlias : Option Text} (h : paramAlias ≠ none) :
    nothingToFind none paramAlias = .error .nullPointer := by
  unfold nothingToFind
  rw [if_neg fun hboth => h hboth.2]
  rfl

theorem nothingToFind_name (name : Text) {paramAlias : Option Text}
    (h : Given (some name) ∨ Given paramAlias) :
    nothingToFind (some name) paramAlias = .ok false := by
  unfold nothingToFind
  rw [if_neg fun hboth => Option.some_ne_none _ hboth.1]
  cases name with
  | cons c text => rfl
  | nil =>
    obtain ⟨-, hname⟩ | ⟨hsome, hnil⟩ := h
    · exact absurd rfl hname
    · cases paramAlias with
      | none => exact absurd rfl hsome
      | some text =>
        cases text with
        | nil => exact absurd rfl hnil
        | cons c text => rfl

theorem getParameterFromParamList_name (params : List Parameter) (hparams : nodeNum params ≠ 0)
    (name : Text) {paramAlias : Option Text} (h : Given (some name) ∨ Given paramAlias) :
    FindsFirst (some params) (some name) paramAlias := by
  unfold FindsFirst getParameterFromParamList
  dsimp only
  rw [if_neg hparams, nothingToFind_name name h, ← search_eq]
  rfl

-- ---------------------------------------------------------------------------
-- The search
-- ---------------------------------------------------------------------------

/-- The search finds the first parameter exactly if it is given a name, or the counter
of the list is zero and there is nothing to find. -/
theorem findsFirst_iff (params : Option (List Parameter)) {paramName paramAlias : Option Text}
    (h : Given paramName ∨ Given paramAlias) :
    FindsFirst params paramName paramAlias ↔
      (nodeNum (params.getD []) = 0 ∧ ∀ param ∈ params.getD [], ¬ Named paramName paramAlias param) ∨
        (nodeNum (params.getD []) ≠ 0 ∧ paramName ≠ none) := by
  cases params with
  | none => exact iff_of_true rfl (.inl ⟨rfl, fun _ hparam => absurd hparam List.not_mem_nil⟩)
  | some params =>
    rw [Option.getD_some]
    by_cases hnum : nodeNum params = 0
    · have hcode : getParameterFromParamList (some params) paramName paramAlias = .ok none := by
        unfold getParameterFromParamList
        exact if_pos hnum
      unfold FindsFirst
      rw [hcode, Option.getD_some, Except.ok.injEq, eq_comm, List.find?_eq_none]
      simp [hnum]
    · cases paramName with
      | some name =>
        exact iff_of_true (getParameterFromParamList_name params hnum name h)
          (.inr ⟨hnum, Option.some_ne_none _⟩)
      | none =>
        have halias : paramAlias ≠ none := by
          obtain ⟨hname, -⟩ | ⟨halias, -⟩ := h
          · exact absurd rfl hname
          · exact halias
        refine iff_of_false ?_ (by simp [hnum])
        unfold FindsFirst getParameterFromParamList
        dsimp only
        rw [if_neg hnum, nothingToFind_noName halias]
        rintro ⟨⟩

theorem findsFirst_byName :
    FindsFirst (some [⟨['g'], ['G'], .unknown, []⟩, ⟨['h'], ['H'], .unknown, []⟩]) (some ['h']) none :=
  (findsFirst_iff _ (.inl (by decide))).mpr (.inr (by decide))

/-- Searched by its alias, no parameter is found. -/
theorem search_byAlias_reads_null :
    ¬ ∀ params paramName paramAlias, Given paramName ∨ Given paramAlias →
      FindsFirst params paramName paramAlias := by
  intro h
  exact absurd (h (some [⟨['g'], ['G'], .unknown, []⟩]) none (some ['G']) (.inr (by decide)))
    (by unfold FindsFirst; decide)

theorem getParameterFromParamList_byAlias (params : List Parameter) (paramAlias : Option Text) :
    Micro.getParameterFromParamList params paramAlias =
      if nodeNum params = 0 then none else search none paramAlias none params := by
  rw [search_eq]
  unfold Micro.getParameterFromParamList Named
  cases paramAlias with
  | none =>
    have hnone : (params.find? fun _ => false) = none := by
      rw [List.find?_eq_none]
      simp
    simp [hnone]
  | some name => simp [eq_comm]

theorem getParameterValuePtr_ok (userParams staticParams flexibleParams : List Parameter)
    {name : Text} (h : name ≠ []) :
    ∃ value, getParameterValuePtr userParams staticParams flexibleParams (some name) = .ok value := by
  have hfound : ∀ params : List Parameter, ∃ param,
      getParameterFromParamList (some params) (some name) none = .ok param := by
    intro params
    by_cases hnum : nodeNum params = 0
    · unfold getParameterFromParamList
      exact ⟨none, if_pos hnum⟩
    · exact ⟨_, getParameterFromParamList_name params hnum name
        (.inl ⟨Option.some_ne_none _, by simpa using h⟩)⟩
  obtain ⟨user, huser⟩ := hfound userParams
  obtain ⟨static, hstatic⟩ := hfound staticParams
  obtain ⟨flexible, hflexible⟩ := hfound flexibleParams
  unfold getParameterValuePtr
  rw [huser, hstatic, hflexible]
  cases user with
  | some param => exact ⟨_, rfl⟩
  | none =>
    cases static with
    | some param => exact ⟨_, rfl⟩
    | none => exact ⟨_, rfl⟩

end IoTware.Micro.Lookup
