import IoTware.LwMsg.Render

/-!
# The grammar of dictionaries

A relation reads from one text to the text that is left of it. White space may
stand before every token, and any number of `;` around the entries.
-/

namespace IoTware.LwMsg

open CText

/-- Characters for which `ok` holds are left out. -/
inductive Skips (ok : Char → Prop) : Text → Text → Prop
  | here : Skips ok cs cs
  | skip : ok c → Skips ok cs rest → Skips ok (c :: cs) rest

abbrev Space : Text → Text → Prop := Skips fun c => isSpace c

abbrev Gap : Text → Text → Prop := Skips fun c => isSpace c ∨ c = ';'

def Word (t : Text) : Prop := t ≠ [] ∧ ∀ c ∈ t, c ∉ delimiters

mutual
inductive Value : Text → Text → Prop
  | text : Word t → Value (t ++ rest) rest
  | dictionary : Entries ks cs ('}' :: rest) → Value ('{' :: cs) rest
  | empty : Space cs (']' :: rest) → Value ('[' :: cs) rest
  | array : Items cs (']' :: rest) → Value ('[' :: cs) rest
inductive Entries : List Text → Text → Text → Prop
  | done : Gap cs rest → Entries [] cs rest
  | entry : Gap cs (k ++ cs₁) → Word k → Space cs₁ ('=' :: cs₂) → Space cs₂ cs₃ → Value cs₃ cs₄ →
      Entries ks cs₄ rest → Entries (k :: ks) cs rest
inductive Items : Text → Text → Prop
  | last : Space cs cs₁ → Value cs₁ cs₂ → Space cs₂ rest → Items cs rest
  | item : Space cs cs₁ → Value cs₁ cs₂ → Space cs₂ (',' :: cs₃) → Items cs₃ rest → Items cs rest
end

/-- A dictionary with these keys, white space before it included. -/
def Dict (ks : List Text) (cs rest : Text) : Prop :=
  ∃ body, Space cs ('{' :: body) ∧ Entries ks body ('}' :: rest)

theorem Skips.suffix {ok : Char → Prop} (h : Skips ok cs rest) : rest <:+ cs := by
  induction h with
  | here => exact List.suffix_refl _
  | skip _ _ ih => exact ih.trans (List.suffix_cons _ _)

mutual
theorem Value.suffix : Value cs rest → rest <:+ cs
  | .text _ => List.suffix_append _ _
  | .dictionary h | .array h | .empty h =>
    ((List.suffix_cons _ _).trans h.suffix).trans (List.suffix_cons _ _)
theorem Entries.suffix : Entries ks cs rest → rest <:+ cs
  | .done h => h.suffix
  | .entry hgap _ heq hspace hv h =>
    have hvalue := ((h.suffix.trans hv.suffix).trans hspace.suffix).trans (List.suffix_cons _ _)
    ((hvalue.trans heq.suffix).trans (List.suffix_append _ _)).trans hgap.suffix
theorem Items.suffix : Items cs rest → rest <:+ cs
  | .last hspace hv h => (h.suffix.trans hv.suffix).trans hspace.suffix
  | .item hspace hv hcomma h =>
    have hitem := (h.suffix.trans (List.suffix_cons _ _)).trans hcomma.suffix
    (hitem.trans hv.suffix).trans hspace.suffix
end

theorem Dict.suffix (h : Dict ks cs rest) : rest <:+ cs := by
  obtain ⟨body, hspace, hentries⟩ := h
  have hbody := (List.suffix_cons _ _).trans hentries.suffix
  exact (hbody.trans (List.suffix_cons _ _)).trans hspace.suffix

theorem Entries.skip (hc : isSpace c ∨ c = ';') (h : Entries ks cs rest) : Entries ks (c :: cs) rest := by
  cases h with
  | done hgap => exact .done (.skip hc hgap)
  | entry hgap hk heq hspace hv hrest => exact .entry (.skip hc hgap) hk heq hspace hv hrest

theorem Items.skip (hc : isSpace c) (h : Items cs rest) : Items (c :: cs) rest := by
  cases h with
  | last hspace hv hrest => exact .last (.skip hc hspace) hv hrest
  | item hspace hv hcomma hrest => exact .item (.skip hc hspace) hv hcomma hrest

inductive ItemsRest : Text → Text → Prop
  | last : Space cs rest → ItemsRest cs rest
  | item : Space cs (',' :: cs₁) → Items cs₁ rest → ItemsRest cs rest

theorem ItemsRest.skip (hc : isSpace c) (h : ItemsRest cs rest) : ItemsRest (c :: cs) rest := by
  cases h with
  | last hspace => exact .last (.skip hc hspace)
  | item hcomma hrest => exact .item (.skip hc hcomma) hrest

theorem Value.items (hv : Value cs cs₁) (h : ItemsRest cs₁ rest) : Items cs rest := by
  cases h with
  | last hspace => exact .last .here hv hspace
  | item hcomma hrest => exact .item .here hv hcomma hrest

end IoTware.LwMsg
