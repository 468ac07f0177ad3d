import IoTware.LwMsg.RoundTrip

/-!
# Proper messages

What every lookup and every handler relies on: no key is NULL, no dictionary
binds a key twice, and no text is NULL. An entry that is put at the head of a
dictionary behind a deletion keeps this, and it wins over the entries before it.
-/

namespace IoTware.LwMsg

open CText Loops

mutual
/-- At every level the keys are no NULL pointers and differ, and the texts are no
NULL pointers. -/
def LWMObject.Proper : LWMObject → Prop
  | .number _ => True
  | .string value => value ≠ none
  | .array items => itemsProper items
  | .dictionary entries => DistinctKeys entries ∧ entriesProper entries
def itemsProper : List LWMObject → Prop
  | [] => True
  | obj :: items => obj.Proper ∧ itemsProper items
def entriesProper : LWMDictionary → Prop
  | [] => True
  | (_, value) :: entries => value.Proper ∧ entriesProper entries
end

def DictProper (dict : LWMDictionary) : Prop := DistinctKeys dict ∧ entriesProper dict

def LWMessage.Proper (msg : LWMessage) : Prop := DictProper msg.header ∧ DictProper msg.body

theorem proper_dictionary {dict : LWMDictionary} :
    (LWMObject.dictionary dict).Proper ↔ DictProper dict := Iff.rfl

theorem proper_array {items : List LWMObject} :
    (LWMObject.array items).Proper ↔ itemsProper items := Iff.rfl

theorem entriesProper_iff : entriesProper dict ↔ ∀ kv ∈ dict, kv.2.Proper := by
  induction dict with
  | nil => simp [entriesProper]
  | cons kv dict ih => rw [entriesProper, ih, List.forall_mem_cons]

theorem dictProper_nil : DictProper [] :=
  ⟨⟨by simp [KeysNonNull], by simp [keys]⟩, trivial⟩

theorem DictProper.sublist (h : DictProper dict) (hsub : List.Sublist dict' dict) :
    DictProper dict' := by
  refine ⟨⟨fun kv hkv => h.1.nonNull kv (hsub.subset hkv), (hsub.map Prod.fst).nodup h.1.nodup⟩, ?_⟩
  exact entriesProper_iff.mpr fun kv hkv => entriesProper_iff.mp h.2 kv (hsub.subset hkv)

theorem DictProper.insert_iff (h : DictProper dict) (hdel : deleteLwmKvoByKey dict kv.1 = .ok dict') :
    DictProper (kv :: dict') ↔ kv.1 ≠ none ∧ kv.2.Proper := by
  have hrest := h.sublist (deleteLwmKvoByKey_sublist hdel)
  constructor
  · intro hnew
    exact ⟨hnew.1.nonNull kv List.mem_cons_self, hnew.2.1⟩
  · rintro ⟨hkey, hvalue⟩
    obtain ⟨key, value⟩ := kv
    cases key with
    | none => exact absurd rfl hkey
    | some key =>
      refine ⟨⟨hrest.1.nonNull.cons, ?_⟩, hvalue, hrest.2⟩
      exact List.nodup_cons.mpr ⟨deleteLwmKvoByKey_removes h.1 hdel, hrest.1.nodup⟩

theorem itemsProper_add (h : itemsProper items) (obj : Option LWMObject) :
    itemsProper (addLwmObjectToArray items obj) ↔ ∀ o ∈ obj, o.Proper := by
  cases obj with
  | none => simp [addLwmObjectToArray, h]
  | some obj => simp [addLwmObjectToArray, itemsProper, h]

end IoTware.LwMsg
