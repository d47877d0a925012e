import Mathlib.Logic.Function.Basic
import Musgravite.Library.FieldValues

/-! # A schemaless document store

A store maps document references to fields.  Beside the documents it keeps
`known`, every identifier that names a document or occurs in a stored reference;
the two closure facts are fields of the structure, so a store that mentions an
identifier it does not know cannot be built.  Nor can one with a document whose
identifier is no segment of a path.  `addDocument` takes the identifier
the backend allots and succeeds only when it is not known yet: this is what
"allocates a fresh identifier" means here.

`updateData` on a missing document fails and changes nothing; on an existing one
it replaces the named fields and keeps the others.  All writes go through
`write`. -/

/-- The documents of a database, with the identifiers that occur in them. -/
structure Store where
  documents : DocumentReference → Option Fields
  known : List String
  isDocumentID : ∀ {r f}, documents r = some f → IsDocumentID r.documentID
  document_known : ∀ {r f}, documents r = some f → r.documentID ∈ known
  value_known : ∀ {r f}, documents r = some f → ∀ id ∈ f.ids, id ∈ known

/-- What a read hands its completion block: an error, or a snapshot, whose
`data()` is `nil` when there is no such document. -/
inductive DocumentReply
  | error
  | snapshot (documentID : String) (data : Option Fields)

/-- What a query for a whole collection hands its block: an error, or the documents
in query order. -/
inductive QueryReply
  | error
  | documents (ds : List (String × Fields))

namespace Store
variable (s : Store)

/-- The store without documents. -/
def empty : Store := ⟨fun _ => none, [], by simp, by simp, by simp⟩

/-- The documents with the fields `f` at `r`, if there can be a document there. -/
def put (documents : DocumentReference → Option Fields) (r : DocumentReference) (f : Fields) :
    DocumentReference → Option Fields :=
  if IsDocumentID r.documentID then Function.update documents r (some f) else documents

theorem put_eq_some {documents : DocumentReference → Option Fields} {r q : DocumentReference}
    {f g : Fields} (h : put documents r f q = some g) :
    (q = r ∧ IsDocumentID r.documentID ∧ g = f) ∨ documents q = some g := by
  unfold put at h
  split at h
  · rename_i hr
    by_cases hq : q = r
    · subst hq
      rw [Function.update_self] at h
      exact Or.inl ⟨rfl, hr, (Option.some.inj h).symm⟩
    · rw [Function.update_of_ne hq] at h
      exact Or.inr h
  · exact Or.inr h

/-- Puts the fields `f` at `r`. -/
def write (r : DocumentReference) (f : Fields) : Store where
  documents := put s.documents r f
  known := r.documentID :: f.ids ++ s.known
  isDocumentID h := by
    rcases put_eq_some h with ⟨rfl, hr, -⟩ | h
    · exact hr
    · exact s.isDocumentID h
  document_known h := by
    rcases put_eq_some h with ⟨rfl, -, -⟩ | h
    · simp
    · simp [s.document_known h]
  value_known h id hid := by
    rcases put_eq_some h with ⟨-, -, rfl⟩ | h
    · simp [hid]
    · simp [s.value_known h id hid]

theorem documents_write {r : DocumentReference} (h : IsDocumentID r.documentID) (f : Fields) :
    (s.write r f).documents = Function.update s.documents r (some f) :=
  if_pos h

theorem documents_write_self {r : DocumentReference} (h : IsDocumentID r.documentID) (f : Fields) :
    (s.write r f).documents r = some f := by
  rw [documents_write s h, Function.update_self]

theorem documents_write_eq_some {r q : DocumentReference} {f g : Fields}
    (h : (s.write r f).documents q = some g) :
    (q = r ∧ IsDocumentID r.documentID ∧ g = f) ∨ s.documents q = some g :=
  put_eq_some h

theorem documents_write_of_ne {r q : DocumentReference} (f : Fields) (h : q ≠ r) :
    (s.write r f).documents q = s.documents q := by
  by_cases hr : IsDocumentID r.documentID
  · rw [documents_write s hr, Function.update_of_ne h]
  · exact congrFun (if_neg hr) q

theorem known_write {r : DocumentReference} {f : Fields} {id : String} :
    id ∈ (s.write r f).known ↔ id = r.documentID ∨ id ∈ f.ids ∨ id ∈ s.known := by
  simp [write]

/-! ### Requests -/

/-- The answer to a read: whether the request went through is the backend's
choice. -/
def getDocument (r : DocumentReference) (answered : Bool) : DocumentReply :=
  if answered then .snapshot r.documentID (s.documents r) else .error

/-- The answers to a query for a collection. -/
def Lists (collection : String) : QueryReply → Prop
  | .error => True
  | .documents ds => ∀ id f, (id, f) ∈ ds ↔ s.documents ⟨collection, id⟩ = some f

/-- Adds a document under the identifier `id`; possible only if `id` is one and fresh. -/
def addDocument (collection id : String) (data : Fields) : Option Store :=
  if IsDocumentID id ∧ id ∉ s.known then some (s.write ⟨collection, id⟩ data) else none

/-- Updates fields of an existing document. -/
def updateData (r : DocumentReference) (updates : List (String × FieldUpdate)) : Option Store :=
  (s.documents r).map fun f => s.write r (f.update updates)

variable {s}

/-- A query that goes through comes back empty exactly if the collection is. -/
theorem Lists.eq_nil_iff {c : String} {ds : List (String × Fields)}
    (h : s.Lists c (.documents ds)) :
    ds = [] ↔ ∀ id, s.documents ⟨c, id⟩ = none := by
  constructor
  · rintro rfl id
    rw [Option.eq_none_iff_forall_ne_some]
    exact fun f hf => List.not_mem_nil ((h id f).mpr hf)
  · intro hall
    refine List.eq_nil_iff_forall_not_mem.mpr fun ⟨id, f⟩ hd => ?_
    cases (hall id).symm.trans ((h id f).mp hd)

/-- The query for a collection without documents. -/
theorem lists_empty (c : String) : empty.Lists c (.documents []) := by
  intro id f
  simp [empty]

/-- The query for a collection to which a document has been added. -/
theorem Lists.write {c id : String} {ds : List (String × Fields)} (h : s.Lists c (.documents ds))
    (hid : IsDocumentID id) (hnew : s.documents ⟨c, id⟩ = none) (f : Fields) :
    (s.write ⟨c, id⟩ f).Lists c (.documents (ds ++ [(id, f)])) := by
  intro id' f'
  rw [List.mem_append, h id' f', List.mem_singleton]
  by_cases he : id' = id
  · subst he
    rw [documents_write_self s hid, hnew]
    simp [eq_comm]
  · rw [documents_write_of_ne _ _ (by simpa using he)]
    simp [he]

theorem addDocument_eq_some {c id : String} {data : Fields} {t : Store} :
    s.addDocument c id data = some t ↔
      IsDocumentID id ∧ id ∉ s.known ∧ t = s.write ⟨c, id⟩ data := by
  unfold addDocument
  split <;> simp_all [eq_comm]

theorem updateData_eq_some {r : DocumentReference} {us : List (String × FieldUpdate)} {t : Store} :
    s.updateData r us = some t ↔ ∃ f, s.documents r = some f ∧ t = s.write r (f.update us) := by
  rw [updateData, Option.map_eq_some_iff]
  simp only [eq_comm]

/-- A fresh identifier names no document, in whatever collection. -/
theorem documents_eq_none_of_fresh {id : String} (h : id ∉ s.known) (c : String) :
    s.documents ⟨c, id⟩ = none := by
  cases hd : s.documents ⟨c, id⟩ with
  | none => rfl
  | some f => exact absurd (s.document_known hd) h

/-! ### References in arrays -/

/-- The references in the array `key` of the document at `r`; whatever else is there
is passed over. -/
def references (s : Store) (r : DocumentReference) (key : String) : List DocumentReference :=
  match s.documents r with
  | some f => (FieldValue.elements (f.lookup key)).filterMap FieldValue.asReference
  | none => []

theorem references_write_of_ne {r q : DocumentReference} (f : Fields) (key : String) (h : q ≠ r) :
    (s.write r f).references q key = s.references q key := by
  rw [references, references, documents_write_of_ne _ _ h]

theorem references_write_self {r : DocumentReference} (h : IsDocumentID r.documentID) (f : Fields)
    (key : String) : (s.write r f).references r key =
      (FieldValue.elements (f.lookup key)).filterMap FieldValue.asReference := by
  rw [references, documents_write_self s h]

theorem known_of_mem_references {r q : DocumentReference} {key : String}
    (h : q ∈ s.references r key) : q.documentID ∈ s.known := by
  unfold references at h
  split at h
  · rename_i f hf
    obtain ⟨v, hv, hq⟩ := List.mem_filterMap.mp h
    obtain rfl := FieldValue.asReference_eq_some.mp hq
    unfold FieldValue.elements at hv
    split at hv
    · rename_i vs hvs
      exact s.value_known hf _ (Fields.mem_ids_of_lookup hvs (FieldValue.mem_ids_array hv (by
        simp [FieldValue.ids])))
    · cases hv
  · cases h

/-- The union with one reference adds that reference. -/
theorem mem_references_union {r new q : DocumentReference} {f : Fields} {key : String}
    (hf : s.documents r = some f) :
    q ∈ (s.write r (f.update [(key, .arrayUnion [.reference new])])).references r key ↔
      q ∈ s.references r key ∨ q = new := by
  rw [references_write_self (s.isDocumentID hf), Fields.lookup_update_singleton_self, references,
    hf, FieldUpdate.apply_arrayUnion (FieldValue.oneForm_of_forall (by simp))]
  simp only [FieldValue.elements, List.mem_filterMap,
    FieldValue.asReference_eq_some, exists_eq_right, List.mem_appendMissing_singleton_iff]
  exact or_congr_right FieldValue.reference_injective.eq_iff

/-! ### What a series of writes has added -/

/-- No other document refers to the document at `r`. -/
def Orphan (s : Store) (r : DocumentReference) : Prop :=
  ∀ q f, s.documents q = some f → q ≠ r → r.documentID ∉ f.ids

/-- A document that was just added is an orphan. -/
theorem orphan_write {r : DocumentReference} (h : r.documentID ∉ s.known) (data : Fields) :
    (s.write r data).Orphan r := by
  intro q f hf hq hid
  rw [documents_write_of_ne _ _ hq] at hf
  exact h (s.value_known hf _ hid)

/-- The documents of `t` are those of `s` and, under other references, `created`. -/
structure NewDocuments (s t : Store) (created : List DocumentReference) : Prop where
  nodup : created.Nodup
  new : ∀ r ∈ created, s.documents r = none
  documents : ∀ r, t.documents r ≠ none ↔ s.documents r ≠ none ∨ r ∈ created

theorem NewDocuments.refl (s : Store) : NewDocuments s s [] := ⟨List.nodup_nil, by simp, by simp⟩

theorem NewDocuments.trans {s t u : Store} {xs ys : List DocumentReference}
    (h : NewDocuments s t xs) (h' : NewDocuments t u ys) : NewDocuments s u (xs ++ ys) where
  nodup := by
    refine h.nodup.append h'.nodup fun r hx hy => ?_
    exact (h.documents r).mpr (Or.inr hx) (h'.new r hy)
  new r hr := by
    rcases List.mem_append.mp hr with hr | hr
    · exact h.new r hr
    · by_contra hs
      exact (h.documents r).mpr (Or.inl hs) (h'.new r hr)
  documents r := by
    rw [h'.documents, h.documents, List.mem_append, or_assoc]

end Store
