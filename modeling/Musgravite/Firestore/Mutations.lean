import Mathlib.Data.List.Forall2
import Musgravite.Firestore.FieldPaths
import Musgravite.Firestore.ObjectValues
import Musgravite.Firestore.UserData

/-! # Mutations of the Firestore client

What the application hands to `updateData` and `setData` becomes mutations: a patch of the
fields that get a new value, followed by a transform of the fields that get elements added
or removed.  A mutation is applied twice.  As long as it waits, every read replays it
over the cached document (`applyToLocalDocument`); once the backend has accepted it, the
cached document takes it in (`applyToRemoteDocument`).

`updateData_means` compares both with what the rest of the model takes an update to be. -/
namespace Musgravite.Firestore
open FieldValue (elements)

/-! ### Documents as the client caches them -/

/-- The path of a document, segment by segment. -/
abbrev DocumentKey := List String

/-- When a document was written on the server; `0` is `None`. -/
abbrev SnapshotVersion := ℕ

inductive DocumentState
  | localMutations
  | committedMutations
  | synced
deriving DecidableEq

/-- `FSTMaybeDocument`; it is kept under its key.  Of an unknown document the client knows that
it was written, not what is in it. -/
inductive MaybeDocument
  | document (data : ObjectValue) (version : SnapshotVersion) (state : DocumentState)
  | deleted (version : SnapshotVersion) (hasCommittedMutations : Bool)
  | unknown (version : SnapshotVersion)

namespace MaybeDocument

def version : MaybeDocument → SnapshotVersion
  | document _ version _ => version
  | deleted version _ => version
  | unknown version => version

def hasPendingWrites : MaybeDocument → Bool
  | document _ _ state => state == .localMutations || state == .committedMutations
  | deleted _ hasCommittedMutations => hasCommittedMutations
  | unknown _ => true

/-- The data, if this is a document. -/
def data : MaybeDocument → Option ObjectValue
  | document data _ _ => some data
  | _ => none

end MaybeDocument

/-- What a reader can see of a document: its data, if there is any. -/
def visible (maybeDoc : Option MaybeDocument) : Option ObjectValue :=
  maybeDoc.bind MaybeDocument.data

/-! ### Preconditions and transforms -/

inductive Precondition
  | none
  | exists (exists_ : Bool)
  | updateTime (version : SnapshotVersion)

def Precondition.isValidFor : Precondition → Option MaybeDocument → Bool
  | .updateTime version, some (.document _ version' _) => version' = version
  | .updateTime _, _ => false
  | .exists true, maybeDoc => (visible maybeDoc).isSome
  -- of an unknown document neither is known
  | .exists false, Option.none => true
  | .exists false, some (.deleted _ _) => true
  | .exists false, _ => false
  | .none, _ => true

/-- The array transforms. -/
inductive TransformOperation
  | arrayUnion (elements : List FieldValue)
  | arrayRemove (elements : List FieldValue)

/-- `ArrayTransform::Apply`. -/
def TransformOperation.apply (previousValue : Option FieldValue) : TransformOperation → FieldValue
  | arrayUnion elements =>
      .array (elements.foldl
        (fun result element => if element ∈ result then result else result ++ [element])
        (FieldValue.elements previousValue))
  | arrayRemove elements =>
      -- only the first occurrence is found and erased
      .array (elements.foldl (fun result element => result.erase element)
        (FieldValue.elements previousValue))

structure FieldTransform where
  path : FieldPath
  transformation : TransformOperation

/-- A `std::set` of paths. -/
abbrev FieldMask := Table FieldPath Unit

/-- The paths of a mask in the order in which they are visited. -/
def FieldMask.paths (mask : FieldMask) : List FieldPath := mask.keys

/-! ### Mutations -/

/-- What the backend answers to one mutation. -/
structure MutationResult where
  version : SnapshotVersion
  transformResults : Option (List FieldValue)

inductive Mutation
  | set (key : DocumentKey) (value : ObjectValue) (precondition : Precondition)
  | patch (key : DocumentKey) (fieldMask : FieldMask) (value : ObjectValue)
      (precondition : Precondition)
  | transform (key : DocumentKey) (fieldTransforms : List FieldTransform)
  | delete (key : DocumentKey) (precondition : Precondition)

namespace Mutation

def key : Mutation → DocumentKey
  | set key _ _ => key
  | patch key _ _ _ => key
  | transform key _ => key
  | delete key _ => key

def precondition : Mutation → Precondition
  | set _ _ precondition => precondition
  | patch _ _ _ precondition => precondition
  -- a transform follows a set or a patch, after which the document exists
  | transform _ _ => .exists true
  | delete _ precondition => precondition

/-- Documents that are not there have no version after a mutation. -/
def postMutationVersion : Option MaybeDocument → SnapshotVersion
  | some (.document _ version _) => version
  | _ => 0

/-- One step of the loop of `patchObjectValue`. -/
def patchField (value result : ObjectValue) (fieldPath : FieldPath) : ObjectValue :=
  match value.getAt fieldPath with
  | some newValue => result.setAt fieldPath newValue
  | none => result.deleteAt fieldPath

def patchObjectValue (fieldMask : FieldMask) (value objectValue : ObjectValue) : ObjectValue :=
  fieldMask.paths.foldl (patchField value) objectValue

def patchDocument (fieldMask : FieldMask) (value : ObjectValue) (maybeDoc : Option MaybeDocument) :
    ObjectValue :=
  patchObjectValue fieldMask value ((visible maybeDoc).getD .empty)

/-- The value of a field of a document. -/
def fieldForPath (maybeDoc : Option MaybeDocument) (path : FieldPath) : Option FieldValue :=
  (visible maybeDoc).bind fun data => data.getAt path

/-- A field that is no longer there counts as it was before the batch. -/
def localTransformResults (fieldTransforms : List FieldTransform)
    (maybeDoc baseDoc : Option MaybeDocument) : List FieldValue :=
  fieldTransforms.map fun t =>
    t.transformation.apply ((fieldForPath maybeDoc t.path).or (fieldForPath baseDoc t.path))

/-- The server sends nothing of use for arrays. -/
def serverTransformResults (fieldTransforms : List FieldTransform)
    (maybeDoc : Option MaybeDocument) : List FieldValue :=
  fieldTransforms.map fun t => t.transformation.apply (fieldForPath maybeDoc t.path)

def transformObject (fieldTransforms : List FieldTransform) (objectValue : ObjectValue)
    (transformResults : List FieldValue) : ObjectValue :=
  (fieldTransforms.zip transformResults).foldl (fun o t => o.setAt t.1.path t.2) objectValue

/-- The mutation over a document, with the document as it was before the batch. -/
def applyToLocalDocument (mutation : Mutation) (maybeDoc baseDoc : Option MaybeDocument) :
    Option MaybeDocument :=
  if mutation.precondition.isValidFor maybeDoc then
    match mutation with
    | set _ value _ =>
        some (.document value (postMutationVersion maybeDoc) .localMutations)
    | patch _ fieldMask value _ =>
        some (.document (patchDocument fieldMask value maybeDoc) (postMutationVersion maybeDoc)
          .localMutations)
    | transform _ fieldTransforms =>
        match maybeDoc with
        | some (.document data version _) =>
            some (.document (transformObject fieldTransforms data
              (localTransformResults fieldTransforms maybeDoc baseDoc)) version .localMutations)
        | _ => maybeDoc
    | delete _ _ => some (.deleted 0 false)
  else maybeDoc

/-- The mutation that the backend has accepted; `none` where an assertion fails. -/
def applyToRemoteDocument (mutation : Mutation) (maybeDoc : Option MaybeDocument)
    (mutationResult : MutationResult) : Option MaybeDocument :=
  match mutation, mutationResult.transformResults with
  | set _ value _, none => some (.document value mutationResult.version .committedMutations)
  | patch _ fieldMask value precondition, none =>
      -- the precondition held on the backend, so the cached document is out of date
      if !precondition.isValidFor maybeDoc then some (.unknown mutationResult.version)
      else some (.document (patchDocument fieldMask value maybeDoc) mutationResult.version
        .committedMutations)
  | transform _ fieldTransforms, some transformResults =>
      match maybeDoc with
      | some (.document data _ _) =>
          if fieldTransforms.length ≠ transformResults.length then none
          else some (.document (transformObject fieldTransforms data
            (serverTransformResults fieldTransforms maybeDoc)) mutationResult.version
            .committedMutations)
      | _ => some (.unknown mutationResult.version)
  | delete _ _, none => some (.deleted mutationResult.version true)
  | _, _ => none

end Mutation

/-! ### What the application writes -/

/-- What `updateData` makes of its dictionary. -/
structure ParsedUpdateData where
  data : ObjectValue
  fieldMask : FieldMask
  fieldTransforms : List FieldTransform

namespace ParsedUpdateData

def empty : ParsedUpdateData := ⟨.empty, .empty, []⟩

/-- A sentinel becomes a transform; any other value enters the data and the mask. -/
def add (parsed : ParsedUpdateData) (path : FieldPath) : FieldUpdate → ParsedUpdateData
  | .set v => { parsed with
      data := ObjectValue.setAt parsed.data path v
      fieldMask := parsed.fieldMask.put path () }
  | .arrayUnion vs => { parsed with
      fieldTransforms := parsed.fieldTransforms ++ [⟨path, .arrayUnion vs⟩] }
  | .arrayRemove vs => { parsed with
      fieldTransforms := parsed.fieldTransforms ++ [⟨path, .arrayRemove vs⟩] }

def toMutations (parsed : ParsedUpdateData) (key : DocumentKey) (precondition : Precondition) :
    List Mutation :=
  .patch key parsed.fieldMask parsed.data precondition ::
    if parsed.fieldTransforms.isEmpty then [] else [.transform key parsed.fieldTransforms]

end ParsedUpdateData

/-- The path a key of an update stands for; `none` where an exception is thrown. -/
def pathWithDotSeparatedString (key : String) : Option FieldPath :=
  (FieldPath.fromDotSeparatedString key.toList).bind fun segments =>
    match segments.map String.ofList with
    | [] => none
    | first :: rest =>
      if (first :: rest).any isReservedSegment then none else some ⟨first, rest⟩

def parsedUpdateData (updates : List (String × FieldUpdate)) : Option ParsedUpdateData :=
  updates.foldlM (fun parsed u => do
    let path ← pathWithDotSeparatedString u.1
    let value ← parseUpdate u.2
    return parsed.add path value) .empty

/-- The mutations of `updateData`. -/
def updateMutations (key : DocumentKey) (updates : List (String × FieldUpdate)) :
    Option (List Mutation) :=
  (parsedUpdateData updates).map fun parsed => parsed.toMutations key (.exists true)

/-- The mutations of `setData`. -/
def setMutations (key : DocumentKey) (value : ObjectValue) : List Mutation := [.set key value .none]

/-! ### Batches -/

/-- The number of a batch among the pending writes, an `int32_t`. -/
abbrev BatchId := ℤ

namespace BatchId

/-- `INT32_MAX`. -/
def max : BatchId := 2147483647

/-- One more; the number after the greatest is the least. -/
def incremented (batchId : BatchId) : BatchId := (batchId + 1).bmod (2 ^ 32)

theorem incremented_eq {batchId : ℤ} (hlower : -1 ≤ batchId) (hupper : batchId < max) :
    incremented batchId = batchId + 1 := by
  have hupper : batchId < (2147483647 : ℤ) := hupper
  exact Int.bmod_eq_of_le (by omega) (by omega)

end BatchId

/-- Mutations that are written together; there is at least one. -/
structure MutationBatch where
  batchID : BatchId
  mutations : List Mutation
  mutations_ne_nil : mutations ≠ []

namespace MutationBatch

/-- The batch over one document. -/
def applyToLocalDocument (batch : MutationBatch) (maybeDoc : Option MaybeDocument)
    (documentKey : DocumentKey) : Option MaybeDocument :=
  batch.mutations.foldl (fun doc mutation =>
    if mutation.key = documentKey then mutation.applyToLocalDocument doc maybeDoc else doc) maybeDoc

/-- The batch that the backend has accepted, over one document; the outer `none` is a failed
assertion. -/
def applyToRemoteDocument (batch : MutationBatch) (maybeDoc : Option MaybeDocument)
    (documentKey : DocumentKey) (mutationResults : List MutationResult) :
    Option (Option MaybeDocument) :=
  if mutationResults.length ≠ batch.mutations.length then none
  else (batch.mutations.zip mutationResults).foldlM (fun doc m =>
    if m.1.key = documentKey then (m.1.applyToRemoteDocument doc m.2).map some else some doc)
    maybeDoc

/-- The documents the batch writes to. -/
def keys (batch : MutationBatch) : List DocumentKey := batch.mutations.map Mutation.key

end MutationBatch

/-- The backend answers a mutation with transform results exactly if it is a transform, one
for each field. -/
def MutationResult.Answers (mutationResult : MutationResult) : Mutation → Prop
  | .transform _ fieldTransforms =>
      ∃ values, mutationResult.transformResults = some values ∧
        values.length = fieldTransforms.length
  | _ => mutationResult.transformResults = none

instance (mutationResult : MutationResult) :
    ∀ mutation : Mutation, Decidable (mutationResult.Answers mutation)
  | .transform _ fieldTransforms => decidable_of_iff
      (∃ values ∈ mutationResult.transformResults, values.length = fieldTransforms.length) Iff.rfl
  | .set _ _ _ => inferInstanceAs (Decidable (mutationResult.transformResults = none))
  | .patch _ _ _ _ => inferInstanceAs (Decidable (mutationResult.transformResults = none))
  | .delete _ _ => inferInstanceAs (Decidable (mutationResult.transformResults = none))

/-! ## What an update does to a document -/

/-- The value that an update gives a field when the client applies it. -/
def appliedUpdate (previous : Option FieldValue) : FieldUpdate → FieldValue
  | .set v => v
  | .arrayUnion vs => (TransformOperation.arrayUnion vs).apply previous
  | .arrayRemove vs => (TransformOperation.arrayRemove vs).apply previous

/-- **The client's arrays are the backend's, but for elements that occur more often than the
update lists them**: the client removes one occurrence for each time an element is listed. -/
theorem appliedUpdate_eq_apply_iff {previous : Option FieldValue} {u : FieldUpdate}
    (hform : u.OneForm previous) : appliedUpdate previous u = u.apply previous ↔
      ∀ vs, u = .arrayRemove vs → ∀ v ∈ vs, (elements previous).count v ≤ vs.count v := by
  cases u with
  | set v => simp [appliedUpdate, FieldUpdate.apply]
  | arrayUnion vs =>
    rw [FieldUpdate.apply_arrayUnion hform]
    simp [appliedUpdate, TransformOperation.apply, List.appendMissing]
  | arrayRemove vs =>
    rw [FieldUpdate.apply_arrayRemove hform]
    simp only [appliedUpdate, TransformOperation.apply, FieldValue.array.injEq,
      FieldUpdate.arrayRemove.injEq, forall_eq']
    rw [← List.diff_eq_foldl, List.diff_eq_filter_iff]

/-! ### Patches and transforms, field by field -/

section Fields
variable {value o : ObjectValue} {p q : FieldPath}

theorem getAt_patchField_self (value o : ObjectValue) (p : FieldPath) :
    (Mutation.patchField value o p).getAt p = value.getAt p := by
  unfold Mutation.patchField
  split
  · rename_i v hv
    rw [ObjectValue.getAt_setAt_self, hv]
  · rename_i hv
    rw [ObjectValue.getAt_deleteAt_self, hv]

theorem getAt_patchField_of_apart (h : p.Apart q) (value o : ObjectValue) :
    (Mutation.patchField value o p).getAt q = o.getAt q := by
  unfold Mutation.patchField
  split
  · exact ObjectValue.getAt_setAt_of_apart h o _
  · exact ObjectValue.getAt_deleteAt_of_apart h o

theorem getAt_foldl_patchField_of_apart {ps : List FieldPath} (h : ∀ p ∈ ps, p.Apart q)
    (value o : ObjectValue) : (ps.foldl (Mutation.patchField value) o).getAt q = o.getAt q := by
  induction ps generalizing o with
  | nil => rfl
  | cons p ps ih =>
    rw [List.foldl_cons, ih fun p' hp' => h p' (List.mem_cons_of_mem p hp'),
      getAt_patchField_of_apart (h p List.mem_cons_self)]

/-- A patch gives each field of its mask the value it has in the patch. -/
theorem getAt_foldl_patchField {ps : List FieldPath}
    (h : ∀ p ∈ ps, ∀ q ∈ ps, p ≠ q → p.Apart q) (hp : p ∈ ps) (value o : ObjectValue) :
    (ps.foldl (Mutation.patchField value) o).getAt p = value.getAt p := by
  induction ps generalizing o with
  | nil => cases hp
  | cons first ps ih =>
    rw [List.foldl_cons]
    by_cases hmem : p ∈ ps
    · exact ih (fun p' hp' q' hq' => h p' (List.mem_cons_of_mem first hp') q'
        (List.mem_cons_of_mem first hq')) hmem _
    · obtain rfl : p = first := (List.mem_cons.mp hp).resolve_right hmem
      rw [getAt_foldl_patchField_of_apart, getAt_patchField_self]
      intro q hq
      refine h q (List.mem_cons_of_mem p hq) p List.mem_cons_self ?_
      rintro rfl
      exact hmem hq

theorem getAt_foldl_setAt_of_apart {writes : List (FieldPath × FieldValue)}
    (h : ∀ w ∈ writes, w.1.Apart q) (o : ObjectValue) :
    (writes.foldl (fun o w => ObjectValue.setAt o w.1 w.2) o).getAt q = o.getAt q := by
  induction writes generalizing o with
  | nil => rfl
  | cons w writes ih =>
    rw [List.foldl_cons, ih fun w' hw' => h w' (List.mem_cons_of_mem w hw'),
      ObjectValue.getAt_setAt_of_apart (h w List.mem_cons_self)]

theorem getAt_foldl_setAt {writes : List (FieldPath × FieldValue)}
    (h : writes.Pairwise fun w w' => w.1.Apart w'.1) {v : FieldValue} (hp : (p, v) ∈ writes)
    (o : ObjectValue) :
    (writes.foldl (fun o w => ObjectValue.setAt o w.1 w.2) o).getAt p = some v := by
  induction h generalizing o with
  | nil => cases hp
  | @cons w writes hw _ ih =>
    rw [List.foldl_cons]
    rcases List.mem_cons.mp hp with rfl | hp
    · rw [getAt_foldl_setAt_of_apart fun w' hw' => (hw w' hw').symm, ObjectValue.getAt_setAt_self]
    · exact ih hp _

end Fields

/-! ### From the dictionary to the mutations -/

/-- The transform that a sentinel becomes. -/
def transformOf : FieldPath × FieldUpdate → Option FieldTransform
  | (_, .set _) => none
  | (path, .arrayUnion vs) => some ⟨path, .arrayUnion vs⟩
  | (path, .arrayRemove vs) => some ⟨path, .arrayRemove vs⟩

theorem transformOf_eq_some {pu : FieldPath × FieldUpdate} {t : FieldTransform}
    (h : transformOf pu = some t) :
    t.path = pu.1 ∧ (∀ v, pu.2 ≠ .set v) ∧
      ∀ previous, t.transformation.apply previous = appliedUpdate previous pu.2 := by
  obtain ⟨path, u⟩ := pu
  cases u <;> cases h <;> exact ⟨rfl, fun v hv => (by cases hv), fun _ => rfl⟩

/-- What the data, the mask and the transforms hold after the entries `updates`. -/
structure ParsedFrom (updates : List (FieldPath × FieldUpdate)) (parsed : ParsedUpdateData) :
    Prop where
  mem_paths : ∀ p, p ∈ parsed.fieldMask.paths ↔ ∃ v, (p, .set v) ∈ updates
  getAt_data : ∀ p v, (p, .set v) ∈ updates → parsed.data.getAt p = some v
  fieldTransforms : parsed.fieldTransforms = updates.filterMap transformOf

theorem ParsedFrom.add {updates : List (FieldPath × FieldUpdate)} {parsed : ParsedUpdateData}
    (h : ParsedFrom updates parsed) {p : FieldPath} (u : FieldUpdate)
    (hp : ∀ pu ∈ updates, pu.1.Apart p) : ParsedFrom (updates ++ [(p, u)]) (parsed.add p u) := by
  cases u with
  | set v =>
    refine ⟨fun q => ?_, fun q w hq => ?_, ?_⟩
    · refine Table.mem_keys_put.trans ((or_congr_right (h.mem_paths q)).trans ?_)
      constructor
      · rintro (rfl | ⟨w, hw⟩)
        · exact ⟨v, by simp⟩
        · exact ⟨w, List.mem_append_left _ hw⟩
      · rintro ⟨w, hw⟩
        rcases List.mem_append.mp hw with hw | hw
        · exact Or.inr ⟨w, hw⟩
        · exact Or.inl (congrArg Prod.fst (List.mem_singleton.mp hw))
    · rcases List.mem_append.mp hq with hq | hq
      · exact (ObjectValue.getAt_setAt_of_apart (hp _ hq).symm _ _).trans (h.getAt_data q w hq)
      · obtain ⟨rfl, hu⟩ := Prod.mk.inj (List.mem_singleton.mp hq)
        obtain rfl := FieldUpdate.set.inj hu
        exact ObjectValue.getAt_setAt_self _ _ _
    · simp [ParsedUpdateData.add, h.fieldTransforms, transformOf]
  | arrayUnion vs =>
    refine ⟨fun q => ?_, fun q w hq => ?_, ?_⟩
    · simpa [ParsedUpdateData.add] using h.mem_paths q
    · exact h.getAt_data q w (by simpa using hq)
    · simp [ParsedUpdateData.add, h.fieldTransforms, transformOf]
  | arrayRemove vs =>
    refine ⟨fun q => ?_, fun q w hq => ?_, ?_⟩
    · simpa [ParsedUpdateData.add] using h.mem_paths q
    · exact h.getAt_data q w (by simpa using hq)
    · simp [ParsedUpdateData.add, h.fieldTransforms, transformOf]

/-- The data, the mask and the transforms of entries that do not interfere. -/
def parsedEntries (updates : List (FieldPath × FieldUpdate)) : ParsedUpdateData :=
  updates.foldl (fun parsed pu => parsed.add pu.1 pu.2) .empty

theorem parsedFrom_entries {updates : List (FieldPath × FieldUpdate)}
    (h : updates.Pairwise fun pu pu' => pu.1.Apart pu'.1) :
    ParsedFrom updates (parsedEntries updates) := by
  induction updates using List.reverseRecOn with
  | nil =>
    refine ⟨fun p => ?_, fun p v hv => absurd hv List.not_mem_nil, rfl⟩
    simp [parsedEntries, ParsedUpdateData.empty, FieldMask.paths]
  | append_singleton updates pu ih =>
    rw [List.pairwise_append] at h
    rw [parsedEntries, List.foldl_append]
    exact (ih h.1).add pu.2 fun pu' hpu' => h.2.2 pu' hpu' pu (List.mem_singleton_self pu)

theorem parsedUpdateData_eq {updates : List (String × FieldUpdate)}
    {entries : List (FieldPath × FieldUpdate)}
    (h : List.Forall₂ (fun u pu => pathWithDotSeparatedString u.1 = some pu.1 ∧
      parseUpdate u.2 = some pu.2) updates entries) :
    parsedUpdateData updates = some (parsedEntries entries) := by
  rw [parsedUpdateData, parsedEntries]
  generalize ParsedUpdateData.empty = parsed
  induction h generalizing parsed with
  | nil => rfl
  | cons hu _ ih =>
    rw [List.foldlM_cons, List.foldl_cons, hu.1, hu.2]
    exact ih _

/-! ### The mutations over a document -/

/-- `o'` is `o` after the updates, each made on the field as it was in `o`. -/
structure UpdatedBy (updates : List (FieldPath × FieldUpdate)) (o o' : ObjectValue) : Prop where
  written : ∀ pu ∈ updates, o'.getAt pu.1 = some (appliedUpdate (o.getAt pu.1) pu.2)
  kept : ∀ q, (∀ pu ∈ updates, pu.1.Apart q) → o'.getAt q = o.getAt q

section Updates
variable {updates : List (FieldPath × FieldUpdate)} {parsed : ParsedUpdateData} {o : ObjectValue}

theorem apart_of_mem (hapart : updates.Pairwise fun pu pu' => pu.1.Apart pu'.1)
    {pu pu' : FieldPath × FieldUpdate} (h : pu ∈ updates) (h' : pu' ∈ updates) (hne : pu ≠ pu') :
    pu.1.Apart pu'.1 := by
  have : Std.Symm fun pu pu' : FieldPath × FieldUpdate => pu.1.Apart pu'.1 :=
    ⟨fun _ _ hpu => hpu.symm⟩
  exact hapart.forall h h' hne

namespace ParsedFrom

theorem apart_of_transform (h : ParsedFrom updates parsed)
    (hapart : updates.Pairwise fun pu pu' => pu.1.Apart pu'.1) {t : FieldTransform}
    (ht : t ∈ parsed.fieldTransforms) {p : FieldPath} (hp : p ∈ parsed.fieldMask.paths) :
    p.Apart t.path := by
  obtain ⟨v, hv⟩ := (h.mem_paths p).mp hp
  rw [h.fieldTransforms] at ht
  obtain ⟨pu, hpu, ht⟩ := List.mem_filterMap.mp ht
  obtain ⟨hpath, hset, -⟩ := transformOf_eq_some ht
  rw [hpath]
  exact apart_of_mem hapart hv hpu fun he => hset v (congrArg Prod.snd he).symm

theorem pairwise_fieldTransforms (h : ParsedFrom updates parsed)
    (hapart : updates.Pairwise fun pu pu' => pu.1.Apart pu'.1) :
    parsed.fieldTransforms.Pairwise fun t t' => t.path.Apart t'.path := by
  rw [h.fieldTransforms, List.pairwise_filterMap]
  refine hapart.imp fun hpu t ht t' ht' => ?_
  rw [(transformOf_eq_some ht).1, (transformOf_eq_some ht').1]
  exact hpu

theorem apart_paths (h : ParsedFrom updates parsed)
    (hapart : updates.Pairwise fun pu pu' => pu.1.Apart pu'.1) :
    ∀ p ∈ parsed.fieldMask.paths, ∀ q ∈ parsed.fieldMask.paths, p ≠ q → p.Apart q := by
  intro p hp q hq hne
  obtain ⟨v, hv⟩ := (h.mem_paths p).mp hp
  obtain ⟨w, hw⟩ := (h.mem_paths q).mp hq
  exact apart_of_mem hapart hv hw fun he => hne (congrArg Prod.fst he)

end ParsedFrom

/-- The data after the patch and the transform. -/
def ParsedUpdateData.result (parsed : ParsedUpdateData) (o : ObjectValue) : ObjectValue :=
  (parsed.fieldTransforms.map fun t => (t.path, t.transformation.apply (o.getAt t.path))).foldl
    (fun o w => ObjectValue.setAt o w.1 w.2)
    (Mutation.patchObjectValue parsed.fieldMask parsed.data o)

theorem ParsedFrom.updatedBy (h : ParsedFrom updates parsed)
    (hapart : updates.Pairwise fun pu pu' => pu.1.Apart pu'.1) (o : ObjectValue) :
    UpdatedBy updates o (parsed.result o) := by
  have hkept : ∀ q, (∀ t ∈ parsed.fieldTransforms, t.path.Apart q) →
      (parsed.result o).getAt q =
        (Mutation.patchObjectValue parsed.fieldMask parsed.data o).getAt q := by
    intro q hq
    refine getAt_foldl_setAt_of_apart (fun w hw => ?_) _
    obtain ⟨t, ht, rfl⟩ := List.mem_map.mp hw
    exact hq t ht
  constructor
  · rintro ⟨p, u⟩ hpu
    cases hu : transformOf (p, u) with
    | none =>
      -- a value: the patch puts it, and no transform is near
      obtain ⟨v, rfl⟩ : ∃ v, u = .set v := by cases u <;> simp [transformOf] at hu ⊢
      have hp : p ∈ parsed.fieldMask.paths := (h.mem_paths p).mpr ⟨v, hpu⟩
      rw [hkept p fun t ht => (h.apart_of_transform hapart ht hp).symm]
      exact (getAt_foldl_patchField (h.apart_paths hapart) hp _ _).trans (h.getAt_data p v hpu)
    | some t =>
      have ht : t ∈ parsed.fieldTransforms := by
        rw [h.fieldTransforms]
        exact List.mem_filterMap.mpr ⟨(p, u), hpu, hu⟩
      obtain ⟨rfl, -, hvalue⟩ := transformOf_eq_some hu
      refine getAt_foldl_setAt ?_ (List.mem_map.mpr ⟨t, ht, ?_⟩) _
      · exact List.pairwise_map.mpr (h.pairwise_fieldTransforms hapart)
      · rw [hvalue]
  · intro q hq
    rw [hkept q, Mutation.patchObjectValue, getAt_foldl_patchField_of_apart]
    · intro p hp
      obtain ⟨v, hv⟩ := (h.mem_paths p).mp hp
      exact hq _ hv
    · intro t ht
      rw [h.fieldTransforms] at ht
      obtain ⟨pu, hpu, ht⟩ := List.mem_filterMap.mp ht
      rw [(transformOf_eq_some ht).1]
      exact hq pu hpu

/-- The fields that a transform reads are as they were before the patch. -/
theorem ParsedFrom.getAt_patched (h : ParsedFrom updates parsed)
    (hapart : updates.Pairwise fun pu pu' => pu.1.Apart pu'.1) {t : FieldTransform}
    (ht : t ∈ parsed.fieldTransforms) (o : ObjectValue) :
    (Mutation.patchObjectValue parsed.fieldMask parsed.data o).getAt t.path = o.getAt t.path :=
  getAt_foldl_patchField_of_apart (fun _ hp => h.apart_of_transform hapart ht hp) _ _

end Updates

section Batches
variable {updates : List (FieldPath × FieldUpdate)} {parsed : ParsedUpdateData}

theorem transformObject_map (ts : List FieldTransform) (f : FieldTransform → FieldValue)
    (o : ObjectValue) :
    Mutation.transformObject ts o (ts.map f) =
      (ts.map fun t => (t.path, f t)).foldl (fun o w => ObjectValue.setAt o w.1 w.2) o := by
  rw [Mutation.transformObject]
  induction ts generalizing o with
  | nil => rfl
  | cons t ts ih => exact ih _

/-- Patch and transform over a document, whichever of the two ways they are applied. -/
theorem ParsedFrom.transformObject_eq (h : ParsedFrom updates parsed)
    (hapart : updates.Pairwise fun pu pu' => pu.1.Apart pu'.1) (o : ObjectValue)
    (version version' : SnapshotVersion) (state state' : DocumentState) :
    let patched := Mutation.patchObjectValue parsed.fieldMask parsed.data o
    let doc : Option MaybeDocument := some (.document patched version state)
    Mutation.transformObject parsed.fieldTransforms patched
        (Mutation.localTransformResults parsed.fieldTransforms doc
          (some (.document o version' state'))) = parsed.result o ∧
      Mutation.transformObject parsed.fieldTransforms patched
        (Mutation.serverTransformResults parsed.fieldTransforms doc) = parsed.result o := by
  intro patched doc
  have hfield : ∀ t ∈ parsed.fieldTransforms, Mutation.fieldForPath doc t.path = o.getAt t.path :=
    fun t ht => h.getAt_patched hapart ht o
  simp only [Mutation.localTransformResults, Mutation.serverTransformResults, transformObject_map,
    ParsedUpdateData.result]
  constructor
  · refine congrArg (List.foldl _ patched) (List.map_congr_left fun t ht => ?_)
    -- the field is the same before the batch and after the patch
    rw [hfield t ht, show Mutation.fieldForPath _ t.path = o.getAt t.path from rfl, Option.or_self]
  · refine congrArg (List.foldl _ patched) (List.map_congr_left fun t ht => ?_)
    rw [hfield t ht]

theorem ParsedUpdateData.result_of_isEmpty (h : parsed.fieldTransforms = []) (o : ObjectValue) :
    parsed.result o = Mutation.patchObjectValue parsed.fieldMask parsed.data o := by
  rw [ParsedUpdateData.result, h]
  rfl

/-- An update waiting to be sent, over a document that is there. -/
theorem ParsedFrom.applyToLocalDocument (h : ParsedFrom updates parsed)
    (hapart : updates.Pairwise fun pu pu' => pu.1.Apart pu'.1) {batch : MutationBatch}
    {key : DocumentKey} (hbatch : batch.mutations = parsed.toMutations key (.exists true))
    (o : ObjectValue) (version : SnapshotVersion) (state : DocumentState) :
    batch.applyToLocalDocument (some (.document o version state)) key =
      some (.document (parsed.result o) version .localMutations) := by
  have hpatch : (Mutation.patch key parsed.fieldMask parsed.data
      (.exists true)).applyToLocalDocument (some (.document o version state))
        (some (.document o version state)) =
      some (.document (Mutation.patchObjectValue parsed.fieldMask parsed.data o) version
        .localMutations) := rfl
  rw [MutationBatch.applyToLocalDocument, hbatch, ParsedUpdateData.toMutations]
  by_cases hempty : parsed.fieldTransforms = []
  · simp [hempty, Mutation.key, hpatch, ParsedUpdateData.result_of_isEmpty hempty]
  · have hresult := (h.transformObject_eq hapart o version version .localMutations state).1
    simp only [List.isEmpty_iff, hempty, if_false, List.foldl_cons, List.foldl_nil, Mutation.key,
      if_true, hpatch]
    rw [Mutation.applyToLocalDocument, ← hresult]
    rfl

/-- An update that was accepted, over a document that is there. -/
theorem ParsedFrom.applyToRemoteDocument (h : ParsedFrom updates parsed)
    (hapart : updates.Pairwise fun pu pu' => pu.1.Apart pu'.1) {batch : MutationBatch}
    {key : DocumentKey} (hbatch : batch.mutations = parsed.toMutations key (.exists true))
    {results : List MutationResult}
    (hresults : List.Forall₂ MutationResult.Answers results batch.mutations)
    (o : ObjectValue) (version : SnapshotVersion) (state : DocumentState) :
    ∃ version', batch.applyToRemoteDocument (some (.document o version state)) key results =
      some (some (.document (parsed.result o) version' .committedMutations)) := by
  rw [MutationBatch.applyToRemoteDocument, if_neg (not_not.mpr hresults.length_eq)]
  rw [hbatch] at hresults ⊢
  rw [ParsedUpdateData.toMutations] at hresults ⊢
  obtain ⟨result, results, hresult, hrest, rfl⟩ := List.forall₂_cons_right_iff.mp hresults
  have hpatch : (Mutation.patch key parsed.fieldMask parsed.data
      (.exists true)).applyToRemoteDocument (some (.document o version state)) result =
      some (.document (Mutation.patchObjectValue parsed.fieldMask parsed.data o) result.version
        .committedMutations) := by
    simp only [Mutation.applyToRemoteDocument, show result.transformResults = none from hresult]
    rfl
  by_cases hempty : parsed.fieldTransforms = []
  · refine ⟨result.version, ?_⟩
    simp [hempty, Mutation.key, hpatch, ParsedUpdateData.result_of_isEmpty hempty]
  · simp only [List.isEmpty_iff, hempty, if_false] at hrest ⊢
    obtain ⟨result', results, hresult', hrest, rfl⟩ := List.forall₂_cons_right_iff.mp hrest
    obtain ⟨values, hvalues, hlength⟩ := hresult'
    have hdata := (h.transformObject_eq hapart o result.version version .committedMutations
      state).2
    refine ⟨result'.version, ?_⟩
    have htransform : (Mutation.transform key parsed.fieldTransforms).applyToRemoteDocument
        (some (.document (Mutation.patchObjectValue parsed.fieldMask parsed.data o) result.version
          .committedMutations)) result' =
        some (.document (parsed.result o) result'.version .committedMutations) := by
      simp only [Mutation.applyToRemoteDocument, hvalues, ← hdata]
      exact if_neg (not_not.mpr hlength.symm)
    simp [Mutation.key, hpatch, htransform]

/-- An update does not create a document. -/
theorem ParsedUpdateData.applyToLocalDocument_of_visible_eq_none {batch : MutationBatch}
    {key : DocumentKey} (hbatch : batch.mutations = parsed.toMutations key (.exists true))
    {maybeDoc : Option MaybeDocument} (h : visible maybeDoc = none) :
    batch.applyToLocalDocument maybeDoc key = maybeDoc := by
  have hnone : ∀ mutation ∈ batch.mutations,
      mutation.applyToLocalDocument maybeDoc maybeDoc = maybeDoc := by
    intro mutation hmutation
    have hprecondition : mutation.precondition = .exists true := by
      rw [hbatch, ParsedUpdateData.toMutations] at hmutation
      rcases List.mem_cons.mp hmutation with rfl | hmutation
      · rfl
      · split at hmutation
        · cases hmutation
        · rw [List.mem_singleton.mp hmutation]
          rfl
    have hvalid : mutation.precondition.isValidFor maybeDoc = false := by
      rw [hprecondition, Precondition.isValidFor, h]
      rfl
    unfold Mutation.applyToLocalDocument
    rw [hvalid]
    rfl
  rw [MutationBatch.applyToLocalDocument]
  refine List.foldlRecOn batch.mutations _ (motive := fun doc => doc = maybeDoc) rfl ?_
  rintro doc rfl mutation hmutation
  split
  · exact hnone mutation hmutation
  · rfl

end Batches

/-! ### The updates of the application -/

/-- A key of an update that names a field of the document itself. -/
def IsFieldName (key : String) : Prop := pathWithDotSeparatedString key = some ⟨key, []⟩

instance (key : String) : Decidable (IsFieldName key) := inferInstanceAs (Decidable (_ = _))

/-- The entries of an update whose keys are names of fields. -/
def fieldEntries (updates : List (String × FieldUpdate)) : List (FieldPath × FieldUpdate) :=
  updates.map fun u => (⟨u.1, []⟩, u.2)

theorem apart_field_iff {k l : String} : FieldPath.Apart ⟨k, []⟩ ⟨l, []⟩ ↔ k ≠ l := by
  simp [FieldPath.Apart, FieldPath.segments, eq_comm]

theorem parsedUpdateData_fieldEntries {updates values : List (String × FieldUpdate)}
    (h : ∀ u ∈ updates, IsFieldName u.1) (hvalues : parseValues updates = some values) :
    parsedUpdateData updates = some (parsedEntries (fieldEntries values)) := by
  refine parsedUpdateData_eq ?_
  rw [fieldEntries, List.forall₂_map_right_iff]
  have hboth := (List.forall₂_and_left _ _).mpr ⟨h, forall₂_of_parseValues hvalues⟩
  refine hboth.imp fun u v huv => ?_
  obtain ⟨hname, hkey, hvalue⟩ := huv
  exact ⟨hkey ▸ hname, hvalue⟩

/-- Mutations come only of values that can be stored. -/
theorem exists_parseValues {updates : List (String × FieldUpdate)} {parsed : ParsedUpdateData}
    (h : parsedUpdateData updates = some parsed) : ∃ values, parseValues updates = some values := by
  unfold parsedUpdateData at h
  generalize ParsedUpdateData.empty = initial at h
  induction updates generalizing initial with
  | nil => exact ⟨[], rfl⟩
  | cons u updates ih =>
    rw [List.foldlM_cons] at h
    obtain ⟨next, hnext, h⟩ := Option.bind_eq_some_iff.mp h
    obtain ⟨path, -, hnext⟩ := Option.bind_eq_some_iff.mp hnext
    obtain ⟨value, hvalue, -⟩ := Option.bind_eq_some_iff.mp hnext
    obtain ⟨values, hvalues⟩ := ih next h
    refine ⟨(u.1, value) :: values, ?_⟩
    rw [parseValues] at hvalues ⊢
    rw [List.mapM_cons, hvalue, hvalues]
    rfl

theorem pairwise_fieldEntries {updates : List (String × FieldUpdate)}
    (h : (updates.map Prod.fst).Nodup) :
    (fieldEntries updates).Pairwise fun pu pu' => pu.1.Apart pu'.1 :=
  List.pairwise_map.mpr ((List.pairwise_map.mp h).imp apart_field_iff.mpr)

/-- The updated data, compared with the fields after the same update. -/
theorem UpdatedBy.lookup_iff {updates : List (String × FieldUpdate)} {o o' : ObjectValue}
    {f : Fields} (h : UpdatedBy (fieldEntries updates) o o')
    (hnodup : (updates.map Prod.fst).Nodup) (hf : ∀ k, o.get k = f.lookup k)
    (hform : ∀ u ∈ updates, u.2.OneForm (f.lookup u.1)) :
    (∀ k, o'.get k = (f.update updates).lookup k) ↔
      ∀ k vs, (k, .arrayRemove vs) ∈ updates →
        ∀ v ∈ vs, (elements (f.lookup k)).count v ≤ vs.count v := by
  have hwritten : ∀ u ∈ updates, o'.get u.1 = some (appliedUpdate (f.lookup u.1) u.2) := by
    intro u hu
    have := h.written (⟨u.1, []⟩, u.2) (List.mem_map_of_mem hu)
    rwa [ObjectValue.getAt_field, ObjectValue.getAt_field, hf] at this
  have hkept : ∀ k, k ∉ updates.map Prod.fst → o'.get k = f.lookup k := by
    intro k hk
    rw [← hf]
    refine h.kept ⟨k, []⟩ fun pu hpu => ?_
    obtain ⟨u, hu, rfl⟩ := List.mem_map.mp hpu
    exact apart_field_iff.mpr fun he => hk (List.mem_map.mpr ⟨u, hu, he⟩)
  constructor
  · intro hall k vs hu
    have hk := hall k
    rw [hwritten _ hu, Fields.lookup_update_of_mem hnodup hu, Option.some.injEq] at hk
    exact (appliedUpdate_eq_apply_iff (hform _ hu)).mp hk vs rfl
  · intro hremove k
    by_cases hk : k ∈ updates.map Prod.fst
    · obtain ⟨⟨k, u⟩, hu, rfl⟩ := List.mem_map.mp hk
      rw [hwritten _ hu, Fields.lookup_update_of_mem hnodup hu]
      refine congrArg some ((appliedUpdate_eq_apply_iff (hform _ hu)).mpr ?_)
      rintro vs rfl
      exact hremove k vs hu
    · rw [hkept k hk, Fields.lookup_update_of_notMem hk]

/-- **What an update means.**  The mutations of an update of fields create no document.  Over a
document that is there they give the same data whether they are replayed while they
wait or taken in after the backend has accepted them; the version stays until then.  And that
data is what the rest of the model takes the update to make of the fields, exactly if no
array holds an element that is to be removed more often than the update lists it: there the
client leaves occurrences behind that the backend removes.  (An integer and a double that are
equal are one element for the backend and two for the client; the last part is about arrays
without such elements.) -/
theorem updateData_means {updates values : List (String × FieldUpdate)}
    (hnames : ∀ u ∈ updates, IsFieldName u.1) (hnodup : (updates.map Prod.fst).Nodup)
    (hvalues : parseValues updates = some values) (key : DocumentKey) :
    ∃ mutations, updateMutations key updates = some mutations ∧
      ∀ batch : MutationBatch, batch.mutations = mutations →
        (∀ maybeDoc, visible maybeDoc = none →
          batch.applyToLocalDocument maybeDoc key = maybeDoc) ∧
        ∀ (o : ObjectValue) (f : Fields) version state, (∀ k, o.get k = f.lookup k) →
          ∃ o', batch.applyToLocalDocument (some (.document o version state)) key =
              some (.document o' version .localMutations) ∧
            (∀ results, List.Forall₂ MutationResult.Answers results mutations →
              ∃ version', batch.applyToRemoteDocument (some (.document o version state)) key
                results = some (some (.document o' version' .committedMutations))) ∧
            ((∀ u ∈ values, u.2.OneForm (f.lookup u.1)) →
              ((∀ k, o'.get k = (f.update values).lookup k) ↔
                ∀ k vs, (k, .arrayRemove vs) ∈ values →
                  ∀ v ∈ vs, (elements (f.lookup k)).count v ≤ vs.count v)) := by
  rw [← map_fst_of_parseValues hvalues] at hnodup
  have hapart := pairwise_fieldEntries hnodup
  have hparsed := parsedFrom_entries hapart
  refine ⟨_, congrArg (Option.map _) (parsedUpdateData_fieldEntries hnames hvalues),
    fun batch hbatch =>
      ⟨fun maybeDoc hnone => ParsedUpdateData.applyToLocalDocument_of_visible_eq_none hbatch hnone,
        fun o f version state hf =>
          ⟨_, hparsed.applyToLocalDocument hapart hbatch o version state,
            fun results hresults => ?_, fun hform => ?_⟩⟩⟩
  · exact hparsed.applyToRemoteDocument hapart hbatch (hbatch ▸ hresults) o version state
  · exact (hparsed.updatedBy hapart o).lookup_iff hnodup hf hform

/-- The update that adds a participant to a team. -/
def participantUpdate : List (String × FieldUpdate) :=
  [("integrantes", .arrayUnion [.string "eva"])]

def participantMutations : List Mutation :=
  [.patch ["equipos", "e1"] .empty .empty (.exists true),
    .transform ["equipos", "e1"] [⟨⟨"integrantes", []⟩, .arrayUnion [.string "eva"]⟩]]

/-- A team that has a member gets another one, while the update waits and when it has been
accepted; where there is no team the update makes none. -/
theorem updateData_means_participant :
    updateMutations ["equipos", "e1"] participantUpdate = some participantMutations ∧
      ∃ o', (⟨1, participantMutations, List.cons_ne_nil _ _⟩ : MutationBatch).applyToLocalDocument
          none ["equipos", "e1"] = none ∧
        (⟨1, participantMutations, List.cons_ne_nil _ _⟩ : MutationBatch).applyToLocalDocument
          (some (.document (Table.empty.put "integrantes" (.array [.string "ana"])) 3 .synced))
            ["equipos", "e1"] = some (.document o' 3 .localMutations) ∧
        (∃ version', (⟨1, participantMutations,
            List.cons_ne_nil _ _⟩ : MutationBatch).applyToRemoteDocument
          (some (.document (Table.empty.put "integrantes" (.array [.string "ana"])) 3 .synced))
            ["equipos", "e1"] [⟨4, none⟩, ⟨4, some [.null]⟩] =
              some (some (.document o' version' .committedMutations))) ∧
        o'.get "integrantes" = some (.array [.string "ana", .string "eva"]) := by
  obtain ⟨mutations, hmutations, h⟩ := @updateData_means participantUpdate participantUpdate
    (by decide) (by decide) rfl ["equipos", "e1"]
  have hsame :
      updateMutations ["equipos", "e1"] participantUpdate = some participantMutations := rfl
  obtain rfl : participantMutations = mutations := Option.some.inj (hsame.symm.trans hmutations)
  obtain ⟨hnone, hsome⟩ := h ⟨1, participantMutations, List.cons_ne_nil _ _⟩ rfl
  obtain ⟨o', hlocal, hremote, hmeans⟩ := hsome
    (Table.empty.put "integrantes" (.array [.string "ana"]))
    (Fields.ofList [("integrantes", .array [.string "ana"])]) 3 .synced fun k => by
      simp [Table.get_put]
  refine ⟨hmutations, o', hnone none rfl, hlocal, hremote _ ?_, ?_⟩
  · exact .cons rfl (.cons ⟨_, rfl, rfl⟩ .nil)
  · rw [(hmeans ?_).mpr ?_]
    · rfl
    · exact List.forall_mem_singleton.mpr (FieldValue.oneForm_of_forall (by simp))
    · simp [participantUpdate]

end Musgravite.Firestore
