import Musgravite.Firestore.MutationQueue

/-! # The local store

The local store holds the documents as the backend last sent or acknowledged them and the
writes that wait for an answer.  What a read finds is the cached document with the waiting
writes of the user replayed over it (`LocalStore.view`); the batches are found through the index
of the queue.

Every operation is a database transaction that ends in assertions.  Under `LocalStore.Good`
they all hold, and the operations are what the lemmas `start_good` to `userDidChange_eq` say. -/
namespace Musgravite.Firestore

abbrev MaybeDocumentMap := Table DocumentKey MaybeDocument

/-- The documents a batch writes to, as a set. -/
def MutationBatch.keySet (batch : MutationBatch) : List DocumentKey :=
  (batch.keys.foldl (fun (keys : Table DocumentKey Unit) key => keys.put key ()) .empty).keys

@[simp] theorem MutationBatch.mem_keySet {batch : MutationBatch} {key : DocumentKey} :
    key ∈ batch.keySet ↔ key ∈ batch.keys := by
  rw [keySet, Table.mem_keys_foldl_put]
  simp

/-- The batch over a set of documents: once for each mutation. -/
def MutationBatch.applyToLocalDocumentSet (batch : MutationBatch) (documentSet : MaybeDocumentMap) :
    MaybeDocumentMap :=
  batch.mutations.foldl (fun mutatedDocuments mutation =>
    match batch.applyToLocalDocument (mutatedDocuments.get mutation.key) mutation.key with
    | some mutatedDocument => mutatedDocuments.put mutation.key mutatedDocument
    | none => mutatedDocuments) documentSet

/-- The answer of the backend to a batch. -/
structure MutationBatchResult where
  batch : MutationBatch
  mutationResults : List MutationResult

/-- The version each document has after the batch. -/
def MutationBatchResult.docVersions (batchResult : MutationBatchResult) :
    Table DocumentKey SnapshotVersion :=
  (batchResult.batch.mutations.zip batchResult.mutationResults).foldl
    (fun versions m => versions.put m.1.key m.2.version) .empty

/-- Each mutation has its answer. -/
def MutationBatchResult.Answered (batchResult : MutationBatchResult) : Prop :=
  List.Forall₂ MutationResult.Answers batchResult.mutationResults batchResult.batch.mutations

/-- The database with these documents in its cache. -/
def LevelDb.addDocuments (db : LevelDb) (docs : List (DocumentKey × MaybeDocument)) : LevelDb :=
  { db with
    remoteDocuments := docs.foldl (fun documents kv => documents.put kv.1 kv.2) db.remoteDocuments }

/-- `FSTLocalStore` with its database, the user whose queue is open and the number the queue
gives out next. -/
structure LocalStore where
  db : LevelDb
  userId : String
  nextBatchId : BatchId

/-- The batches over a document, one after the other. -/
def replay (batches : List MutationBatch) (key : DocumentKey) (maybeDoc : Option MaybeDocument) :
    Option MaybeDocument :=
  batches.foldl (fun doc batch => batch.applyToLocalDocument doc key) maybeDoc

namespace LocalStore

/-- Opens the queue of a user. -/
def start (db : LevelDb) (userId : String) : LocalStore := ⟨db, userId, loadNextBatchId db⟩

variable (s : LocalStore)

/-- `readDocument`; the outer `none` is a failed assertion, here and below. -/
def getDocument (key : DocumentKey) : Option (Option MaybeDocument) :=
  (s.db.allMutationBatchesAffectingDocumentKeys s.userId [key]).map fun batches =>
    replay batches key (s.db.remoteDocuments.get key)

def getLocalViewOfDocuments (baseDocs : List (DocumentKey × Option MaybeDocument)) :
    Option MaybeDocumentMap :=
  (s.db.allMutationBatchesAffectingDocumentKeys s.userId (baseDocs.map Prod.fst)).map fun batches =>
    baseDocs.foldl (fun results kv =>
      -- missing and deleted documents are not told apart
      results.put kv.1 ((replay batches kv.1 kv.2).getD (.deleted 0 false))) .empty

def getDocuments (keys : List DocumentKey) : Option MaybeDocumentMap :=
  s.getLocalViewOfDocuments (keys.map fun key => (key, s.db.remoteDocuments.get key))

/-- The number of the new batch is that of the queue before. -/
def locallyWriteMutations (mutations : List Mutation) (h : mutations ≠ []) :
    Option (LocalStore × MaybeDocumentMap) :=
  let batch : MutationBatch := ⟨s.nextBatchId, mutations, h⟩
  (s.getDocuments batch.keySet).map fun existingDocuments =>
    (⟨s.db.addMutationBatch s.userId batch, s.userId, .incremented s.nextBatchId⟩,
      batch.applyToLocalDocumentSet existingDocuments)

/-- The cached documents after the loop of `applyBatchResult` has come to `docKey`. -/
def applyBatchResultTo (batchResult : MutationBatchResult) (documents : MaybeDocumentMap)
    (docKey : DocumentKey) : Option MaybeDocumentMap :=
  (batchResult.docVersions.get docKey).bind fun ackVersion =>
    let remoteDoc := documents.get docKey
    if remoteDoc.all fun doc => doc.version < ackVersion then
      (batchResult.batch.applyToRemoteDocument remoteDoc docKey batchResult.mutationResults).bind
        fun
        | some doc => some (documents.put docKey doc)
        | none => if remoteDoc.isSome then none else some documents
    else some documents

def applyBatchResult (batchResult : MutationBatchResult) : Option LevelDb :=
  (batchResult.batch.keySet.foldlM (applyBatchResultTo batchResult) s.db.remoteDocuments).bind
    fun remoteDocuments =>
      { s.db with remoteDocuments }.removeMutationBatch s.userId batchResult.batch

def acknowledgeBatchWithResult (batchResult : MutationBatchResult) :
    Option (LocalStore × MaybeDocumentMap) :=
  (s.applyBatchResult batchResult).bind fun db =>
    (db.performConsistencyCheck s.userId).bind fun _ =>
      let t := { s with db }
      (t.getDocuments batchResult.batch.keySet).map fun docs => (t, docs)

def rejectBatchID (batchID : BatchId) : Option (LocalStore × MaybeDocumentMap) :=
  (s.db.lookupMutationBatch s.userId batchID).bind fun toReject =>
    (s.db.removeMutationBatch s.userId toReject).bind fun db =>
      (db.performConsistencyCheck s.userId).bind fun _ =>
        let t := { s with db }
        (t.getDocuments toReject.keySet).map fun docs => (t, docs)

/-- What a remote event does to a cached document. -/
def acceptsUpdate (existingDoc : Option MaybeDocument) (doc : MaybeDocument)
    (authoritative : Bool) : Bool :=
  match existingDoc with
  | none => true
  | some existingDoc =>
      doc.version = 0 || (authoritative && !existingDoc.hasPendingWrites) ||
        existingDoc.version ≤ doc.version

/-- The documents of a remote event that are not out of date; the `authoritative` ones are
those that were added to or modified in a target. -/
def changedDocuments (documentUpdates : MaybeDocumentMap) (authoritative : List DocumentKey) :
    List (DocumentKey × MaybeDocument) :=
  documentUpdates.rows.filter fun kv =>
    acceptsUpdate (s.db.remoteDocuments.get kv.1) kv.2 (kv.1 ∈ authoritative)

def applyRemoteEvent (documentUpdates : MaybeDocumentMap) (authoritative : List DocumentKey) :
    Option (LocalStore × MaybeDocumentMap) :=
  let changedDocs := s.changedDocuments documentUpdates authoritative
  let t : LocalStore := { s with db := s.db.addDocuments changedDocs }
  (t.getLocalViewOfDocuments (changedDocs.map fun kv => (kv.1, some kv.2))).map fun docs =>
    (t, docs)

def userDidChange (userId : String) : Option (LocalStore × MaybeDocumentMap) :=
  let t := start s.db userId
  let batches := s.db.allMutationBatches s.userId ++ t.db.allMutationBatches userId
  (t.getDocuments (batches.flatMap MutationBatch.keys)).map fun docs => (t, docs)

end LocalStore

/-! ## Batches over documents -/

section Replay
variable {batch : MutationBatch} {batches : List MutationBatch} {key : DocumentKey}

theorem MutationBatch.applyToLocalDocument_of_notMem (h : key ∉ batch.keys)
    (maybeDoc : Option MaybeDocument) : batch.applyToLocalDocument maybeDoc key = maybeDoc := by
  rw [applyToLocalDocument]
  refine List.foldlRecOn batch.mutations _ (motive := fun doc => doc = maybeDoc) rfl ?_
  rintro doc rfl mutation hmutation
  exact if_neg fun he : mutation.key = key => h (he ▸ List.mem_map_of_mem hmutation)

/-- Batches that do not write to the document can be left out. -/
theorem replay_filter {p : MutationBatch → Bool} (h : ∀ b ∈ batches, p b = false → key ∉ b.keys)
    (maybeDoc : Option MaybeDocument) :
    replay (batches.filter p) key maybeDoc = replay batches key maybeDoc := by
  rw [replay, replay]
  induction batches generalizing maybeDoc with
  | nil => rfl
  | cons b batches ih =>
    have hrest := fun doc => ih (fun b' hb' => h b' (List.mem_cons_of_mem b hb')) doc
    cases hp : p b with
    | true => rw [List.filter_cons_of_pos hp, List.foldl_cons, List.foldl_cons, hrest]
    | false =>
      rw [List.filter_cons_of_neg (by simp [hp]), List.foldl_cons, hrest,
        b.applyToLocalDocument_of_notMem (h b List.mem_cons_self hp)]

theorem replay_append (batches later : List MutationBatch) (key : DocumentKey)
    (maybeDoc : Option MaybeDocument) :
    replay (batches ++ later) key maybeDoc = replay later key (replay batches key maybeDoc) :=
  List.foldl_append

/-- A mutation that was answered leaves some document. -/
theorem Mutation.applyToRemoteDocument_isSome {mutation : Mutation} {result : MutationResult}
    (h : result.Answers mutation) (maybeDoc : Option MaybeDocument) :
    ∃ doc, mutation.applyToRemoteDocument maybeDoc result = some doc := by
  cases mutation with
  | set _ value _ => exact ⟨_, by simp only [applyToRemoteDocument, show _ = none from h]; rfl⟩
  | patch _ fieldMask value precondition =>
    simp only [applyToRemoteDocument, show result.transformResults = none from h]
    split
    · exact ⟨_, rfl⟩
    · exact ⟨_, rfl⟩
  | transform _ fieldTransforms =>
    obtain ⟨values, hvalues, hlength⟩ := h
    simp only [applyToRemoteDocument, hvalues]
    split
    · rw [if_neg (not_not.mpr hlength.symm)]
      exact ⟨_, rfl⟩
    · exact ⟨_, rfl⟩
  | delete _ _ => exact ⟨_, by simp only [applyToRemoteDocument, show _ = none from h]; rfl⟩

/-- A batch that was answered leaves a document wherever it writes. -/
theorem MutationBatch.applyToRemoteDocument_isSome {results : List MutationResult}
    (h : List.Forall₂ MutationResult.Answers results batch.mutations)
    (maybeDoc : Option MaybeDocument) (hkey : key ∈ batch.keys) :
    ∃ doc, batch.applyToRemoteDocument maybeDoc key results = some (some doc) := by
  rw [applyToRemoteDocument, if_neg (not_not.mpr h.length_eq)]
  rw [keys] at hkey
  suffices hfold : ∃ d, (batch.mutations.zip results).foldlM (fun doc m =>
      if m.1.key = key then (m.1.applyToRemoteDocument doc m.2).map some else some doc) maybeDoc =
        some d ∧ (maybeDoc.isSome ∨ key ∈ batch.mutations.map Mutation.key → d.isSome) by
    obtain ⟨d, hd, hsome⟩ := hfold
    obtain ⟨doc, rfl⟩ := Option.isSome_iff_exists.mp (hsome (Or.inr hkey))
    exact ⟨doc, hd⟩
  clear hkey
  generalize batch.mutations = mutations at h
  induction h generalizing maybeDoc with
  | nil => exact ⟨maybeDoc, rfl, fun h => h.elim id fun h => absurd h List.not_mem_nil⟩
  | @cons result mutation results mutations hanswer _ ih =>
    rw [List.zip_cons_cons, List.foldlM_cons, List.map_cons, List.mem_cons]
    by_cases hk : mutation.key = key
    · obtain ⟨doc, hdoc⟩ := Mutation.applyToRemoteDocument_isSome hanswer maybeDoc
      obtain ⟨d, hd, hsome⟩ := ih (some doc)
      refine ⟨d, ?_, fun _ => hsome (Or.inl rfl)⟩
      rw [if_pos hk, hdoc]
      exact hd
    · obtain ⟨d, hd, hsome⟩ := ih maybeDoc
      refine ⟨d, ?_, fun h => hsome (h.imp_right fun h => h.resolve_left (Ne.symm hk))⟩
      rw [if_neg hk]
      exact hd

end Replay

namespace LocalStore
variable {s : LocalStore}

/-- What a read should find: the cached document under the pending writes of the user. -/
def view (s : LocalStore) (key : DocumentKey) : Option MaybeDocument :=
  replay (s.db.pending s.userId) key (s.db.remoteDocuments.get key)

/-- The queue in use gives out numbers that no batch has, of whatever user. -/
structure Good (s : LocalStore) : Prop where
  valid : s.db.Valid
  nonneg : 0 ≤ s.nextBatchId
  bounded : s.nextBatchId ≤ BatchId.max
  fresh : ∀ k batch, s.db.mutations.get k = some batch → k.batchId < s.nextBatchId

theorem start_good {db : LevelDb} (h : db.Valid) (userId : String) : (start db userId).Good :=
  ⟨h, h.loadNextBatchId_nonneg, h.loadNextBatchId_le, fun _ _ => h.lt_loadNextBatchId⟩

namespace Good
variable (h : s.Good)
include h

/-- **A read replays all pending writes of the user, and does not fail.** -/
theorem getDocument_eq (key : DocumentKey) : s.getDocument key = some (s.view key) := by
  rw [getDocument, h.valid.affectingKeys_eq, Option.map_some, view, replay_filter]
  intro b _ hb hkey
  simp only [List.mem_singleton, List.any_eq_false, decide_eq_true_eq] at hb
  exact hb key hkey rfl

theorem getLocalViewOfDocuments_isSome (baseDocs : List (DocumentKey × Option MaybeDocument)) :
    ∃ docs, s.getLocalViewOfDocuments baseDocs = some docs := by
  rw [getLocalViewOfDocuments, h.valid.affectingKeys_eq]
  exact ⟨_, rfl⟩

theorem getDocuments_isSome (keys : List DocumentKey) : ∃ docs, s.getDocuments keys = some docs :=
  h.getLocalViewOfDocuments_isSome _

/-- The cached documents do not matter. -/
theorem withDocuments (remoteDocuments : MaybeDocumentMap) :
    ({ s with db := { s.db with remoteDocuments } } : LocalStore).Good :=
  ⟨⟨h.valid.numbered, h.valid.nonneg, h.valid.bounded, h.valid.indexed⟩, h.nonneg, h.bounded,
    h.fresh⟩

theorem withoutBatch {batch : MutationBatch}
    (hbatch : s.db.mutations.get ⟨s.userId, batch.batchID⟩ = some batch) :
    ({ s with db := s.db.deleteBatch s.userId batch } : LocalStore).Good where
  valid := h.valid.deleteBatch hbatch
  nonneg := h.nonneg
  bounded := h.bounded
  fresh k b hb := by
    rw [LevelDb.deleteBatch, Table.get_erase] at hb
    split at hb
    · cases hb
    · exact h.fresh k b hb

end Good

/-! ## Writing -/

/-- The store after a write. -/
def written (s : LocalStore) (mutations : List Mutation) (hne : mutations ≠ []) : LocalStore :=
  ⟨s.db.addMutationBatch s.userId ⟨s.nextBatchId, mutations, hne⟩, s.userId,
    .incremented s.nextBatchId⟩

section Writing
variable {mutations : List Mutation} {hne : mutations ≠ []} (h : s.Good)
include h

theorem Good.locallyWriteMutations_eq (hne : mutations ≠ []) :
    let batch : MutationBatch := ⟨s.nextBatchId, mutations, hne⟩
    ∃ docs, s.getDocuments batch.keySet = some docs ∧ s.locallyWriteMutations mutations hne =
      some (s.written mutations hne, batch.applyToLocalDocumentSet docs) := by
  intro batch
  obtain ⟨docs, hdocs⟩ := h.getDocuments_isSome batch.keySet
  exact ⟨docs, hdocs, congrArg (Option.map _) hdocs⟩

theorem Good.nextBatchId_written (hnext : s.nextBatchId < BatchId.max) (hne : mutations ≠ []) :
    (s.written mutations hne).nextBatchId = s.nextBatchId + 1 := by
  exact BatchId.incremented_eq ((show (-1 : ℤ) ≤ 0 by decide).trans h.nonneg) hnext

theorem Good.written (hnext : s.nextBatchId < BatchId.max) (hne : mutations ≠ []) :
    (s.written mutations hne).Good where
  valid := h.valid.add h.nonneg hnext (fun u b hb => (h.fresh _ b hb).false) s.userId
  nonneg := by
    rw [h.nextBatchId_written hnext]
    exact Int.le_add_one h.nonneg
  bounded := by
    rw [h.nextBatchId_written hnext]
    exact Int.add_one_le_iff.mpr hnext
  fresh k b hb := by
    rw [LocalStore.written, LevelDb.addMutationBatch, Table.get_put] at hb
    rw [h.nextBatchId_written hnext]
    split at hb
    · rename_i hk
      rw [hk]
      exact Int.lt_succ _
    · exact (h.fresh k b hb).trans (Int.lt_succ _)

theorem Good.pending_written (hnext : s.nextBatchId < BatchId.max) (hne : mutations ≠ [])
    (u : String) :
    (s.written mutations hne).db.pending u =
      s.db.pending u ++ if u = s.userId then [⟨s.nextBatchId, mutations, hne⟩] else [] :=
  h.valid.pending_add ⟨s.nextBatchId, mutations, hne⟩ h.nonneg hnext h.fresh s.userId u

/-- **A write shows at once**: over what was read before. -/
theorem Good.view_written (hnext : s.nextBatchId < BatchId.max) (hne : mutations ≠ [])
    (key : DocumentKey) :
    (s.written mutations hne).view key =
      (⟨s.nextBatchId, mutations, hne⟩ : MutationBatch).applyToLocalDocument (s.view key) key := by
  rw [view, show (s.written mutations hne).userId = s.userId from rfl, h.pending_written hnext,
    if_pos rfl, replay_append]
  rfl

end Writing

/-! ## The answers of the backend -/

/-- A rejected batch leaves the queue. -/
theorem Good.rejectBatchID_eq (h : s.Good) {batch : MutationBatch}
    (hbatch : s.db.mutations.get ⟨s.userId, batch.batchID⟩ = some batch) :
    let t : LocalStore := { s with db := s.db.deleteBatch s.userId batch }
    ∃ docs, t.getDocuments batch.keySet = some docs ∧
      s.rejectBatchID batch.batchID = some (t, docs) := by
  intro t
  have hgood := h.withoutBatch hbatch
  obtain ⟨docs, hdocs⟩ := hgood.getDocuments_isSome batch.keySet
  refine ⟨docs, hdocs, ?_⟩
  rw [rejectBatchID, LevelDb.lookupMutationBatch, hbatch, Option.bind_some,
    LevelDb.removeMutationBatch_eq hbatch, Option.bind_some,
    hgood.valid.performConsistencyCheck s.userId, Option.bind_some]
  exact congrArg (Option.map _) hdocs

end LocalStore

/-- What an acknowledgement makes of a cached document: it takes the batch in, unless the
backend has sent it already. -/
def MutationBatchResult.acknowledged (batchResult : MutationBatchResult) (key : DocumentKey)
    (remoteDoc : Option MaybeDocument) : Option MaybeDocument :=
  match batchResult.docVersions.get key with
  | some ackVersion =>
    if remoteDoc.all fun doc => doc.version < ackVersion then
      (batchResult.batch.applyToRemoteDocument remoteDoc key batchResult.mutationResults).getD
        remoteDoc
    else remoteDoc
  | none => remoteDoc

namespace MutationBatchResult
variable {batchResult : MutationBatchResult} {key : DocumentKey}

theorem mem_docVersions (h : batchResult.Answered) :
    (∃ version, batchResult.docVersions.get key = some version) ↔ key ∈ batchResult.batch.keys := by
  have hfold : ∀ t : Table DocumentKey SnapshotVersion, key ∈
      ((batchResult.batch.mutations.zip batchResult.mutationResults).foldl
        (fun versions m => versions.put m.1.key m.2.version) t).keys ↔
      key ∈ t.keys ∨ key ∈ batchResult.batch.mutations.map Mutation.key := by
    rw [Answered] at h
    generalize batchResult.mutationResults = results, batchResult.batch.mutations = mutations at h
    induction h with
    | nil => simp
    | cons _ _ ih =>
      intro t
      rw [List.zip_cons_cons, List.foldl_cons, ih, Table.mem_keys_put, List.map_cons, List.mem_cons]
      tauto
  rw [← Table.mem_keys, docVersions, hfold]
  simp [MutationBatch.keys]

/-- One round of the loop of `applyBatchResult`. -/
theorem applyBatchResultTo_eq (h : batchResult.Answered) (hkey : key ∈ batchResult.batch.keys)
    (documents : MaybeDocumentMap) :
    ∃ documents', LocalStore.applyBatchResultTo batchResult documents key = some documents' ∧
      ∀ k, documents'.get k = if k = key then batchResult.acknowledged key (documents.get key)
        else documents.get k := by
  obtain ⟨ackVersion, hversion⟩ := (mem_docVersions h).mpr hkey
  obtain ⟨doc, hdoc⟩ := MutationBatch.applyToRemoteDocument_isSome h (documents.get key) hkey
  rw [LocalStore.applyBatchResultTo, hversion, Option.bind_some, acknowledged, hversion]
  by_cases hnew : (documents.get key).all fun doc => doc.version < ackVersion
  · refine ⟨documents.put key doc, ?_, fun k => ?_⟩
    · simp only [hnew, if_true, hdoc, Option.bind_some]
    · simp only [hnew, if_true, hdoc, Option.getD_some, Table.get_put]
      by_cases hk : k = key <;> simp only [hk, if_true, if_false]
  · refine ⟨documents, if_neg hnew, fun k => ?_⟩
    simp only [hnew]
    split
    · rename_i hk
      rw [hk]
      rfl
    · rfl

theorem foldlM_applyBatchResultTo_eq (h : batchResult.Answered) {keys : List DocumentKey}
    (hkeys : ∀ key ∈ keys, key ∈ batchResult.batch.keys) (hnodup : keys.Nodup)
    (documents : MaybeDocumentMap) :
    ∃ documents', keys.foldlM (LocalStore.applyBatchResultTo batchResult) documents =
        some documents' ∧
      ∀ k, documents'.get k = if k ∈ keys then batchResult.acknowledged k (documents.get k)
        else documents.get k := by
  induction keys generalizing documents with
  | nil => exact ⟨documents, rfl, fun k => (if_neg List.not_mem_nil).symm⟩
  | cons key keys ih =>
    obtain ⟨hnot, hnodup⟩ := List.nodup_cons.mp hnodup
    obtain ⟨d, hd, hget⟩ := applyBatchResultTo_eq h (hkeys key List.mem_cons_self) documents
    obtain ⟨d', hd', hget'⟩ := ih (fun k hk => hkeys k (List.mem_cons_of_mem key hk)) hnodup d
    refine ⟨d', ?_, fun k => ?_⟩
    · rw [List.foldlM_cons, hd]
      exact hd'
    · rw [hget', hget]
      by_cases hk : k = key
      · subst hk
        simp [hnot]
      · simp [hk]

/-- An acknowledgement leaves the documents alone that the batch does not write to. -/
theorem acknowledged_of_notMem (h : batchResult.Answered) (hkey : key ∉ batchResult.batch.keys)
    (remoteDoc : Option MaybeDocument) : batchResult.acknowledged key remoteDoc = remoteDoc := by
  rw [acknowledged]
  cases hversion : batchResult.docVersions.get key with
  | none => rfl
  | some version => exact absurd ((mem_docVersions h).mp ⟨version, hversion⟩) hkey

end MutationBatchResult

/-- An acknowledged batch leaves the queue and enters the cached documents. -/
theorem LocalStore.Good.acknowledge_eq {s : LocalStore} (h : s.Good)
    {batchResult : MutationBatchResult} (hanswered : batchResult.Answered)
    (hbatch : s.db.mutations.get ⟨s.userId, batchResult.batch.batchID⟩ = some batchResult.batch) :
    ∃ remoteDocuments docs,
      let t : LocalStore := { s with
        db := { s.db.deleteBatch s.userId batchResult.batch with remoteDocuments } }
      s.acknowledgeBatchWithResult batchResult = some (t, docs) ∧
        t.getDocuments batchResult.batch.keySet = some docs ∧
        ∀ key, remoteDocuments.get key =
          batchResult.acknowledged key (s.db.remoteDocuments.get key) := by
  have hnodup : batchResult.batch.keySet.Nodup :=
    (Table.pairwise_keys _).imp fun hlt => hlt.ne
  obtain ⟨remoteDocuments, hfold, hget⟩ := MutationBatchResult.foldlM_applyBatchResultTo_eq
    hanswered (fun _ => MutationBatch.mem_keySet.mp) hnodup s.db.remoteDocuments
  have hgood := (h.withoutBatch hbatch).withDocuments remoteDocuments
  obtain ⟨docs, hdocs⟩ := hgood.getDocuments_isSome batchResult.batch.keySet
  refine ⟨remoteDocuments, docs, ?_, hdocs, fun key => ?_⟩
  · have hremove : LevelDb.removeMutationBatch { s.db with remoteDocuments } s.userId
        batchResult.batch = some ({ s.db.deleteBatch s.userId batchResult.batch with
          remoteDocuments }) :=
      LevelDb.removeMutationBatch_eq hbatch
    rw [acknowledgeBatchWithResult, applyBatchResult, hfold, Option.bind_some, hremove,
      Option.bind_some, hgood.valid.performConsistencyCheck s.userId, Option.bind_some]
    exact congrArg (Option.map _) hdocs
  · rw [hget]
    split
    · rfl
    · rename_i hkey
      exact (MutationBatchResult.acknowledged_of_notMem hanswered
        (fun hmem => hkey (MutationBatch.mem_keySet.mpr hmem)) _).symm

namespace LocalStore.Good
variable {s : LocalStore} (h : s.Good)
include h

/-! ## Documents from the backend, and other users -/

theorem applyRemoteEvent_eq (documentUpdates : MaybeDocumentMap)
    (authoritative : List DocumentKey) :
    let changedDocs := s.changedDocuments documentUpdates authoritative
    let t : LocalStore := { s with db := s.db.addDocuments changedDocs }
    ∃ docs, t.getLocalViewOfDocuments (changedDocs.map fun kv => (kv.1, some kv.2)) = some docs ∧
      s.applyRemoteEvent documentUpdates authoritative = some (t, docs) := by
  intro changedDocs t
  obtain ⟨docs, hdocs⟩ := (h.withDocuments _).getLocalViewOfDocuments_isSome
    (changedDocs.map fun kv => (kv.1, some kv.2))
  exact ⟨docs, hdocs, congrArg (Option.map _) hdocs⟩

theorem userDidChange_eq (userId : String) :
    ∃ docs, (start s.db userId).getDocuments ((s.db.allMutationBatches s.userId ++
        s.db.allMutationBatches userId).flatMap MutationBatch.keys) = some docs ∧
      s.userDidChange userId = some (start s.db userId, docs) := by
  obtain ⟨docs, hdocs⟩ := (start_good h.valid userId).getDocuments_isSome
    ((s.db.allMutationBatches s.userId ++ s.db.allMutationBatches userId).flatMap
      MutationBatch.keys)
  exact ⟨docs, hdocs, congrArg (Option.map _) hdocs⟩

end LocalStore.Good

end Musgravite.Firestore
