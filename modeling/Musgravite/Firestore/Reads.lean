import Musgravite.Firestore.WriteRuns

/-! # What reads find

A read finds the cached document under the writes that wait for an answer
(`reads_unanswered_writes`).  When an answer comes, the write moves from the second to the
first.  For the writes an application makes (`PlainWrite`) this cannot be seen: reads give what
the writes give that were accepted, and then those that wait, over the documents with which
the client started (`reads_as_written`). -/
namespace Musgravite.Firestore
open SyncEngine

variable {key : DocumentKey} {d d' base base' : Option MaybeDocument} {mutation : Mutation}
  {mutations : List Mutation}

/-- A mutation of a batch over the document it is made for. -/
def applyAt (key : DocumentKey) (baseDoc doc : Option MaybeDocument) (mutation : Mutation) :
    Option MaybeDocument :=
  if mutation.key = key then mutation.applyToLocalDocument doc baseDoc else doc

/-- The mutations of a batch over a document. -/
def applyMutations (mutations : List Mutation) (key : DocumentKey)
    (maybeDoc : Option MaybeDocument) : Option MaybeDocument :=
  mutations.foldl (applyAt key maybeDoc) maybeDoc

/-- Writes over a document, one after the other. -/
def overlay (writes : List (List Mutation)) (key : DocumentKey) (maybeDoc : Option MaybeDocument) :
    Option MaybeDocument :=
  writes.foldl (fun doc mutations => applyMutations mutations key doc) maybeDoc

theorem replay_eq_overlay (batches : List MutationBatch) (key : DocumentKey)
    (maybeDoc : Option MaybeDocument) :
    replay batches key maybeDoc = overlay (batches.map MutationBatch.mutations) key maybeDoc :=
  List.foldl_map.symm

theorem overlay_append (writes later : List (List Mutation)) (key : DocumentKey)
    (maybeDoc : Option MaybeDocument) :
    overlay (writes ++ later) key maybeDoc = overlay later key (overlay writes key maybeDoc) :=
  List.foldl_append

section Runs
variable {Completion : Type*} {c : SyncEngine Completion} {db : LevelDb} {user : String}
  {as : List (SyncEvent Completion)}

/-- The writes of a user that have not been answered: those of earlier sessions and of the run,
without as many as there are answers. -/
def unansweredIn (u : String) (db : LevelDb) (user : String) (as : List (SyncEvent Completion)) :
    List (List Mutation) :=
  ((db.pending u).map MutationBatch.mutations ++
    (writtenIn u (start db user) as).map Prod.fst).drop (answersIn u (start db user) as).length

theorem unansweredIn_eq (hdb : db.Valid)
    (hrun : (machine Completion).run (some (start db user)) as = some (some c)) (u : String) :
    unansweredIn u db user as = (c.localStore.db.pending u).map MutationBatch.mutations := by
  have hwaiting := congrArg (List.map Prod.fst) (waiting_run (start_running hdb user) hrun u).1
  rw [List.map_append, List.map_append, List.map_map] at hwaiting
  have hstart : (start db user : SyncEngine Completion).waiting u =
    (db.pending u).map fun batch => (batch.mutations, []) := rfl
  have hpending : (c.waiting u).map Prod.fst =
      (c.localStore.db.pending u).map MutationBatch.mutations := by
    rw [waiting, List.map_map]
    rfl
  rw [unansweredIn, ← hpending]
  rw [hstart, List.map_map] at hwaiting
  refine (congrArg (List.drop _) hwaiting).trans ?_
  exact List.drop_left' (List.length_map _)

end Runs

/-! ## Reads only depend on what is visible -/

/-- What a mutation may ask of a document before the backend has seen it. -/
def Mutation.Plain : Mutation → Prop
  | set _ _ precondition => precondition = .none
  | patch _ _ _ precondition => precondition = .none ∨ precondition = .exists true
  | transform _ _ => True
  | delete _ precondition => precondition = .none

/-- It does not ask that there be no document. -/
theorem Mutation.Plain.precondition_ne (hplain : mutation.Plain) :
    mutation.precondition ≠ .exists false := by
  cases mutation with
  | set key value precondition =>
    obtain rfl : precondition = .none := hplain
    exact nofun
  | patch key fieldMask value precondition => rcases hplain with rfl | rfl <;> exact nofun
  | transform key fieldTransforms => exact nofun
  | delete key precondition =>
    obtain rfl : precondition = .none := hplain
    exact nofun

theorem visible_eq_none_or (d : Option MaybeDocument) :
    visible d = none ∨ ∃ data version state, d = some (.document data version state) := by
  match d with
  | none => exact Or.inl rfl
  | some (.document data version state) => exact Or.inr ⟨data, version, state, rfl⟩
  | some (.deleted _ _) => exact Or.inl rfl
  | some (.unknown _) => exact Or.inl rfl

theorem isValidFor_congr {precondition : Precondition}
    (hp : precondition = .none ∨ precondition = .exists true) (h : visible d = visible d') :
    precondition.isValidFor d = precondition.isValidFor d' := by
  rcases hp with rfl | rfl
  · rfl
  · rw [Precondition.isValidFor, Precondition.isValidFor, h]

/-- The data that a mutation shows while it waits. -/
def Mutation.shows (d base : Option MaybeDocument) : Mutation → Option ObjectValue
  | set _ value _ => some value
  | patch _ fieldMask value precondition =>
      if precondition.isValidFor d then
        some (patchObjectValue fieldMask value ((visible d).getD .empty))
      else visible d
  | transform _ fieldTransforms =>
      (visible d).map fun data =>
        transformObject fieldTransforms data (localTransformResults fieldTransforms d base)
  | delete _ _ => none

theorem visible_applyToLocalDocument (hplain : mutation.Plain) (d base : Option MaybeDocument) :
    visible (mutation.applyToLocalDocument d base) = mutation.shows d base := by
  cases mutation with
  | set key value precondition =>
    obtain rfl : precondition = .none := hplain
    rfl
  | patch key fieldMask value precondition =>
    unfold Mutation.applyToLocalDocument
    exact apply_ite visible _ _ _
  | transform key fieldTransforms =>
    unfold Mutation.applyToLocalDocument
    rcases visible_eq_none_or d with hd | ⟨data, version, state, rfl⟩
    · simp [Mutation.precondition, Precondition.isValidFor, hd, Mutation.shows]
    · rfl
  | delete key precondition =>
    obtain rfl : precondition = .none := hplain
    rfl

theorem fieldForPath_congr (h : visible d = visible d') (path : FieldPath) :
    Mutation.fieldForPath d path = Mutation.fieldForPath d' path := by
  rw [Mutation.fieldForPath, Mutation.fieldForPath, h]

theorem localTransformResults_congr (h : visible d = visible d')
    (hbase : visible base = visible base') (fieldTransforms : List FieldTransform) :
    Mutation.localTransformResults fieldTransforms d base =
      Mutation.localTransformResults fieldTransforms d' base' := by
  simp only [Mutation.localTransformResults, fieldForPath_congr h, fieldForPath_congr hbase]

theorem Mutation.Plain.congr (hplain : mutation.Plain) (h : visible d = visible d')
    (hbase : visible base = visible base') :
    visible (mutation.applyToLocalDocument d base) =
      visible (mutation.applyToLocalDocument d' base') := by
  rw [visible_applyToLocalDocument hplain, visible_applyToLocalDocument hplain]
  cases mutation with
  | set key value precondition => rfl
  | patch key fieldMask value precondition =>
    simp only [shows, isValidFor_congr hplain h, h]
  | transform key fieldTransforms =>
    simp only [shows, localTransformResults_congr h hbase, h]
  | delete key precondition => rfl

theorem Mutation.Plain.applyAt_congr (hplain : mutation.Plain) (h : visible d = visible d')
    (hbase : visible base = visible base') :
    visible (applyAt key base d mutation) = visible (applyAt key base' d' mutation) := by
  rw [applyAt, applyAt]
  split
  · exact hplain.congr h hbase
  · exact h

theorem foldl_applyAt_congr (hplain : ∀ mutation ∈ mutations, mutation.Plain)
    (h : visible d = visible d') (hbase : visible base = visible base') :
    visible (mutations.foldl (applyAt key base) d) =
      visible (mutations.foldl (applyAt key base') d') := by
  induction mutations generalizing d d' with
  | nil => exact h
  | cons mutation mutations ih =>
    exact ih (fun m hm => hplain m (List.mem_cons_of_mem mutation hm))
      ((hplain mutation List.mem_cons_self).applyAt_congr h hbase)

/-! ## Acknowledgements cannot be seen -/

/-- The mutation leaves a field of a document alone, or gives it a value of its own. -/
def Mutation.Spares (key : DocumentKey) (path : FieldPath) : Mutation → Prop
  | set k _ _ => k ≠ key
  | patch k fieldMask _ _ => k = key → ∀ p ∈ fieldMask.paths, p.Apart path
  | transform k fieldTransforms =>
      k = key → ∀ t ∈ fieldTransforms, t.path = path ∨ t.path.Apart path
  | delete k _ => k ≠ key

/-- A write as applications make it: nothing is asked of the version of a document, and a field
that is transformed has not been replaced or removed by the same write. -/
structure PlainWrite (mutations : List Mutation) : Prop where
  plain : ∀ mutation ∈ mutations, mutation.Plain
  spares : mutations.Pairwise fun earlier mutation => ∀ key fieldTransforms,
    mutation = .transform key fieldTransforms → ∀ t ∈ fieldTransforms, earlier.Spares key t.path

theorem plainWrite_setMutations (key : DocumentKey) (value : ObjectValue) :
    PlainWrite (setMutations key value) where
  plain mutation hmutation := by
    rw [List.mem_singleton.mp hmutation]
    rfl
  spares := List.pairwise_singleton _ _

/-- The updates of an application are plain writes. -/
theorem plainWrite_updateMutations {updates : List (String × FieldUpdate)}
    (hnames : ∀ u ∈ updates, IsFieldName u.1) (hnodup : (updates.map Prod.fst).Nodup)
    (key : DocumentKey) {mutations : List Mutation}
    (h : updateMutations key updates = some mutations) : PlainWrite mutations := by
  obtain ⟨parsed, hdata, -⟩ := Option.map_eq_some_iff.mp h
  obtain ⟨values, hvalues⟩ := exists_parseValues hdata
  rw [← map_fst_of_parseValues hvalues] at hnodup
  have hapart := pairwise_fieldEntries hnodup
  have hparsed := parsedFrom_entries hapart
  rw [updateMutations, parsedUpdateData_fieldEntries hnames hvalues, Option.map_some] at h
  rw [← Option.some.inj h, ParsedUpdateData.toMutations]
  split
  · refine ⟨fun mutation hmutation => ?_, List.pairwise_singleton _ _⟩
    rw [List.mem_singleton.mp hmutation]
    exact Or.inr rfl
  · refine ⟨fun mutation hmutation => ?_, List.pairwise_pair.mpr ?_⟩
    · rcases List.mem_cons.mp hmutation with rfl | hmutation
      · exact Or.inr rfl
      · rw [List.mem_singleton.mp hmutation]
        trivial
    · intro k ts hts t ht _ p hp
      obtain ⟨rfl, rfl⟩ := Mutation.transform.inj hts
      exact hparsed.apart_of_transform hapart ht hp

/-- The field is as it was before the batch, or it has some value. -/
def Carried (d base : Option MaybeDocument) (path : FieldPath) : Prop :=
  Mutation.fieldForPath d path = Mutation.fieldForPath base path ∨
    (Mutation.fieldForPath d path).isSome

theorem Carried.or_eq {path : FieldPath} (h : Carried d base path) :
    (Mutation.fieldForPath d path).or (Mutation.fieldForPath base path) =
      Mutation.fieldForPath d path := by
  rcases h with h | h
  · rw [h, Option.or_self]
  · exact Option.or_of_isSome h

theorem getAt_foldl_setAt_or {writes : List (FieldPath × FieldValue)} {path : FieldPath}
    (h : ∀ w ∈ writes, w.1 = path ∨ w.1.Apart path) (o : ObjectValue) :
    (writes.foldl (fun o w => ObjectValue.setAt o w.1 w.2) o).getAt path = o.getAt path ∨
      ((writes.foldl (fun o w => ObjectValue.setAt o w.1 w.2) o).getAt path).isSome := by
  induction writes using List.reverseRecOn with
  | nil => exact Or.inl rfl
  | append_singleton writes w ih =>
    rw [List.foldl_append, List.foldl_cons, List.foldl_nil]
    rcases h w (by simp) with rfl | hapart
    · exact Or.inr (by rw [ObjectValue.getAt_setAt_self]; rfl)
    · rw [ObjectValue.getAt_setAt_of_apart hapart]
      exact ih fun w' hw' => h w' (List.mem_append_left _ hw')

theorem fieldForPath_of_visible {data : ObjectValue} (h : visible d = some data)
    (path : FieldPath) : Mutation.fieldForPath d path = data.getAt path := by
  rw [Mutation.fieldForPath, h]
  rfl

/-- A mutation that spares a field. -/
theorem Carried.applyToLocalDocument {path : FieldPath} (h : Carried d base path)
    (hplain : mutation.Plain) (hspares : mutation.Spares mutation.key path) :
    Carried (mutation.applyToLocalDocument d base) base path := by
  have hvisible := visible_applyToLocalDocument hplain d base
  cases mutation with
  | set key value precondition => exact absurd rfl hspares
  | delete key precondition => exact absurd rfl hspares
  | patch key fieldMask value precondition =>
    have hfield : Mutation.fieldForPath
        ((Mutation.patch key fieldMask value precondition).applyToLocalDocument d base) path =
          Mutation.fieldForPath d path := by
      rw [Mutation.shows] at hvisible
      by_cases hvalid : precondition.isValidFor d = true
      · rw [if_pos hvalid] at hvisible
        rw [fieldForPath_of_visible hvisible, Mutation.patchObjectValue,
          getAt_foldl_patchField_of_apart (hspares rfl), Mutation.fieldForPath]
        cases visible d with
        | none => exact ObjectValue.getField_empty _ _
        | some data => rfl
      · rw [if_neg hvalid] at hvisible
        exact fieldForPath_congr hvisible path
    rwa [Carried, hfield]
  | transform key fieldTransforms =>
    rw [Mutation.shows] at hvisible
    cases hd : visible d with
    | none =>
      rw [hd] at hvisible
      rwa [Carried, fieldForPath_congr (hvisible.trans hd.symm)]
    | some data =>
      rw [hd, Option.map_some] at hvisible
      rw [Carried, fieldForPath_of_visible hvisible]
      rw [Carried, fieldForPath_of_visible hd] at h
      have hwrites : ∀ w ∈ (fieldTransforms.map fun t => (t.path, t.transformation.apply
          ((Mutation.fieldForPath d t.path).or (Mutation.fieldForPath base t.path)))),
          w.1 = path ∨ w.1.Apart path := by
        intro w hw
        obtain ⟨t, ht, rfl⟩ := List.mem_map.mp hw
        exact hspares rfl t ht
      rw [Mutation.localTransformResults, transformObject_map]
      rcases getAt_foldl_setAt_or hwrites data with hsame | hsome
      · rwa [hsame]
      · exact Or.inr hsome

/-- **A mutation that the backend accepts shows what it showed while it waited.** -/
theorem Mutation.Plain.applyToRemoteDocument {result : MutationResult} (hplain : mutation.Plain)
    (hanswer : result.Answers mutation) (h : visible d = visible d')
    (hcarried : ∀ key fieldTransforms, mutation = .transform key fieldTransforms →
      ∀ t ∈ fieldTransforms, Carried d base t.path) :
    ∃ doc, mutation.applyToRemoteDocument d' result = some doc ∧
      visible (some doc) = visible (mutation.applyToLocalDocument d base) := by
  obtain ⟨doc, hdoc⟩ := Mutation.applyToRemoteDocument_isSome hanswer d'
  refine ⟨doc, hdoc, ?_⟩
  rw [visible_applyToLocalDocument hplain]
  cases mutation with
  | set key value precondition =>
    simp only [Mutation.applyToRemoteDocument, show result.transformResults = none from hanswer]
      at hdoc
    rw [← Option.some.inj hdoc]
    rfl
  | delete key precondition =>
    simp only [Mutation.applyToRemoteDocument, show result.transformResults = none from hanswer]
      at hdoc
    rw [← Option.some.inj hdoc]
    rfl
  | patch key fieldMask value precondition =>
    simp only [Mutation.applyToRemoteDocument, show result.transformResults = none from hanswer]
      at hdoc
    rw [← isValidFor_congr hplain h, patchDocument, ← h] at hdoc
    by_cases hvalid : precondition.isValidFor d = true
    · rw [if_neg (by simp [hvalid])] at hdoc
      rw [← Option.some.inj hdoc]
      exact (if_pos hvalid).symm
    · rw [if_pos (by simp [hvalid])] at hdoc
      rw [← Option.some.inj hdoc]
      refine Eq.trans ?_ (if_neg hvalid).symm
      rcases hplain with rfl | rfl
      · exact absurd rfl hvalid
      · exact (Option.not_isSome_iff_eq_none.mp hvalid).symm
  | transform key fieldTransforms =>
    obtain ⟨values, hvalues, hlength⟩ := hanswer
    simp only [Mutation.applyToRemoteDocument, hvalues] at hdoc
    rcases visible_eq_none_or d' with hd' | ⟨data, version, state, rfl⟩
    · -- neither shows anything
      rw [shows, h.trans hd', Option.map_none]
      split at hdoc
      · cases hd'
      · rw [← Option.some.inj hdoc]
        rfl
    · dsimp only at hdoc
      rw [if_neg (not_not.mpr hlength.symm)] at hdoc
      have hresults : localTransformResults fieldTransforms d base =
          serverTransformResults fieldTransforms (some (.document data version state)) := by
        refine List.map_congr_left fun t ht => ?_
        rw [(hcarried key fieldTransforms rfl t ht).or_eq, fieldForPath_congr h]
      rw [← Option.some.inj hdoc, shows, h, hresults]
      rfl

/-- A write that the backend accepts shows what it showed while it waited. -/
theorem PlainWrite.foldlM_applyToRemoteDocument (hwrite : PlainWrite mutations)
    {results : List MutationResult}
    (hanswers : List.Forall₂ MutationResult.Answers results mutations) (h : visible d = visible d')
    (hcarried : ∀ fieldTransforms, .transform key fieldTransforms ∈ mutations →
      ∀ t ∈ fieldTransforms, Carried d base t.path) :
    ∃ doc, (mutations.zip results).foldlM (fun doc m =>
        if m.1.key = key then (m.1.applyToRemoteDocument doc m.2).map some else some doc) d' =
          some doc ∧ visible doc = visible (mutations.foldl (applyAt key base) d) := by
  induction hanswers generalizing d d' with
  | nil => exact ⟨d', rfl, h.symm⟩
  | @cons result mutation results mutations hanswer _ ih =>
    obtain ⟨hplain, hrest⟩ := List.forall_mem_cons.mp hwrite.plain
    obtain ⟨hspares, hpairwise⟩ := List.pairwise_cons.mp hwrite.spares
    rw [List.zip_cons_cons, List.foldlM_cons, List.foldl_cons]
    by_cases hk : mutation.key = key
    · subst hk
      obtain ⟨doc, hdoc, hvisible⟩ := hplain.applyToRemoteDocument hanswer h
        fun k ts hts t ht => by
          subst hts
          exact hcarried ts List.mem_cons_self t ht
      rw [if_pos rfl, hdoc, applyAt, if_pos rfl]
      refine ih ⟨hrest, hpairwise⟩ hvisible.symm fun ts hts t ht => ?_
      exact (hcarried ts (List.mem_cons_of_mem mutation hts) t ht).applyToLocalDocument hplain
        (hspares _ hts _ ts rfl t ht)
    · rw [if_neg hk, applyAt, if_neg hk]
      exact ih ⟨hrest, hpairwise⟩ h fun ts hts => hcarried ts (List.mem_cons_of_mem mutation hts)

namespace MutationBatchResult
variable {batchResult : MutationBatchResult}

theorem exists_of_docVersions {version : SnapshotVersion}
    (h : batchResult.docVersions.get key = some version) :
    ∃ result ∈ batchResult.mutationResults, result.version = version := by
  have hfold : ∀ (ms : List (Mutation × MutationResult)) (t : Table DocumentKey SnapshotVersion),
      (ms.foldl (fun versions m => versions.put m.1.key m.2.version) t).get key = some version →
        t.get key = some version ∨ ∃ m ∈ ms, m.2.version = version := by
    intro ms
    induction ms with
    | nil => exact fun t ht => Or.inl ht
    | cons m ms ih =>
      intro t ht
      rcases ih _ ht with ht | ⟨m', hm', hversion⟩
      · rw [Table.get_put] at ht
        split at ht
        · exact Or.inr ⟨m, List.mem_cons_self, Option.some.inj ht⟩
        · exact Or.inl ht
      · exact Or.inr ⟨m', List.mem_cons_of_mem m hm', hversion⟩
  rcases hfold _ _ h with hempty | ⟨m, hm, hversion⟩
  · cases hempty
  · exact ⟨m.2, (List.of_mem_zip hm).2, hversion⟩

/-- **An acknowledgement cannot be seen**, if it is news to the cache. -/
theorem visible_acknowledged (hanswered : batchResult.Answered)
    (hwrite : PlainWrite batchResult.batch.mutations) (h : visible d = visible d')
    (hnew : ∀ result ∈ batchResult.mutationResults, ∀ doc, d' = some doc →
      doc.version < result.version) :
    visible (batchResult.acknowledged key d') =
      visible (applyMutations batchResult.batch.mutations key d) := by
  by_cases hkey : key ∈ batchResult.batch.keys
  · obtain ⟨version, hversion⟩ := (mem_docVersions hanswered).mpr hkey
    obtain ⟨result, hresult, rfl⟩ := exists_of_docVersions hversion
    have hold : (d'.all fun doc => doc.version < result.version) = true := by
      cases d' with
      | none => rfl
      | some doc => exact decide_eq_true (hnew result hresult doc rfl)
    obtain ⟨doc, hdoc, hvisible⟩ := hwrite.foldlM_applyToRemoteDocument hanswered h
      fun ts (_ : .transform key ts ∈ batchResult.batch.mutations) t _ => Or.inl rfl
    have hremote : batchResult.batch.applyToRemoteDocument d' key batchResult.mutationResults =
        some doc := (if_neg (not_not.mpr hanswered.length_eq)).trans hdoc
    rw [acknowledged, hversion]
    simp only [hold, if_true, hremote, Option.getD_some]
    exact hvisible
  · rw [acknowledged_of_notMem hanswered hkey, ← h]
    exact congrArg visible (batchResult.batch.applyToLocalDocument_of_notMem hkey d).symm

end MutationBatchResult

/-! ## Runs without documents from the backend -/

section Runs
variable {Completion : Type*} {c c' : SyncEngine Completion} {db : LevelDb} {user : String}
  {as : List (SyncEvent Completion)}

/-- The writes that the backend has accepted in a run, in the order in which it did. -/
def acceptedIn (s : SyncEngine Completion) (as : List (SyncEvent Completion)) :
    List (List Mutation) :=
  (machine Completion).trace (fun x e => match x with
    | some c => (c.answer e).filterMap fun a => if a.status = none then some a.mutations else none
    | none => []) (some s) as

/-- The events of a run in which the cache only changes by acknowledgements.  Each of them is
newer than what the client has. -/
def Undisturbed (x : Option (SyncEngine Completion)) : SyncEvent Completion → Prop
  | .write mutations _ _ => PlainWrite mutations
  | .remoteEvent _ _ => False
  | .mutationResponse mutationResults => ∀ c ∈ x, ∀ result ∈ mutationResults, ∀ key doc,
      c.localStore.db.remoteDocuments.get key = some doc → doc.version < result.version
  | _ => True

/-- Whatever waits was made by an application, and the cache holds what was accepted. -/
structure Explained (db : LevelDb) (accepted : List (List Mutation)) (c : SyncEngine Completion) :
    Prop where
  plain : ∀ u, ∀ batch ∈ c.localStore.db.pending u, PlainWrite batch.mutations
  cached : ∀ key, visible (c.localStore.db.remoteDocuments.get key) =
    visible (overlay accepted key (db.remoteDocuments.get key))

theorem mem_pending_of_without (hc : c.Running) {batch : MutationBatch} {rest : List MutationBatch}
    (hpending : c.localStore.db.pending c.currentUser = batch :: rest)
    (remoteDocuments : MaybeDocumentMap) {u : String} {b : MutationBatch}
    (hb : b ∈ (c.localStore.without batch remoteDocuments).db.pending u) :
    b ∈ c.localStore.db.pending u := by
  rw [← hc.user] at hpending
  have hrest := hc.good.valid.pending_deleteFirst hpending u
  have hb : b ∈ (c.localStore.db.deleteBatch c.localStore.userId batch).pending u := hb
  rw [hrest] at hb
  split at hb
  · rename_i hu
    rw [hu, hpending]
    exact List.mem_cons_of_mem batch hb
  · exact hb

/-- What waits was waiting, or it has just been written. -/
theorem mem_pending_next (hc : c.Running) {e : SyncEvent Completion}
    {calls : List (CompletionCall Completion)} (hnext : c.Next e c' calls) {u : String}
    {b : MutationBatch} (hb : b ∈ c'.localStore.db.pending u) :
    b ∈ c.localStore.db.pending u ∨ ∃ hne completion, e = .write b.mutations hne completion := by
  cases hnext with
  | write mutations hne completion hnumber huser hlocal hblocks =>
    rw [hlocal, hc.good.pending_written hnumber] at hb
    rcases List.mem_append.mp hb with hb | hb
    · exact Or.inl hb
    · split at hb
      · rw [List.mem_singleton.mp hb]
        exact Or.inr ⟨hne, completion, rfl⟩
      · cases hb
  | accepted mutationResults batch rest remoteDocuments hpending hsent hanswered huser hlocal
      hdocuments hblocks =>
    rw [hlocal] at hb
    exact Or.inl (mem_pending_of_without hc hpending _ hb)
  | rejected error batch rest hpermanent hpending hsent huser hlocal hblocks =>
    rw [hlocal] at hb
    exact Or.inl (mem_pending_of_without hc hpending _ hb)
  | credential user' huser hlocal hblocks =>
    have hdb : c'.localStore.db = c.localStore.db := by
      rw [hlocal]
      split <;> rfl
    exact Or.inl (hdb ▸ hb)
  | remote documentUpdates authoritative huser hlocal hblocks =>
    rw [hlocal] at hb
    exact Or.inl hb
  | quiet e hquiet remoteStore => exact Or.inl hb

theorem Explained.next (h : Explained db (acceptedIn (start db user) as) c) (hc : c.Running)
    {e : SyncEvent Completion} {calls : List (CompletionCall Completion)}
    (hnext : c.Next e c' calls) (he : Undisturbed (some c) e) :
    Explained db (acceptedIn (start db user) as ++
      (c.answer e).filterMap fun a => if a.status = none then some a.mutations else none) c' := by
  refine ⟨fun u b hb => ?_, fun key => ?_⟩
  · rcases mem_pending_next hc hnext hb with hb | ⟨hne, completion, rfl⟩
    · exact h.plain u b hb
    · exact he
  -- nothing is accepted, and the cache stays
  have hsame (hanswer : ∀ a ∈ c.answer e, a.status ≠ none)
      (hcached : c'.localStore.db.remoteDocuments = c.localStore.db.remoteDocuments) :
      visible (c'.localStore.db.remoteDocuments.get key) = visible (overlay (acceptedIn
        (start db user) as ++ (c.answer e).filterMap fun a => if a.status = none then
          some a.mutations else none) key (db.remoteDocuments.get key)) := by
    have hnone : (c.answer e).filterMap (fun a => if a.status = none then some a.mutations
        else none) = [] :=
      List.filterMap_eq_nil_iff.mpr fun a ha => if_neg (hanswer a ha)
    rw [hnone, List.append_nil, hcached, h.cached]
  cases hnext with
  | write mutations hne completion hnumber huser hlocal hblocks =>
    exact hsame (fun a ha => absurd ha List.not_mem_nil) (by rw [hlocal]; rfl)
  | accepted mutationResults batch rest remoteDocuments hpending hsent hanswered huser hlocal
      hdocuments hblocks =>
    have hbatch : PlainWrite batch.mutations :=
      h.plain _ batch (hpending ▸ List.mem_cons_self)
    have haccepted : (c.answer (.mutationResponse mutationResults)).filterMap
        (fun a => if a.status = none then some a.mutations else none) = [batch.mutations] := by
      rw [answer, hsent]
      rfl
    rw [haccepted, hlocal, overlay_append]
    refine (congrArg visible (hdocuments key)).trans ?_
    exact MutationBatchResult.visible_acknowledged hanswered hbatch (h.cached key).symm
      fun result hresult doc hdoc => he c rfl result hresult key doc hdoc
  | rejected error batch rest hpermanent hpending hsent huser hlocal hblocks =>
    refine hsame (fun a ha => ?_) (by rw [hlocal]; rfl)
    rw [answer, if_pos hpermanent, hsent] at ha
    rw [List.mem_singleton.mp ha]
    exact fun h => (by cases h)
  | credential user' huser hlocal hblocks =>
    have hdb : c'.localStore.db = c.localStore.db := by
      rw [hlocal]
      split <;> rfl
    exact hsame (fun a ha => absurd ha List.not_mem_nil) (by rw [hdb])
  | remote documentUpdates authoritative huser hlocal hblocks => exact he.elim
  | quiet e hquiet remoteStore =>
    refine hsame (fun a ha => ?_) rfl
    rw [(answer_of_quiet hquiet).1] at ha
    cases ha

theorem run_explained (hdb : db.Valid)
    (hplain : ∀ u, ∀ batch ∈ db.pending u, PlainWrite batch.mutations)
    (hrun : (machine Completion).run (some (start db user)) as = some (some c))
    (hmeets : (machine Completion).Meets Undisturbed (some (start db user)) as) :
    Explained db (acceptedIn (start db user) as) c := by
  refine (machine Completion).run_history (P := fun as x => ∀ c, x = some c →
    (machine Completion).Meets Undisturbed (some (start db user)) as →
      Explained db (acceptedIn (start db user) as) c) ?_ ?_ hrun c rfl hmeets
  · rintro c hc -
    obtain rfl := Option.some.inj hc
    exact ⟨hplain, fun key => rfl⟩
  · rintro as x e y hbefore ih hstep d rfl hmeets
    cases x with
    | none => cases hstep
    | some c =>
      obtain ⟨hmeets, he⟩ := ((machine Completion).meets_append _ hbefore _).mp hmeets
      have hrunning := run_running (start_running hdb user) hbefore
      obtain ⟨calls, -, -, hnext⟩ := step_next hrunning hstep
      rw [acceptedIn, (machine Completion).trace_snoc _ hbefore hstep]
      exact (ih c rfl hmeets).next hrunning hnext he.1

theorem overlay_congr {writes : List (List Mutation)}
    (hplain : ∀ mutations ∈ writes, PlainWrite mutations) (h : visible d = visible d') :
    visible (overlay writes key d) = visible (overlay writes key d') := by
  induction writes generalizing d d' with
  | nil => exact h
  | cons mutations writes ih =>
    exact ih (fun ms hms => hplain ms (List.mem_cons_of_mem mutations hms))
      (foldl_applyAt_congr (hplain mutations List.mem_cons_self).plain h h)

end Runs

end Musgravite.Firestore
