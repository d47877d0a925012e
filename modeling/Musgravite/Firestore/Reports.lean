import Musgravite.Firestore.Queries

/-! # What the local store reports

Every operation of the local store answers with documents, and what the queries learn of it is
no more than that.  The documents it names are those that reads find from then on, and where it
names none a read finds what it found before (`LocalStore.Reports`).

A local write is the exception.  It applies its batch once for each of its mutations, so what it
says of a document with a patch and a transform has the transform in it twice.
`update_reported_iff` says when this makes a difference. -/
namespace Musgravite.Firestore
open FieldValue (elements)

variable {s t : LocalStore} {key : DocumentKey} {d d' base base' : Option MaybeDocument}
  {batch : MutationBatch} {mutations : List Mutation} {docs : MaybeDocumentMap}

/-- Whoever knew what reads found, and hears of these documents, knows what they find now. -/
structure LocalStore.Reports (s t : LocalStore) (docs : MaybeDocumentMap) : Prop where
  told : ∀ key doc, docs.get key = some doc → asDocument (some doc) = asDocument (t.view key)
  kept : ∀ key, docs.get key = none → t.view key = s.view key

theorem LocalStore.Reports.empty (h : t.view = s.view) : s.Reports t .empty where
  told _ _ hdoc := by cases hdoc
  kept key _ := congrFun h key

/-- A document that is not there is reported as deleted. -/
theorem asDocument_getD (d : Option MaybeDocument) :
    asDocument (some (d.getD (.deleted 0 false))) = asDocument d := by
  cases d <;> rfl

namespace LocalStore

/-- The documents that are looked up are what reads find. -/
theorem Good.getDocuments_get (h : s.Good) {keys : List DocumentKey}
    (hdocs : s.getDocuments keys = some docs) (key : DocumentKey) :
    (key ∈ keys → docs.get key = some ((s.view key).getD (.deleted 0 false))) ∧
      (key ∉ keys → docs.get key = none) := by
  have hkeys : (keys.map fun key => (key, s.db.remoteDocuments.get key)).map Prod.fst = keys := by
    rw [List.map_map]
    exact List.map_id keys
  rw [getDocuments, getLocalViewOfDocuments, hkeys, h.valid.affectingKeys_eq, Option.map_some,
    List.foldl_map] at hdocs
  obtain ⟨hmem, hnot⟩ := Table.get_foldl_put_keys (fun key =>
    (replay ((s.db.pending s.userId).filter fun b => b.keys.any (· ∈ keys)) key
      (s.db.remoteDocuments.get key)).getD (.deleted 0 false)) keys .empty key
  rw [← Option.some.inj hdocs]
  refine ⟨fun hkey => (hmem hkey).trans ?_, hnot⟩
  rw [replay_filter, view]
  intro b _ hb hbkey
  exact absurd (decide_eq_true hkey) (List.any_eq_false.mp hb key hbkey)

theorem reports_of_getDocuments (ht : t.Good) {keys : List DocumentKey}
    (hdocs : t.getDocuments keys = some docs)
    (hkept : ∀ key ∉ keys, t.view key = s.view key) : s.Reports t docs where
  told key doc hdoc := by
    obtain ⟨hmem, hnot⟩ := ht.getDocuments_get hdocs key
    by_cases hkey : key ∈ keys
    · rw [← hdoc, hmem hkey, asDocument_getD]
    · cases hdoc.symm.trans (hnot hkey)
  kept key hdoc := by
    refine hkept key fun hkey => ?_
    cases hdoc.symm.trans ((ht.getDocuments_get hdocs key).1 hkey)

theorem replay_of_notMem {batches : List MutationBatch} (h : ∀ b ∈ batches, key ∉ b.keys)
    (maybeDoc : Option MaybeDocument) : replay batches key maybeDoc = maybeDoc := by
  rw [← replay_filter (p := fun _ => false) fun b hb _ => h b hb, List.filter_false]
  rfl

/-! ## The answers of the backend -/

/-- When a batch has left the queue, only the documents it writes to are read differently. -/
theorem Good.view_without (h : s.Good) {rest : List MutationBatch}
    (hpending : s.db.pending s.userId = batch :: rest) {remoteDocuments : MaybeDocumentMap}
    (hkey : key ∉ batch.keys)
    (hdocument : remoteDocuments.get key = s.db.remoteDocuments.get key) :
    (s.without batch remoteDocuments).view key = s.view key := by
  have hrest : (s.without batch remoteDocuments).db.pending s.userId = rest :=
    (h.valid.pending_deleteFirst hpending s.userId).trans (if_pos rfl)
  calc (s.without batch remoteDocuments).view key
    _ = replay rest key (s.db.remoteDocuments.get key) := by
        rw [view, ← hdocument, ← hrest]
        rfl
    _ = s.view key := by
        rw [view, hpending, replay, replay, List.foldl_cons,
          batch.applyToLocalDocument_of_notMem hkey]

theorem Good.reject_reports (h : s.Good) {rest : List MutationBatch}
    (hpending : s.db.pending s.userId = batch :: rest) :
    ∃ docs, s.rejectBatchID batch.batchID =
        some (s.without batch s.db.remoteDocuments, docs) ∧
      s.Reports (s.without batch s.db.remoteDocuments) docs := by
  have hbatch := h.valid.mem_pending_iff.mp (hpending ▸ List.mem_cons_self)
  obtain ⟨docs, hdocs, hreject⟩ := h.rejectBatchID_eq hbatch
  refine ⟨docs, hreject, reports_of_getDocuments (h.withoutBatch hbatch) hdocs fun key hkey => ?_⟩
  exact h.view_without hpending (fun hmem => hkey (MutationBatch.mem_keySet.mpr hmem)) rfl

theorem Good.acknowledge_reports (h : s.Good) {batchResult : MutationBatchResult}
    (hanswered : batchResult.Answered) {rest : List MutationBatch}
    (hpending : s.db.pending s.userId = batchResult.batch :: rest) :
    ∃ remoteDocuments docs,
      s.acknowledgeBatchWithResult batchResult =
          some (s.without batchResult.batch remoteDocuments, docs) ∧
        (∀ key, remoteDocuments.get key =
          batchResult.acknowledged key (s.db.remoteDocuments.get key)) ∧
        s.Reports (s.without batchResult.batch remoteDocuments) docs := by
  have hbatch := h.valid.mem_pending_iff.mp (hpending ▸ List.mem_cons_self)
  obtain ⟨remoteDocuments, docs, hacknowledge, hdocs, hget⟩ := h.acknowledge_eq hanswered hbatch
  refine ⟨remoteDocuments, docs, hacknowledge, hget, reports_of_getDocuments
    ((h.withoutBatch hbatch).withDocuments remoteDocuments) hdocs fun key hkey => ?_⟩
  have hnot : key ∉ batchResult.batch.keys := fun hmem => hkey (MutationBatch.mem_keySet.mpr hmem)
  exact h.view_without hpending hnot
    ((hget key).trans (MutationBatchResult.acknowledged_of_notMem hanswered hnot _))

/-! ## Documents from the backend, and other users -/

theorem Good.applyRemoteEvent_reports (h : s.Good) (documentUpdates : MaybeDocumentMap)
    (authoritative : List DocumentKey) :
    ∃ docs, s.applyRemoteEvent documentUpdates authoritative = some ({ s with
        db := s.db.addDocuments (s.changedDocuments documentUpdates authoritative) }, docs) ∧
      s.Reports { s with
        db := s.db.addDocuments (s.changedDocuments documentUpdates authoritative) } docs := by
  obtain ⟨docs, hdocs, hevent⟩ := h.applyRemoteEvent_eq documentUpdates authoritative
  refine ⟨docs, hevent, ?_⟩
  have hsorted : (s.changedDocuments documentUpdates authoritative).Pairwise
      fun row row' => row.1 < row'.1 := documentUpdates.sorted.filter _
  generalize s.changedDocuments documentUpdates authoritative = changedDocs at *
  have hget := Table.get_foldl_put hsorted s.db.remoteDocuments
  -- the documents of the event are the cached ones now
  have hcached : ∀ kv ∈ changedDocs,
      (s.db.addDocuments changedDocs).remoteDocuments.get kv.1 = some kv.2 :=
    fun kv hkv => (hget kv.1 kv.2).mpr (Or.inl hkv)
  have hbase : (changedDocs.map fun kv => (kv.1, some kv.2)) = (changedDocs.map Prod.fst).map
      fun key => (key, (s.db.addDocuments changedDocs).remoteDocuments.get key) := by
    rw [List.map_map]
    exact List.map_congr_left fun kv hkv => Prod.ext rfl (hcached kv hkv).symm
  rw [hbase] at hdocs
  refine reports_of_getDocuments (h.withDocuments _) hdocs fun key hkey => ?_
  have hsame : (s.db.addDocuments changedDocs).remoteDocuments.get key =
      s.db.remoteDocuments.get key := by
    refine Option.ext fun doc =>
      (hget key doc).trans ⟨fun hdoc => ?_, fun hdoc => Or.inr ⟨?_, hdoc⟩⟩
    · exact (hdoc.resolve_left fun hmem => hkey (List.mem_map_of_mem hmem)).2
    · rintro row hrow rfl
      exact hkey (List.mem_map_of_mem hrow)
  rw [view, view, hsame]
  rfl

theorem Good.userDidChange_reports (h : s.Good) (userId : String) :
    ∃ docs, s.userDidChange userId = some (start s.db userId, docs) ∧
      s.Reports (start s.db userId) docs := by
  obtain ⟨docs, hdocs, hchange⟩ := h.userDidChange_eq userId
  refine ⟨docs, hchange, reports_of_getDocuments (start_good h.valid userId) hdocs
    fun key hkey => ?_⟩
  rw [LevelDb.allMutationBatches_eq, LevelDb.allMutationBatches_eq] at hkey
  have hnot : ∀ b ∈ s.db.pending s.userId ++ s.db.pending userId, key ∉ b.keys :=
    fun b hb hmem => hkey (List.mem_flatMap.mpr ⟨b, hb, hmem⟩)
  exact (replay_of_notMem (fun b hb => hnot b (List.mem_append_right _ hb)) _).trans
    (replay_of_notMem (fun b hb => hnot b (List.mem_append_left _ hb)) _).symm

end LocalStore

/-! ## Local writes -/

theorem Mutation.applyToLocalDocument_isSome (mutation : Mutation) (h : d.isSome = true) :
    (mutation.applyToLocalDocument d base).isSome = true := by
  unfold applyToLocalDocument
  split
  · cases mutation with
    | set _ _ _ => rfl
    | patch _ _ _ _ => rfl
    | delete _ _ => rfl
    | transform _ _ =>
      dsimp only
      split
      · rfl
      · exact h
  · exact h

theorem applyMutations_isSome (h : d.isSome = true) :
    (applyMutations mutations key d).isSome = true := by
  refine List.foldlRecOn mutations _ (motive := fun doc : Option MaybeDocument => doc.isSome = true)
    h ?_
  intro doc hdoc mutation _
  rw [applyAt]
  split
  · exact mutation.applyToLocalDocument_isSome hdoc
  · exact hdoc

/-- **A local write applies its batch to a document once for each mutation of it.** -/
theorem MutationBatch.get_applyToLocalDocumentSet (batch : MutationBatch) (docs : MaybeDocumentMap)
    (key : DocumentKey) :
    (batch.applyToLocalDocumentSet docs).get key =
      (applyMutations batch.mutations key)^[batch.keys.count key] (docs.get key) := by
  have hfold : ∀ step : MaybeDocumentMap → Mutation → MaybeDocumentMap,
      (∀ docs mutation, (step docs mutation).get key = if mutation.key = key then
        applyMutations batch.mutations key (docs.get key) else docs.get key) →
      ∀ (mutations : List Mutation) docs, (mutations.foldl step docs).get key =
        (applyMutations batch.mutations key)^[(mutations.map Mutation.key).count key]
          (docs.get key) := by
    intro step hstep mutations
    induction mutations with
    | nil => exact fun docs => rfl
    | cons mutation mutations ih =>
      intro docs
      rw [List.foldl_cons, ih, hstep, List.map_cons]
      by_cases hk : mutation.key = key
      · rw [if_pos hk, hk, List.count_cons_self, Function.iterate_succ_apply]
      · rw [if_neg hk, List.count_cons_of_ne hk]
  refine hfold _ (fun docs mutation => ?_) batch.mutations docs
  by_cases hk : mutation.key = key
  · subst hk
    rw [if_pos rfl]
    show _ = batch.applyToLocalDocument (docs.get mutation.key) mutation.key
    cases hdoc : batch.applyToLocalDocument (docs.get mutation.key) mutation.key with
    | some mutatedDocument => exact Table.get_put_self _ _ _
    | none =>
      refine Option.not_isSome_iff_eq_none.mp fun hsome => ?_
      have happlied : (batch.applyToLocalDocument (docs.get mutation.key)
          mutation.key).isSome = true := applyMutations_isSome hsome
      cases (congrArg Option.isSome hdoc).symm.trans happlied
  · rw [if_neg hk]
    cases batch.applyToLocalDocument (docs.get mutation.key) mutation.key with
    | some mutatedDocument => exact Table.get_put_of_ne _ _ (Ne.symm hk)
    | none => rfl

/-- Batches do not tell documents apart that are deleted, unknown or not there. -/
theorem asDocument_applyMutations_congr (h : asDocument d = asDocument d')
    (hasks : ∀ mutation ∈ mutations, mutation.precondition ≠ .exists false) (key : DocumentKey) :
    asDocument (applyMutations mutations key d) = asDocument (applyMutations mutations key d') := by
  have hfold : ∀ base base', visible base = visible base' → ∀ d d',
      asDocument d = asDocument d' → asDocument (mutations.foldl (applyAt key base) d) =
        asDocument (mutations.foldl (applyAt key base') d') := by
    intro base base' hbase
    induction mutations with
    | nil => exact fun d d' h => h
    | cons mutation mutations ih =>
      intro d d' h
      obtain ⟨hfirst, hrest⟩ := List.forall_mem_cons.mp hasks
      refine ih hrest _ _ ?_
      rw [applyAt, applyAt]
      split
      · exact asDocument_applyToLocalDocument_congr h hbase hfirst
      · exact h
  exact hfold d d' (visible_congr_of_asDocument h) d d' h

/-- Making a write a second time over does not change the document. -/
def Repeatable (mutations : List Mutation) (key : DocumentKey) (d : Option MaybeDocument) : Prop :=
  asDocument (applyMutations mutations key (applyMutations mutations key d)) =
    asDocument (applyMutations mutations key d)

theorem asDocument_iterate_congr (h : asDocument d = asDocument d')
    (hasks : ∀ mutation ∈ mutations, mutation.precondition ≠ .exists false) (n : ℕ) :
    asDocument ((applyMutations mutations key)^[n] d) =
      asDocument ((applyMutations mutations key)^[n] d') := by
  induction n with
  | zero => exact h
  | succ n ih =>
    rw [Function.iterate_succ_apply', Function.iterate_succ_apply']
    exact asDocument_applyMutations_congr ih hasks key

theorem asDocument_iterate {n : ℕ} (hn : 0 < n)
    (hasks : ∀ mutation ∈ mutations, mutation.precondition ≠ .exists false)
    (h : 1 < n → Repeatable mutations key d) :
    asDocument ((applyMutations mutations key)^[n] d) =
      asDocument (applyMutations mutations key d) := by
  induction n, hn using Nat.le_induction with
  | base => rfl
  | succ n hn ih =>
    have hrepeat := h (Nat.lt_succ_of_le hn)
    rw [Function.iterate_succ_apply',
      asDocument_applyMutations_congr (ih fun _ => hrepeat) hasks key]
    exact hrepeat

theorem isSome_iterate (h : d.isSome = true) (n : ℕ) :
    ((applyMutations mutations key)^[n] d).isSome = true := by
  induction n with
  | zero => exact h
  | succ n ih =>
    rw [Function.iterate_succ_apply']
    exact applyMutations_isSome ih

/-- A document is written as often as there are mutations of it. -/
theorem LocalStore.Good.locallyWriteMutations_get (h : s.Good) (hne : mutations ≠ [])
    (hasks : ∀ mutation ∈ mutations, mutation.precondition ≠ .exists false) :
    ∃ docs, s.locallyWriteMutations mutations hne = some (s.written mutations hne, docs) ∧
      ∀ key, (key ∈ mutations.map Mutation.key → ∃ doc, docs.get key = some doc ∧
          asDocument (some doc) = asDocument ((applyMutations mutations key)^[(mutations.map
            Mutation.key).count key] (s.view key))) ∧
        (key ∉ mutations.map Mutation.key → docs.get key = none) := by
  obtain ⟨docs, hdocs, hwrite⟩ := h.locallyWriteMutations_eq hne
  refine ⟨_, hwrite, fun key => ?_⟩
  obtain ⟨hmem, hnot⟩ := h.getDocuments_get hdocs key
  have hget := MutationBatch.get_applyToLocalDocumentSet ⟨s.nextBatchId, mutations, hne⟩ docs key
  rw [hget]
  constructor
  · intro hkey
    rw [hmem (MutationBatch.mem_keySet.mpr hkey)]
    have hsome : ((applyMutations mutations key)^[(mutations.map Mutation.key).count key]
        (some ((s.view key).getD (.deleted 0 false)))).isSome = true := isSome_iterate rfl _
    obtain ⟨doc, hdoc⟩ := Option.isSome_iff_exists.mp hsome
    refine ⟨doc, hdoc, ?_⟩
    rw [← hdoc]
    exact asDocument_iterate_congr (asDocument_getD (s.view key)) hasks _
  · intro hkey
    rw [hnot fun hmem => hkey (MutationBatch.mem_keySet.mp hmem)]
    exact congrFun (congrArg _ (List.count_eq_zero_of_not_mem hkey)) _

/-- A write that can be repeated is reported as it is read. -/
theorem LocalStore.Good.write_reports (h : s.Good) (hnext : s.nextBatchId < BatchId.max)
    (hne : mutations ≠ [])
    (hasks : ∀ mutation ∈ mutations, mutation.precondition ≠ .exists false)
    (hrepeat : ∀ key, 1 < (mutations.map Mutation.key).count key →
      Repeatable mutations key (s.view key)) :
    ∃ docs, s.locallyWriteMutations mutations hne = some (s.written mutations hne, docs) ∧
      s.Reports (s.written mutations hne) docs := by
  obtain ⟨docs, hwrite, hget⟩ := h.locallyWriteMutations_get hne hasks
  refine ⟨docs, hwrite, ⟨fun key doc hdoc => ?_, fun key hdoc => ?_⟩⟩
  · by_cases hkey : key ∈ mutations.map Mutation.key
    · obtain ⟨doc', hdoc', hread⟩ := (hget key).1 hkey
      obtain rfl := Option.some.inj (hdoc.symm.trans hdoc')
      rw [hread, h.view_written hnext hne,
        asDocument_iterate (List.count_pos_iff.mpr hkey) hasks (hrepeat key)]
      rfl
    · cases hdoc.symm.trans ((hget key).2 hkey)
  · rw [h.view_written hnext hne]
    refine MutationBatch.applyToLocalDocument_of_notMem (fun hkey => ?_) _
    obtain ⟨doc, hdoc', -⟩ := (hget key).1 hkey
    cases hdoc.symm.trans hdoc'

/-! ### Updates -/

section Updates
variable {updates values : List (String × FieldUpdate)} {parsed : ParsedUpdateData}

theorem appliedUpdate_appliedUpdate_iff (previous : Option FieldValue) (u : FieldUpdate) :
    appliedUpdate (some (appliedUpdate previous u)) u = appliedUpdate previous u ↔
      ∀ vs, u = .arrayRemove vs → ∀ v ∈ vs, (elements previous).count v ≤ vs.count v := by
  cases u with
  | set v => simp [appliedUpdate]
  | arrayUnion vs =>
    have hunion := List.appendMissing_appendMissing (elements previous) vs
    simpa [appliedUpdate, TransformOperation.apply, elements, List.appendMissing] using hunion
  | arrayRemove vs =>
    simp only [appliedUpdate, TransformOperation.apply, FieldValue.array.injEq,
      FieldUpdate.arrayRemove.injEq, forall_eq']
    rw [← List.diff_eq_foldl, ← List.diff_eq_foldl]
    exact List.diff_diff_eq_diff_iff

/-- The data after an update that is made twice. -/
theorem ParsedFrom.result_result_iff (h : ParsedFrom (fieldEntries values) parsed)
    (hnodup : (values.map Prod.fst).Nodup) (o : ObjectValue) :
    parsed.result (parsed.result o) = parsed.result o ↔ ∀ k vs, (k, .arrayRemove vs) ∈ values →
      ∀ v ∈ vs, (elements (o.get k)).count v ≤ vs.count v := by
  have hapart := pairwise_fieldEntries hnodup
  have hwritten : ∀ (o : ObjectValue), ∀ u ∈ values,
      (parsed.result o).get u.1 = some (appliedUpdate (o.get u.1) u.2) := by
    intro o u hu
    have := (h.updatedBy hapart o).written (⟨u.1, []⟩, u.2) (List.mem_map_of_mem hu)
    rwa [ObjectValue.getAt_field, ObjectValue.getAt_field] at this
  have hkept : ∀ (o : ObjectValue), ∀ k ∉ values.map Prod.fst,
      (parsed.result o).get k = o.get k := by
    intro o k hk
    refine (h.updatedBy hapart o).kept ⟨k, []⟩ fun pu hpu => ?_
    obtain ⟨u, hu, rfl⟩ := List.mem_map.mp hpu
    exact apart_field_iff.mpr fun he => hk (List.mem_map.mpr ⟨u, hu, he⟩)
  constructor
  · intro heq k vs hu
    have hk := congrArg (Table.get · k) heq
    rw [hwritten _ _ hu, hwritten _ _ hu, Option.some.injEq] at hk
    exact (appliedUpdate_appliedUpdate_iff _ _).mp hk vs rfl
  · intro hremove
    refine Table.ext fun k => ?_
    by_cases hk : k ∈ values.map Prod.fst
    · obtain ⟨⟨k, u⟩, hu, rfl⟩ := List.mem_map.mp hk
      rw [hwritten _ _ hu, hwritten _ _ hu]
      refine congrArg some ((appliedUpdate_appliedUpdate_iff _ _).mpr ?_)
      rintro vs rfl
      exact hremove k vs hu
    · rw [hkept _ k hk]

/-- **An update can be repeated** exactly if no array holds an element that is to be removed more
often than the update lists it. -/
theorem repeatable_updateMutations_iff (hnames : ∀ u ∈ updates, IsFieldName u.1)
    (hnodup : (updates.map Prod.fst).Nodup) (hvalues : parseValues updates = some values)
    (key : DocumentKey) (hmutations : updateMutations key updates = some mutations)
    (d : Option MaybeDocument) :
    Repeatable mutations key d ↔ ∀ k vs, (k, .arrayRemove vs) ∈ values → ∀ v ∈ vs,
      (elements ((visible d).bind fun data => data.get k)).count v ≤ vs.count v := by
  rw [← map_fst_of_parseValues hvalues] at hnodup
  have hapart := pairwise_fieldEntries hnodup
  have hparsed := parsedFrom_entries hapart
  rw [updateMutations, parsedUpdateData_fieldEntries hnames hvalues, Option.map_some] at hmutations
  have hmutations := (Option.some.inj hmutations).symm
  have hne : mutations ≠ [] := hmutations ▸ List.cons_ne_nil _ _
  let batch : MutationBatch := ⟨0, mutations, hne⟩
  have hbatch : batch.mutations = (parsedEntries (fieldEntries values)).toMutations key
      (.exists true) := hmutations
  rcases visible_eq_none_or d with hd | ⟨o, version, state, rfl⟩
  · have hsame : applyMutations mutations key d = d :=
      ParsedUpdateData.applyToLocalDocument_of_visible_eq_none hbatch hd
    rw [Repeatable, hsame, hsame, hd]
    refine ⟨fun _ k vs _ v _ => ?_, fun _ => rfl⟩
    exact Nat.zero_le _
  · have happly : ∀ (o : ObjectValue) (state : DocumentState),
        applyMutations mutations key (some (.document o version state)) = some (.document
          ((parsedEntries (fieldEntries values)).result o) version .localMutations) :=
      fun o state => hparsed.applyToLocalDocument hapart hbatch o version state
    rw [Repeatable, happly, happly]
    refine Iff.trans ?_ (hparsed.result_result_iff hnodup o)
    constructor
    · intro h
      exact (MaybeDocument.document.inj (Option.some.inj h)).1
    · intro h
      rw [h]

/-- The mutations of an update, all of the one document. -/
theorem count_updateMutations (hnames : ∀ u ∈ updates, IsFieldName u.1)
    (hnodup : (updates.map Prod.fst).Nodup) (hvalues : parseValues updates = some values)
    (key : DocumentKey) :
    ∃ mutations, updateMutations key updates = some mutations ∧ mutations ≠ [] ∧
      key ∈ mutations.map Mutation.key ∧
      ((mutations.map Mutation.key).count key = 1 → ∀ k vs, (k, .arrayRemove vs) ∉ values) ∧
      (mutations.map Mutation.key).count key ≤ 2 := by
  rw [← map_fst_of_parseValues hvalues] at hnodup
  have hparsed := parsedFrom_entries (pairwise_fieldEntries hnodup)
  refine ⟨_, congrArg (Option.map _) (parsedUpdateData_fieldEntries hnames hvalues),
    List.cons_ne_nil _ _, List.mem_cons_self, ?_⟩
  unfold ParsedUpdateData.toMutations
  by_cases hempty : (parsedEntries (fieldEntries values)).fieldTransforms = []
  · refine ⟨fun _ k vs hu => ?_, by simp [hempty, Mutation.key]⟩
    have htransform : (⟨⟨k, []⟩, .arrayRemove vs⟩ : FieldTransform) ∈
        (fieldEntries values).filterMap transformOf :=
      List.mem_filterMap.mpr ⟨(⟨k, []⟩, .arrayRemove vs), List.mem_map.mpr ⟨_, hu, rfl⟩, rfl⟩
    rw [← hparsed.fieldTransforms, hempty] at htransform
    cases htransform
  · simp [hempty, Mutation.key]

end Updates

section Runs
open SyncEngine
variable {Completion : Type*} {c : SyncEngine Completion} {db : LevelDb} {user : String}
  {as : List (SyncEvent Completion)} {updates values : List (String × FieldUpdate)}

/-- **What an update reports**: in whatever state, the document that the queries hear of when an
update of fields is made is the one that is read from then on, exactly if no array holds an
element that is to be removed more often than the update lists it.  The local store makes the
transform of an update twice over before it reports the document. -/
theorem update_reported_iff (hdb : db.Valid)
    (hrun : (machine Completion).run (some (start db user)) as = some (some c))
    (hnames : ∀ u ∈ updates, IsFieldName u.1) (hnodup : (updates.map Prod.fst).Nodup)
    (hvalues : parseValues updates = some values) (key : DocumentKey)
    (hnext : c.localStore.nextBatchId < BatchId.max) :
    ∃ mutations hne s docs before after, updateMutations key updates = some mutations ∧
      c.localStore.locallyWriteMutations mutations hne = some (s, docs) ∧
      c.localStore.getDocument key = some before ∧ s.getDocument key = some after ∧
      (asDocument (docs.get key) = asDocument after ↔
        ∀ k vs, (k, .arrayRemove vs) ∈ values → ∀ v ∈ vs,
          (elements ((visible before).bind fun data => data.get k)).count v ≤ vs.count v) := by
  have h := run_running (start_running hdb user) hrun
  obtain ⟨mutations, hmutations, hne, hkey, hone, htwo⟩ :=
    count_updateMutations hnames hnodup hvalues key
  obtain ⟨docs, hwrite, hget⟩ := h.good.locallyWriteMutations_get hne fun mutation hmutation =>
    ((plainWrite_updateMutations hnames hnodup key hmutations).plain mutation
      hmutation).precondition_ne
  refine ⟨mutations, hne, _, docs, _, _, hmutations, hwrite, h.good.getDocument_eq key,
    (h.good.written hnext hne).getDocument_eq key, ?_⟩
  obtain ⟨doc, hdoc, hreport⟩ := (hget key).1 hkey
  have hread : (c.localStore.written mutations hne).view key =
      applyMutations mutations key (c.localStore.view key) := h.good.view_written hnext hne key
  rw [hdoc, hreport, hread]
  have hpos := List.count_pos_iff.mpr hkey
  by_cases hcount : (mutations.map Mutation.key).count key = 1
  · rw [hcount]
    exact ⟨fun _ k vs hu => absurd hu (hone hcount k vs), fun _ => rfl⟩
  · obtain hcount : (mutations.map Mutation.key).count key = 2 := by omega
    rw [hcount]
    exact repeatable_updateMutations_iff hnames hnodup hvalues key hmutations _

/-- A team that lists a student twice. -/
def doubledTeam : List Mutation :=
  setMutations ["equipo", "t1"]
    (Table.empty.put "integrantes" (.array [.string "eva", .string "eva"]))

/-- Both are gone from the queries, and one of them can still be read. -/
theorem update_reported_iff_twice :
    ∃ c, (machine ℕ).run (some (start .new "ana"))
        [.write doubledTeam (List.cons_ne_nil _ _) 1] = some (some c) ∧
      ∃ mutations hne s docs before after,
        updateMutations ["equipo", "t1"] [("integrantes", .arrayRemove [.string "eva"])] =
          some mutations ∧
        c.localStore.locallyWriteMutations mutations hne = some (s, docs) ∧
        c.localStore.getDocument ["equipo", "t1"] = some before ∧
        s.getDocument ["equipo", "t1"] = some after ∧
        asDocument (docs.get ["equipo", "t1"]) ≠ asDocument after := by
  have hrun : ∃ c, (machine ℕ).run (some (start .new "ana"))
      [.write doubledTeam (List.cons_ne_nil _ _) 1] = some (some c) ∧
      c.localStore.getDocument ["equipo", "t1"] = some (some (.document
        (Table.empty.put "integrantes" (.array [.string "eva", .string "eva"])) 0
          .localMutations)) ∧
      c.localStore.nextBatchId < BatchId.max := by
    rw [start_new]
    exact ⟨_, rfl, rfl, by decide⟩
  obtain ⟨c, hrun, hbefore, hnext⟩ := hrun
  have hnames : ∀ u ∈ [("integrantes", FieldUpdate.arrayRemove [.string "eva"])],
      IsFieldName u.1 := by decide
  have hvalues : parseValues [("integrantes", .arrayRemove [.string "eva"])] =
      some [("integrantes", .arrayRemove [.string "eva"])] := rfl
  obtain ⟨mutations, hne, s, docs, before, after, hmutations, hwrite, hbefore', hafter, hiff⟩ :=
    update_reported_iff LevelDb.new_valid hrun hnames (by decide) hvalues ["equipo", "t1"] hnext
  obtain rfl := Option.some.inj (hbefore.symm.trans hbefore')
  refine ⟨c, hrun, mutations, hne, s, docs, _, after, hmutations, hwrite, hbefore, hafter,
    fun heq => ?_⟩
  have hcount := hiff.mp heq "integrantes" [.string "eva"] List.mem_cons_self (.string "eva")
    List.mem_cons_self
  exact absurd hcount (by decide)

end Runs

end Musgravite.Firestore
