import Musgravite.Firestore.Reads

/-! # Collection queries

A query of a collection does not read its documents one by one: it scans the cache and the index
of the queue for the collection, adds documents that waiting patches need, and
replays the waiting mutations over what it has.  `executeQuery_eq` says that it finds the documents
that single reads find. -/
namespace Musgravite.Firestore

/-- A query of a collection; `accepts` stands for its filters, orders and bounds. -/
structure Query where
  path : List String
  accepts : DocumentKey → ObjectValue → Bool

/-- `IsImmediateParentOf`. -/
def isImmediateParentOf (path : List String) (key : DocumentKey) : Bool :=
  path.length + 1 = key.length && key.take path.length = path

def MaybeDocument.isDocument (doc : MaybeDocument) : Bool := doc.data.isSome

/-- `Matches`; queries are only asked about documents. -/
def Query.isMatch (query : Query) (key : DocumentKey) (doc : MaybeDocument) : Bool :=
  isImmediateParentOf query.path key && doc.data.any fun data => query.accepts key data

namespace LevelDb
variable (db : LevelDb) (userId : String) (query : Query)

/-- The loop of `GetMatching` over the rows of the cache. -/
def matchingRows (path : List String) :
    List (DocumentKey × MaybeDocument) → List (DocumentKey × MaybeDocument)
  | [] => []
  | row :: rows =>
    if row.1.length ≠ path.length + 1 then matchingRows path rows
    else if row.1.take path.length ≠ path then []
    else if row.2.isDocument then row :: matchingRows path rows
    else matchingRows path rows

def getMatching : MaybeDocumentMap :=
  (matchingRows query.path (db.remoteDocuments.seek fun key =>
    key.take query.path.length < query.path)).foldl
      (fun results row => results.put row.1 row.2) .empty

/-- The index rows of a user below a path. -/
def rowsBelow (path : List String) : List (DocumentMutationKey × Unit) :=
  db.documentMutations.scan (fun k : DocumentMutationKey =>
    (toLex (k.userId, k.documentKey.take path.length) : String ×ₗ List String))
      (toLex (userId, path))

def allMutationBatchesAffectingQuery : Option (List MutationBatch) :=
  db.allMutationBatchesWithIds userId
    (((db.rowsBelow userId query.path).filter fun row =>
      row.1.documentKey.length = query.path.length + 1).foldl
        (fun batchIds row => batchIds.put row.1.batchId ()) .empty)

end LevelDb

def Mutation.isPatch : Mutation → Bool
  | patch _ _ _ _ => true
  | _ => false

namespace LocalStore
variable (s : LocalStore)

/-- The documents that patches are made for and that the query has not found. -/
def missingDocKeys (matchingBatches : List MutationBatch) (existingDocs : MaybeDocumentMap) :
    Table DocumentKey Unit :=
  matchingBatches.foldl (fun keys batch => batch.mutations.foldl (fun keys mutation =>
    if mutation.isPatch && (existingDocs.get mutation.key).isNone then keys.put mutation.key ()
    else keys) keys) .empty

def addMissingBaseDocuments (matchingBatches : List MutationBatch)
    (existingDocs : MaybeDocumentMap) : MaybeDocumentMap :=
  (missingDocKeys matchingBatches existingDocs).keys.foldl (fun docs key =>
    match s.db.remoteDocuments.get key with
    | some maybeDoc => if maybeDoc.isDocument then docs.put key maybeDoc else docs
    | none => docs) existingDocs

/-- A mutation over the results of a query: what it is made for serves as base, too. -/
def applyToResults (query : Query) (results : MaybeDocumentMap) (mutation : Mutation) :
    MaybeDocumentMap :=
  if !isImmediateParentOf query.path mutation.key then results
  else
    let baseDoc := results.get mutation.key
    match mutation.applyToLocalDocument baseDoc baseDoc with
    | some mutatedDoc =>
        if mutatedDoc.isDocument then results.put mutation.key mutatedDoc
        else results.erase mutation.key
    | none => results.erase mutation.key

/-- `executeQuery`, for a query of a collection. -/
def executeQuery (query : Query) : Option MaybeDocumentMap :=
  (s.db.allMutationBatchesAffectingQuery s.userId query).map fun matchingBatches =>
    let results := s.addMissingBaseDocuments matchingBatches (s.db.getMatching query)
    let unfiltered := matchingBatches.foldl (fun results batch =>
      batch.mutations.foldl (applyToResults query) results) results
    unfiltered.rows.foldl (fun results row =>
      if query.isMatch row.1 row.2 then results else results.erase row.1) unfiltered

end LocalStore

/-! ## What the scans find -/

/-- A document, without those that are not there or unknown. -/
def asDocument (maybeDoc : Option MaybeDocument) : Option MaybeDocument :=
  maybeDoc.filter MaybeDocument.isDocument

namespace LevelDb
variable {db : LevelDb} {userId : String} {query : Query}

theorem matchingRows_eq_filter {path : List String} {rows : List (DocumentKey × MaybeDocument)}
    (hsorted : rows.Pairwise fun row row' => row.1 < row'.1)
    (hfrom : ∀ row ∈ rows, path ≤ row.1.take path.length) :
    matchingRows path rows =
      rows.filter fun row => isImmediateParentOf path row.1 && row.2.isDocument := by
  induction hsorted with
  | nil => rfl
  | @cons row rows hrow _ ih =>
    have ih := ih fun row' hrow' => hfrom row' (List.mem_cons_of_mem row hrow')
    rw [matchingRows]
    by_cases hlength : row.1.length = path.length + 1
    · rw [if_neg (not_not.mpr hlength)]
      by_cases hprefix : row.1.take path.length = path
      · rw [if_neg (not_not.mpr hprefix), ih]
        cases hdoc : row.2.isDocument <;>
          simp [isImmediateParentOf, hlength, hprefix, hdoc]
      · -- all that follows lies behind the collection
        rw [if_pos hprefix, eq_comm, List.filter_eq_nil_iff]
        intro row' hrow' hmatch
        simp only [isImmediateParentOf, Bool.and_eq_true, decide_eq_true_eq] at hmatch
        rcases List.mem_cons.mp hrow' with rfl | hrow'
        · exact hprefix hmatch.1.2
        · have hle := List.take_le_take_left (hrow row' hrow').le path.length
          rw [hmatch.1.2] at hle
          exact hprefix (le_antisymm hle (hfrom row List.mem_cons_self))
    · rw [if_pos hlength, ih, List.filter_cons_of_neg]
      simp [isImmediateParentOf, Ne.symm hlength]

/-- The scan of the cache finds the cached documents of the collection. -/
theorem get_getMatching (db : LevelDb) (query : Query) (key : DocumentKey) :
    (db.getMatching query).get key =
      if isImmediateParentOf query.path key then asDocument (db.remoteDocuments.get key)
      else none := by
  have hlower : ∀ k l : DocumentKey, k < l → decide (l.take query.path.length < query.path) →
      decide (k.take query.path.length < query.path) := fun k l hlt hl =>
    decide_eq_true ((List.take_le_take_left hlt.le _).trans_lt (of_decide_eq_true hl))
  have hsorted := db.remoteDocuments.seek_sorted fun key =>
    key.take query.path.length < query.path
  have hrows := matchingRows_eq_filter hsorted fun row hrow =>
    not_lt.mp (of_decide_eq_false ((Table.mem_seek hlower).mp hrow).2)
  refine Option.ext fun doc => ?_
  rw [getMatching, hrows, Table.get_foldl_put (hsorted.filter _), List.mem_filter,
    Table.mem_seek hlower, ← Table.get_eq_some, Table.get_empty]
  by_cases hchild : isImmediateParentOf query.path key = true
  · have htake : key.take query.path.length = query.path :=
      of_decide_eq_true (Bool.and_eq_true_iff.mp hchild).2
    simp [hchild, htake, asDocument, Option.filter_eq_some_iff]
  · simp [hchild]

theorem mem_rowsBelow {path : List String} {row : DocumentMutationKey × Unit} :
    row ∈ db.rowsBelow userId path ↔ row ∈ db.documentMutations.rows ∧ row.1.userId = userId ∧
      row.1.documentKey.take path.length = path := by
  have hprefix : ∀ k l : DocumentMutationKey, k < l →
      (toLex (k.userId, k.documentKey.take path.length) : String ×ₗ List String) ≤
        toLex (l.userId, l.documentKey.take path.length) := by
    intro k l hlt
    refine Prod.Lex.toLex_le_toLex.mpr ?_
    refine (Prod.Lex.toLex_le_toLex.mp (DocumentMutationKey.document_le hlt)).imp_right ?_
    exact fun h => ⟨h.1, List.take_le_take_left h.2 _⟩
  rw [rowsBelow, Table.scan_eq_filter hprefix, List.mem_filter]
  simp only [decide_eq_true_eq, toLex.injective.eq_iff, Prod.mk.injEq]

/-- **The index finds the batches that write to the collection**, in order. -/
theorem Valid.affectingQuery_eq (h : db.Valid) (userId : String) (query : Query) :
    db.allMutationBatchesAffectingQuery userId query = some ((db.pending userId).filter fun b =>
      b.keys.any fun key => isImmediateParentOf query.path key) := by
  have hids : ((db.pending userId).filter fun b => b.keys.any fun key =>
      isImmediateParentOf query.path key).map MutationBatch.batchID =
        Table.keys (((db.rowsBelow userId query.path).filter fun row =>
          row.1.documentKey.length = query.path.length + 1).foldl
            (fun (batchIds : BatchIds) row => batchIds.put row.1.batchId ()) .empty) := by
    refine Table.eq_keys (List.pairwise_map.mpr ((h.pairwise_pending userId).filter _)) fun id => ?_
    rw [← List.foldl_map (f := fun row : DocumentMutationKey × Unit => row.1.batchId)
      (g := fun (batchIds : BatchIds) id => batchIds.put id ()), Table.mem_keys_foldl_put]
    simp only [List.mem_map, List.mem_filter, mem_rowsBelow, List.any_eq_true, decide_eq_true_eq,
      Table.not_mem_keys_empty, false_or, isImmediateParentOf, Bool.and_eq_true]
    constructor
    · rintro ⟨batch, ⟨hbatch, key, hkey, hlength, hpath⟩, rfl⟩
      have hindexed := (h.indexed ⟨userId, key, batch.batchID⟩).mpr
        ⟨batch, h.mem_pending_iff.mp hbatch, hkey⟩
      exact ⟨_, ⟨⟨Table.get_eq_some.mp hindexed, rfl, hpath⟩, hlength.symm⟩, rfl⟩
    · rintro ⟨⟨⟨u, key, id⟩, _⟩, ⟨⟨hrow, rfl, hpath⟩, hlength⟩, rfl⟩
      obtain ⟨batch, hbatch, hkey⟩ := (h.indexed ⟨u, key, id⟩).mp (Table.get_eq_some.mpr hrow)
      exact ⟨batch, ⟨mem_pending.mpr ⟨id, hbatch⟩, key, hkey, hlength.symm, hpath⟩,
        h.numbered _ _ hbatch⟩
  rw [allMutationBatchesAffectingQuery, allMutationBatchesWithIds, ← hids]
  refine mapM_map_eq_some fun b hb => ?_
  rw [seekBatch_eq]
  exact h.mem_pending_iff.mp (List.mem_filter.mp hb).1

end LevelDb

/-! ## Mutations over what a query has found -/

variable {query : Query} {key : DocumentKey} {d d' base base' : Option MaybeDocument}
  {mutation : Mutation} {mutations : List Mutation} {batches : List MutationBatch}
  {results : MaybeDocumentMap}

theorem asDocument_eq_or (d : Option MaybeDocument) :
    visible d = none ∧ asDocument d = none ∨
      ∃ data version state, d = some (.document data version state) ∧ asDocument d = d := by
  match d with
  | none => exact Or.inl ⟨rfl, rfl⟩
  | some (.document data version state) => exact Or.inr ⟨data, version, state, rfl, rfl⟩
  | some (.deleted _ _) => exact Or.inl ⟨rfl, rfl⟩
  | some (.unknown _) => exact Or.inl ⟨rfl, rfl⟩

theorem asDocument_eq_none_iff : asDocument d = none ↔ visible d = none := by
  rcases asDocument_eq_or d with ⟨hvisible, hd⟩ | ⟨data, version, state, rfl, hd⟩
  · exact ⟨fun _ => hvisible, fun _ => hd⟩
  · rw [hd]
    exact ⟨fun h => (by cases h), fun h => (by cases h)⟩

@[simp] theorem visible_asDocument (d : Option MaybeDocument) :
    visible (asDocument d) = visible d := by
  rcases asDocument_eq_or d with ⟨hvisible, hd⟩ | ⟨data, version, state, rfl, hd⟩
  · rw [hd, hvisible]
    rfl
  · rw [hd]

@[simp] theorem asDocument_asDocument (d : Option MaybeDocument) :
    asDocument (asDocument d) = asDocument d := by
  rcases asDocument_eq_or d with ⟨-, hd⟩ | ⟨data, version, state, rfl, hd⟩
  · rw [hd]
    rfl
  · rw [hd, hd]

theorem visible_congr_of_asDocument (h : asDocument d = asDocument d') :
    visible d = visible d' := by
  rw [← visible_asDocument d, h, visible_asDocument]

/-- Where there is no document, nothing that a mutation looks at is there, unless it asks that
there be none. -/
theorem asDocument_applyToLocalDocument_of_not_visible (h : visible d = none)
    (hasks : mutation.precondition ≠ .exists false) (base : Option MaybeDocument) :
    asDocument (mutation.applyToLocalDocument d base) =
      asDocument (mutation.applyToLocalDocument none none) := by
  have hversion : Mutation.postMutationVersion d = Mutation.postMutationVersion none := by
    rcases d with _ | ⟨⟩ | ⟨⟩ | ⟨⟩
    · rfl
    · cases h
    · rfl
    · rfl
  have hvalid : mutation.precondition.isValidFor d = mutation.precondition.isValidFor none := by
    rcases hprecondition : mutation.precondition with _ | value | updateTime
    · rfl
    · cases value with
      | false => exact absurd hprecondition hasks
      | true =>
        rw [Precondition.isValidFor, Precondition.isValidFor, h]
        rfl
    · rcases d with _ | ⟨⟩ | ⟨⟩ | ⟨⟩
      · rfl
      · cases h
      · rfl
      · rfl
  unfold Mutation.applyToLocalDocument
  rw [hvalid]
  split
  · cases mutation with
    | set _ _ _ => simp only [hversion]
    | patch _ _ _ _ =>
      simp only [hversion, Mutation.patchDocument, h]
      rfl
    | transform _ _ =>
      rename_i hvalid
      cases hvalid
    | delete _ _ => rfl
  · exact asDocument_eq_none_iff.mpr h

/-- Mutations do not tell documents apart that are deleted, unknown or not there. -/
theorem asDocument_applyToLocalDocument_congr (h : asDocument d = asDocument d')
    (hbase : visible base = visible base') (hasks : mutation.precondition ≠ .exists false) :
    asDocument (mutation.applyToLocalDocument d base) =
      asDocument (mutation.applyToLocalDocument d' base') := by
  rcases asDocument_eq_or d with ⟨hvisible, hd⟩ | ⟨data, version, state, rfl, hd⟩
  · have hvisible' : visible d' = none := asDocument_eq_none_iff.mp (h.symm.trans hd)
    rw [asDocument_applyToLocalDocument_of_not_visible hvisible hasks,
      asDocument_applyToLocalDocument_of_not_visible hvisible' hasks]
  · obtain rfl : some (.document data version state) = d' := by
      rcases asDocument_eq_or d' with ⟨-, hd'⟩ | ⟨-, -, -, -, hd'⟩
      · cases hd.symm.trans (h.trans hd')
      · exact hd.symm.trans (h.trans hd')
    cases mutation with
    | transform k fieldTransforms =>
      unfold Mutation.applyToLocalDocument
      simp only [localTransformResults_congr rfl hbase]
    | set _ _ _ => rfl
    | patch _ _ _ _ => rfl
    | delete _ _ => rfl

/-- A document can be the base of a mutation itself, if its fields were carried over. -/
theorem applyToLocalDocument_base (hcarried : ∀ k fieldTransforms,
      mutation = .transform k fieldTransforms → ∀ t ∈ fieldTransforms, Carried d base t.path) :
    mutation.applyToLocalDocument d d = mutation.applyToLocalDocument d base := by
  cases mutation with
  | transform k fieldTransforms =>
    have hresults : Mutation.localTransformResults fieldTransforms d d =
        Mutation.localTransformResults fieldTransforms d base := by
      refine List.map_congr_left fun t ht => ?_
      rw [Option.or_self, (hcarried k fieldTransforms rfl t ht).or_eq]
    unfold Mutation.applyToLocalDocument
    simp only [hresults]
  | set _ _ _ => rfl
  | patch _ _ _ _ => rfl
  | delete _ _ => rfl

/-- **A mutation over what a query has found**: documents that are deleted or unknown can be
left out, and the document itself can serve as the base. -/
theorem asDocument_applyToLocalDocument (hasks : mutation.precondition ≠ .exists false)
    (hcarried : ∀ k fieldTransforms,
      mutation = .transform k fieldTransforms → ∀ t ∈ fieldTransforms, Carried d base t.path) :
    asDocument (mutation.applyToLocalDocument (asDocument d) (asDocument d)) =
      asDocument (mutation.applyToLocalDocument d base) := by
  rw [asDocument_applyToLocalDocument_congr (asDocument_asDocument d) (visible_asDocument d) hasks,
    applyToLocalDocument_base hcarried]

theorem get_applyToResults (hkey : isImmediateParentOf query.path key = true)
    (results : MaybeDocumentMap) (mutation : Mutation) :
    (LocalStore.applyToResults query results mutation).get key =
      if mutation.key = key then
        asDocument (mutation.applyToLocalDocument (results.get key) (results.get key))
      else results.get key := by
  rw [LocalStore.applyToResults]
  by_cases hk : mutation.key = key
  · subst hk
    rw [hkey, if_pos rfl, if_neg (by simp)]
    dsimp only
    cases hdoc : mutation.applyToLocalDocument (results.get mutation.key)
        (results.get mutation.key) with
    | none => exact Table.get_erase.trans (if_pos rfl)
    | some doc =>
      cases hdocument : doc.isDocument with
      | true =>
        dsimp only
        rw [if_pos hdocument, Table.get_put_self, asDocument, Option.filter_some_pos hdocument]
      | false =>
        dsimp only
        rw [if_neg (by simp [hdocument]), Table.get_erase, if_pos rfl, asDocument,
          Option.filter_some_neg hdocument]
  · rw [if_neg hk]
    split
    · rfl
    · dsimp only
      split
      · split
        · exact Table.get_put_of_ne _ _ (Ne.symm hk)
        · rw [Table.get_erase, if_neg (Ne.symm hk)]
      · rw [Table.get_erase, if_neg (Ne.symm hk)]

/-- A write over what a query has found. -/
theorem PlainWrite.get_foldl_applyToResults (hwrite : PlainWrite mutations)
    (hkey : isImmediateParentOf query.path key = true) (hget : results.get key = asDocument d)
    (hcarried : ∀ fieldTransforms, .transform key fieldTransforms ∈ mutations →
      ∀ t ∈ fieldTransforms, Carried d base t.path) :
    (mutations.foldl (LocalStore.applyToResults query) results).get key =
      asDocument (mutations.foldl (applyAt key base) d) := by
  induction mutations generalizing d results with
  | nil => exact hget
  | cons mutation mutations ih =>
    obtain ⟨hplain, hrest⟩ := List.forall_mem_cons.mp hwrite.plain
    obtain ⟨hspares, hpairwise⟩ := List.pairwise_cons.mp hwrite.spares
    rw [List.foldl_cons, List.foldl_cons]
    have hmutation := get_applyToResults hkey results mutation
    by_cases hk : mutation.key = key
    · subst hk
      rw [if_pos rfl, hget, asDocument_applyToLocalDocument hplain.precondition_ne
        fun k ts hts t ht => by
          subst hts
          exact hcarried ts List.mem_cons_self t ht] at hmutation
      rw [applyAt, if_pos rfl]
      refine ih ⟨hrest, hpairwise⟩ hmutation fun ts hts t ht => ?_
      exact (hcarried ts (List.mem_cons_of_mem mutation hts) t ht).applyToLocalDocument hplain
        (hspares _ hts _ ts rfl t ht)
    · rw [if_neg hk, hget] at hmutation
      rw [applyAt, if_neg hk]
      exact ih ⟨hrest, hpairwise⟩ hmutation fun ts hts =>
        hcarried ts (List.mem_cons_of_mem mutation hts)

theorem get_foldl_batches (hplain : ∀ batch ∈ batches, PlainWrite batch.mutations)
    (hkey : isImmediateParentOf query.path key = true) (hget : results.get key = asDocument d) :
    (batches.foldl (fun results batch =>
        batch.mutations.foldl (LocalStore.applyToResults query) results) results).get key =
      asDocument (replay batches key d) := by
  induction batches generalizing d results with
  | nil => exact hget
  | cons batch batches ih =>
    refine ih (fun b hb => hplain b (List.mem_cons_of_mem batch hb)) ?_
    exact (hplain batch List.mem_cons_self).get_foldl_applyToResults hkey hget
      fun _ _ t _ => Or.inl rfl

namespace LocalStore
variable {s : LocalStore}

/-- What is missing for a patch is missing from the cache, too. -/
theorem get_addMissingBaseDocuments (hget : results.get key =
      asDocument (s.db.remoteDocuments.get key)) (batches : List MutationBatch) :
    (s.addMissingBaseDocuments batches results).get key =
      asDocument (s.db.remoteDocuments.get key) := by
  rw [addMissingBaseDocuments]
  refine List.foldlRecOn _ _ (motive := fun docs : MaybeDocumentMap =>
    docs.get key = asDocument (s.db.remoteDocuments.get key)) hget ?_
  intro docs hdocs k _
  cases hcached : s.db.remoteDocuments.get k with
  | none => exact hdocs
  | some maybeDoc =>
    dsimp only
    split
    · rename_i hdocument
      rw [Table.get_put]
      by_cases hk : key = k
      · rw [if_pos hk, hk, hcached]
        exact (Option.filter_some_pos hdocument).symm
      · rw [if_neg hk, hdocs]
    · exact hdocs

/-- **A query finds the documents that single reads find.** -/
theorem Good.executeQuery_eq (h : s.Good)
    (hplain : ∀ batch ∈ s.db.pending s.userId, PlainWrite batch.mutations) (query : Query) :
    ∃ results, s.executeQuery query = some results ∧
      ∀ key, results.get key = (s.view key).filter (query.isMatch key) := by
  rw [executeQuery, h.valid.affectingQuery_eq, Option.map_some]
  refine ⟨_, rfl, fun key => ?_⟩
  rw [Table.get_foldl_erase query.isMatch]
  by_cases hkey : isImmediateParentOf query.path key = true
  · have hcached : (s.db.getMatching query).get key =
        asDocument (s.db.remoteDocuments.get key) := by
      rw [LevelDb.get_getMatching, if_pos hkey]
    rw [get_foldl_batches (fun b hb => hplain b (List.mem_of_mem_filter hb)) hkey
      (get_addMissingBaseDocuments hcached _), replay_filter, asDocument, Option.filter_filter]
    · refine congrArg (Option.filter · (s.view key)) (funext fun doc => ?_)
      cases doc <;> simp [Query.isMatch, MaybeDocument.isDocument, MaybeDocument.data]
    · intro b _ hb hmem
      exact absurd hkey (List.any_eq_false.mp hb key hmem)
  · have hnone : query.isMatch key = fun _ => false := by
      funext doc
      rw [Query.isMatch, Bool.eq_false_iff.mpr hkey, Bool.false_and]
    simp [hnone]

end LocalStore

/-! ## Queries in a run -/

section Runs
open SyncEngine
variable {Completion : Type*} {c : SyncEngine Completion} {db : LevelDb} {user : String}
  {as : List (SyncEvent Completion)}

end Runs

end Musgravite.Firestore
