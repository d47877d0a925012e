import Mathlib.Data.List.Pairwise
import Mathlib.Data.List.TakeWhile
import Mathlib.Data.Prod.Lex
import Musgravite.Firestore.Mutations

/-! # The queue of pending writes

Pending batches are rows of a LevelDB table, in the order of the users and then of their
numbers.  A second table is the index: a row for each document that a batch writes to.  All
lookups are scans with an iterator over one of the two.

`Valid` is what ties the tables together.  Under it every scan finds what it should:
`pending` is the list of the batches of a user in the order in which they were written
(as long as their numbers stay below the greatest `int32_t`), and the queue's operations are
said in its terms (`allMutationBatches_eq`, `nextMutationBatch_eq`, `affectingKeys_eq`,
`pending_add`, `pending_deleteBatch`).  In particular no index row dangles, and a queue
without batches has an empty index. -/
namespace Musgravite.Firestore

/-- `LevelDbMutationKey`. -/
structure MutationKey where
  userId : String
  batchId : BatchId
deriving DecidableEq

namespace MutationKey

def ordered (k : MutationKey) : String ×ₗ BatchId := toLex (k.userId, k.batchId)

theorem ordered_injective : Function.Injective ordered := by
  rintro ⟨u, i⟩ ⟨v, j⟩ h
  obtain ⟨rfl, rfl⟩ := Prod.mk.inj (toLex.injective h)
  rfl

instance : LinearOrder MutationKey := LinearOrder.lift' ordered ordered_injective

theorem lt_iff {k l : MutationKey} :
    k < l ↔ k.userId < l.userId ∨ k.userId = l.userId ∧ k.batchId < l.batchId :=
  Prod.Lex.toLex_lt_toLex

theorem userId_le {k l : MutationKey} (h : k < l) : k.userId ≤ l.userId :=
  (lt_iff.mp h).elim le_of_lt fun h => h.1.le

/-- The rows of a user up to a number. -/
theorem lt_next_iff {k : MutationKey} {batchId : BatchId} :
    k < ⟨k.userId, batchId + 1⟩ ↔ k.batchId ≤ batchId := by
  rw [lt_iff]
  constructor
  · rintro (hu | hid)
    · exact absurd hu (lt_irrefl _)
    · exact Int.lt_add_one_iff.mp hid.2
  · exact fun hid => Or.inr ⟨rfl, Int.lt_add_one_iff.mpr hid⟩

end MutationKey

/-- `LevelDbDocumentMutationKey`. -/
structure DocumentMutationKey where
  userId : String
  documentKey : DocumentKey
  batchId : BatchId
deriving DecidableEq

namespace DocumentMutationKey

/-- The part of the key that a scan for one document has in common. -/
def document (k : DocumentMutationKey) : String ×ₗ DocumentKey := toLex (k.userId, k.documentKey)

def ordered (k : DocumentMutationKey) : (String ×ₗ DocumentKey) ×ₗ BatchId :=
  toLex (k.document, k.batchId)

theorem ordered_injective : Function.Injective ordered := by
  rintro ⟨u, d, i⟩ ⟨v, e, j⟩ h
  obtain ⟨hdocument, rfl⟩ := Prod.mk.inj (toLex.injective h)
  obtain ⟨rfl, rfl⟩ := Prod.mk.inj (toLex.injective hdocument)
  rfl

instance : LinearOrder DocumentMutationKey := LinearOrder.lift' ordered ordered_injective

theorem document_le {k l : DocumentMutationKey} (h : k < l) : k.document ≤ l.document :=
  (Prod.Lex.toLex_lt_toLex.mp h).elim le_of_lt fun h => h.1.le

theorem userId_le {k l : DocumentMutationKey} (h : k < l) : k.userId ≤ l.userId :=
  (Prod.Lex.toLex_le_toLex.mp (document_le h)).elim le_of_lt fun h => h.1.le

end DocumentMutationKey

/-- The tables of the local database: the pending batches, the index and the cached
documents. -/
structure LevelDb where
  mutations : Table MutationKey MutationBatch
  documentMutations : Table DocumentMutationKey Unit
  remoteDocuments : Table DocumentKey MaybeDocument

/-- A set of batch numbers, in order. -/
abbrev BatchIds := Table BatchId Unit

namespace LevelDb
variable (db : LevelDb) (userId : String)

/-- The rows of a user. -/
def userRows : List (MutationKey × MutationBatch) := db.mutations.scan MutationKey.userId userId

def isEmpty : Bool :=
  match db.mutations.seek fun k => k.userId < userId with
  | [] => true
  | row :: _ => row.1.userId ≠ userId

def allMutationBatches : List MutationBatch := (db.userRows userId).map Prod.snd

/-- The row under a key, as an iterator finds it. -/
def seekBatch (batchId : BatchId) : Option MutationBatch :=
  match db.mutations.seek fun k => k < ⟨userId, batchId⟩ with
  | [] => none
  | row :: _ => if row.1 = ⟨userId, batchId⟩ then some row.2 else none

def lookupMutationBatch (batchId : BatchId) : Option MutationBatch :=
  db.mutations.get ⟨userId, batchId⟩

def nextMutationBatchAfterBatchId (batchId : BatchId) : Option MutationBatch :=
  match db.mutations.seek fun k => k < ⟨userId, .incremented batchId⟩ with
  | [] => none
  | row :: _ => if row.1.userId ≠ userId then none else some row.2

/-- The index rows of a batch. -/
def indexKeys (batch : MutationBatch) : List DocumentMutationKey :=
  batch.mutations.map fun mutation => ⟨userId, mutation.key, batch.batchID⟩

def addMutationBatch (batch : MutationBatch) : LevelDb where
  mutations := db.mutations.put ⟨userId, batch.batchID⟩ batch
  documentMutations :=
    (indexKeys userId batch).foldl (fun index k => index.put k ()) db.documentMutations
  remoteDocuments := db.remoteDocuments

/-- The tables without the rows of a batch. -/
def deleteBatch (batch : MutationBatch) : LevelDb where
  mutations := db.mutations.erase ⟨userId, batch.batchID⟩
  documentMutations :=
    (indexKeys userId batch).foldl (fun index k => index.erase k) db.documentMutations
  remoteDocuments := db.remoteDocuments

/-- `none` where the batch is missing, which is asserted not to be so. -/
def removeMutationBatch (batch : MutationBatch) : Option LevelDb :=
  (db.seekBatch userId batch.batchID).map fun _ => db.deleteBatch userId batch

/-- The numbers in the index rows of one document. -/
def indexedBatchIds (documentKey : DocumentKey) : List BatchId :=
  (db.documentMutations.scan DocumentMutationKey.document (toLex (userId, documentKey))).map
    fun row => row.1.batchId

/-- `none` where an index row dangles. -/
def allMutationBatchesWithIds (batchIds : BatchIds) : Option (List MutationBatch) :=
  batchIds.keys.mapM (db.seekBatch userId)

def batchIdsAffecting (documentKeys : List DocumentKey) : BatchIds :=
  documentKeys.foldl (fun batchIds documentKey =>
    (db.indexedBatchIds userId documentKey).foldl (fun batchIds id => batchIds.put id ()) batchIds)
    .empty

def allMutationBatchesAffectingDocumentKeys (documentKeys : List DocumentKey) :
    Option (List MutationBatch) :=
  db.allMutationBatchesWithIds userId (db.batchIdsAffecting userId documentKeys)

/-- `none` where an empty queue has index rows left. -/
def performConsistencyCheck : Option Unit :=
  if !db.isEmpty userId then some ()
  else if (db.documentMutations.scan DocumentMutationKey.userId userId).isEmpty then some ()
  else none

end LevelDb

/-- The loop of `LoadNextBatchIdFromDb`: it goes from user to user and looks at the last row
of each. -/
def maxBatchId : List (MutationKey × MutationBatch) → BatchId → BatchId
  | [], max => max
  | row :: rows, max =>
    let last := (row :: rows.takeWhile fun row' => row'.1.userId ≤ row.1.userId).getLast (by simp)
    maxBatchId (rows.dropWhile fun row' => row'.1.userId ≤ row.1.userId)
      (if last.1.batchId > max then last.1.batchId else max)
termination_by rows => rows.length
decreasing_by
  exact Nat.lt_succ_of_le (List.dropWhile_suffix _).length_le

/-- `kBatchIdUnknown`. -/
def batchIdUnknown : BatchId := -1

def loadNextBatchId (db : LevelDb) : BatchId :=
  .incremented (maxBatchId db.mutations.rows batchIdUnknown)

/-! ## What the scans find -/

namespace LevelDb
variable {db : LevelDb} {userId : String}

/-- The batches of a user, in order. -/
def pending (db : LevelDb) (userId : String) : List MutationBatch :=
  (db.mutations.rows.filter fun row => row.1.userId = userId).map Prod.snd

theorem userRows_eq (db : LevelDb) (userId : String) :
    db.userRows userId = db.mutations.rows.filter fun row => row.1.userId = userId :=
  Table.scan_eq_filter (fun _ _ => MutationKey.userId_le) db.mutations userId

theorem allMutationBatches_eq (db : LevelDb) (userId : String) :
    db.allMutationBatches userId = db.pending userId := by
  rw [allMutationBatches, userRows_eq, pending]

theorem isEmpty_iff (db : LevelDb) (userId : String) :
    db.isEmpty userId = true ↔ db.pending userId = [] := by
  rw [← allMutationBatches_eq, allMutationBatches, List.map_eq_nil_iff, userRows, Table.scan,
    isEmpty]
  generalize (db.mutations.seek fun k => k.userId < userId) = rows
  cases rows with
  | nil => simp
  | cons row rows => by_cases hrow : row.1.userId = userId <;> simp [hrow]

theorem seekBatch_eq (db : LevelDb) (userId : String) (batchId : BatchId) :
    db.seekBatch userId batchId = db.mutations.get ⟨userId, batchId⟩ := by
  rw [seekBatch]
  split
  · rename_i h
    rw [eq_comm, Option.eq_none_iff_forall_ne_some]
    intro batch hbatch
    obtain ⟨rows, hrows⟩ := Table.seek_of_get_eq_some hbatch
    cases h.symm.trans hrows
  · rename_i row rows h
    split
    · rename_i hrow
      exact (Table.get_of_seek_eq_cons h hrow).symm
    · rename_i hrow
      rw [eq_comm, Option.eq_none_iff_forall_ne_some]
      intro batch hbatch
      obtain ⟨rows', hrows⟩ := Table.seek_of_get_eq_some hbatch
      exact hrow (congrArg Prod.fst (List.cons.inj (h.symm.trans hrows)).1)

theorem mapM_map_eq_some {α β : Type*} {f : α → Option β} {g : β → α} {bs : List β}
    (h : ∀ b ∈ bs, f (g b) = some b) : (bs.map g).mapM f = some bs := by
  induction bs with
  | nil => rfl
  | cons b bs ih =>
    rw [List.map_cons, List.mapM_cons, h b List.mem_cons_self,
      ih fun b' hb' => h b' (List.mem_cons_of_mem b hb')]
    rfl

theorem removeMutationBatch_eq {batch : MutationBatch}
    (hbatch : db.mutations.get ⟨userId, batch.batchID⟩ = some batch) :
    db.removeMutationBatch userId batch = some (db.deleteBatch userId batch) := by
  rw [removeMutationBatch, seekBatch_eq, hbatch]
  rfl

/-- How the tables of the queue hang together. -/
structure Valid (db : LevelDb) : Prop where
  numbered : ∀ k batch, db.mutations.get k = some batch → batch.batchID = k.batchId
  nonneg : ∀ k batch, db.mutations.get k = some batch → 0 ≤ k.batchId
  bounded : ∀ k batch, db.mutations.get k = some batch → k.batchId < BatchId.max
  indexed : ∀ k : DocumentMutationKey, db.documentMutations.get k = some () ↔
    ∃ batch, db.mutations.get ⟨k.userId, k.batchId⟩ = some batch ∧ k.documentKey ∈ batch.keys

theorem mem_pending {batch : MutationBatch} :
    batch ∈ db.pending userId ↔ ∃ id, db.mutations.get ⟨userId, id⟩ = some batch := by
  simp only [pending, List.mem_map, List.mem_filter, decide_eq_true_eq]
  constructor
  · rintro ⟨⟨⟨u, id⟩, b⟩, ⟨hrow, rfl⟩, rfl⟩
    exact ⟨id, Table.get_eq_some.mpr hrow⟩
  · rintro ⟨id, h⟩
    exact ⟨_, ⟨Table.get_eq_some.mp h, rfl⟩, rfl⟩

namespace Valid
variable (h : db.Valid)
include h

theorem mem_pending_iff {batch : MutationBatch} :
    batch ∈ db.pending userId ↔ db.mutations.get ⟨userId, batch.batchID⟩ = some batch := by
  rw [mem_pending]
  constructor
  · rintro ⟨id, hid⟩
    rwa [h.numbered _ _ hid]
  · exact fun hbatch => ⟨_, hbatch⟩

/-- The batches of a user are in the order of their numbers. -/
theorem pairwise_pending (userId : String) :
    (db.pending userId).Pairwise fun b b' => b.batchID < b'.batchID := by
  rw [pending, List.pairwise_map]
  refine (db.mutations.sorted.filter _).imp_of_mem fun hrow hrow' hlt => ?_
  simp only [List.mem_filter, decide_eq_true_eq] at hrow hrow'
  rw [h.numbered _ _ (Table.get_eq_some.mpr hrow.1), h.numbered _ _ (Table.get_eq_some.mpr hrow'.1)]
  refine ((MutationKey.lt_iff.mp hlt).resolve_left ?_).2
  rw [hrow.2, hrow'.2]
  exact lt_irrefl userId

/-- A list in the order of the numbers with the same batches is the list of the pending
batches. -/
theorem eq_pending {batches : List MutationBatch}
    (hsorted : batches.Pairwise fun b b' => b.batchID < b'.batchID)
    (hmem : ∀ b, b ∈ batches ↔ db.mutations.get ⟨userId, b.batchID⟩ = some b) :
    db.pending userId = batches := by
  have : Std.Irrefl fun b b' : MutationBatch => b.batchID < b'.batchID :=
    ⟨fun b => lt_irrefl b.batchID⟩
  refine (h.pairwise_pending userId).eq_of_mem_iff hsorted fun b => ?_
  rw [h.mem_pending_iff, hmem]

/-- The index rows of a user belong to its batches. -/
theorem isSome_of_indexed {k : DocumentMutationKey} (hk : db.documentMutations.get k = some ()) :
    ∃ batch ∈ db.pending k.userId, k.documentKey ∈ batch.keys := by
  obtain ⟨batch, hbatch, hkey⟩ := (h.indexed k).mp hk
  exact ⟨batch, mem_pending.mpr ⟨_, hbatch⟩, hkey⟩

/-- **A queue without batches has no index rows.** -/
theorem performConsistencyCheck (userId : String) :
    db.performConsistencyCheck userId = some () := by
  rw [LevelDb.performConsistencyCheck]
  split
  · rfl
  · rename_i hempty
    rw [Bool.not_eq_true', Bool.not_eq_false, isEmpty_iff] at hempty
    refine if_pos (List.isEmpty_iff.mpr ?_)
    rw [Table.scan_eq_filter fun _ _ => DocumentMutationKey.userId_le, List.filter_eq_nil_iff]
    rintro ⟨k, _⟩ hrow huser
    obtain ⟨batch, hbatch, -⟩ := h.isSome_of_indexed (Table.get_eq_some.mpr hrow)
    rw [of_decide_eq_true huser, hempty] at hbatch
    cases hbatch

/-- The numbers that the index has for a document. -/
theorem mem_indexedBatchIds {documentKey : DocumentKey} {id : BatchId} :
    id ∈ db.indexedBatchIds userId documentKey ↔
      ∃ batch, db.mutations.get ⟨userId, id⟩ = some batch ∧ documentKey ∈ batch.keys := by
  rw [indexedBatchIds, Table.scan_eq_filter fun _ _ => DocumentMutationKey.document_le,
    ← h.indexed ⟨userId, documentKey, id⟩, Table.get_eq_some]
  simp only [List.mem_map, List.mem_filter, decide_eq_true_eq]
  constructor
  · rintro ⟨⟨⟨u, d, i⟩, _⟩, ⟨hrow, hdocument⟩, rfl⟩
    obtain ⟨rfl, rfl⟩ := Prod.mk.inj (toLex.injective hdocument)
    exact hrow
  · exact fun hrow => ⟨_, ⟨hrow, rfl⟩, rfl⟩

theorem mem_batchIdsAffecting {documentKeys : List DocumentKey} {id : BatchId} :
    id ∈ (db.batchIdsAffecting userId documentKeys).keys ↔
      ∃ batch, db.mutations.get ⟨userId, id⟩ = some batch ∧
        ∃ key ∈ documentKeys, key ∈ batch.keys := by
  have hfold : ∀ ids : BatchIds,
      id ∈ (documentKeys.foldl (fun batchIds key => (db.indexedBatchIds userId key).foldl
        (fun batchIds id => batchIds.put id ()) batchIds) ids).keys ↔
        id ∈ ids.keys ∨ ∃ key ∈ documentKeys, id ∈ db.indexedBatchIds userId key := by
    induction documentKeys with
    | nil => simp
    | cons key documentKeys ih =>
      intro ids
      rw [List.foldl_cons, ih, Table.mem_keys_foldl_put, List.exists_mem_cons_iff, or_assoc]
  rw [batchIdsAffecting, hfold]
  simp only [Table.not_mem_keys_empty, false_or, h.mem_indexedBatchIds]
  tauto

/-- **The index finds the batches that write to one of the documents**, in order, and never
dangles. -/
theorem affectingKeys_eq (userId : String) (documentKeys : List DocumentKey) :
    db.allMutationBatchesAffectingDocumentKeys userId documentKeys =
      some ((db.pending userId).filter fun b => b.keys.any (· ∈ documentKeys)) := by
  have hids : ((db.pending userId).filter fun b => b.keys.any (· ∈ documentKeys)).map
      MutationBatch.batchID = (db.batchIdsAffecting userId documentKeys).keys := by
    refine Table.eq_keys (List.pairwise_map.mpr ((h.pairwise_pending userId).filter _)) fun id => ?_
    simp only [h.mem_batchIdsAffecting, List.mem_map, List.mem_filter, List.any_eq_true,
      decide_eq_true_eq]
    constructor
    · rintro ⟨batch, ⟨hbatch, key, hkey, hmem⟩, rfl⟩
      exact ⟨batch, h.mem_pending_iff.mp hbatch, key, hmem, hkey⟩
    · rintro ⟨batch, hbatch, key, hmem, hkey⟩
      exact ⟨batch, ⟨mem_pending.mpr ⟨id, hbatch⟩, key, hkey, hmem⟩, h.numbered _ _ hbatch⟩
  rw [allMutationBatchesAffectingDocumentKeys, allMutationBatchesWithIds, ← hids]
  refine mapM_map_eq_some fun b hb => ?_
  rw [seekBatch_eq]
  exact h.mem_pending_iff.mp (List.mem_filter.mp hb).1

/-- The pending batches after a number are the rows of the user from the key on at which the
search for them stops. -/
theorem pending_after_eq (userId : String) (batchId : BatchId) :
    (db.pending userId).filter (fun b => batchId < b.batchID) =
      ((db.mutations.seek fun k => k < ⟨userId, batchId + 1⟩).filter
        fun row => row.1.userId = userId).map Prod.snd := by
  rw [Table.seek_eq_filter (Table.key_before_of_lt _), pending, List.filter_map,
    List.filter_filter, List.filter_filter]
  refine congrArg _ (List.filter_congr fun row hrow => ?_)
  have hid := h.numbered _ _ (Table.get_eq_some.mpr hrow)
  have hlt : row.1.userId = userId →
      (row.1 < ⟨userId, batchId + 1⟩ ↔ row.1.batchId ≤ batchId) := by
    rintro rfl
    exact MutationKey.lt_next_iff
  refine Bool.eq_iff_iff.mpr ?_
  simp only [Function.comp_apply, hid, Bool.and_eq_true, decide_eq_true_eq, Bool.not_eq_true',
    decide_eq_false_iff_not]
  constructor
  · rintro ⟨hafter, huser⟩
    exact ⟨huser, fun hnot => hafter.not_ge ((hlt huser).mp hnot)⟩
  · rintro ⟨huser, hnot⟩
    exact ⟨not_le.mp fun hle => hnot ((hlt huser).mpr hle), huser⟩

/-- The first pending batch after a number. -/
theorem nextMutationBatch_eq (userId : String) {batchId : BatchId} (hlower : -1 ≤ batchId)
    (hupper : batchId < BatchId.max) :
    db.nextMutationBatchAfterBatchId userId batchId =
      ((db.pending userId).filter fun b => batchId < b.batchID).head? := by
  rw [h.pending_after_eq, nextMutationBatchAfterBatchId, BatchId.incremented_eq hlower hupper]
  have hsorted := db.mutations.seek_sorted fun k => k < ⟨userId, batchId + 1⟩
  split
  · rename_i hseek
    rw [hseek]
    rfl
  · rename_i row rows hseek
    rw [hseek] at hsorted ⊢
    by_cases huser : row.1.userId = userId
    · rw [if_neg (not_not.mpr huser), List.filter_cons_of_pos (by simpa using huser)]
      rfl
    · -- the search has left the rows of the user behind
      have hfirst : row ∈ db.mutations.seek fun k => k < ⟨userId, batchId + 1⟩ :=
        hseek ▸ List.mem_cons_self
      have hge : userId < row.1.userId := by
        have hnot := of_decide_eq_false ((Table.mem_seek (Table.key_before_of_lt _)).mp hfirst).2
        rw [MutationKey.lt_iff, not_or] at hnot
        exact lt_of_le_of_ne (not_lt.mp hnot.1) (Ne.symm huser)
      rw [if_pos huser, List.filter_eq_nil_iff.mpr]
      · rfl
      · intro row' hrow' heq
        rcases List.mem_cons.mp hrow' with rfl | hrow'
        · exact huser (of_decide_eq_true heq)
        · have hle := MutationKey.userId_le ((List.pairwise_cons.mp hsorted).1 row' hrow')
          exact (hge.trans_le hle).ne' (of_decide_eq_true heq)

/-! ### What the operations do -/

theorem add {batch : MutationBatch} (hnonneg : 0 ≤ batch.batchID)
    (hbounded : batch.batchID < BatchId.max)
    (hnew : ∀ u b, db.mutations.get ⟨u, batch.batchID⟩ ≠ some b) (userId : String) :
    (db.addMutationBatch userId batch).Valid where
  numbered k b hb := by
    rw [addMutationBatch, Table.get_put] at hb
    split at hb
    · rename_i hk
      obtain rfl := Option.some.inj hb
      rw [hk]
    · exact h.numbered k b hb
  nonneg k b hb := by
    rw [addMutationBatch, Table.get_put] at hb
    split at hb
    · rename_i hk
      rw [hk]
      exact hnonneg
    · exact h.nonneg k b hb
  bounded k b hb := by
    rw [addMutationBatch, Table.get_put] at hb
    split at hb
    · rename_i hk
      rw [hk]
      exact hbounded
    · exact h.bounded k b hb
  indexed k := by
    rw [addMutationBatch, ← Table.mem_keys_unit, Table.mem_keys_foldl_put, Table.mem_keys_unit,
      h.indexed, Table.get_put, indexKeys, List.mem_map]
    by_cases hk : (⟨k.userId, k.batchId⟩ : MutationKey) = ⟨userId, batch.batchID⟩
    · obtain ⟨huser, hid⟩ := MutationKey.mk.inj hk
      have hold : ¬ ∃ b, db.mutations.get ⟨k.userId, k.batchId⟩ = some b ∧
          k.documentKey ∈ b.keys := by
        rintro ⟨b, hb, -⟩
        exact hnew k.userId b (hid ▸ hb)
      rw [if_pos hk, or_iff_right hold]
      constructor
      · rintro ⟨mutation, hmutation, rfl⟩
        exact ⟨batch, rfl, List.mem_map_of_mem hmutation⟩
      · rintro ⟨b, hb, hkey⟩
        obtain rfl := Option.some.inj hb
        obtain ⟨mutation, hmutation, hkey⟩ := List.mem_map.mp hkey
        exact ⟨mutation, hmutation, by rw [hkey, ← huser, ← hid]⟩
    · rw [if_neg hk, or_iff_left]
      rintro ⟨mutation, -, rfl⟩
      exact hk rfl

/-- **A batch that is written goes to the end of its user's queue.** -/
theorem pending_add (batch : MutationBatch) (hnonneg : 0 ≤ batch.batchID)
    (hbounded : batch.batchID < BatchId.max)
    (hnew : ∀ k b, db.mutations.get k = some b → k.batchId < batch.batchID) (userId u : String) :
    (db.addMutationBatch userId batch).pending u =
      db.pending u ++ if u = userId then [batch] else [] := by
  have hvalid := h.add hnonneg hbounded (fun u b hb => (hnew _ b hb).false) userId
  have hget : ∀ b : MutationBatch, (db.addMutationBatch userId batch).mutations.get
      ⟨u, b.batchID⟩ = some b ↔
        db.mutations.get ⟨u, b.batchID⟩ = some b ∨ u = userId ∧ b = batch := by
    intro b
    rw [addMutationBatch, Table.get_put]
    split
    · rename_i hk
      obtain ⟨rfl, hid⟩ := MutationKey.mk.inj hk
      have hold : db.mutations.get ⟨u, b.batchID⟩ ≠ some b := fun hb =>
        (hid ▸ hnew _ b hb : b.batchID < b.batchID).false
      simp only [Option.some.injEq, hold, true_and, false_or, eq_comm]
    · rename_i hk
      refine (or_iff_left ?_).symm
      rintro ⟨rfl, rfl⟩
      exact hk rfl
  refine hvalid.eq_pending ?_ fun b => ?_
  · refine List.pairwise_append.mpr ⟨h.pairwise_pending u, by split <;> simp, fun b hb b' hb' => ?_⟩
    split at hb'
    · rw [List.mem_singleton.mp hb']
      exact hnew _ b (h.mem_pending_iff.mp hb)
    · cases hb'
  · rw [hget, List.mem_append, h.mem_pending_iff]
    refine or_congr_right ?_
    split <;> simp_all

theorem deleteBatch {batch : MutationBatch}
    (hbatch : db.mutations.get ⟨userId, batch.batchID⟩ = some batch) :
    (db.deleteBatch userId batch).Valid where
  numbered k b hb := by
    rw [LevelDb.deleteBatch, Table.get_erase] at hb
    split at hb
    · cases hb
    · exact h.numbered k b hb
  nonneg k b hb := by
    rw [LevelDb.deleteBatch, Table.get_erase] at hb
    split at hb
    · cases hb
    · exact h.nonneg k b hb
  bounded k b hb := by
    rw [LevelDb.deleteBatch, Table.get_erase] at hb
    split at hb
    · cases hb
    · exact h.bounded k b hb
  indexed k := by
    rw [LevelDb.deleteBatch, ← Table.mem_keys_unit, Table.mem_keys_foldl_erase,
      Table.mem_keys_unit, h.indexed, Table.get_erase, indexKeys, List.mem_map]
    by_cases hk : (⟨k.userId, k.batchId⟩ : MutationKey) = ⟨userId, batch.batchID⟩
    · obtain ⟨huser, hid⟩ := MutationKey.mk.inj hk
      rw [if_pos hk, hk, hbatch]
      simp only [Option.some.injEq, exists_eq_left', false_and, exists_false, iff_false, not_and,
        not_not, reduceCtorEq]
      intro hkey
      obtain ⟨mutation, hmutation, hkey⟩ := List.mem_map.mp hkey
      exact ⟨mutation, hmutation, by rw [hkey, ← huser, ← hid]⟩
    · rw [if_neg hk, and_iff_left]
      rintro ⟨mutation, -, rfl⟩
      exact hk rfl

/-- **A batch that is removed leaves the queue of its user, and no other does.** -/
theorem pending_deleteBatch {batch : MutationBatch}
    (hbatch : db.mutations.get ⟨userId, batch.batchID⟩ = some batch) (u : String) :
    (db.deleteBatch userId batch).pending u =
      (db.pending u).filter fun b => u ≠ userId ∨ b.batchID ≠ batch.batchID := by
  refine (h.deleteBatch hbatch).eq_pending ((h.pairwise_pending u).filter _) fun b => ?_
  rw [LevelDb.deleteBatch, Table.get_erase, List.mem_filter, h.mem_pending_iff, decide_eq_true_eq]
  by_cases hk : (⟨u, b.batchID⟩ : MutationKey) = ⟨userId, batch.batchID⟩
  · obtain ⟨hu, hid⟩ := MutationKey.mk.inj hk
    simp [hu, hid]
  · rw [if_neg hk, and_iff_left]
    exact not_and_or.mp fun hboth => hk (congrArg₂ MutationKey.mk hboth.1 hboth.2)

/-- The first batch of a queue leaves the rest behind. -/
theorem pending_deleteFirst {batch : MutationBatch} {rest : List MutationBatch}
    (hpending : db.pending userId = batch :: rest) (u : String) :
    (db.deleteBatch userId batch).pending u = if u = userId then rest else db.pending u := by
  have hbatch := h.mem_pending_iff.mp (hpending ▸ List.mem_cons_self)
  rw [h.pending_deleteBatch hbatch]
  split
  · rename_i hu
    have hsorted := h.pairwise_pending userId
    rw [hu, hpending] at *
    rw [List.filter_cons_of_neg (by simp), List.filter_eq_self]
    intro b hb
    simpa using ((List.pairwise_cons.mp hsorted).1 b hb).ne'
  · rename_i hu
    simp [hu]

end Valid

end LevelDb

/-! ### The next number -/

/-- The rows that the loop passes in one go are those of one user, so the last one has the
highest number of them. -/
theorem le_maxBatchId {rows : List (MutationKey × MutationBatch)}
    (h : rows.Pairwise fun row row' => row.1 < row'.1) (max : BatchId) :
    max ≤ maxBatchId rows max ∧ ∀ row ∈ rows, row.1.batchId ≤ maxBatchId rows max := by
  induction rows, max using maxBatchId.induct with
  | case1 max => simp [maxBatchId]
  | case2 row rows max last ih =>
    obtain ⟨hrow, hrows⟩ := List.pairwise_cons.mp h
    obtain ⟨hmax, hrest⟩ := ih (hrows.sublist (List.dropWhile_sublist _))
    rw [dite_eq_ite] at hmax
    simp only [dite_eq_ite] at hrest
    have hsegment : (row :: rows.takeWhile fun row' => row'.1.userId ≤ row.1.userId).Sublist
        (row :: rows) := (List.takeWhile_sublist _).cons_cons row
    have huser : ∀ row' ∈ row :: rows.takeWhile fun row' => row'.1.userId ≤ row.1.userId,
        row'.1.userId = row.1.userId := by
      intro row' hmem
      rcases List.mem_cons.mp hmem with rfl | hmem
      · rfl
      · have hle := List.mem_takeWhile_imp hmem
        exact le_antisymm (of_decide_eq_true hle)
          (MutationKey.userId_le (hrow row' ((List.takeWhile_sublist _).subset hmem)))
    have hsorted : (row :: rows.takeWhile fun row' => row'.1.userId ≤ row.1.userId).Pairwise
        fun row row' => row.1.batchId ≤ row'.1.batchId := by
      refine (h.sublist hsegment).imp_of_mem fun hr hr' hlt => ?_
      refine ((MutationKey.lt_iff.mp hlt).resolve_left ?_).2.le
      rw [huser _ hr, huser _ hr']
      exact lt_irrefl _
    have : Std.Refl fun row row' : MutationKey × MutationBatch => row.1.batchId ≤ row'.1.batchId :=
      ⟨fun row => le_refl row.1.batchId⟩
    have hlast : ∀ row' ∈ row :: rows.takeWhile fun row' => row'.1.userId ≤ row.1.userId,
        row'.1.batchId ≤ last.1.batchId := fun row' hmem => hsorted.rel_getLast hmem
    rw [maxBatchId]
    have hstep : max ≤ (if last.1.batchId > max then last.1.batchId else max) ∧
        last.1.batchId ≤ (if last.1.batchId > max then last.1.batchId else max) := by
      split
      · rename_i hgt
        exact ⟨hgt.le, le_refl _⟩
      · rename_i hle
        exact ⟨le_refl _, not_lt.mp hle⟩
    refine ⟨hstep.1.trans hmax, fun row' hmem => ?_⟩
    rw [← List.takeWhile_append_dropWhile (l := rows)
      (p := fun row' => row'.1.userId ≤ row.1.userId), ← List.cons_append, List.mem_append] at hmem
    rcases hmem with hmem | hmem
    · exact (hlast row' hmem).trans (hstep.2.trans hmax)
    · exact hrest row' hmem

theorem maxBatchId_lt {rows : List (MutationKey × MutationBatch)} {max bound : BatchId}
    (hmax : max < bound) (h : ∀ row ∈ rows, row.1.batchId < bound) :
    maxBatchId rows max < bound := by
  induction rows, max using maxBatchId.induct with
  | case1 max => rwa [maxBatchId]
  | case2 row rows max last ih =>
    have hlast : last ∈ row :: rows := by
      have hmem : last ∈ row :: rows.takeWhile fun row' => row'.1.userId ≤ row.1.userId :=
        List.getLast_mem _
      exact ((List.takeWhile_sublist _).cons_cons row).subset hmem
    rw [maxBatchId]
    refine ih ?_ fun row' hrow' =>
      h row' (List.mem_cons_of_mem row ((List.dropWhile_sublist _).subset hrow'))
    split
    · exact h last hlast
    · exact hmax

namespace LevelDb.Valid
variable {db : LevelDb} (h : db.Valid)
include h

/-- The next number is that of no batch, and it can be given out. -/
theorem loadNextBatchId_eq :
    loadNextBatchId db = maxBatchId db.mutations.rows batchIdUnknown + 1 := by
  refine BatchId.incremented_eq (le_maxBatchId db.mutations.sorted batchIdUnknown).1 ?_
  exact maxBatchId_lt (by decide) fun row hrow => h.bounded _ _ (Table.get_eq_some.mpr hrow)

theorem lt_loadNextBatchId {k : MutationKey} {batch : MutationBatch}
    (hk : db.mutations.get k = some batch) : k.batchId < loadNextBatchId db := by
  rw [h.loadNextBatchId_eq]
  exact Int.lt_add_one_iff.mpr
    ((le_maxBatchId db.mutations.sorted _).2 _ (Table.get_eq_some.mp hk))

theorem loadNextBatchId_nonneg : 0 ≤ loadNextBatchId db := by
  rw [h.loadNextBatchId_eq]
  exact Int.add_le_add_right (le_maxBatchId db.mutations.sorted batchIdUnknown).1 1

theorem loadNextBatchId_le : loadNextBatchId db ≤ BatchId.max := by
  rw [h.loadNextBatchId_eq]
  exact Int.add_one_le_iff.mpr
    (maxBatchId_lt (by decide) fun row hrow => h.bounded _ _ (Table.get_eq_some.mpr hrow))

end LevelDb.Valid

/-- The database of a new installation. -/
def LevelDb.new : LevelDb := ⟨.empty, .empty, .empty⟩

theorem LevelDb.new_valid : LevelDb.new.Valid where
  numbered _ _ h := by cases h
  nonneg _ _ h := by cases h
  bounded _ _ h := by cases h
  indexed _ := ⟨fun h => (by cases h), fun ⟨_, h, _⟩ => (by cases h)⟩

theorem loadNextBatchId_new : loadNextBatchId .new = 0 := by
  rw [loadNextBatchId, show LevelDb.new.mutations.rows = [] from rfl, maxBatchId]
  rfl

end Musgravite.Firestore
