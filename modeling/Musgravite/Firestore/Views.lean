import Musgravite.Firestore.Reports

/-! # Views of queries

An application that listens to a query does not have it executed again and again.  The sync engine
keeps a view of the query, which starts with what the query finds and then follows what the local
store reports.  `views_show_queries` says that the view shows what the query would
find now, except for documents that the backend has acknowledged and not yet sent. -/
namespace Musgravite.Firestore

namespace MaybeDocument

def hasLocalMutations : MaybeDocument → Bool
  | document _ _ state => state == .localMutations
  | _ => false

/-- Of a document; views do not hold anything else. -/
def hasCommittedMutations : MaybeDocument → Bool
  | document _ _ state => state == .committedMutations
  | _ => false

end MaybeDocument

inductive DocumentViewChangeType
  | removed
  | added
  | modified
  | metadata

structure DocumentViewChange where
  key : DocumentKey
  document : MaybeDocument
  type : DocumentViewChangeType

/-- A change, made by someone who follows the changes of a view. -/
def DocumentViewChange.applyTo (documents : MaybeDocumentMap) (change : DocumentViewChange) :
    MaybeDocumentMap :=
  match change.type with
  | .removed => documents.erase change.key
  | _ => documents.put change.key change.document

/-- What documents make of a view. -/
structure ViewDocumentChanges where
  documentSet : MaybeDocumentMap
  changeSet : List DocumentViewChange
  mutatedKeys : Table DocumentKey Unit

/-- `FSTView`, of a query without a limit. -/
structure View where
  query : Query
  documentSet : MaybeDocumentMap
  mutatedKeys : Table DocumentKey Unit

/-- The document was changed here and has been acknowledged; the backend will send it. -/
def shouldWaitForSyncedDocument (newDoc oldDoc : MaybeDocument) : Bool :=
  oldDoc.hasLocalMutations && newDoc.hasCommittedMutations && !newDoc.hasLocalMutations

namespace View

def new (query : Query) : View := ⟨query, .empty, .empty⟩

variable (view : View)

/-- The change that a document means for the view, if any. -/
def changeFor (key : DocumentKey) (newDoc : Option MaybeDocument) : Option DocumentViewChange :=
  match view.documentSet.get key, newDoc with
  | some oldDoc, some newDoc =>
      if oldDoc.data ≠ newDoc.data then
        if !shouldWaitForSyncedDocument newDoc oldDoc then some ⟨key, newDoc, .modified⟩ else none
      else
        let oldDocHadPendingMutations := (view.mutatedKeys.get key).isSome
        -- committed mutations only count for documents that were changed under the view
        let newDocHasPendingMutations := newDoc.hasLocalMutations ||
          ((view.mutatedKeys.get key).isSome && newDoc.hasCommittedMutations)
        if oldDocHadPendingMutations ≠ newDocHasPendingMutations then
          some ⟨key, newDoc, .metadata⟩
        else none
  | none, some newDoc => some ⟨key, newDoc, .added⟩
  | some oldDoc, none => some ⟨key, oldDoc, .removed⟩
  | none, none => none

/-- The body of the loop of `computeChangesWithDocuments`. -/
def computeChange (changes : ViewDocumentChanges) (kv : DocumentKey × MaybeDocument) :
    ViewDocumentChanges :=
  let newDoc := if view.query.isMatch kv.1 kv.2 then some kv.2 else none
  match view.changeFor kv.1 newDoc, newDoc with
  | none, _ => changes
  | some change, some newDoc =>
      { documentSet := changes.documentSet.put kv.1 newDoc
        changeSet := changes.changeSet ++ [change]
        mutatedKeys := if newDoc.hasLocalMutations then changes.mutatedKeys.put kv.1 ()
          else changes.mutatedKeys.erase kv.1 }
  | some change, none =>
      { documentSet := changes.documentSet.erase kv.1
        changeSet := changes.changeSet ++ [change]
        mutatedKeys := changes.mutatedKeys.erase kv.1 }

def computeChangesWithDocuments (docChanges : MaybeDocumentMap) : ViewDocumentChanges :=
  docChanges.rows.foldl view.computeChange ⟨view.documentSet, [], view.mutatedKeys⟩

def applyChangesToDocuments (docChanges : ViewDocumentChanges) : View :=
  { view with documentSet := docChanges.documentSet, mutatedKeys := docChanges.mutatedKeys }

/-- The view after documents, as `emitNewSnapshotsAndNotifyLocalStoreWithChanges` leaves it. -/
def hear (docChanges : MaybeDocumentMap) : View :=
  view.applyChangesToDocuments (view.computeChangesWithDocuments docChanges)

end View

/-! ## What a view shows -/

/-- A view shows a document with the data and the metadata with which it is found, unless it
waits for the backend to send it. -/
inductive Shows : Option MaybeDocument → Option MaybeDocument → Prop
  | nothing : Shows none none
  | same {doc doc' : MaybeDocument} (hdata : doc.data = doc'.data)
      (hlocal : doc.hasLocalMutations = doc'.hasLocalMutations) : Shows (some doc) (some doc')
  | waiting {doc doc' : MaybeDocument} (hwait : shouldWaitForSyncedDocument doc' doc = true) :
      Shows (some doc) (some doc')

theorem Shows.refl : ∀ d, Shows d d
  | none => .nothing
  | some _ => .same rfl rfl

/-- The sets of a view fit together, and show a document that is found. -/
structure ShowsAt (documentSet : MaybeDocumentMap) (mutatedKeys : Table DocumentKey Unit)
    (key : DocumentKey) (found : Option MaybeDocument) : Prop where
  shows : Shows (documentSet.get key) found
  pending : (mutatedKeys.get key).isSome =
    (documentSet.get key).any MaybeDocument.hasLocalMutations

namespace View
variable {view : View} {changes : ViewDocumentChanges} {key : DocumentKey} {doc : MaybeDocument}
  {found : Option MaybeDocument}

/-- A document that means no change is shown already. -/
theorem shows_of_changeFor_eq_none
    (hpending : (view.mutatedKeys.get key).isSome =
      (view.documentSet.get key).any MaybeDocument.hasLocalMutations)
    (h : view.changeFor key found = none) : Shows (view.documentSet.get key) found := by
  unfold changeFor at h
  cases hold : view.documentSet.get key with
  | none =>
    cases found with
    | none => exact .nothing
    | some newDoc => simp [hold] at h
  | some oldDoc =>
    cases found with
    | none => simp [hold] at h
    | some newDoc =>
      rw [hold, Option.any_some] at hpending
      simp only [hold, hpending] at h
      by_cases hdata : oldDoc.data = newDoc.data
      · rw [if_neg (not_not.mpr hdata)] at h
        have hsame : oldDoc.hasLocalMutations = (newDoc.hasLocalMutations ||
            (oldDoc.hasLocalMutations && newDoc.hasCommittedMutations)) := by
          by_contra hne
          rw [if_pos hne] at h
          cases h
        by_cases hlocal : oldDoc.hasLocalMutations = newDoc.hasLocalMutations
        · exact .same hdata hlocal
        · refine .waiting ?_
          rw [shouldWaitForSyncedDocument]
          revert hsame hlocal
          cases oldDoc.hasLocalMutations <;> cases newDoc.hasLocalMutations <;>
            cases newDoc.hasCommittedMutations <;> simp
      · rw [if_pos hdata] at h
        refine .waiting (Bool.of_not_eq_false fun hwait => ?_)
        rw [hwait] at h
        cases h

/-- One round of the loop, for its document. -/
theorem computeChange_showsAt (hdocuments : changes.documentSet.get key = view.documentSet.get key)
    (hmutated : changes.mutatedKeys.get key = view.mutatedKeys.get key)
    (hpending : (view.mutatedKeys.get key).isSome =
      (view.documentSet.get key).any MaybeDocument.hasLocalMutations) (doc : MaybeDocument) :
    ShowsAt (view.computeChange changes (key, doc)).documentSet
      (view.computeChange changes (key, doc)).mutatedKeys key
      ((some doc).filter (view.query.isMatch key)) := by
  have hfound : (some doc).filter (view.query.isMatch key) =
      if view.query.isMatch key doc then some doc else none := rfl
  rw [hfound, computeChange]
  dsimp only
  generalize (if view.query.isMatch key doc then some doc else none) = found
  cases hchange : view.changeFor key found with
  | none =>
    exact ⟨hdocuments ▸ shows_of_changeFor_eq_none hpending hchange,
      by rw [hmutated, hdocuments, hpending]⟩
  | some change =>
    cases found with
    | none => exact ⟨by simp [Table.get_erase, Shows.nothing], by simp [Table.get_erase]⟩
    | some newDoc =>
      refine ⟨by simp [Shows.refl], ?_⟩
      dsimp only
      rw [Table.get_put_self, Option.any_some]
      cases newDoc.hasLocalMutations <;> simp [Table.get_erase]

theorem computeChange_of_ne (view : View) (changes : ViewDocumentChanges)
    {kv : DocumentKey × MaybeDocument} (hk : key ≠ kv.1) :
    (view.computeChange changes kv).documentSet.get key = changes.documentSet.get key ∧
      (view.computeChange changes kv).mutatedKeys.get key = changes.mutatedKeys.get key := by
  rw [computeChange]
  split
  · exact ⟨rfl, rfl⟩
  · refine ⟨Table.get_put_of_ne _ _ hk, ?_⟩
    dsimp only
    split
    · exact Table.get_put_of_ne _ _ hk
    · rw [Table.get_erase, if_neg hk]
  · exact ⟨by simp only [Table.get_erase, if_neg hk], by simp only [Table.get_erase, if_neg hk]⟩

theorem applyTo_of_changeFor {change : DocumentViewChange}
    (h : view.changeFor key found = some change) (documents : MaybeDocumentMap) :
    change.applyTo documents = found.elim (documents.erase key) (documents.put key) := by
  unfold changeFor at h
  split at h
  · split at h
    · split at h
      · rw [← Option.some.inj h]
        rfl
      · cases h
    · dsimp only at h
      split at h
      · rw [← Option.some.inj h]
        rfl
      · cases h
  · rw [← Option.some.inj h]
    rfl
  · rw [← Option.some.inj h]
    rfl
  · cases h

/-- **The changes of a view tell what it shows**: made one after the other on what it has
shown, they give what it shows. -/
theorem foldl_applyTo_changeSet (view : View) (docs : MaybeDocumentMap) :
    (view.computeChangesWithDocuments docs).changeSet.foldl DocumentViewChange.applyTo
      view.documentSet = (view.hear docs).documentSet := by
  rw [hear, applyChangesToDocuments, computeChangesWithDocuments]
  refine List.foldlRecOn docs.rows view.computeChange
    (motive := fun changes : ViewDocumentChanges =>
      changes.changeSet.foldl DocumentViewChange.applyTo view.documentSet = changes.documentSet)
    rfl fun changes hchanges kv _ => ?_
  rw [computeChange]
  split
  · exact hchanges
  · rename_i change newDoc hchange hfound
    rw [List.foldl_append, hchanges, List.foldl_cons, List.foldl_nil,
      applyTo_of_changeFor hchange, hfound]
    rfl
  · rename_i change hchange hfound
    rw [List.foldl_append, hchanges, List.foldl_cons, List.foldl_nil,
      applyTo_of_changeFor hchange, hfound]
    rfl

/-- **What a view shows after documents**: those, as far as its query matches them, and
otherwise what it has shown before. -/
theorem hear_showsAt (view : View) (docs : MaybeDocumentMap) (key : DocumentKey)
    (hpending : (view.mutatedKeys.get key).isSome =
      (view.documentSet.get key).any MaybeDocument.hasLocalMutations) :
    (docs.get key = none → (view.hear docs).documentSet.get key = view.documentSet.get key ∧
        (view.hear docs).mutatedKeys.get key = view.mutatedKeys.get key) ∧
      ∀ doc, docs.get key = some doc → ShowsAt (view.hear docs).documentSet
        (view.hear docs).mutatedKeys key ((some doc).filter (view.query.isMatch key)) := by
  have hfold : ∀ (rows : List (DocumentKey × MaybeDocument)),
      rows.Pairwise (fun row row' => row.1 < row'.1) → ∀ changes : ViewDocumentChanges,
      ((∀ row ∈ rows, row.1 ≠ key) →
        (rows.foldl view.computeChange changes).documentSet.get key =
            changes.documentSet.get key ∧
          (rows.foldl view.computeChange changes).mutatedKeys.get key =
            changes.mutatedKeys.get key) ∧
      (changes.documentSet.get key = view.documentSet.get key →
        changes.mutatedKeys.get key = view.mutatedKeys.get key → ∀ doc, (key, doc) ∈ rows →
          ShowsAt (rows.foldl view.computeChange changes).documentSet
            (rows.foldl view.computeChange changes).mutatedKeys key
            ((some doc).filter (view.query.isMatch key))) := by
    intro rows hrows
    induction hrows with
    | nil => exact fun changes => ⟨fun _ => ⟨rfl, rfl⟩, fun _ _ _ hdoc => by cases hdoc⟩
    | @cons row rows hrow _ ih =>
      intro changes
      obtain ⟨hkept, hshows⟩ := ih (view.computeChange changes row)
      rw [List.foldl_cons]
      refine ⟨fun hne => ?_, fun hdocuments hmutated doc hdoc => ?_⟩
      · obtain ⟨hne, hrest⟩ := List.forall_mem_cons.mp hne
        obtain ⟨hdocuments, hmutated⟩ := computeChange_of_ne view changes (Ne.symm hne)
        exact ⟨(hkept hrest).1.trans hdocuments, (hkept hrest).2.trans hmutated⟩
      · rcases List.mem_cons.mp hdoc with rfl | hdoc
        · -- the other rows leave the document alone
          obtain ⟨hdocuments', hmutated'⟩ := hkept fun row' hrow' => (hrow row' hrow').ne'
          have hround := computeChange_showsAt hdocuments hmutated hpending doc
          exact ⟨hdocuments' ▸ hround.shows, by rw [hdocuments', hmutated', hround.pending]⟩
        · obtain ⟨hdocuments', hmutated'⟩ := computeChange_of_ne view changes
            (hrow _ hdoc).ne'
          exact hshows (hdocuments'.trans hdocuments) (hmutated'.trans hmutated) doc hdoc
  obtain ⟨hkept, hshows⟩ := hfold docs.rows docs.sorted ⟨view.documentSet, [], view.mutatedKeys⟩
  exact ⟨fun hnone => hkept (Table.get_eq_none.mp hnone),
    fun doc hdoc => hshows rfl rfl doc (Table.get_eq_some.mp hdoc)⟩

end View

/-- The view shows what its query finds now. -/
def View.Current (view : View) (s : LocalStore) : Prop :=
  ∀ key, ShowsAt view.documentSet view.mutatedKeys key
    ((s.view key).filter (view.query.isMatch key))

section Current
variable {view : View} {s t : LocalStore} {docs : MaybeDocumentMap} {query : Query}

/-- Queries only match documents. -/
theorem filter_isMatch (query : Query) (key : DocumentKey) (d : Option MaybeDocument) :
    (asDocument d).filter (query.isMatch key) = d.filter (query.isMatch key) := by
  rw [asDocument, Option.filter_filter]
  refine congrArg (Option.filter · d) (funext fun doc => ?_)
  cases doc <;> simp [Query.isMatch, MaybeDocument.isDocument, MaybeDocument.data]

/-- **A view that hears what is reported stays current.** -/
theorem View.Current.hear (h : view.Current s) (hreports : s.Reports t docs) :
    (view.hear docs).Current t := by
  intro key
  obtain ⟨hkept, htold⟩ := view.hear_showsAt docs key (h key).pending
  cases hdoc : docs.get key with
  | none =>
    obtain ⟨hdocuments, hmutated⟩ := hkept hdoc
    rw [hreports.kept key hdoc]
    exact ⟨hdocuments ▸ (h key).shows, by rw [hdocuments, hmutated, (h key).pending]⟩
  | some doc =>
    have hsame : (some doc).filter (view.query.isMatch key) =
        (t.view key).filter (view.query.isMatch key) := by
      rw [← filter_isMatch, hreports.told key doc hdoc, filter_isMatch]
    exact hsame ▸ htold doc hdoc

/-- A new view shows what its query finds. -/
theorem LocalStore.Good.listen_current (h : s.Good)
    (hplain : ∀ batch ∈ s.db.pending s.userId, PlainWrite batch.mutations) (query : Query) :
    ∃ docs, s.executeQuery query = some docs ∧ ((View.new query).hear docs).Current s := by
  obtain ⟨docs, hdocs, hget⟩ := h.executeQuery_eq hplain query
  refine ⟨docs, hdocs, fun key => ?_⟩
  obtain ⟨hkept, htold⟩ := (View.new query).hear_showsAt docs key rfl
  show ShowsAt _ _ key ((s.view key).filter (query.isMatch key))
  rw [← hget]
  cases hdoc : docs.get key with
  | none =>
    obtain ⟨hdocuments, hmutated⟩ := hkept hdoc
    exact ⟨hdocuments ▸ .nothing, by rw [hdocuments, hmutated]; rfl⟩
  | some doc =>
    have hmatch : (some doc).filter (query.isMatch key) = some doc := by
      rw [← hdoc, hget, Option.filter_filter]
      simp only [Bool.and_self]
    exact hmatch ▸ htold doc hdoc

end Current

/-! ## Views in a run -/

section Runs
open SyncEngine
variable {Completion : Type*} {c c' : SyncEngine Completion} {db : LevelDb} {user : String}
  {as bs : List (SyncEvent Completion)}

namespace SyncEngine

/-- What is asked of the local store in an event, and what it answers. -/
def operation (c : SyncEngine Completion) :
    SyncEvent Completion → Option (LocalStore × MaybeDocumentMap)
  | .write mutations hne _ => c.localStore.locallyWriteMutations mutations hne
  | .mutationResponse mutationResults =>
      c.remoteStore.writePipeline.head?.bind fun batch =>
        c.localStore.acknowledgeBatchWithResult ⟨batch, mutationResults⟩
  | .streamFinish (some error) =>
      if error.isPermanentWriteError && c.remoteStore.writeStream.handshakeComplete then
        c.remoteStore.writePipeline.head?.bind fun batch =>
          c.localStore.rejectBatchID batch.batchID
      else none
  | .credentialChange user =>
      if c.currentUser ≠ user then c.localStore.userDidChange user else none
  | .remoteEvent documentUpdates authoritative =>
      c.localStore.applyRemoteEvent documentUpdates authoritative
  | _ => none

/-- The documents that the views hear of in an event. -/
def reported (c : SyncEngine Completion) (e : SyncEvent Completion) : MaybeDocumentMap :=
  ((c.operation e).map Prod.snd).getD .empty

theorem reported_eq {e : SyncEvent Completion} {s : LocalStore} {docs : MaybeDocumentMap}
    (h : c.operation e = some (s, docs)) : c.reported e = docs := by
  rw [reported, h]
  rfl

end SyncEngine

/-- A write whose report can be trusted: if it has several mutations of a document, they can be
repeated. -/
def Told (x : Option (SyncEngine Completion)) : SyncEvent Completion → Prop
  | .write mutations _ _ => PlainWrite mutations ∧ ∀ c ∈ x, ∀ key maybeDoc,
      c.localStore.getDocument key = some maybeDoc →
        1 < (mutations.map Mutation.key).count key → Repeatable mutations key maybeDoc
  | _ => True

/-- The first batch of the pipeline is that of the first write that was sent. -/
theorem SyncEngine.Running.head_pipeline (h : c.Running) {batch : MutationBatch}
    {rest : List MutationBatch}
    (hpending : c.localStore.db.pending c.currentUser = batch :: rest)
    (hsent : c.remoteStore.writeStream.unanswered.head? = some batch.mutations) :
    c.remoteStore.writePipeline.head? = some batch ∧
      c.remoteStore.writeStream.handshakeComplete = true := by
  obtain ⟨batch', writePipeline, rest', -, hpipeline, hpending', -, hready, -⟩ :=
    h.first_sent hsent
  obtain ⟨rfl, rfl⟩ := List.cons.inj (hpending.symm.trans hpending')
  rw [hpipeline]
  exact ⟨rfl, (Bool.and_eq_true_iff.mp hready).2⟩

theorem SyncEngine.Running.operation_of_quiet (h : c.Running) {e : SyncEvent Completion}
    (hquiet : c.Quiet e) : c.operation e = none := by
  cases e with
  | write _ _ _ => exact hquiet.elim
  | credentialChange _ => exact hquiet.elim
  | remoteEvent _ _ => exact hquiet.elim
  | mutationResponse _ => exact hquiet.elim
  | streamFinish status =>
    cases status with
    | none => rfl
    | some error =>
      rw [operation]
      split
      · rename_i hreject
        obtain ⟨hpermanent, hhand⟩ := Bool.and_eq_true_iff.mp hreject
        have hready : c.remoteStore.writeStream.isReady = true :=
          Bool.and_eq_true_iff.mpr ⟨h.settled.handshake hhand, hhand⟩
        have hunanswered := h.settled.sound.unanswered
        rw [if_pos hready, hquiet hpermanent, eq_comm, List.map_eq_nil_iff] at hunanswered
        rw [hunanswered]
        rfl
      · rfl
  | _ => rfl

/-- **What the views hear of is enough.** -/
theorem SyncEngine.Running.reports_next (h : c.Running) {e : SyncEvent Completion}
    {calls : List (CompletionCall Completion)} (hnext : c.Next e c' calls)
    (he : Told (some c) e) : c.localStore.Reports c'.localStore (c.reported e) := by
  cases hnext with
  | write mutations hne completion hnumber huser hlocal hblocks =>
    obtain ⟨docs, hwrite, hreports⟩ := h.good.write_reports hnumber hne
      (fun mutation hmutation => (he.1.plain mutation hmutation).precondition_ne)
      fun key hcount => he.2 c rfl key _ (h.good.getDocument_eq key) hcount
    have hoperation : c.operation (.write mutations hne completion) = _ := hwrite
    rwa [hlocal, reported_eq hoperation]
  | accepted mutationResults batch rest remoteDocuments hpending hsent hanswered huser hlocal
      hdocuments hblocks =>
    obtain ⟨remoteDocuments', docs, hacknowledge, hget, hreports⟩ :=
      h.good.acknowledge_reports hanswered (h.user ▸ hpending)
    obtain rfl : remoteDocuments' = remoteDocuments :=
      Table.ext fun key => (hget key).trans (hdocuments key).symm
    have hoperation : c.operation (.mutationResponse mutationResults) = _ :=
      (congrArg (Option.bind · _) (h.head_pipeline hpending hsent).1).trans hacknowledge
    rwa [hlocal, reported_eq hoperation]
  | rejected error batch rest hpermanent hpending hsent huser hlocal hblocks =>
    obtain ⟨docs, hreject, hreports⟩ := h.good.reject_reports (h.user ▸ hpending)
    obtain ⟨hhead, hhand⟩ := h.head_pipeline hpending hsent
    have hoperation : c.operation (.streamFinish (some error)) =
        some (c.localStore.without batch c.localStore.db.remoteDocuments, docs) := by
      rw [operation, if_pos (Bool.and_eq_true_iff.mpr ⟨hpermanent, hhand⟩), hhead]
      exact hreject
    rwa [hlocal, reported_eq hoperation]
  | credential user huser hlocal hblocks =>
    by_cases hsame : c.currentUser = user
    · have hoperation : c.operation (.credentialChange user) = none := if_neg (not_not.mpr hsame)
      rw [hlocal, if_neg (not_not.mpr hsame), reported, hoperation]
      exact .empty rfl
    · obtain ⟨docs, hchange, hreports⟩ := h.good.userDidChange_reports user
      have hoperation : c.operation (.credentialChange user) = _ :=
        (if_pos hsame).trans hchange
      rwa [hlocal, if_pos hsame, reported_eq hoperation]
  | remote documentUpdates authoritative huser hlocal hblocks =>
    obtain ⟨docs, hevent, hreports⟩ :=
      h.good.applyRemoteEvent_reports documentUpdates authoritative
    have hoperation : c.operation (.remoteEvent documentUpdates authoritative) = _ := hevent
    rwa [hlocal, reported_eq hoperation]
  | quiet e hquiet remoteStore =>
    rw [reported, h.operation_of_quiet hquiet]
    exact .empty rfl

/-- What the views hear in a run. -/
def reportedIn (c : SyncEngine Completion) (bs : List (SyncEvent Completion)) :
    List MaybeDocumentMap :=
  (machine Completion).trace (fun x e => match x with
    | some c => [c.reported e]
    | none => []) (some c) bs

/-- The views of a run, and the batches that wait in it. -/
theorem run_current (hc : c.Running)
    (hplain : ∀ u, ∀ batch ∈ c.localStore.db.pending u, PlainWrite batch.mutations)
    (hrun : (machine Completion).run (some c) bs = some (some c'))
    (hmeets : (machine Completion).Meets Told (some c) bs) {view : View}
    (hview : view.Current c.localStore) :
    ((reportedIn c bs).foldl View.hear view).Current c'.localStore ∧
      ∀ u, ∀ batch ∈ c'.localStore.db.pending u, PlainWrite batch.mutations := by
  refine (machine Completion).run_history (P := fun bs x => ∀ d, x = some d →
    (machine Completion).Meets Told (some c) bs →
      ((reportedIn c bs).foldl View.hear view).Current d.localStore ∧
        ∀ u, ∀ batch ∈ d.localStore.db.pending u, PlainWrite batch.mutations) ?_ ?_ hrun c' rfl
    hmeets
  · rintro d hd -
    obtain rfl := Option.some.inj hd
    exact ⟨hview, hplain⟩
  · rintro bs x e y hbefore ih hstep d' rfl hmeets
    cases x with
    | none => cases hstep
    | some d =>
      obtain ⟨hmeets, he⟩ := ((machine Completion).meets_append _ hbefore _).mp hmeets
      obtain ⟨hcurrent, hplain⟩ := ih d rfl hmeets
      have hrunning := run_running hc hbefore
      obtain ⟨calls, -, -, hnext⟩ := step_next hrunning hstep
      rw [reportedIn, (machine Completion).trace_snoc _ hbefore hstep, List.foldl_append]
      refine ⟨hcurrent.hear (hrunning.reports_next hnext he.1), fun u b hb => ?_⟩
      rcases mem_pending_next hrunning hnext hb with hb | ⟨hne, completion, rfl⟩
      · exact hplain u b hb
      · exact he.1.1

end Runs

end Musgravite.Firestore
