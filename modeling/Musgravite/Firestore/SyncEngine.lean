import Musgravite.Firestore.RemoteStore
import Musgravite.Library.TransitionSystem

/-! # The sync engine

The sync engine takes the writes of the application, keeps their completion blocks and calls
them when the backend has answered.  Its runs are lists of events: what the
application does, what the network and the backend do, and the timers.

`Running` is the invariant of all of them, with one lemma for each event, and `Next` is what an
event does to a running client.  No event fails an assertion in such a state but the end of a
stream with status OK while writes are on their way (`Running.handle_next`). -/
namespace Musgravite.Firestore

/-- A completion block that is called, and the error it is given. -/
structure CompletionCall (Completion : Type*) where
  completion : Completion
  error : Status

/-- `FSTSyncEngine` with the stores below it. -/
structure SyncEngine (Completion : Type*) where
  currentUser : String
  localStore : LocalStore
  remoteStore : RemoteStore
  mutationCompletionBlocks : Table MutationKey Completion

namespace SyncEngine
variable {Completion : Type*}

/-- The client when it has started, before the network is enabled. -/
def start (db : LevelDb) (user : String) : SyncEngine Completion :=
  ⟨user, LocalStore.start db user, .new, .empty⟩

variable (c : SyncEngine Completion)

def addMutationCompletionBlock (completion : Completion) (batchID : BatchId) :
    SyncEngine Completion :=
  { c with mutationCompletionBlocks :=
      c.mutationCompletionBlocks.put ⟨c.currentUser, batchID⟩ completion }

def fillWritePipeline : Option (SyncEngine Completion) :=
  (c.remoteStore.fillWritePipeline c.localStore).map fun remoteStore => { c with remoteStore }

/-- `none` is a failed assertion, here and below. -/
def writeMutations (mutations : List Mutation) (hne : mutations ≠ []) (completion : Completion) :
    Option (SyncEngine Completion) :=
  (c.localStore.locallyWriteMutations mutations hne).bind fun result =>
    (({ c with localStore := result.1 } : SyncEngine Completion).addMutationCompletionBlock
      completion c.localStore.nextBatchId).fillWritePipeline

/-- Batches of an earlier session have no completion block. -/
def processUserCallbacksForBatchID (batchID : BatchId) (error : Status) :
    SyncEngine Completion × List (CompletionCall Completion) :=
  match c.mutationCompletionBlocks.get ⟨c.currentUser, batchID⟩ with
  | some completion =>
      ({ c with mutationCompletionBlocks :=
          c.mutationCompletionBlocks.erase ⟨c.currentUser, batchID⟩ }, [⟨completion, error⟩])
  | none => (c, [])

def applySuccessfulWriteWithResult (batchResult : MutationBatchResult) :
    Option (SyncEngine Completion × List (CompletionCall Completion)) :=
  let (c, calls) := c.processUserCallbacksForBatchID batchResult.batch.batchID none
  (c.localStore.acknowledgeBatchWithResult batchResult).map fun result =>
    ({ c with localStore := result.1 }, calls)

def rejectFailedWriteWithBatchID (batchID : BatchId) (error : ErrorCode) :
    Option (SyncEngine Completion × List (CompletionCall Completion)) :=
  (c.localStore.rejectBatchID batchID).map fun result =>
    ({ c with localStore := result.1 } : SyncEngine Completion).processUserCallbacksForBatchID
      batchID (some error)

def onWriteStreamMutationResult (mutationResults : List MutationResult) :
    Option (SyncEngine Completion × List (CompletionCall Completion)) :=
  match c.remoteStore.writePipeline with
  | [] => none
  | batch :: writePipeline =>
    if batch.mutations.length ≠ mutationResults.length then none
    else
      (({ c with remoteStore := { c.remoteStore with writePipeline } } :
          SyncEngine Completion).applySuccessfulWriteWithResult ⟨batch, mutationResults⟩).bind
        fun (c, calls) => c.fillWritePipeline.map fun c => (c, calls)

/-- `NotifyStreamResponse` for the answer to the first of the unanswered writes. -/
def notifyMutationResponse (mutationResults : List MutationResult) :
    Option (SyncEngine Completion × List (CompletionCall Completion)) :=
  ({ c with remoteStore := { c.remoteStore with writeStream := { c.remoteStore.writeStream with
      unanswered := c.remoteStore.writeStream.unanswered.tail } } } :
    SyncEngine Completion).onWriteStreamMutationResult mutationResults

def handleWriteError (error : ErrorCode) :
    Option (SyncEngine Completion × List (CompletionCall Completion)) :=
  if !error.isPermanentWriteError then some (c, [])
  else match c.remoteStore.writePipeline with
  | [] => none
  | batch :: writePipeline =>
    c.remoteStore.writeStream.inhibitBackoff.bind fun writeStream =>
      (({ c with remoteStore := { c.remoteStore with writePipeline, writeStream } } :
          SyncEngine Completion).rejectFailedWriteWithBatchID batch.batchID error).bind
        fun (c, calls) => c.fillWritePipeline.map fun c => (c, calls)

/-- An error before the handshake only concerns the stream token. -/
def onWriteStreamClose (error : ErrorCode) :
    Option (SyncEngine Completion × List (CompletionCall Completion)) :=
  (if !c.remoteStore.writePipeline.isEmpty && c.remoteStore.writeStream.handshakeComplete then
      c.handleWriteError error
    else some (c, [])).bind fun (c, calls) =>
    if c.remoteStore.shouldStartWriteStream then
      c.remoteStore.startWriteStream.map fun remoteStore => ({ c with remoteStore }, calls)
    else some (c, calls)

/-- `OnStreamFinish`. -/
def onStreamFinish (status : Status) :
    Option (SyncEngine Completion × List (CompletionCall Completion)) :=
  match status with
  | none => c.remoteStore.closeWriteStream.map fun remoteStore => ({ c with remoteStore }, [])
  | some error =>
    (c.remoteStore.writeStream.close status).bind fun writeStream =>
      (({ c with remoteStore := { c.remoteStore with writeStream } } :
          SyncEngine Completion).onWriteStreamClose error).map fun (c, calls) =>
        -- the handshake is only forgotten now
        ({ c with remoteStore := { c.remoteStore with
          writeStream := { c.remoteStore.writeStream with handshakeComplete := false } } }, calls)

def credentialDidChangeWithUser (user : String) : Option (SyncEngine Completion) :=
  (if c.currentUser ≠ user then (c.localStore.userDidChange user).map Prod.fst
    else some c.localStore).bind fun localStore =>
    (c.remoteStore.handleCredentialChange localStore).map fun remoteStore =>
      { c with currentUser := user, localStore, remoteStore }

def applyRemoteEvent (documentUpdates : MaybeDocumentMap) (authoritative : List DocumentKey) :
    Option (SyncEngine Completion) :=
  (c.localStore.applyRemoteEvent documentUpdates authoritative).map fun result =>
    { c with localStore := result.1 }

end SyncEngine

/-! ## Events -/

/-- What happens on the worker queue. -/
inductive SyncEvent (Completion : Type*)
  | write (mutations : List Mutation) (hne : mutations ≠ []) (completion : Completion)
  | enableNetwork
  | disableNetwork
  | credentialChange (user : String)
  | remoteEvent (documentUpdates : MaybeDocumentMap) (authoritative : List DocumentKey)
  | streamStart
  | handshakeResponse
  | mutationResponse (mutationResults : List MutationResult)
  | streamFinish (status : Status)
  | backoffElapsed
  | idleTimeout

namespace SyncEngine
variable {Completion : Type*} (c : SyncEngine Completion)

/-- What the network, the backend and the timers can do.  The backend answers the writes in
the order in which they were sent; a stream that is starting fails for want of credentials.
A write is made while its number is not the greatest, which is not given out. -/
def Enabled : SyncEvent Completion → Prop
  | .write _ _ _ => c.localStore.nextBatchId < BatchId.max
  | .streamStart => c.remoteStore.writeStream.state = .starting
  | .handshakeResponse =>
      c.remoteStore.writeStream.isOpen = true ∧ c.remoteStore.writeStream.handshakeComplete = false
  | .mutationResponse mutationResults =>
      ∃ mutations ∈ c.remoteStore.writeStream.unanswered.head?,
        List.Forall₂ MutationResult.Answers mutationResults mutations
  | .streamFinish status =>
      c.remoteStore.writeStream.isOpen = true ∨
        c.remoteStore.writeStream.state = .starting ∧ status ≠ none
  | .backoffElapsed => c.remoteStore.writeStream.state = .backoff
  | .idleTimeout => c.remoteStore.writeStream.idlenessTimer = true
  | _ => True

instance : ∀ e : SyncEvent Completion, Decidable (c.Enabled e)
  | .streamStart => inferInstanceAs (Decidable (c.remoteStore.writeStream.state = .starting))
  | .handshakeResponse => inferInstanceAs (Decidable (_ ∧ _))
  | .mutationResponse mutationResults => inferInstanceAs (Decidable (∃ mutations ∈
      c.remoteStore.writeStream.unanswered.head?,
        List.Forall₂ MutationResult.Answers mutationResults mutations))
  | .streamFinish _ => inferInstanceAs (Decidable (_ ∨ _ ∧ _))
  | .backoffElapsed => inferInstanceAs (Decidable (c.remoteStore.writeStream.state = .backoff))
  | .idleTimeout => inferInstanceAs (Decidable (_ = true))
  | .write _ _ _ => inferInstanceAs (Decidable (c.localStore.nextBatchId < BatchId.max))
  | .enableNetwork => isTrue trivial
  | .disableNetwork => isTrue trivial
  | .credentialChange _ => isTrue trivial
  | .remoteEvent _ _ => isTrue trivial

/-- The event, with the completion blocks that are called. -/
def handle : SyncEvent Completion →
    Option (SyncEngine Completion × List (CompletionCall Completion))
  | .write mutations hne completion =>
      (c.writeMutations mutations hne completion).map fun c => (c, [])
  | .enableNetwork =>
      (c.remoteStore.enableNetwork c.localStore).map fun remoteStore => ({ c with remoteStore }, [])
  | .disableNetwork =>
      c.remoteStore.disableNetwork.map fun remoteStore => ({ c with remoteStore }, [])
  | .credentialChange user => (c.credentialDidChangeWithUser user).map fun c => (c, [])
  | .remoteEvent documentUpdates authoritative =>
      (c.applyRemoteEvent documentUpdates authoritative).map fun c => (c, [])
  | .streamStart => c.remoteStore.onStreamStart.map fun remoteStore => ({ c with remoteStore }, [])
  | .handshakeResponse =>
      c.remoteStore.notifyHandshakeResponse.map fun remoteStore => ({ c with remoteStore }, [])
  | .mutationResponse mutationResults => c.notifyMutationResponse mutationResults
  | .streamFinish status => c.onStreamFinish status
  | .backoffElapsed =>
      c.remoteStore.writeStream.backoffElapsed.map fun writeStream =>
        ({ c with remoteStore := { c.remoteStore with writeStream } }, [])
  | .idleTimeout =>
      c.remoteStore.stopWriteStream.map fun remoteStore => ({ c with remoteStore }, [])

end SyncEngine

/-- The runs of the client.  No event follows a failed assertion. -/
def machine (Completion : Type*) :
    TransitionSystem (Option (SyncEngine Completion)) (SyncEvent Completion) where
  step x e := x.bind fun c => if c.Enabled e then some ((c.handle e).map Prod.fst) else none

/-! ## What an event does -/

/-- The local store without a batch, and with these cached documents. -/
def LocalStore.without (s : LocalStore) (batch : MutationBatch)
    (remoteDocuments : MaybeDocumentMap) : LocalStore :=
  { s with db := { s.db.deleteBatch s.userId batch with remoteDocuments } }

namespace SyncEngine
variable {Completion : Type*} {c : SyncEngine Completion}

/-- The call of the completion block of a batch, if it has one. -/
def callsFor (c : SyncEngine Completion) (batchID : BatchId) (error : Status) :
    List (CompletionCall Completion) :=
  ((c.mutationCompletionBlocks.get ⟨c.currentUser, batchID⟩).map fun completion =>
    (⟨completion, error⟩ : CompletionCall Completion)).toList

theorem processUserCallbacksForBatchID_eq (c : SyncEngine Completion) (batchID : BatchId)
    (error : Status) :
    c.processUserCallbacksForBatchID batchID error =
      ({ c with mutationCompletionBlocks :=
          c.mutationCompletionBlocks.erase ⟨c.currentUser, batchID⟩ },
        c.callsFor batchID error) := by
  rw [processUserCallbacksForBatchID, callsFor]
  split
  · rename_i completion hblock
    rw [hblock]
    rfl
  · rename_i hblock
    rw [hblock, Table.erase_of_get_eq_none hblock]
    rfl

theorem applySuccessfulWriteWithResult_eq {batchResult : MutationBatchResult}
    {result : LocalStore × MaybeDocumentMap}
    (h : c.localStore.acknowledgeBatchWithResult batchResult = some result) :
    c.applySuccessfulWriteWithResult batchResult = some ({ c with
      localStore := result.1
      mutationCompletionBlocks :=
        c.mutationCompletionBlocks.erase ⟨c.currentUser, batchResult.batch.batchID⟩ },
      c.callsFor batchResult.batch.batchID none) := by
  rw [applySuccessfulWriteWithResult, processUserCallbacksForBatchID_eq]
  simp only [h, Option.map_some]

theorem rejectFailedWriteWithBatchID_eq {batchID : BatchId}
    {result : LocalStore × MaybeDocumentMap}
    (h : c.localStore.rejectBatchID batchID = some result) (error : ErrorCode) :
    c.rejectFailedWriteWithBatchID batchID error = some ({ c with
      localStore := result.1
      mutationCompletionBlocks := c.mutationCompletionBlocks.erase ⟨c.currentUser, batchID⟩ },
      c.callsFor batchID (some error)) := by
  rw [rejectFailedWriteWithBatchID, h, Option.map_some, processUserCallbacksForBatchID_eq]
  rfl

/-- The client when an error has closed the stream, before the remote store is told. -/
def broken (c : SyncEngine Completion) : SyncEngine Completion :=
  { c with remoteStore := { c.remoteStore with writeStream := { c.remoteStore.writeStream with
      state := .error, idlenessTimer := false, unanswered := [] } } }

/-- The stream is closed, and the handshake is forgotten in the end. -/
theorem onStreamFinish_eq {error : ErrorCode} {d : SyncEngine Completion}
    {calls : List (CompletionCall Completion)}
    (hstarted : c.remoteStore.writeStream.isStarted = true)
    (h : c.broken.onWriteStreamClose error = some (d, calls)) :
    c.onStreamFinish (some error) = some ({ d with
      remoteStore := { d.remoteStore with writeStream := { d.remoteStore.writeStream with
        handshakeComplete := false } } }, calls) := by
  have hclose : c.remoteStore.writeStream.close (some error) =
    some c.broken.remoteStore.writeStream := if_pos hstarted
  simp only [onStreamFinish, hclose, Option.bind_some]
  exact congrArg (Option.map _) h

/-- The invariant of all runs. -/
structure Running (c : SyncEngine Completion) : Prop where
  user : c.localStore.userId = c.currentUser
  good : c.localStore.Good
  settled : c.remoteStore.Settled c.localStore
  /-- Completion blocks are kept for pending batches only. -/
  blocks : ∀ k completion, c.mutationCompletionBlocks.get k = some completion →
    ∃ batch, c.localStore.db.mutations.get k = some batch

theorem start_running {db : LevelDb} (h : db.Valid) (user : String) :
    (start db user : SyncEngine Completion).Running where
  user := rfl
  good := LocalStore.start_good h user
  settled := ⟨⟨RemoteStore.sound_closed (r := .new) (w := .new) rfl rfl rfl fun _ => rfl, rfl,
    fun hne => absurd rfl hne⟩, fun hhand => (by cases hhand)⟩
  blocks _ _ hk := by cases hk

theorem start_new (user : String) :
    (start .new user : SyncEngine Completion) = ⟨user, ⟨.new, user, 0⟩, .new, .empty⟩ := by
  rw [start, LocalStore.start, loadNextBatchId_new]

/-- Events that only concern the stream. -/
def Quiet (c : SyncEngine Completion) : SyncEvent Completion → Prop
  | .write _ _ _ => False
  | .credentialChange _ => False
  | .remoteEvent _ _ => False
  | .mutationResponse _ => False
  | .streamFinish (some error) =>
      error.isPermanentWriteError = true → c.remoteStore.writeStream.unanswered = []
  | _ => True

/-- What an event does to the stores, and the completion blocks it calls. -/
inductive Next (c : SyncEngine Completion) : SyncEvent Completion → SyncEngine Completion →
    List (CompletionCall Completion) → Prop
  | write {c' : SyncEngine Completion} (mutations hne completion)
      (hnext : c.localStore.nextBatchId < BatchId.max)
      (huser : c'.currentUser = c.currentUser)
      (hlocal : c'.localStore = c.localStore.written mutations hne)
      (hblocks : c'.mutationCompletionBlocks =
        c.mutationCompletionBlocks.put ⟨c.currentUser, c.localStore.nextBatchId⟩ completion) :
      Next c (.write mutations hne completion) c' []
  | accepted {c' : SyncEngine Completion} (mutationResults batch rest remoteDocuments)
      (hpending : c.localStore.db.pending c.currentUser = batch :: rest)
      (hsent : c.remoteStore.writeStream.unanswered.head? = some batch.mutations)
      (hanswered : MutationBatchResult.Answered ⟨batch, mutationResults⟩)
      (huser : c'.currentUser = c.currentUser)
      (hlocal : c'.localStore = c.localStore.without batch remoteDocuments)
      (hdocuments : ∀ key, remoteDocuments.get key = MutationBatchResult.acknowledged
        ⟨batch, mutationResults⟩ key (c.localStore.db.remoteDocuments.get key))
      (hblocks : c'.mutationCompletionBlocks =
        c.mutationCompletionBlocks.erase ⟨c.currentUser, batch.batchID⟩) :
      Next c (.mutationResponse mutationResults) c' (c.callsFor batch.batchID none)
  | rejected {c' : SyncEngine Completion} (error : ErrorCode) (batch rest)
      (hpermanent : error.isPermanentWriteError = true)
      (hpending : c.localStore.db.pending c.currentUser = batch :: rest)
      (hsent : c.remoteStore.writeStream.unanswered.head? = some batch.mutations)
      (huser : c'.currentUser = c.currentUser)
      (hlocal : c'.localStore = c.localStore.without batch c.localStore.db.remoteDocuments)
      (hblocks : c'.mutationCompletionBlocks =
        c.mutationCompletionBlocks.erase ⟨c.currentUser, batch.batchID⟩) :
      Next c (.streamFinish (some error)) c' (c.callsFor batch.batchID (some error))
  | credential {c' : SyncEngine Completion} (user) (huser : c'.currentUser = user)
      (hlocal : c'.localStore = if c.currentUser ≠ user then .start c.localStore.db user
        else c.localStore)
      (hblocks : c'.mutationCompletionBlocks = c.mutationCompletionBlocks) :
      Next c (.credentialChange user) c' []
  | remote {c' : SyncEngine Completion} (documentUpdates authoritative)
      (huser : c'.currentUser = c.currentUser)
      (hlocal : c'.localStore = { c.localStore with
        db := c.localStore.db.addDocuments
          (c.localStore.changedDocuments documentUpdates authoritative) })
      (hblocks : c'.mutationCompletionBlocks = c.mutationCompletionBlocks) :
      Next c (.remoteEvent documentUpdates authoritative) c' []
  | quiet (e : SyncEvent Completion) (hquiet : c.Quiet e) (remoteStore : RemoteStore) :
      Next c e { c with remoteStore } []

namespace Running
variable (h : c.Running)
include h

/-- A write gets the next number, which is nobody's. -/
theorem write_next (mutations : List Mutation) (hne : mutations ≠ []) (completion : Completion)
    (hnext : c.localStore.nextBatchId < BatchId.max) :
    ∃ c', c.writeMutations mutations hne completion = some c' ∧ c'.Running ∧
      c.Next (.write mutations hne completion) c' [] := by
  obtain ⟨docs, -, hwrite⟩ := h.good.locallyWriteMutations_eq hne
  have hgood := h.good.written hnext hne
  have hprefix : c.remoteStore.writePipeline <+:
      ((c.localStore.written mutations hne).db.pending c.localStore.userId).take
        kMaxPendingWrites := by
    rw [h.settled.pipeline, h.good.pending_written hnext, if_pos rfl]
    split
    · exact (List.prefix_append _ _).take _
    · exact List.nil_prefix
  obtain ⟨r', hr', hfilled, -, hopen, hhand⟩ :=
    h.settled.sound.fillWritePipeline_eq hgood hprefix
  refine ⟨⟨c.currentUser, c.localStore.written mutations hne, r', c.mutationCompletionBlocks.put
    ⟨c.currentUser, c.localStore.nextBatchId⟩ completion⟩, ?_, ?_, .write _ _ _ hnext rfl rfl rfl⟩
  · rw [writeMutations, hwrite, Option.bind_some]
    exact congrArg (Option.map _) hr'
  · refine ⟨h.user, hgood, ⟨hfilled, fun hh => hopen.trans (h.settled.handshake (hhand ▸ hh))⟩,
      fun k block hk => ?_⟩
    show ∃ batch, (c.localStore.db.mutations.put _ _).get k = some batch
    rw [Table.get_put] at hk ⊢
    rw [h.user]
    split at hk
    · rename_i hkey
      exact ⟨_, if_pos hkey⟩
    · rename_i hkey
      obtain ⟨batch, hbatch⟩ := h.blocks k block hk
      exact ⟨batch, (if_neg hkey).trans hbatch⟩

/-- The first batch has been answered: it has left the queue. -/
theorem withoutFirst {batch : MutationBatch} {rest : List MutationBatch}
    (hpending : c.localStore.db.pending c.currentUser = batch :: rest)
    (remoteDocuments : MaybeDocumentMap) :
    (c.localStore.without batch remoteDocuments).Good ∧
      (c.localStore.without batch remoteDocuments).db.pending c.localStore.userId = rest ∧
      ∀ k completion, (c.mutationCompletionBlocks.erase ⟨c.currentUser, batch.batchID⟩).get k =
        some completion →
          ∃ b, (c.localStore.without batch remoteDocuments).db.mutations.get k = some b := by
  rw [← h.user] at hpending ⊢
  have hbatch := h.good.valid.mem_pending_iff.mp (hpending ▸ List.mem_cons_self)
  refine ⟨(h.good.withoutBatch hbatch).withDocuments remoteDocuments, ?_, fun k completion hk => ?_⟩
  · exact (h.good.valid.pending_deleteFirst hpending c.localStore.userId).trans (if_pos rfl)
  · show ∃ b, (c.localStore.db.mutations.erase _).get k = some b
    rw [Table.get_erase] at hk ⊢
    split at hk
    · cases hk
    · rename_i hkey
      obtain ⟨b, hb⟩ := h.blocks k completion hk
      exact ⟨b, (if_neg hkey).trans hb⟩

/-- The first write that was sent is that of the first pending batch. -/
theorem first_sent {mutations : List Mutation}
    (hsent : c.remoteStore.writeStream.unanswered.head? = some mutations) :
    ∃ batch writePipeline rest, batch.mutations = mutations ∧
      c.remoteStore.writePipeline = batch :: writePipeline ∧
      c.localStore.db.pending c.currentUser = batch :: rest ∧
      writePipeline <+: rest.take kMaxPendingWrites ∧
      c.remoteStore.writeStream.isReady = true ∧
      c.localStore.db.mutations.get ⟨c.localStore.userId, batch.batchID⟩ = some batch := by
  obtain ⟨batch, writePipeline, hpipeline, hmutations, hready⟩ :=
    h.settled.sound.unanswered_head hsent
  obtain ⟨rest, hpending, hprefix⟩ := h.settled.toFilled.pending_eq hpipeline
  exact ⟨batch, writePipeline, rest, hmutations, hpipeline, h.user ▸ hpending, hprefix, hready,
    h.good.valid.mem_pending_iff.mp (hpending ▸ List.mem_cons_self)⟩

theorem mutationResponse_next {mutationResults : List MutationResult}
    (he : c.Enabled (.mutationResponse mutationResults)) :
    ∃ c' calls, c.notifyMutationResponse mutationResults = some (c', calls) ∧ c'.Running ∧
      c.Next (.mutationResponse mutationResults) c' calls := by
  obtain ⟨mutations, hsent, hanswers⟩ := he
  obtain ⟨batch, writePipeline, rest, rfl, hpipeline, hpending, hprefix, hready, hbatch⟩ :=
    h.first_sent (Option.mem_def.mp hsent)
  have hanswered : MutationBatchResult.Answered ⟨batch, mutationResults⟩ := hanswers
  obtain ⟨remoteDocuments, docs, hacknowledge, -, hdocuments⟩ :=
    h.good.acknowledge_eq hanswered hbatch
  obtain ⟨hgood, hrest, hblocks⟩ := h.withoutFirst hpending remoteDocuments
  -- the stream has lost its first message and the pipeline its first batch
  have hunanswered := h.settled.sound.unanswered
  rw [if_pos hready, hpipeline] at hunanswered
  have hsound : RemoteStore.Sound { c.remoteStore with
      writePipeline := writePipeline
      writeStream := { c.remoteStore.writeStream with
        unanswered := c.remoteStore.writeStream.unanswered.tail } } := by
    refine ⟨?_, fun _ => Or.inl hready, fun hidle => ?_, fun hoff => ?_⟩
    · exact (congrArg List.tail hunanswered).trans (if_pos hready).symm
    · cases hpipeline.symm.trans (h.settled.sound.idle hidle).2
    · cases hpipeline.symm.trans (h.settled.sound.offline hoff).2
  obtain ⟨r', hr', hfilled, -, hopen, hhand⟩ := hsound.fillWritePipeline_eq hgood
    (hrest.symm ▸ hprefix)
  refine ⟨⟨c.currentUser, c.localStore.without batch remoteDocuments, r',
    c.mutationCompletionBlocks.erase ⟨c.currentUser, batch.batchID⟩⟩,
    c.callsFor batch.batchID none, ?_, ⟨h.user, hgood, ⟨hfilled, fun hh => ?_⟩, hblocks⟩,
    .accepted mutationResults batch rest remoteDocuments hpending (Option.mem_def.mp hsent)
      hanswered rfl rfl hdocuments rfl⟩
  · have hsuccess := applySuccessfulWriteWithResult_eq (c := { c with
      remoteStore := { c.remoteStore with
        writePipeline := writePipeline
        writeStream := { c.remoteStore.writeStream with
          unanswered := c.remoteStore.writeStream.unanswered.tail } } }) hacknowledge
    simp only [notifyMutationResponse, onWriteStreamMutationResult, hpipeline]
    rw [if_neg (not_not.mpr hanswered.length_eq.symm)]
    refine Option.bind_eq_some_iff.mpr ⟨_, hsuccess, ?_⟩
    exact congrArg (fun o => Option.map (fun c => (c, _)) (Option.map _ o)) hr'
  · exact hopen.trans (h.settled.handshake (hhand ▸ hh))

/-- An error that does not concern the writes: the stream is started again if it is needed. -/
theorem streamFinish_quiet {error : ErrorCode}
    (hstarted : c.remoteStore.writeStream.isStarted = true)
    (hquiet : c.Quiet (.streamFinish (some error))) :
    ∃ remoteStore, c.onStreamFinish (some error) = some ({ c with remoteStore }, []) ∧
      remoteStore.Settled c.localStore := by
  have hsound : c.broken.remoteStore.Sound :=
    RemoteStore.sound_closed rfl rfl rfl fun hoff => (h.settled.sound.offline hoff).2
  -- the error is not that of a write
  have hskip : (if !c.broken.remoteStore.writePipeline.isEmpty &&
      c.broken.remoteStore.writeStream.handshakeComplete then c.broken.handleWriteError error
      else some (c.broken, [])) = some (c.broken, []) := by
    split
    · rename_i hhandle
      obtain ⟨hne, hhand⟩ := Bool.and_eq_true_iff.mp hhandle
      refine if_pos ((Bool.not_eq_true' _).mpr (Bool.eq_false_iff.mpr fun hpermanent => ?_))
      have hready : c.remoteStore.writeStream.isReady = true :=
        Bool.and_eq_true_iff.mpr ⟨h.settled.handshake hhand, hhand⟩
      have hunanswered := h.settled.sound.unanswered
      rw [if_pos hready, hquiet hpermanent, eq_comm, List.map_eq_nil_iff] at hunanswered
      simp [broken, hunanswered] at hne
    · rfl
  have hclose : ∀ (r' : RemoteStore), r'.Filled c.localStore → r'.writeStream.isOpen = false →
      c.broken.onWriteStreamClose error = some ({ c with remoteStore := r' }, []) →
      ∃ remoteStore, c.onStreamFinish (some error) = some ({ c with remoteStore }, []) ∧
        remoteStore.Settled c.localStore := fun r' hfilled hopen hr' =>
    ⟨_, onStreamFinish_eq (d := { c with remoteStore := r' }) hstarted hr',
      hfilled.forgetHandshake hopen⟩
  by_cases hshould : c.broken.remoteStore.shouldStartWriteStream = true
  · obtain ⟨w, hw, hstarted', hopen, -, hsound'⟩ := hsound.startWriteStream_eq hshould
    refine hclose _ ⟨hsound', h.settled.pipeline, fun _ => hstarted'⟩ hopen ?_
    rw [onWriteStreamClose, hskip, Option.bind_some]
    exact (if_pos hshould).trans (congrArg (Option.map _) hw)
  · refine hclose c.broken.remoteStore ⟨hsound, h.settled.pipeline, fun hne => ?_⟩ rfl ?_
    · refine absurd ?_ hshould
      have honline : c.remoteStore.isNetworkEnabled = true :=
        Bool.of_not_eq_false fun hoff => hne (h.settled.sound.offline hoff).2
      have hne : c.remoteStore.writePipeline ≠ [] := hne
      simp [RemoteStore.shouldStartWriteStream, broken, honline, hne, WriteStream.isStarted,
        WriteStream.isOpen]
    · rw [onWriteStreamClose, hskip, Option.bind_some]
      exact if_neg hshould

/-- An error that the first write has caused. -/
theorem streamFinish_rejected {error : ErrorCode}
    (hstarted : c.remoteStore.writeStream.isStarted = true)
    (hpermanent : error.isPermanentWriteError = true) {mutations : List Mutation}
    (hsent : c.remoteStore.writeStream.unanswered.head? = some mutations) :
    ∃ c' calls, c.onStreamFinish (some error) = some (c', calls) ∧ c'.Running ∧
      c.Next (.streamFinish (some error)) c' calls := by
  obtain ⟨batch, writePipeline, rest, rfl, hpipeline, hpending, hprefix, hready, hbatch⟩ :=
    h.first_sent hsent
  obtain ⟨docs, -, hreject⟩ := h.good.rejectBatchID_eq hbatch
  obtain ⟨hgood, hrest, hblocks⟩ := h.withoutFirst hpending c.localStore.db.remoteDocuments
  have hsound : RemoteStore.Sound { c.remoteStore with
      writePipeline := writePipeline
      writeStream := { c.broken.remoteStore.writeStream with state := .initial } } :=
    RemoteStore.sound_closed (r := { c.remoteStore with writePipeline := writePipeline })
      rfl rfl rfl fun hoff => by cases hpipeline.symm.trans (h.settled.sound.offline hoff).2
  obtain ⟨r', hr', hfilled, -, hopen, -⟩ := hsound.fillWritePipeline_eq hgood (hrest.symm ▸ hprefix)
  -- the batch is rejected before the stream is started again
  have hhandle : c.broken.handleWriteError error = some
      (⟨c.currentUser, c.localStore.without batch c.localStore.db.remoteDocuments, r',
        c.mutationCompletionBlocks.erase ⟨c.currentUser, batch.batchID⟩⟩,
        c.callsFor batch.batchID (some error)) := by
    have hrejected := rejectFailedWriteWithBatchID_eq (c := { c with
      remoteStore := { c.remoteStore with
        writePipeline := writePipeline
        writeStream := { c.broken.remoteStore.writeStream with state := .initial } } })
      hreject error
    have hpipeline' : c.broken.remoteStore.writePipeline = batch :: writePipeline := hpipeline
    have hinhibit : c.broken.remoteStore.writeStream.inhibitBackoff =
      some { c.broken.remoteStore.writeStream with state := .initial } := rfl
    simp only [handleWriteError, hpermanent, Bool.not_true, Bool.false_eq_true, if_false,
      hpipeline',
      hinhibit, Option.bind_some]
    refine Option.bind_eq_some_iff.mpr ⟨_, hrejected, ?_⟩
    exact congrArg (fun o => Option.map (fun c => (c, _)) (Option.map _ o)) hr'
  have hhand : c.remoteStore.writeStream.handshakeComplete = true :=
    (Bool.and_eq_true_iff.mp hready).2
  refine ⟨_, _, onStreamFinish_eq (d := ⟨c.currentUser, c.localStore.without batch
    c.localStore.db.remoteDocuments, r', c.mutationCompletionBlocks.erase
      ⟨c.currentUser, batch.batchID⟩⟩) hstarted ?_, ⟨h.user, hgood, hfilled.forgetHandshake hopen,
    hblocks⟩, .rejected error batch rest hpermanent hpending hsent rfl rfl rfl⟩
  rw [onWriteStreamClose, if_pos, hhandle, Option.bind_some]
  · exact if_neg (by simp [hfilled.shouldStartWriteStream])
  · simp [broken, hpipeline, hhand]

/-- A stream that has to go on is not to be ended with `OK`. -/
theorem streamFinish_none (hopen : c.remoteStore.writeStream.isOpen = true) :
    (c.handle (.streamFinish none) = none ↔ c.remoteStore.writePipeline ≠ []) ∧
      ∀ c' calls, c.handle (.streamFinish none) = some (c', calls) →
        c' = { c with remoteStore := { c.remoteStore with writeStream := .new } } ∧ calls = [] := by
  have hstarted : c.remoteStore.writeStream.isStarted = true := by
    simp [WriteStream.isStarted, hopen]
  obtain ⟨hnone, heq⟩ := RemoteStore.closeWriteStream_eq hstarted
  have honline : c.remoteStore.isNetworkEnabled = true :=
    Bool.of_not_eq_false fun hoff => by
      cases hstarted.symm.trans (h.settled.sound.offline hoff).1
  rw [handle, onStreamFinish]
  constructor
  · rw [Option.map_eq_none_iff, hnone, and_iff_right honline]
  · intro c' calls hc
    obtain ⟨r', hr', he⟩ := Option.map_eq_some_iff.mp hc
    obtain ⟨rfl, rfl⟩ := Prod.mk.inj he
    exact ⟨by rw [heq r' hr'], rfl⟩

theorem credential_next (user : String) :
    ∃ c', c.credentialDidChangeWithUser user = some c' ∧ c'.Running ∧
      c.Next (.credentialChange user) c' [] := by
  by_cases huser : c.currentUser = user
  · obtain ⟨r', hr', -, hsettled⟩ := h.settled.handleCredentialChange_eq h.good
    refine ⟨⟨user, c.localStore, r', c.mutationCompletionBlocks⟩, ?_,
      ⟨h.user.trans huser, h.good, hsettled, h.blocks⟩,
      .credential user rfl (if_neg (not_not.mpr huser)).symm rfl⟩
    rw [credentialDidChangeWithUser, if_neg (not_not.mpr huser), Option.bind_some, hr']
    rfl
  · obtain ⟨docs, -, hchange⟩ := h.good.userDidChange_eq user
    have hgood := LocalStore.start_good h.good.valid user
    obtain ⟨r', hr', -, hsettled⟩ := h.settled.handleCredentialChange_eq hgood
    refine ⟨⟨user, LocalStore.start c.localStore.db user, r', c.mutationCompletionBlocks⟩, ?_,
      ⟨rfl, hgood, hsettled, h.blocks⟩, .credential user rfl (if_pos huser).symm rfl⟩
    rw [credentialDidChangeWithUser, if_pos huser, hchange, Option.map_some, Option.bind_some, hr']
    rfl

theorem withRemoteStore {remoteStore : RemoteStore} (hsettled : remoteStore.Settled c.localStore) :
    ({ c with remoteStore } : SyncEngine Completion).Running :=
  ⟨h.user, h.good, hsettled, h.blocks⟩

/-- **What an event does**, unless it ends a stream that is still needed with `OK`. -/
theorem handle_next (e : SyncEvent Completion) (he : c.Enabled e)
    (hclose : e = .streamFinish none → c.remoteStore.writePipeline = []) :
    ∃ c' calls, c.handle e = some (c', calls) ∧ c'.Running ∧ c.Next e c' calls := by
  cases e with
  | write mutations hne completion =>
    obtain ⟨c', hc', hrunning, hnext⟩ := h.write_next mutations hne completion he
    exact ⟨c', [], congrArg (Option.map _) hc', hrunning, hnext⟩
  | enableNetwork =>
    obtain ⟨r', hr', -, hsettled⟩ := h.settled.enableNetwork_eq h.good
    exact ⟨_, [], congrArg (Option.map _) hr', h.withRemoteStore hsettled,
      .quiet .enableNetwork trivial _⟩
  | disableNetwork =>
    obtain ⟨r', hr', -, hsettled⟩ := h.settled.disableNetwork_eq c.localStore
    exact ⟨_, [], congrArg (Option.map _) hr', h.withRemoteStore hsettled,
      .quiet .disableNetwork trivial _⟩
  | credentialChange user =>
    obtain ⟨c', hc', hrunning, hnext⟩ := h.credential_next user
    exact ⟨c', [], congrArg (Option.map _) hc', hrunning, hnext⟩
  | remoteEvent documentUpdates authoritative =>
    obtain ⟨docs, -, hevent⟩ := h.good.applyRemoteEvent_eq documentUpdates authoritative
    refine ⟨_, [], congrArg (Option.map _) (congrArg (Option.map _) hevent), ⟨h.user,
      h.good.withDocuments _, h.settled.congr rfl, h.blocks⟩, .remote _ _ rfl rfl rfl⟩
  | streamStart =>
    obtain ⟨r', hr', -, -, -, hsettled⟩ := h.settled.onStreamStart_eq he
    exact ⟨_, [], congrArg (Option.map _) hr', h.withRemoteStore hsettled,
      .quiet .streamStart trivial _⟩
  | handshakeResponse =>
    obtain ⟨r', hr', -, -, hsettled⟩ := h.settled.notifyHandshakeResponse_eq he.1 he.2
    exact ⟨_, [], congrArg (Option.map _) hr', h.withRemoteStore hsettled,
      .quiet .handshakeResponse trivial _⟩
  | mutationResponse mutationResults => exact h.mutationResponse_next he
  | streamFinish status =>
    cases status with
    | none =>
      have hopen : c.remoteStore.writeStream.isOpen = true :=
        he.resolve_right fun h => h.2 rfl
      obtain ⟨hnone, heq⟩ := h.streamFinish_none hopen
      obtain ⟨⟨c', calls⟩, hc'⟩ := Option.ne_none_iff_exists'.mp fun hc =>
        hnone.mp hc (hclose rfl)
      obtain ⟨rfl, rfl⟩ := heq c' calls hc'
      refine ⟨_, [], hc', h.withRemoteStore ⟨⟨?_, ?_, ?_⟩, ?_⟩,
        .quiet (.streamFinish none) trivial _⟩
      · exact RemoteStore.sound_closed (w := .new) rfl rfl rfl fun _ => hclose rfl
      · exact h.settled.pipeline
      · exact fun hne => absurd (hclose rfl) hne
      · exact fun hhand => (by cases hhand)
    | some error =>
      have hstarted : c.remoteStore.writeStream.isStarted = true := by
        rcases he with hopen | ⟨hstate, -⟩
        · simp [WriteStream.isStarted, hopen]
        · simp [WriteStream.isStarted, hstate]
      by_cases hpermanent : error.isPermanentWriteError = true
      · cases hsent : c.remoteStore.writeStream.unanswered.head? with
        | some mutations => exact h.streamFinish_rejected hstarted hpermanent hsent
        | none =>
          have hquiet : c.Quiet (.streamFinish (some error)) :=
            fun _ => List.head?_eq_none_iff.mp hsent
          obtain ⟨r', hr', hsettled⟩ := h.streamFinish_quiet hstarted hquiet
          exact ⟨_, [], hr', h.withRemoteStore hsettled, .quiet _ hquiet _⟩
      · have hquiet : c.Quiet (.streamFinish (some error)) := fun hp => absurd hp hpermanent
        obtain ⟨r', hr', hsettled⟩ := h.streamFinish_quiet hstarted hquiet
        exact ⟨_, [], hr', h.withRemoteStore hsettled, .quiet _ hquiet _⟩
  | backoffElapsed =>
    obtain ⟨w, hw, hsettled⟩ := h.settled.backoffElapsed_eq he
    exact ⟨_, [], congrArg (Option.map _) hw, h.withRemoteStore hsettled,
      .quiet .backoffElapsed trivial _⟩
  | idleTimeout =>
    obtain ⟨r', hr', -, hsettled⟩ := h.settled.idleTimeout_eq he
    exact ⟨_, [], congrArg (Option.map _) hr', h.withRemoteStore hsettled,
      .quiet .idleTimeout trivial _⟩

end Running

end SyncEngine

end Musgravite.Firestore
