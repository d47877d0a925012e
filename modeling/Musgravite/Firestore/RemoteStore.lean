import Musgravite.Firestore.LocalStore

/-! # The write stream

Pending writes go to the backend over a stream, in order, ten of them at a time.  The
pipeline holds those that are on their way; what the stream does and what is in the pipeline
must agree (`RemoteStore.Sound`), which the assertions of both depend on.

`Good.fillWritePipeline_eq` says what filling the pipeline does: it then holds the
oldest pending writes, and a stream is under way if there are any. -/
namespace Musgravite.Firestore

/-- The codes of `Error`, without that for no error. -/
inductive ErrorCode
  | cancelled
  | unknown
  | invalidArgument
  | deadlineExceeded
  | notFound
  | alreadyExists
  | permissionDenied
  | resourceExhausted
  | failedPrecondition
  | aborted
  | outOfRange
  | unimplemented
  | internal
  | unavailable
  | dataLoss
  | unauthenticated
deriving DecidableEq

namespace ErrorCode

/-- Errors that come back if the request is sent again. -/
def isPermanentError : ErrorCode → Bool
  | cancelled => false
  | unknown => false
  | deadlineExceeded => false
  | resourceExhausted => false
  | internal => false
  | unavailable => false
  | unauthenticated => false
  | _ => true

def isAbortedError (error : ErrorCode) : Bool := error = aborted

def isPermanentWriteError (error : ErrorCode) : Bool :=
  error.isPermanentError && !error.isAbortedError

end ErrorCode

/-- `none` is `OK`. -/
abbrev Status := Option ErrorCode

/-- `Stream::State`. -/
inductive StreamState
  | initial
  | starting
  | open_
  | error
  | backoff
deriving DecidableEq

/-- `WriteStream`, with the writes sent over it that the backend has not answered. -/
structure WriteStream where
  state : StreamState
  handshakeComplete : Bool
  idlenessTimer : Bool
  unanswered : List (List Mutation)

namespace WriteStream
variable (w : WriteStream)

def new : WriteStream := ⟨.initial, false, false, []⟩

def isOpen : Bool := w.state = .open_

def isStarted : Bool := w.state = .starting || w.state = .backoff || w.isOpen

/-- Mutations can be written. -/
def isReady : Bool := w.isOpen && w.handshakeComplete

/-- After an error the stream waits before it starts again.  `none` is a failed assertion,
here and below. -/
def start : Option WriteStream :=
  if w.state = .error then some { w with state := .backoff }
  else if w.state = .initial then some { w with state := .starting }
  else none

/-- `BackoffAndTryRestarting` when the time is over. -/
def backoffElapsed : Option WriteStream :=
  if w.state = .backoff then ({ w with state := .initial } : WriteStream).start else none

def inhibitBackoff : Option WriteStream :=
  if w.isStarted then none else some { w with state := .initial }

def markIdle : WriteStream :=
  if w.isOpen && !w.idlenessTimer then { w with idlenessTimer := true } else w

def writeHandshake : Option WriteStream :=
  if w.isOpen && !w.handshakeComplete then some { w with idlenessTimer := false } else none

def writeMutations (mutations : List Mutation) : Option WriteStream :=
  if w.isOpen && w.handshakeComplete then
    some { w with idlenessTimer := false, unanswered := w.unanswered ++ [mutations] }
  else none

/-- `Close` up to the point where the remote store is told. -/
def close (status : Status) : Option WriteStream :=
  if w.isStarted then
    some { w with
      state := if status.isNone then .initial else .error
      idlenessTimer := false
      unanswered := [] }
  else none

end WriteStream

def LocalStore.nextMutationBatchAfterBatchID (s : LocalStore) (batchId : BatchId) :
    Option MutationBatch := s.db.nextMutationBatchAfterBatchId s.userId batchId

/-- The writes of `RemoteStore`. -/
structure RemoteStore where
  isNetworkEnabled : Bool
  writePipeline : List MutationBatch
  writeStream : WriteStream

def kMaxPendingWrites : ℕ := 10

/-- The number of the last batch, from which the pipeline is filled. -/
def lastBatchId (writePipeline : List MutationBatch) : BatchId :=
  match writePipeline.getLast? with
  | some batch => batch.batchID
  | none => batchIdUnknown

namespace RemoteStore
variable (r : RemoteStore) (localStore : LocalStore)

def new : RemoteStore := ⟨false, [], .new⟩

def canAddToWritePipeline : Bool :=
  r.isNetworkEnabled && r.writePipeline.length < kMaxPendingWrites

def addToWritePipeline (batch : MutationBatch) : Option RemoteStore :=
  if r.canAddToWritePipeline then
    let writePipeline := r.writePipeline ++ [batch]
    if r.writeStream.isOpen && r.writeStream.handshakeComplete then
      (r.writeStream.writeMutations batch.mutations).map fun writeStream =>
        { r with writePipeline, writeStream }
    else some { r with writePipeline }
  else none

def shouldStartWriteStream : Bool :=
  r.isNetworkEnabled && !r.writeStream.isStarted && !r.writePipeline.isEmpty

def startWriteStream : Option RemoteStore :=
  if r.shouldStartWriteStream then
    r.writeStream.start.map fun writeStream => { r with writeStream }
  else none

/-- The loop of `FillWritePipeline`. -/
def fillLoop : ℕ → BatchId → RemoteStore → Option RemoteStore
  | 0, _, _ => none
  | fuel + 1, lastBatchIdRetrieved, r =>
    if r.canAddToWritePipeline then
      match localStore.nextMutationBatchAfterBatchID lastBatchIdRetrieved with
      | none =>
          some (if r.writePipeline.isEmpty then { r with writeStream := r.writeStream.markIdle }
            else r)
      | some batch => (r.addToWritePipeline batch).bind (fillLoop fuel batch.batchID)
    else some r

def fillWritePipeline : Option RemoteStore :=
  (fillLoop localStore (kMaxPendingWrites + 1) (lastBatchId r.writePipeline) r).bind fun r =>
    if r.shouldStartWriteStream then r.startWriteStream else some r

/-- `Close` with status `OK`, in which `OnWriteStreamClose` only asserts something. -/
def closeWriteStream : Option RemoteStore :=
  (r.writeStream.close none).bind fun writeStream =>
    if ({ r with writeStream } : RemoteStore).shouldStartWriteStream then none
    else some { r with writeStream := { writeStream with handshakeComplete := false } }

/-- `Stop` of the write stream. -/
def stopWriteStream : Option RemoteStore :=
  if r.writeStream.isStarted then r.closeWriteStream else some r

def disableNetworkInternal : Option RemoteStore :=
  r.stopWriteStream.map fun r => { r with writePipeline := [] }

def disableNetwork : Option RemoteStore :=
  ({ r with isNetworkEnabled := false } : RemoteStore).disableNetworkInternal

def enableNetwork : Option RemoteStore :=
  ({ r with isNetworkEnabled := true } : RemoteStore).fillWritePipeline localStore

def handleCredentialChange : Option RemoteStore :=
  if r.isNetworkEnabled then
    r.disableNetwork.bind fun r => r.enableNetwork localStore
  else some r

def onWriteStreamOpen : Option RemoteStore :=
  r.writeStream.writeHandshake.map fun writeStream => { r with writeStream }

/-- `OnStreamStart`: the credentials are there. -/
def onStreamStart : Option RemoteStore :=
  if r.writeStream.state = .starting then
    ({ r with
      writeStream := { r.writeStream with state := .open_ } } : RemoteStore).onWriteStreamOpen
  else none

/-- Sends the writes of the pipeline. -/
def onWriteStreamHandshakeComplete : Option RemoteStore :=
  (r.writePipeline.foldlM (fun (w : WriteStream) batch => w.writeMutations batch.mutations)
    r.writeStream).map fun writeStream => { r with writeStream }

/-- `NotifyStreamResponse` for the first response. -/
def notifyHandshakeResponse : Option RemoteStore :=
  ({ r with writeStream := { r.writeStream with handshakeComplete := true } } :
    RemoteStore).onWriteStreamHandshakeComplete

end RemoteStore

/-! ## What a stream says of its pipeline -/

/-- The state of the stream and the pipeline fit together. -/
structure RemoteStore.Sound (r : RemoteStore) : Prop where
  unanswered : r.writeStream.unanswered =
    if r.writeStream.isReady then r.writePipeline.map MutationBatch.mutations else []
  waits : r.writeStream.isStarted → r.writeStream.isReady ∨ r.writePipeline ≠ []
  idle : r.writeStream.idlenessTimer → r.writeStream.isReady ∧ r.writePipeline = []
  offline : r.isNetworkEnabled = false → r.writeStream.isStarted = false ∧ r.writePipeline = []

theorem WriteStream.writeMutations_eq {w : WriteStream} (h : w.isReady = true)
    (mutations : List Mutation) :
    w.writeMutations mutations = some { w with
      idlenessTimer := false
      unanswered := w.unanswered ++ [mutations] } := if_pos h

/-- The first pending batch after those of the pipeline. -/
theorem LocalStore.Good.nextMutationBatch_eq {s : LocalStore} (h : s.Good)
    {front rest : List MutationBatch} (hpending : s.db.pending s.userId = front ++ rest) :
    s.nextMutationBatchAfterBatchID (lastBatchId front) = rest.head? := by
  have hlast : -1 ≤ lastBatchId front ∧ lastBatchId front < BatchId.max := by
    rcases List.eq_nil_or_concat front with rfl | ⟨init, last, rfl⟩
    · decide
    · have hmem : last ∈ s.db.pending s.userId := by simp [hpending]
      have hbatch := h.valid.mem_pending_iff.mp hmem
      rw [show lastBatchId (init.concat last) = last.batchID by simp [lastBatchId]]
      exact ⟨(show (-1 : ℤ) ≤ 0 by decide).trans (h.valid.nonneg _ _ hbatch),
        h.valid.bounded _ _ hbatch⟩
  rw [nextMutationBatchAfterBatchID, h.valid.nextMutationBatch_eq _ hlast.1 hlast.2]
  have hsorted := h.valid.pairwise_pending s.userId
  rw [hpending] at hsorted ⊢
  obtain ⟨hfront, -, hcross⟩ := List.pairwise_append.mp hsorted
  suffices hfilter : front.filter (fun b => lastBatchId front < b.batchID) = [] ∧
      rest.filter (fun b => lastBatchId front < b.batchID) = rest by
    rw [List.filter_append, hfilter.1, hfilter.2, List.nil_append]
  rw [List.filter_eq_nil_iff, List.filter_eq_self]
  simp only [decide_eq_true_eq]
  rcases List.eq_nil_or_concat front with rfl | ⟨init, last, rfl⟩
  · refine ⟨fun b hb => absurd hb List.not_mem_nil, fun b hb => ?_⟩
    have hb : b ∈ s.db.pending s.userId := hpending ▸ hb
    exact (show (-1 : ℤ) < 0 by decide).trans_le
      (h.valid.nonneg _ _ (h.valid.mem_pending_iff.mp hb))
  · have hlast : lastBatchId (init.concat last) = last.batchID := by simp [lastBatchId]
    rw [List.concat_eq_append] at hfront hcross hlast ⊢
    rw [hlast]
    refine ⟨fun b hb => ?_, fun b hb => hcross last (by simp) b hb⟩
    rcases List.mem_append.mp hb with hb | hb
    · exact ((List.pairwise_append.mp hfront).2.2 b hb last (by simp)).not_gt
    · rw [List.mem_singleton.mp hb]
      exact lt_irrefl _

namespace RemoteStore
variable {r : RemoteStore} {s : LocalStore}

/-- A batch that enters the pipeline is sent if the stream is ready. -/
theorem Sound.addToWritePipeline_eq (hr : r.Sound) (hcan : r.canAddToWritePipeline = true)
    (batch : MutationBatch) :
    ∃ w, r.addToWritePipeline batch =
        some { r with writePipeline := r.writePipeline ++ [batch], writeStream := w } ∧
      w.state = r.writeStream.state ∧ w.handshakeComplete = r.writeStream.handshakeComplete ∧
      RemoteStore.Sound { r with
        writePipeline := r.writePipeline ++ [batch], writeStream := w } := by
  have honline : r.isNetworkEnabled = true := (Bool.and_eq_true_iff.mp hcan).1
  rw [addToWritePipeline, if_pos hcan]
  by_cases hready : r.writeStream.isReady = true
  · refine ⟨{ r.writeStream with
      idlenessTimer := false
      unanswered := r.writeStream.unanswered ++ [batch.mutations] }, ?_, rfl, rfl, ?_⟩
    · refine (if_pos hready).trans ?_
      rw [WriteStream.writeMutations_eq hready]
      rfl
    · refine ⟨?_, fun _ => Or.inl hready, fun h => (by cases h), fun h => ?_⟩
      · have hsent := hr.unanswered
        rw [if_pos hready] at hsent
        show r.writeStream.unanswered ++ [batch.mutations] = if r.writeStream.isReady then _ else _
        rw [if_pos hready, hsent, List.map_append]
        rfl
      · cases honline.symm.trans h
  · refine ⟨r.writeStream, if_neg hready, rfl, rfl, ?_⟩
    refine ⟨?_, fun _ => Or.inr (by simp), fun h => absurd (hr.idle h).1 hready, fun h => ?_⟩
    · rw [hr.unanswered, if_neg hready, if_neg hready]
    · cases honline.symm.trans h

/-- The loop fills the pipeline with the oldest pending batches. -/
theorem Sound.fillLoop_eq (hs : s.Good) (fuel : ℕ) {rest : List MutationBatch} (hr : r.Sound)
    (honline : r.isNetworkEnabled = true) (hroom : r.writePipeline.length ≤ kMaxPendingWrites)
    (hpending : s.db.pending s.userId = r.writePipeline ++ rest)
    (hfuel : kMaxPendingWrites < fuel + r.writePipeline.length) :
    ∃ w, fillLoop s fuel (lastBatchId r.writePipeline) r = some { r with
        writePipeline := (s.db.pending s.userId).take kMaxPendingWrites, writeStream := w } ∧
      w.state = r.writeStream.state ∧ w.handshakeComplete = r.writeStream.handshakeComplete ∧
      RemoteStore.Sound { r with
        writePipeline := (s.db.pending s.userId).take kMaxPendingWrites, writeStream := w } := by
  induction fuel generalizing r rest with
  | zero => omega
  | succ fuel ih =>
    rw [fillLoop]
    by_cases hcan : r.canAddToWritePipeline = true
    · have hlt : r.writePipeline.length < kMaxPendingWrites :=
        of_decide_eq_true (Bool.and_eq_true_iff.mp hcan).2
      rw [if_pos hcan, hs.nextMutationBatch_eq hpending]
      cases rest with
      | nil =>
        rw [List.append_nil] at hpending
        rw [hpending, List.take_of_length_le hroom]
        by_cases hempty : r.writePipeline = []
        · refine ⟨r.writeStream.markIdle, by simp [hempty], ?_⟩
          rw [WriteStream.markIdle]
          split
          · rename_i hopen
            have hopen := (Bool.and_eq_true_iff.mp hopen).1
            have hready : r.writeStream.isReady = true :=
              (hr.waits (by simp [WriteStream.isStarted, hopen])).resolve_right
                (not_not.mpr hempty)
            exact ⟨rfl, rfl, hr.unanswered, hr.waits, fun _ => ⟨hready, hempty⟩, hr.offline⟩
          · exact ⟨rfl, rfl, hr⟩
        · exact ⟨r.writeStream, by simp [hempty], rfl, rfl, hr⟩
      | cons batch rest =>
        obtain ⟨w, hw, hstate, hhandshake, hsound⟩ := hr.addToWritePipeline_eq hcan batch
        obtain ⟨w', hw', hstate', hhandshake', hsound'⟩ := ih hsound honline
          (by simpa using Nat.succ_le_of_lt hlt) (by simpa using hpending) (by simp; omega)
        refine ⟨w', ?_, hstate'.trans hstate, hhandshake'.trans hhandshake, hsound'⟩
        rw [← hw']
        simp [hw, lastBatchId]
    · have hfull : r.writePipeline.length = kMaxPendingWrites := by
        rw [canAddToWritePipeline, honline, Bool.true_and, decide_eq_true_eq] at hcan
        omega
      rw [if_neg hcan, hpending, ← hfull, List.take_left]
      exact ⟨r.writeStream, rfl, rfl, rfl, hr⟩

/-- The pipeline holds the oldest writes of the queue, and if there are any, a stream is under
way. -/
structure Filled (r : RemoteStore) (s : LocalStore) : Prop where
  sound : r.Sound
  pipeline : r.writePipeline =
    if r.isNetworkEnabled then (s.db.pending s.userId).take kMaxPendingWrites else []
  started : r.writePipeline ≠ [] → r.writeStream.isStarted = true

/-- Starting the stream, where it has to be started. -/
theorem Sound.startWriteStream_eq (hr : r.Sound) (hshould : r.shouldStartWriteStream = true) :
    ∃ w, r.startWriteStream = some { r with writeStream := w } ∧ w.isStarted = true ∧
      w.isOpen = false ∧ w.handshakeComplete = r.writeStream.handshakeComplete ∧
      RemoteStore.Sound { r with writeStream := w } := by
  have hs := hshould
  simp only [shouldStartWriteStream, Bool.and_eq_true, Bool.not_eq_true', List.isEmpty_eq_false_iff]
    at hs
  obtain ⟨⟨honline, hstarted⟩, hne⟩ := hs
  have hclosed : r.writeStream.isReady = false := by
    simp only [WriteStream.isStarted, Bool.or_eq_false_iff] at hstarted
    simp [WriteStream.isReady, hstarted.2]
  have hnone := hr.unanswered
  rw [hclosed] at hnone
  -- whatever state it goes to, it has sent nothing
  have hsound : ∀ state, (state = .starting ∨ state = .backoff) →
      RemoteStore.Sound { r with writeStream := { r.writeStream with state } } := by
    intro state hstate
    have hready : ({ r.writeStream with state } : WriteStream).isReady = false := by
      rcases hstate with rfl | rfl <;> rfl
    refine ⟨?_, fun _ => Or.inr hne, fun hidle => ?_, fun hoff => ?_⟩
    · rw [hready]
      exact hnone
    · cases hclosed.symm.trans (hr.idle hidle).1
    · cases honline.symm.trans hoff
  rw [startWriteStream, if_pos hshould, WriteStream.start]
  by_cases herror : r.writeStream.state = .error
  · exact ⟨{ r.writeStream with state := .backoff }, by rw [if_pos herror]; rfl, rfl, rfl, rfl,
      hsound _ (Or.inr rfl)⟩
  · have hinitial : r.writeStream.state = .initial := by
      cases hstate : r.writeStream.state <;>
        simp_all [WriteStream.isStarted, WriteStream.isOpen]
    exact ⟨{ r.writeStream with state := .starting }, by rw [if_neg herror, if_pos hinitial]; rfl,
      rfl, rfl, rfl, hsound _ (Or.inl rfl)⟩

/-- **What filling the pipeline does.** -/
theorem Sound.fillWritePipeline_eq (hs : s.Good) (hr : r.Sound)
    (hoffered : r.writePipeline <+: (s.db.pending s.userId).take kMaxPendingWrites) :
    ∃ r', r.fillWritePipeline s = some r' ∧ r'.Filled s ∧
      r'.isNetworkEnabled = r.isNetworkEnabled ∧
      r'.writeStream.isOpen = r.writeStream.isOpen ∧
      r'.writeStream.handshakeComplete = r.writeStream.handshakeComplete := by
  rw [fillWritePipeline]
  by_cases honline : r.isNetworkEnabled = true
  · obtain ⟨rest, hrest⟩ := hoffered.trans (List.take_prefix _ _)
    obtain ⟨w, hw, hstate, hhandshake, hsound⟩ := hr.fillLoop_eq hs (kMaxPendingWrites + 1)
      honline (hoffered.length_le.trans (List.length_take_le _ _)) hrest.symm (by omega)
    have hopen : w.isOpen = r.writeStream.isOpen := by rw [WriteStream.isOpen, hstate]; rfl
    rw [hw, Option.bind_some]
    split
    · rename_i hshould
      obtain ⟨w', hw', hstarted, hclosed, hhandshake', hsound'⟩ :=
        hsound.startWriteStream_eq hshould
      refine ⟨_, hw', ⟨hsound', by simp [honline], fun _ => hstarted⟩, rfl, ?_,
        hhandshake'.trans hhandshake⟩
      rw [← hopen]
      refine hclosed.trans (Eq.symm ?_)
      simp only [shouldStartWriteStream, WriteStream.isStarted, Bool.and_eq_true,
        Bool.not_eq_true', Bool.or_eq_false_iff] at hshould
      exact hshould.1.2.2
    · rename_i hshould
      refine ⟨_, rfl, ⟨hsound, by simp [honline], fun hne => ?_⟩, rfl, hopen, hhandshake⟩
      simp only [shouldStartWriteStream, honline] at hshould
      simpa [hne] using hshould
  · have hoff : r.isNetworkEnabled = false := Bool.eq_false_iff.mpr honline
    have hempty := (hr.offline hoff).2
    refine ⟨r, ?_, ⟨hr, by rw [hoff]; exact hempty, fun hne => absurd hempty hne⟩, rfl, rfl, rfl⟩
    rw [fillLoop, if_neg (by simp [canAddToWritePipeline, hoff]), Option.bind_some,
      if_neg (by simp [shouldStartWriteStream, hoff])]

/-- Between two events the handshake is complete only while the stream is open. -/
structure Settled (r : RemoteStore) (s : LocalStore) : Prop extends r.Filled s where
  handshake : r.writeStream.handshakeComplete = true → r.writeStream.isOpen = true

/-- A closed stream has no writes under way and no timer. -/
theorem sound_closed {w : WriteStream} (hstarted : w.isStarted = false)
    (hidle : w.idlenessTimer = false) (hunanswered : w.unanswered = [])
    (hoff : r.isNetworkEnabled = false → r.writePipeline = []) :
    RemoteStore.Sound { r with writeStream := w } := by
  have hready : w.isReady = false := by
    simp only [WriteStream.isStarted, Bool.or_eq_false_iff] at hstarted
    simp [WriteStream.isReady, hstarted.2]
  refine ⟨?_, fun h => ?_, fun h => ?_, fun h => ⟨hstarted, hoff h⟩⟩
  · show w.unanswered = if w.isReady = true then _ else _
    rw [hready, hunanswered]
    rfl
  · cases hstarted.symm.trans h
  · cases hidle.symm.trans h

/-- Closing with `OK` is only for streams that are not needed. -/
theorem closeWriteStream_eq (hstarted : r.writeStream.isStarted = true) :
    (r.closeWriteStream = none ↔ r.isNetworkEnabled = true ∧ r.writePipeline ≠ []) ∧
    ∀ r', r.closeWriteStream = some r' →
      r' = { r with writeStream := .new } := by
  have hclose : r.writeStream.close none = some { r.writeStream with
      state := .initial, idlenessTimer := false, unanswered := [] } := if_pos hstarted
  rw [closeWriteStream, hclose, Option.bind_some]
  have hshould : ({ r with writeStream := { r.writeStream with
      state := .initial, idlenessTimer := false, unanswered := [] } } :
        RemoteStore).shouldStartWriteStream = true ↔
      r.isNetworkEnabled = true ∧ r.writePipeline ≠ [] := by
    simp [shouldStartWriteStream, WriteStream.isStarted, WriteStream.isOpen]
  constructor
  · rw [← hshould]
    split <;> simp_all
  · intro r' hr'
    split at hr'
    · cases hr'
    · exact (Option.some.inj hr').symm

/-! ### The events that only concern the stream -/

/-- A stream that has not been started. -/
theorem Settled.of_not_started (h : r.Settled s) (hstarted : r.writeStream.isStarted = false) :
    r.writePipeline = [] ∧ r.writeStream.idlenessTimer = false ∧ r.writeStream.unanswered = [] ∧
      r.writeStream.handshakeComplete = false := by
  have hclosed : r.writeStream.isOpen = false := by
    simp only [WriteStream.isStarted, Bool.or_eq_false_iff] at hstarted
    exact hstarted.2
  have hready : r.writeStream.isReady = false := by simp [WriteStream.isReady, hclosed]
  have hnone := h.sound.unanswered
  rw [hready] at hnone
  refine ⟨of_not_not fun hne => ?_, ?_, hnone, ?_⟩
  · cases hstarted.symm.trans (h.started hne)
  · exact Bool.eq_false_iff.mpr fun hidle => by cases hready.symm.trans (h.sound.idle hidle).1
  · exact Bool.eq_false_iff.mpr fun hhand => by cases hclosed.symm.trans (h.handshake hhand)

theorem Settled.disableNetwork_eq (h : r.Settled s) (s' : LocalStore) :
    ∃ r', r.disableNetwork = some r' ∧ r'.isNetworkEnabled = false ∧ r'.Settled s' := by
  rw [disableNetwork, disableNetworkInternal, stopWriteStream]
  by_cases hstarted : r.writeStream.isStarted = true
  · obtain ⟨hnone, heq⟩ :=
      closeWriteStream_eq (r := { r with isNetworkEnabled := false }) hstarted
    obtain ⟨r', hr'⟩ := Option.ne_none_iff_exists'.mp fun h =>
      Bool.false_ne_true (hnone.mp h).1
    refine ⟨{ r' with writePipeline := [] }, by rw [if_pos hstarted, hr']; rfl, ?_, ?_⟩
    · rw [heq r' hr']
    · rw [heq r' hr']
      exact ⟨⟨sound_closed (r := ⟨false, [], .new⟩) (w := .new) rfl rfl rfl fun _ => rfl, rfl,
        fun hne => absurd rfl hne⟩, fun hhand => (by cases hhand)⟩
  · have hstarted := Bool.eq_false_iff.mpr hstarted
    obtain ⟨-, hidle, hunanswered, hhand⟩ := h.of_not_started hstarted
    refine ⟨⟨false, [], r.writeStream⟩, by rw [if_neg (by simp [hstarted])]; rfl, rfl,
      ⟨?_, rfl, fun hne => absurd rfl hne⟩, fun h => ?_⟩
    · exact sound_closed (r := ⟨false, [], r.writeStream⟩) hstarted hidle hunanswered fun _ => rfl
    · cases hhand.symm.trans h

theorem Settled.enableNetwork_eq (h : r.Settled s) (hs : s.Good) :
    ∃ r', r.enableNetwork s = some r' ∧ r'.isNetworkEnabled = true ∧ r'.Settled s := by
  have hsound : RemoteStore.Sound { r with isNetworkEnabled := true } :=
    ⟨h.sound.unanswered, h.sound.waits, h.sound.idle, fun hoff => (by cases hoff)⟩
  have hprefix : r.writePipeline <+: (s.db.pending s.userId).take kMaxPendingWrites := by
    rw [h.pipeline]
    split
    · exact List.prefix_refl _
    · exact List.nil_prefix
  obtain ⟨r', hr', hfilled, honline, hopen, hhand⟩ := hsound.fillWritePipeline_eq hs hprefix
  exact ⟨r', hr', honline, hfilled, fun hh => hopen.trans (h.handshake (hhand ▸ hh))⟩

/-- The streams are set up again for the queue of the new user. -/
theorem Settled.handleCredentialChange_eq (h : r.Settled s) {s' : LocalStore} (hs' : s'.Good) :
    ∃ r', r.handleCredentialChange s' = some r' ∧ r'.isNetworkEnabled = r.isNetworkEnabled ∧
      r'.Settled s' := by
  rw [handleCredentialChange]
  by_cases honline : r.isNetworkEnabled = true
  · obtain ⟨r₁, hr₁, -, hsettled⟩ := h.disableNetwork_eq s'
    obtain ⟨r₂, hr₂, honline₂, hsettled₂⟩ := hsettled.enableNetwork_eq hs'
    refine ⟨r₂, by rw [if_pos honline, hr₁]; exact hr₂, honline₂.trans honline.symm, hsettled₂⟩
  · have hoff := Bool.eq_false_iff.mpr honline
    exact ⟨r, if_neg honline, rfl, ⟨h.sound, by rw [h.pipeline, if_neg honline, if_neg honline],
      h.started⟩, h.handshake⟩

theorem Settled.onStreamStart_eq (h : r.Settled s) (hstate : r.writeStream.state = .starting) :
    ∃ r', r.onStreamStart = some r' ∧ r'.isNetworkEnabled = r.isNetworkEnabled ∧
      r'.writeStream.isOpen = true ∧ r'.writeStream.handshakeComplete = false ∧ r'.Settled s := by
  have hclosed : r.writeStream.isOpen = false := by rw [WriteStream.isOpen, hstate]; rfl
  have hhand : r.writeStream.handshakeComplete = false :=
    Bool.eq_false_iff.mpr fun hhand => by cases hclosed.symm.trans (h.handshake hhand)
  have hready : r.writeStream.isReady = false := by simp [WriteStream.isReady, hclosed]
  have hstarted : r.writeStream.isStarted = true := by simp [WriteStream.isStarted, hstate]
  have hne := (h.sound.waits hstarted).resolve_left (by simp [hready])
  have hnone := h.sound.unanswered
  rw [hready] at hnone
  refine ⟨{ r with writeStream := { r.writeStream with state := .open_, idlenessTimer := false } },
    ?_, rfl, rfl, hhand, ⟨⟨?_, fun _ => Or.inr hne, fun hidle => (by cases hidle), fun hoff => ?_⟩,
      h.pipeline, fun _ => rfl⟩, fun _ => rfl⟩
  · rw [onStreamStart, if_pos hstate, onWriteStreamOpen, WriteStream.writeHandshake, if_pos]
    · rfl
    · simp [WriteStream.isOpen, hhand]
  · show r.writeStream.unanswered = if (_ && r.writeStream.handshakeComplete) = true then _ else _
    rw [hhand, Bool.and_false]
    exact hnone
  · exact absurd (h.sound.offline hoff).2 hne

/-- The writes of the pipeline, sent one after the other. -/
theorem foldlM_writeMutations {w : WriteStream} (hready : w.isReady = true)
    (batches : List MutationBatch) :
    ∃ idlenessTimer, batches.foldlM (fun (w : WriteStream) batch =>
        w.writeMutations batch.mutations) w = some { w with
      idlenessTimer
      unanswered := w.unanswered ++ batches.map MutationBatch.mutations } ∧
      (batches ≠ [] → idlenessTimer = false) := by
  induction batches generalizing w with
  | nil => exact ⟨w.idlenessTimer, by simp, fun hne => absurd rfl hne⟩
  | cons batch batches ih =>
    have hsend := WriteStream.writeMutations_eq hready batch.mutations
    obtain ⟨idle, hfold, hidle⟩ := ih (w := { w with
      idlenessTimer := false
      unanswered := w.unanswered ++ [batch.mutations] }) hready
    refine ⟨idle, ?_, fun _ => ?_⟩
    · rw [List.foldlM_cons, hsend]
      simpa using hfold
    · by_cases hne : batches = []
      · subst hne
        exact (congrArg WriteStream.idlenessTimer (Option.some.inj hfold)).symm
      · exact hidle hne

theorem Settled.notifyHandshakeResponse_eq (h : r.Settled s) (hopen : r.writeStream.isOpen = true)
    (hhand : r.writeStream.handshakeComplete = false) :
    ∃ r', r.notifyHandshakeResponse = some r' ∧ r'.isNetworkEnabled = r.isNetworkEnabled ∧
      r'.writeStream.isReady = true ∧ r'.Settled s := by
  have hnot : r.writeStream.isReady = false := by simp [WriteStream.isReady, hhand]
  have hstarted : r.writeStream.isStarted = true := by simp [WriteStream.isStarted, hopen]
  have hne := (h.sound.waits hstarted).resolve_left (by simp [hnot])
  have hnone := h.sound.unanswered
  rw [hnot] at hnone
  have hready : ({ r.writeStream with handshakeComplete := true } : WriteStream).isReady = true :=
    (Bool.and_true _).trans hopen
  obtain ⟨idle, hfold, hidle⟩ := foldlM_writeMutations hready r.writePipeline
  refine ⟨_, congrArg (Option.map _) hfold, rfl, hready,
    ⟨⟨?_, fun _ => Or.inl hready, fun h => ?_, fun hoff => absurd (h.sound.offline hoff).2 hne⟩,
      h.pipeline, fun _ => hstarted⟩, fun _ => hopen⟩
  · refine Eq.trans ?_ (if_pos hready).symm
    exact congrArg (· ++ r.writePipeline.map MutationBatch.mutations) hnone
  · cases (hidle hne).symm.trans h

theorem Settled.backoffElapsed_eq (h : r.Settled s) (hstate : r.writeStream.state = .backoff) :
    ∃ w, r.writeStream.backoffElapsed = some w ∧
      RemoteStore.Settled { r with writeStream := w } s := by
  have hclosed : r.writeStream.isOpen = false := by rw [WriteStream.isOpen, hstate]; rfl
  have hready : r.writeStream.isReady = false := by simp [WriteStream.isReady, hclosed]
  have hstarted : r.writeStream.isStarted = true := by simp [WriteStream.isStarted, hstate]
  have hne := (h.sound.waits hstarted).resolve_left (by simp [hready])
  have hnone := h.sound.unanswered
  rw [hready] at hnone
  refine ⟨{ r.writeStream with state := .starting }, if_pos hstate, ⟨⟨hnone, fun _ => Or.inr hne,
    fun hidle => ?_, fun hoff => ?_⟩, h.pipeline, fun _ => rfl⟩, fun hhand => ?_⟩
  · cases hready.symm.trans (h.sound.idle hidle).1
  · exact absurd (h.sound.offline hoff).2 hne
  · cases hclosed.symm.trans (h.handshake hhand)

/-- The timer only runs while nothing is to be written. -/
theorem Settled.idleTimeout_eq (h : r.Settled s) (hidle : r.writeStream.idlenessTimer = true) :
    ∃ r', r.stopWriteStream = some r' ∧ r'.isNetworkEnabled = r.isNetworkEnabled ∧
      r'.Settled s := by
  obtain ⟨hready, hempty⟩ := h.sound.idle hidle
  have hopen : r.writeStream.isOpen = true := (Bool.and_eq_true_iff.mp hready).1
  have hstarted : r.writeStream.isStarted = true := by simp [WriteStream.isStarted, hopen]
  obtain ⟨hnone, heq⟩ := closeWriteStream_eq hstarted
  obtain ⟨r', hr'⟩ := Option.ne_none_iff_exists'.mp fun h => (hnone.mp h).2 hempty
  refine ⟨r', by rw [stopWriteStream, if_pos hstarted, hr'], ?_⟩
  rw [heq r' hr']
  exact ⟨rfl, ⟨sound_closed (w := .new) rfl rfl rfl fun _ => hempty, h.pipeline,
    fun hne => absurd hempty hne⟩, fun hhand => (by cases hhand)⟩

/-- There is nothing to be started. -/
theorem Filled.shouldStartWriteStream (h : r.Filled s) : r.shouldStartWriteStream = false := by
  rw [RemoteStore.shouldStartWriteStream]
  by_cases hne : r.writePipeline = []
  · simp [hne]
  · simp [h.started hne]

/-- After a stream has been closed the handshake is forgotten. -/
theorem Filled.forgetHandshake (h : r.Filled s) (hclosed : r.writeStream.isOpen = false) :
    RemoteStore.Settled { r with
      writeStream := { r.writeStream with handshakeComplete := false } } s := by
  have hready : r.writeStream.isReady = false := by simp [WriteStream.isReady, hclosed]
  have hready' :
      ({ r.writeStream with handshakeComplete := false } : WriteStream).isReady = false :=
    Bool.and_false _
  refine ⟨⟨⟨?_, fun hstarted => ?_, fun hidle => ?_, h.sound.offline⟩, h.pipeline, h.started⟩,
    fun hhand => (by cases hhand)⟩
  · have hnone := h.sound.unanswered
    rw [hready] at hnone
    exact hnone.trans (if_neg (by simp [hready'])).symm
  · exact Or.inr ((h.sound.waits hstarted).resolve_left (by simp [hready]))
  · cases hready.symm.trans (h.sound.idle hidle).1

/-- Only the pending writes of the user matter. -/
theorem Settled.congr (h : r.Settled s) {s' : LocalStore}
    (hpending : s'.db.pending s'.userId = s.db.pending s.userId) : r.Settled s' :=
  ⟨⟨h.sound, by rw [h.pipeline, hpending], h.started⟩, h.handshake⟩

/-- The pipeline begins with the first pending batch. -/
theorem Filled.pending_eq (h : r.Filled s) {batch : MutationBatch}
    {writePipeline : List MutationBatch} (hpipeline : r.writePipeline = batch :: writePipeline) :
    ∃ rest, s.db.pending s.userId = batch :: rest ∧
      writePipeline <+: rest.take kMaxPendingWrites := by
  have hp := h.pipeline
  rw [hpipeline] at hp
  split at hp
  · rw [kMaxPendingWrites] at hp ⊢
    cases hpending : s.db.pending s.userId with
    | nil => simp [hpending] at hp
    | cons first rest =>
      rw [hpending, List.take_succ_cons] at hp
      obtain ⟨rfl, rfl⟩ := List.cons.inj hp
      exact ⟨rest, rfl, (List.take_prefix_take_left (by omega))⟩
  · cases hp

/-- The first write without an answer is that of the first batch. -/
theorem Sound.unanswered_head (h : r.Sound) {mutations : List Mutation}
    (hhead : r.writeStream.unanswered.head? = some mutations) :
    ∃ batch writePipeline, r.writePipeline = batch :: writePipeline ∧
      batch.mutations = mutations ∧ r.writeStream.isReady = true := by
  have hunanswered := h.unanswered
  split at hunanswered
  · rename_i hready
    rw [hunanswered] at hhead
    cases hpipeline : r.writePipeline with
    | nil => simp [hpipeline] at hhead
    | cons batch writePipeline =>
      rw [hpipeline] at hhead
      exact ⟨batch, writePipeline, rfl, Option.some.inj hhead, hready⟩
  · simp [hunanswered] at hhead

end RemoteStore

end Musgravite.Firestore
