import Musgravite.Firestore.SyncEngine

/-! # Runs of the client

What holds however writes, answers, failures of the stream, timers and changes of the user
follow one another.  The main results are that no assertion fails (`assertion_fails_iff`), what
is on its way to the backend (`pipeline_oldest_pending`), that each write is answered once and in
order (`writes_answered_in_order`) and that no write is stuck (`writes_can_be_answered`). -/
namespace Musgravite.Firestore
open SyncEngine

variable {Completion : Type*} {c c' : SyncEngine Completion} {db : LevelDb} {user : String}
  {as : List (SyncEvent Completion)}

theorem machine_step {e : SyncEvent Completion} {x : Option (SyncEngine Completion)} :
    (machine Completion).step (some c) e = some x ↔
      c.Enabled e ∧ x = (c.handle e).map Prod.fst := by
  simp only [machine, Option.bind_some]
  split
  · rename_i he
    rw [Option.some_inj, eq_comm, and_iff_right he]
  · rename_i he
    exact ⟨fun h => (by cases h), fun h => absurd h.1 he⟩

/-- A step from a state in which no assertion has failed, to another one. -/
theorem step_next (h : c.Running) {e : SyncEvent Completion}
    (hstep : (machine Completion).step (some c) e = some (some c')) :
    ∃ calls, c.handle e = some (c', calls) ∧ c'.Running ∧ c.Next e c' calls := by
  obtain ⟨he, hx⟩ := machine_step.mp hstep
  obtain ⟨⟨d, calls⟩, hd, rfl⟩ := Option.map_eq_some_iff.mp hx.symm
  have hclose : e = .streamFinish none → c.remoteStore.writePipeline = [] := by
    rintro rfl
    have hopen := he.resolve_right fun h => h.2 rfl
    by_contra hne
    cases ((h.streamFinish_none hopen).1.mpr hne).symm.trans hd
  obtain ⟨d', calls', hd', hrunning, hnext⟩ := h.handle_next e he hclose
  obtain ⟨rfl, rfl⟩ := Prod.mk.inj (Option.some.inj (hd.symm.trans hd'))
  exact ⟨calls, hd, hrunning, hnext⟩

theorem run_running {s : SyncEngine Completion} (hs : s.Running)
    (hrun : (machine Completion).run (some s) as = some (some c)) : c.Running := by
  have hinv := (machine Completion).run_invariant
    (P := fun x => ∀ c, x = some c → c.Running) ?_ ?_ hrun
  · exact hinv c rfl
  · rintro x e y hx hstep d rfl
    cases x with
    | none => cases hstep
    | some c => exact (step_next (hx c rfl) hstep).choose_spec.2.1
  · rintro d hd
    exact Option.some.inj hd ▸ hs

/-- The write of a new team. -/
def newTeam : List Mutation :=
  setMutations ["equipo", "t1"] (Table.empty.put "nombre" (.string "A"))

/-- **What is on its way**: while the network is enabled, the pipeline holds the oldest pending
writes of the user, at most ten, and there is a stream for them.  What was sent over it and not
answered is the pipeline once the handshake is complete, and nothing before. -/
theorem pipeline_oldest_pending (hdb : db.Valid) (user : String)
    (hrun : (machine Completion).run (some (start db user)) as = some (some c)) :
    c.remoteStore.writePipeline = (if c.remoteStore.isNetworkEnabled then
        (c.localStore.db.pending c.currentUser).take 10 else []) ∧
      (c.remoteStore.writePipeline ≠ [] → c.remoteStore.writeStream.isStarted = true) ∧
      c.remoteStore.writeStream.unanswered = (if c.remoteStore.writeStream.isReady then
        c.remoteStore.writePipeline.map MutationBatch.mutations else []) := by
  have h := run_running (start_running hdb user) hrun
  refine ⟨?_, h.settled.started, h.settled.sound.unanswered⟩
  rw [h.settled.pipeline, h.user]
  rfl

/-- The new team has been sent. -/
theorem pipeline_oldest_pending_sent :
    ∃ c, (machine ℕ).run (some (start .new "ana")) [.write newTeam (List.cons_ne_nil _ _) 1,
        .enableNetwork, .streamStart, .handshakeResponse] = some (some c) ∧
      c.remoteStore.writePipeline = (if c.remoteStore.isNetworkEnabled then
        (c.localStore.db.pending c.currentUser).take 10 else []) ∧
      (c.remoteStore.writePipeline ≠ [] → c.remoteStore.writeStream.isStarted = true) ∧
      c.remoteStore.writeStream.unanswered = (if c.remoteStore.writeStream.isReady then
        c.remoteStore.writePipeline.map MutationBatch.mutations else []) ∧
      c.remoteStore.writeStream.unanswered = [newTeam] := by
  have hrun : ∃ c, (machine ℕ).run (some (start .new "ana"))
      [.write newTeam (List.cons_ne_nil _ _) 1, .enableNetwork, .streamStart,
        .handshakeResponse] = some (some c) ∧ c.remoteStore.writeStream.unanswered = [newTeam] := by
    rw [start_new]
    exact ⟨_, rfl, rfl⟩
  obtain ⟨c, hrun, hsent⟩ := hrun
  obtain ⟨hpipeline, hstarted, hunanswered⟩ :=
    pipeline_oldest_pending LevelDb.new_valid "ana" hrun
  exact ⟨c, hrun, hpipeline, hstarted, hunanswered, hsent⟩

/-! ## Each write is answered once -/

/-- What the backend has said to a write: the writes, what it said and the calls of completion
blocks that followed. -/
structure Answer (Completion : Type*) where
  mutations : List Mutation
  status : Status
  calls : List (CompletionCall Completion)

namespace SyncEngine

/-- The completion blocks that are called in an event. -/
def calls (c : SyncEngine Completion) (e : SyncEvent Completion) :
    List (CompletionCall Completion) :=
  match c.handle e with
  | some (_, calls) => calls
  | none => []

/-- The answer of the backend in an event: to the first of the writes it has got. -/
def answer (c : SyncEngine Completion) (e : SyncEvent Completion) : List (Answer Completion) :=
  match e with
  | .mutationResponse _ =>
      c.remoteStore.writeStream.unanswered.head?.toList.map fun mutations =>
        ⟨mutations, none, c.calls e⟩
  | .streamFinish (some error) =>
      if error.isPermanentWriteError then
        c.remoteStore.writeStream.unanswered.head?.toList.map fun mutations =>
          ⟨mutations, some error, c.calls e⟩
      else []
  | _ => []

/-- A write of the application, with its completion block. -/
def written (e : SyncEvent Completion) : List (List Mutation × List Completion) :=
  match e with
  | .write mutations _ completion => [(mutations, [completion])]
  | _ => []

/-- The writes of a user that wait for an answer, with their completion blocks. -/
def waiting (c : SyncEngine Completion) (user : String) : List (List Mutation × List Completion) :=
  (c.localStore.db.pending user).map fun batch =>
    (batch.mutations, (c.mutationCompletionBlocks.get ⟨user, batch.batchID⟩).toList)

end SyncEngine

/-- What is observed of a client while a user is signed in. -/
def observed {Observation : Type*} (user : String)
    (observe : SyncEngine Completion → SyncEvent Completion → List Observation)
    (x : Option (SyncEngine Completion)) (e : SyncEvent Completion) : List Observation :=
  match x with
  | some c => if c.currentUser = user then observe c e else []
  | none => []

/-- The writes of a user in a run. -/
def writtenIn (user : String) (s : SyncEngine Completion) (as : List (SyncEvent Completion)) :
    List (List Mutation × List Completion) :=
  (machine Completion).trace (observed user fun _ e => written e) (some s) as

/-- The answers to the writes of a user in a run. -/
def answersIn (user : String) (s : SyncEngine Completion) (as : List (SyncEvent Completion)) :
    List (Answer Completion) :=
  (machine Completion).trace (observed user answer) (some s) as

/-- The completion blocks called in a run while a user is signed in. -/
def callsIn (user : String) (s : SyncEngine Completion) (as : List (SyncEvent Completion)) :
    List (CompletionCall Completion) :=
  (machine Completion).trace (observed user SyncEngine.calls) (some s) as

/-- The write that an answer is about. -/
def Answer.write (a : Answer Completion) : List Mutation × List Completion :=
  (a.mutations, a.calls.map CompletionCall.completion)

namespace SyncEngine

theorem calls_eq {e : SyncEvent Completion} {calls : List (CompletionCall Completion)}
    (h : c.handle e = some (c', calls)) : c.calls e = calls := by
  rw [SyncEngine.calls, h]

theorem answer_of_quiet {e : SyncEvent Completion} (h : c.Quiet e) :
    c.answer e = [] ∧ written e = [] := by
  cases e with
  | streamFinish status =>
    cases status with
    | none => exact ⟨rfl, rfl⟩
    | some error =>
      refine ⟨?_, rfl⟩
      rw [answer]
      split
      · rename_i hpermanent
        rw [h hpermanent]
        rfl
      · rfl
  | mutationResponse _ => exact h.elim
  | write _ _ _ => exact h.elim
  | _ => exact ⟨rfl, rfl⟩

/-- A completion block that is not of the first batch stays. -/
theorem waiting_erase (h : c.Running) {batch : MutationBatch} {rest : List MutationBatch}
    (hpending : c.localStore.db.pending c.currentUser = batch :: rest)
    (error : Status) {remoteDocuments : MaybeDocumentMap}
    (hlocal : c'.localStore = c.localStore.without batch remoteDocuments)
    (hblocks : c'.mutationCompletionBlocks =
      c.mutationCompletionBlocks.erase ⟨c.currentUser, batch.batchID⟩) (user : String) :
    c.waiting user = (if c.currentUser = user then [(batch.mutations,
      (c.callsFor batch.batchID error).map CompletionCall.completion)] else []) ++
        c'.waiting user := by
  have hrest := h.good.valid.pending_deleteFirst hpending user
  have hdb : c'.localStore.db.pending user = if user = c.currentUser then rest
      else c.localStore.db.pending user := by
    rw [hlocal, ← hrest, ← h.user]
    rfl
  rw [waiting, waiting, hdb, hblocks]
  by_cases hu : c.currentUser = user
  · subst hu
    rw [if_pos rfl, if_pos rfl, hpending, List.map_cons]
    congr 1
    · rw [callsFor]
      cases c.mutationCompletionBlocks.get ⟨c.currentUser, batch.batchID⟩ <;> rfl
    · have hsorted := h.good.valid.pairwise_pending c.currentUser
      rw [hpending] at hsorted
      refine List.map_congr_left fun b hb => ?_
      have hne := ((List.pairwise_cons.mp hsorted).1 b hb).ne'
      rw [Table.get_erase, if_neg fun hk => hne (MutationKey.mk.inj hk).2]
  · rw [if_neg hu, if_neg (Ne.symm hu), List.nil_append]
    refine List.map_congr_left fun b _ => ?_
    rw [Table.get_erase, if_neg fun hk => hu (MutationKey.mk.inj hk).1.symm]

/-- A new batch waits behind the others. -/
theorem waiting_write (h : c.Running) {mutations : List Mutation} {hne : mutations ≠ []}
    {completion : Completion} (hnext : c.localStore.nextBatchId < BatchId.max)
    (hlocal : c'.localStore = c.localStore.written mutations hne)
    (hblocks : c'.mutationCompletionBlocks =
      c.mutationCompletionBlocks.put ⟨c.currentUser, c.localStore.nextBatchId⟩ completion)
    (user : String) :
    c'.waiting user =
      c.waiting user ++ if c.currentUser = user then [(mutations, [completion])] else [] := by
  have hold : ∀ b ∈ c.localStore.db.pending user, b.batchID ≠ c.localStore.nextBatchId :=
    fun b hb => (h.good.fresh _ b (h.good.valid.mem_pending_iff.mp hb)).ne
  rw [waiting, waiting, hlocal, hblocks, h.good.pending_written hnext, List.map_append, h.user]
  congr 1
  · refine List.map_congr_left fun b hb => ?_
    rw [Table.get_put, if_neg fun hk => hold b hb (MutationKey.mk.inj hk).2]
  · by_cases hu : c.currentUser = user
    · subst hu
      rw [if_pos rfl, if_pos rfl, List.map_singleton, Table.get_put_self]
      rfl
    · rw [if_neg hu, if_neg (Ne.symm hu)]
      rfl

/-- An answer to the first batch of the queue. -/
theorem answered_next (h : c.Running) {e : SyncEvent Completion} {batch : MutationBatch}
    {rest : List MutationBatch} {remoteDocuments : MaybeDocumentMap} {status : Status}
    (hhandle : c.handle e = some (c', c.callsFor batch.batchID status))
    (hanswer : c.answer e = [⟨batch.mutations, status, c.calls e⟩]) (hwritten : written e = [])
    (hpending : c.localStore.db.pending c.currentUser = batch :: rest)
    (hlocal : c'.localStore = c.localStore.without batch remoteDocuments)
    (hblocks : c'.mutationCompletionBlocks =
      c.mutationCompletionBlocks.erase ⟨c.currentUser, batch.batchID⟩) (user : String) :
    c.waiting user ++ observed user (fun _ e => written e) (some c) e =
        (observed user answer (some c) e).map Answer.write ++ c'.waiting user ∧
      (∀ a ∈ observed user answer (some c) e, ∀ call ∈ a.calls, call.error = a.status) ∧
      observed user SyncEngine.calls (some c) e =
        (observed user answer (some c) e).flatMap Answer.calls := by
  simp only [observed, hwritten, hanswer, calls_eq hhandle, ite_self, List.append_nil]
  rw [waiting_erase h hpending status hlocal hblocks user]
  by_cases hu : c.currentUser = user
  · simp only [if_pos hu]
    refine ⟨rfl, ?_, by simp⟩
    simp only [List.mem_singleton, forall_eq, callsFor]
    cases c.mutationCompletionBlocks.get ⟨c.currentUser, batch.batchID⟩ <;> simp
  · simp only [if_neg hu]
    exact ⟨rfl, fun a ha => absurd ha List.not_mem_nil, rfl⟩

/-- One event: what waited and what was written is what was answered and what waits. -/
theorem Running.waiting_next (h : c.Running) {e : SyncEvent Completion}
    {calls : List (CompletionCall Completion)} (hhandle : c.handle e = some (c', calls))
    (hnext : c.Next e c' calls) (user : String) :
    c.waiting user ++ observed user (fun _ e => written e) (some c) e =
        (observed user answer (some c) e).map Answer.write ++ c'.waiting user ∧
      (∀ a ∈ observed user answer (some c) e, ∀ call ∈ a.calls, call.error = a.status) ∧
      observed user SyncEngine.calls (some c) e =
        (observed user answer (some c) e).flatMap Answer.calls := by
  -- an event without an answer
  have hnone (hanswer : c.answer e = []) (hcalls : calls = [])
      (hwaiting : c'.waiting user =
        c.waiting user ++ observed user (fun _ e => written e) (some c) e) :
      c.waiting user ++ observed user (fun _ e => written e) (some c) e =
          (observed user answer (some c) e).map Answer.write ++ c'.waiting user ∧
        (∀ a ∈ observed user answer (some c) e, ∀ call ∈ a.calls, call.error = a.status) ∧
        observed user SyncEngine.calls (some c) e =
          (observed user answer (some c) e).flatMap Answer.calls := by
    have hobserved : observed user answer (some c) e = [] := by simp [observed, hanswer]
    rw [hobserved, hwaiting]
    exact ⟨rfl, fun a ha => absurd ha List.not_mem_nil,
      by simp [observed, calls_eq hhandle, hcalls]⟩
  cases hnext with
  | write mutations hne completion hnumber huser hlocal hblocks =>
    exact hnone rfl rfl (waiting_write h hnumber hlocal hblocks user)
  | accepted mutationResults batch rest remoteDocuments hpending hsent hanswered huser hlocal
      hdocuments hblocks =>
    refine answered_next h hhandle ?_ rfl hpending hlocal hblocks user
    rw [answer, hsent]
    rfl
  | rejected error batch rest hpermanent hpending hsent huser hlocal hblocks =>
    refine answered_next h hhandle ?_ rfl hpending hlocal hblocks user
    rw [answer, if_pos hpermanent, hsent]
    rfl
  | credential user' huser hlocal hblocks =>
    refine hnone rfl rfl ?_
    have hdb : c'.localStore.db = c.localStore.db := by
      rw [hlocal]
      split <;> rfl
    simp [waiting, hdb, hblocks, observed, written]
  | remote documentUpdates authoritative huser hlocal hblocks =>
    refine hnone rfl rfl ?_
    have hdb : c'.localStore.db.pending user = c.localStore.db.pending user := by
      rw [hlocal]
      rfl
    simp [waiting, hdb, hblocks, observed, written]
  | quiet e hquiet remoteStore =>
    obtain ⟨hanswer, hwritten⟩ := answer_of_quiet hquiet
    refine hnone hanswer rfl ?_
    simp [waiting, observed, hwritten]

end SyncEngine

/-- A run: what waited and what was written is what was answered and what waits. -/
theorem waiting_run {s : SyncEngine Completion} (hs : s.Running)
    (hrun : (machine Completion).run (some s) as = some (some c)) (u : String) :
    s.waiting u ++ writtenIn u s as = (answersIn u s as).map Answer.write ++ c.waiting u ∧
      (∀ a ∈ answersIn u s as, ∀ call ∈ a.calls, call.error = a.status) ∧
      callsIn u s as = (answersIn u s as).flatMap Answer.calls := by
  refine (machine Completion).run_history (P := fun as x => ∀ c, x = some c →
    s.waiting u ++ writtenIn u s as = (answersIn u s as).map Answer.write ++ c.waiting u ∧
      (∀ a ∈ answersIn u s as, ∀ call ∈ a.calls, call.error = a.status) ∧
      callsIn u s as = (answersIn u s as).flatMap Answer.calls) ?_ ?_ hrun c rfl
  · rintro c hc
    obtain rfl := Option.some.inj hc
    exact ⟨List.append_nil _, fun a ha => absurd ha List.not_mem_nil, rfl⟩
  · rintro as x e y hbefore ih hstep d rfl
    cases x with
    | none => cases hstep
    | some c =>
      obtain ⟨hwaiting, hcalls, hcalled⟩ := ih c rfl
      have hrunning := run_running hs hbefore
      obtain ⟨calls, hhandle, -, hnext⟩ := step_next hrunning hstep
      obtain ⟨hwaiting', hcalls', hcalled'⟩ := hrunning.waiting_next hhandle hnext u
      simp only [writtenIn, answersIn, callsIn,
        (machine Completion).trace_snoc _ hbefore hstep] at hwaiting hcalls hcalled ⊢
      refine ⟨?_, fun a ha => ?_, ?_⟩
      · rw [← List.append_assoc, hwaiting, List.append_assoc, hwaiting', List.map_append,
          List.append_assoc]
      · exact (List.mem_append.mp ha).elim (hcalls a) (hcalls' a)
      · rw [hcalled, hcalled', List.flatMap_append]

/-- **Each write is answered once, and in the order in which it was made.**  For every user,
the writes of earlier sessions and of the run are those that were answered, one after the other,
and those that wait.  Each completion block is called with the answer to its own write, and at no
other time. -/
theorem writes_answered_in_order (hdb : db.Valid) (user : String)
    (hrun : (machine Completion).run (some (start db user)) as = some (some c)) (u : String) :
    (db.pending u).map (fun batch => (batch.mutations, [])) ++ writtenIn u (start db user) as =
        (answersIn u (start db user) as).map Answer.write ++ c.waiting u ∧
      (∀ a ∈ answersIn u (start db user) as, ∀ call ∈ a.calls, call.error = a.status) ∧
      callsIn u (start db user) as = (answersIn u (start db user) as).flatMap Answer.calls :=
  waiting_run (start_running hdb user) hrun u

/-- The new team is accepted, and its completion block is called. -/
theorem writes_answered_in_order_accepted :
    ∃ c, (machine ℕ).run (some (start .new "ana")) [.write newTeam (List.cons_ne_nil _ _) 1,
        .enableNetwork, .streamStart, .handshakeResponse, .mutationResponse [⟨5, none⟩]] =
          some (some c) ∧
      [] ++ [(newTeam, [1])] = (answersIn "ana" (start .new "ana")
        [.write newTeam (List.cons_ne_nil _ _) 1, .enableNetwork, .streamStart,
          .handshakeResponse, .mutationResponse [⟨5, none⟩]]).map Answer.write ++ c.waiting "ana" ∧
      c.waiting "ana" = [] := by
  have hrun : ∃ c, (machine ℕ).run (some (start .new "ana"))
      [.write newTeam (List.cons_ne_nil _ _) 1, .enableNetwork, .streamStart, .handshakeResponse,
        .mutationResponse [⟨5, none⟩]] = some (some c) ∧ c.waiting "ana" = [] := by
    rw [start_new]
    exact ⟨_, rfl, rfl⟩
  obtain ⟨c, hrun, hwaiting⟩ := hrun
  have hanswers := (writes_answered_in_order LevelDb.new_valid "ana" hrun "ana").1
  have hwritten : writtenIn "ana" (start .new "ana") [.write newTeam (List.cons_ne_nil _ _) 1,
      .enableNetwork, .streamStart, .handshakeResponse, .mutationResponse [⟨5, none⟩]] =
        [(newTeam, [1])] := by
    rw [start_new]
    rfl
  rw [hwritten] at hanswers
  exact ⟨c, hrun, hanswers, hwaiting⟩

/-! ## No write is stuck -/

/-- What the network and the backend do when nothing goes wrong. -/
def SyncEvent.Network : SyncEvent Completion → Prop
  | .enableNetwork => True
  | .streamStart => True
  | .handshakeResponse => True
  | .mutationResponse _ => True
  | .backoffElapsed => True
  | _ => False

theorem step_of_handle {e : SyncEvent Completion} (he : c.Enabled e)
    {calls : List (CompletionCall Completion)} (h : c.handle e = some (c', calls)) :
    (machine Completion).step (some c) e = some (some c') :=
  machine_step.mpr ⟨he, by rw [h]; rfl⟩

/-- Events of the network that lead to a state of the remote store. -/
def Leads (c : SyncEngine Completion) (goal : RemoteStore → Prop) : Prop :=
  ∃ bs remoteStore, (∀ e ∈ bs, SyncEvent.Network e) ∧
    (machine Completion).run (some c) bs = some (some { c with remoteStore }) ∧
    remoteStore.Settled c.localStore ∧ goal remoteStore

theorem Leads.cons {goal : RemoteStore → Prop} (e : SyncEvent Completion)
    {remoteStore : RemoteStore} (he : c.Enabled e) (hnetwork : e.Network)
    (hhandle : c.handle e = some ({ c with remoteStore }, []))
    (h : Leads { c with remoteStore } goal) : Leads c goal := by
  obtain ⟨bs, remoteStore', hbs, hrun, hsettled, hgoal⟩ := h
  refine ⟨e :: bs, remoteStore', List.forall_mem_cons.mpr ⟨hnetwork, hbs⟩, ?_, hsettled, hgoal⟩
  exact (machine Completion).run_cons_eq_some.mpr ⟨_, step_of_handle he hhandle, hrun⟩

theorem Leads.refl {goal : RemoteStore → Prop} (h : c.Running) (hgoal : goal c.remoteStore) :
    Leads c goal :=
  ⟨[], c.remoteStore, fun _ he => absurd he List.not_mem_nil, rfl, h.settled, hgoal⟩

/-- An open stream gets ready. -/
theorem leads_of_open (h : c.Running) (hopen : c.remoteStore.writeStream.isOpen = true) :
    Leads c fun r => r.writeStream.isReady = true := by
  cases hhand : c.remoteStore.writeStream.handshakeComplete with
  | true => exact .refl h (Bool.and_eq_true_iff.mpr ⟨hopen, hhand⟩)
  | false =>
    obtain ⟨r', hr', -, hready, hsettled⟩ := h.settled.notifyHandshakeResponse_eq hopen hhand
    exact .cons .handshakeResponse ⟨hopen, hhand⟩ trivial (congrArg (Option.map _) hr')
      (.refl (h.withRemoteStore hsettled) hready)

theorem leads_of_starting (h : c.Running)
    (hstate : c.remoteStore.writeStream.state = .starting) :
    Leads c fun r => r.writeStream.isReady = true := by
  obtain ⟨r', hr', -, hopen, -, hsettled⟩ := h.settled.onStreamStart_eq hstate
  exact .cons .streamStart hstate trivial (congrArg (Option.map _) hr')
    (leads_of_open (h.withRemoteStore hsettled) hopen)

/-- Wherever a stream is, it gets ready. -/
theorem leads_of_started (h : c.Running)
    (hstarted : c.remoteStore.writeStream.isStarted = true) :
    Leads c fun r => r.writeStream.isReady = true := by
  simp only [WriteStream.isStarted, Bool.or_eq_true, decide_eq_true_eq] at hstarted
  rcases hstarted with (hstate | hstate) | hopen
  · exact leads_of_starting h hstate
  · obtain ⟨w, hw, hsettled⟩ := h.settled.backoffElapsed_eq hstate
    refine .cons .backoffElapsed hstate trivial (congrArg (Option.map _) hw)
      (leads_of_starting (h.withRemoteStore hsettled) ?_)
    have hw' : c.remoteStore.writeStream.backoffElapsed =
      some { c.remoteStore.writeStream with state := .starting } := if_pos hstate
    obtain rfl := Option.some.inj (hw.symm.trans hw')
    rfl
  · exact leads_of_open h hopen

/-- Pending writes get a stream that is ready. -/
theorem leads_of_pending (h : c.Running) (hne : c.localStore.db.pending c.currentUser ≠ []) :
    Leads c fun r => r.writeStream.isReady = true := by
  obtain ⟨r', hr', honline, hsettled⟩ := h.settled.enableNetwork_eq h.good
  refine .cons .enableNetwork trivial trivial (congrArg (Option.map _) hr') ?_
  refine leads_of_started (h.withRemoteStore hsettled) (hsettled.started ?_)
  rw [hsettled.pipeline, if_pos honline, h.user]
  exact fun hnil => hne ((List.take_eq_nil_iff.mp hnil).resolve_left (by decide))

theorem exists_answers (mutations : List Mutation) :
    ∃ results, List.Forall₂ MutationResult.Answers results mutations := by
  induction mutations with
  | nil => exact ⟨[], .nil⟩
  | cons mutation mutations ih =>
    obtain ⟨results, hresults⟩ := ih
    cases mutation with
    | transform key fieldTransforms =>
      exact ⟨⟨0, some (fieldTransforms.map fun _ => .null)⟩ :: results,
        .cons ⟨_, rfl, List.length_map _⟩ hresults⟩
    | _ => exact ⟨⟨0, none⟩ :: results, .cons rfl hresults⟩

/-- A stream that is ready has sent the first pending write. -/
theorem SyncEngine.Running.unanswered_head? (h : c.Running)
    (hready : c.remoteStore.writeStream.isReady = true) {batch : MutationBatch}
    {rest : List MutationBatch} (hpending : c.localStore.db.pending c.currentUser = batch :: rest) :
    c.remoteStore.writeStream.unanswered.head? = some batch.mutations := by
  have hopen := (Bool.and_eq_true_iff.mp hready).1
  have honline : c.remoteStore.isNetworkEnabled = true := Bool.of_not_eq_false fun hoff => by
    have hclosed := (h.settled.sound.offline hoff).1
    simp [WriteStream.isStarted, hopen] at hclosed
  rw [h.settled.sound.unanswered, if_pos hready, h.settled.pipeline, if_pos honline, h.user,
    hpending]
  rfl

theorem exists_drained (h : c.Running) (batches : List MutationBatch)
    (hpending : c.localStore.db.pending c.currentUser = batches) :
    ∃ bs c', (∀ e ∈ bs, SyncEvent.Network e) ∧
      (machine Completion).run (some c) bs = some (some c') ∧
      c'.localStore.db.pending c.currentUser = [] := by
  induction batches generalizing c with
  | nil => exact ⟨[], c, fun _ he => absurd he List.not_mem_nil, rfl, hpending⟩
  | cons batch rest ih =>
    obtain ⟨bs, remoteStore, hbs, hrun, hsettled, hready⟩ :=
      leads_of_pending h (hpending ▸ List.cons_ne_nil _ _)
    have hc := h.withRemoteStore hsettled
    obtain ⟨results, hresults⟩ := exists_answers batch.mutations
    have he :
        ({ c with remoteStore } : SyncEngine Completion).Enabled (.mutationResponse results) :=
      ⟨batch.mutations, Option.mem_def.mpr (hc.unanswered_head? hready hpending), hresults⟩
    obtain ⟨c₁, calls, hhandle, hc₁, hnext⟩ := hc.mutationResponse_next he
    cases hnext with
    | accepted _ batch' rest' remoteDocuments hpending' _ _ huser hlocal _ _ =>
      obtain ⟨rfl, rfl⟩ := List.cons.inj (hpending'.symm.trans hpending)
      have hrest : c₁.localStore.db.pending c₁.currentUser = rest' := by
        rw [hlocal, huser, ← hc.user]
        exact (hc.withoutFirst hpending remoteDocuments).2.1
      obtain ⟨bs', c₂, hbs', hrun', hnone⟩ := ih hc₁ hrest
      refine ⟨bs ++ .mutationResponse results :: bs', c₂, ?_, ?_, huser ▸ hnone⟩
      · intro e hmem
        rcases List.mem_append.mp hmem with hmem | hmem
        · exact hbs e hmem
        · rcases List.mem_cons.mp hmem with rfl | hmem
          · trivial
          · exact hbs' e hmem
      · rw [TransitionSystem.run_append, hrun, Option.bind_some]
        exact (machine Completion).run_cons_eq_some.mpr ⟨_, step_of_handle he hhandle, hrun'⟩
    | quiet e hquiet remoteStore => exact hquiet.elim

theorem observed_subset {Observation : Type*}
    {observe : SyncEngine Completion → SyncEvent Completion → List Observation} {u : String}
    {x : Option (SyncEngine Completion)} {e : SyncEvent Completion} {o : Observation}
    (h : o ∈ observed u observe x e) : ∃ c, o ∈ observe c e := by
  cases x with
  | none => cases h
  | some c =>
    simp only [observed] at h
    split at h
    · exact ⟨c, h⟩
    · cases h

/-- While nothing goes wrong all answers are good ones. -/
theorem answersIn_of_network {s : SyncEngine Completion} (hnetwork : ∀ e ∈ as, SyncEvent.Network e)
    (u : String) : writtenIn u s as = [] ∧ ∀ a ∈ answersIn u s as, a.status = none := by
  constructor
  · refine List.eq_nil_iff_forall_not_mem.mpr fun w hw => ?_
    obtain ⟨e, he, x, hx⟩ := (machine Completion).exists_of_mem_trace hw
    obtain ⟨c, hw⟩ := observed_subset hx
    have he := hnetwork e he
    cases e <;> first | exact he | cases hw
  · intro a ha
    obtain ⟨e, he, x, hx⟩ := (machine Completion).exists_of_mem_trace ha
    obtain ⟨c, ha⟩ := observed_subset hx
    have he := hnetwork e he
    cases e with
    | mutationResponse mutationResults =>
      obtain ⟨mutations, -, rfl⟩ := List.mem_map.mp ha
      rfl
    | streamFinish status => exact he.elim
    | _ => cases ha

/-- **No write is stuck**: whatever has happened, once the network is enabled and the backend
answers, all writes of the user are answered, in order, and their completion blocks are called. -/
theorem writes_can_be_answered (hdb : db.Valid) (user : String)
    (hrun : (machine Completion).run (some (start db user)) as = some (some c)) :
    ∃ bs c', (∀ e ∈ bs, SyncEvent.Network e) ∧
      (machine Completion).run (some c) bs = some (some c') ∧
      (answersIn c.currentUser c bs).map Answer.write = c.waiting c.currentUser ∧
      ∀ a ∈ answersIn c.currentUser c bs, a.status = none := by
  have h := run_running (start_running hdb user) hrun
  obtain ⟨bs, c', hbs, hrun', hnone⟩ := exists_drained h _ rfl
  obtain ⟨hwritten, hstatus⟩ := answersIn_of_network (s := c) hbs c.currentUser
  refine ⟨bs, c', hbs, hrun', ?_, hstatus⟩
  have hwaiting := (waiting_run h hrun' c.currentUser).1
  rw [hwritten, List.append_nil] at hwaiting
  rw [hwaiting, SyncEngine.waiting, hnone, List.map_nil, List.append_nil]

/-- The new team, made while the network is disabled. -/
theorem writes_can_be_answered_offline :
    ∃ c, (machine ℕ).run (some (start .new "ana"))
        [.write newTeam (List.cons_ne_nil _ _) 1] = some (some c) ∧
      c.waiting c.currentUser = [(newTeam, [1])] ∧
      ∃ bs c', (∀ e ∈ bs, SyncEvent.Network e) ∧
        (machine ℕ).run (some c) bs = some (some c') ∧
        (answersIn c.currentUser c bs).map Answer.write = c.waiting c.currentUser ∧
        ∀ a ∈ answersIn c.currentUser c bs, a.status = none := by
  have hrun : ∃ c, (machine ℕ).run (some (start .new "ana"))
      [.write newTeam (List.cons_ne_nil _ _) 1] = some (some c) ∧
        c.waiting c.currentUser = [(newTeam, [1])] := by
    rw [start_new]
    exact ⟨_, rfl, rfl⟩
  obtain ⟨c, hrun, hwaiting⟩ := hrun
  exact ⟨c, hrun, hwaiting, writes_can_be_answered LevelDb.new_valid "ana" hrun⟩

end Musgravite.Firestore
