import Musgravite.Library.AtomicRoutines
import Musgravite.Writes

/-! # Whole runs of the upload methods

Any number of upload calls are in progress at once, each with its requests and
answers on their way.  Although nothing in the app keeps them apart, they are as
good as one after the other (`uploads_serializable`): of the two requests a call may
make, the first only adds a document that nobody else updates.

Whatever the order, documents that could be read still can (`uploads_keep_reads`), the
references in the lists that calls write lead to documents (`uploads_keep_links`), and
the last accepted call decides who is in a team (`participants_last_accepted`). -/
namespace Musgravite
open FirebaseController FieldValue Firestore

/-! ## One call after the other -/

/-- The collections to which the upload methods add. -/
def AddedTo (collection : String) : Prop := collection = "equipo" ∨ collection = "proyectos"

theorem updateAndReport_createsIn {C : String → Prop} {r : DocumentReference}
    (h : ¬ C r.collection) (us : List (String × FieldUpdate)) :
    (updateAndReport r us).CreatesIn C ∧ (updateAndReport r us).OneUpdate := by
  refine ⟨⟨h, fun err => ?_⟩, ?_, ?_⟩
  · cases err <;> trivial
  · trivial
  · trivial

/-- An upload method adds documents first and makes one update in another collection. -/
theorem FirebaseController.Call.createsIn (call : Call) :
    call.program.CreatesIn AddedTo ∧ call.program.OneUpdate := by
  cases call with
  | addTeamToGroup team grupoID =>
    have hlink (r : DocumentReference) :=
      updateAndReport_createsIn (C := AddedTo) (r := ⟨"grupo", grupoID⟩) (by simp [AddedTo])
        [("equipos", .arrayUnion [.reference r])]
    refine ⟨⟨Or.inl rfl, fun ref err => ?_⟩, fun ref err => ?_⟩
    · cases err <;> cases ref <;> first | exact (hlink _).1 | trivial
    · cases err <;> cases ref <;> first | exact (hlink _).2 | trivial
  | addNewProjectToTeam teamID project =>
    have hlink (r : DocumentReference) :=
      updateAndReport_createsIn (C := AddedTo) (r := ⟨"equipos", teamID⟩) (by simp [AddedTo])
        [("proyectos", .arrayUnion [.reference r])]
    show (FirebaseController.addNewProjectToTeam teamID project).CreatesIn AddedTo ∧
      (FirebaseController.addNewProjectToTeam teamID project).OneUpdate
    unfold FirebaseController.addNewProjectToTeam createNewProject
    cases project.firestoreReady with
    | none => exact ⟨trivial, trivial⟩
    | some data =>
      refine ⟨⟨Or.inr rfl, fun ref err => ?_⟩, fun ref err => ?_⟩
      · cases err <;> cases ref <;> first | exact (hlink _).1 | trivial
      · cases err <;> cases ref <;> first | exact (hlink _).2 | trivial
  | _ => exact updateAndReport_createsIn (by simp [AddedTo]) _

variable {ι : Type} [DecidableEq ι]

/-- **Uploads are serializable.**  Whatever calls of upload methods are in progress
at once, and however their requests, refusals and answers interleave: the documents
in the end, and what each call has reported or is about to do, are those of a run in
which each call that was answered at all gets its answers without interruption, one
call after the other.  A call that was through before another one was first answered
comes before it. -/
theorem uploads_serializable (calls : ι → Call) (s₀ : Store) (as : List (PoolAction ι))
    (t : Pool ι Bool)
    (h : (pool ι Bool).run (Pool.start s₀ fun i => (calls i).program) as = some t) :
    ∃ order, Agent.SerialOrder (as.filterMap PoolAction.answer) order ∧
      ((Program.agent Bool).system ι).run (s₀.documents, fun i => (calls i).program)
        (order.flatMap (Agent.eventsOf (as.filterMap PoolAction.answer))) =
          some (t.store.documents, fun i => (t.thread i).program) :=
  Pool.run_serial (fun i => (calls i).createsIn) h

/-- Two teams are created in one group while the calls overlap. -/
theorem uploads_serializable_two :
    ∃ t, (pool Bool Bool).run
        (Pool.start groupStore fun i => (Call.addTeamToGroup
          ⟨"", if i then "A" else "B", [⟨"estudiante", "a1"⟩], [⟨"proyectos", "p1"⟩]⟩ "g1").program)
        [.accept true "t1", .accept false "t2", .deliver false, .accept false "", .deliver true,
          .accept true "", .deliver true] = some t ∧
      ∃ order : List Bool, order.Nodup ∧
        (((Program.agent Bool).system Bool).run (groupStore.documents, fun i =>
            (Call.addTeamToGroup ⟨"", if i then "A" else "B", [⟨"estudiante", "a1"⟩],
              [⟨"proyectos", "p1"⟩]⟩ "g1").program)
          (order.flatMap (Agent.eventsOf [(true, ⟨true, "t1"⟩), (false, ⟨true, "t2"⟩),
            (false, ⟨true, ""⟩), (true, ⟨true, ""⟩)]))).isSome := by
  refine ⟨_, rfl, ?_⟩
  obtain ⟨order, horder, hrun⟩ := uploads_serializable (ι := Bool)
    (fun i => .addTeamToGroup
      ⟨"", if i then "A" else "B", [⟨"estudiante", "a1"⟩], [⟨"proyectos", "p1"⟩]⟩ "g1") groupStore
    [.accept true "t1", .accept false "t2", .deliver false, .accept false "", .deliver true,
      .accept true "", .deliver true] _ rfl
  exact ⟨order, horder.nodup, Option.isSome_iff_exists.mpr ⟨_, hrun⟩⟩

/-! ## What a request changes -/

/-- The update that is the last request of a call. -/
inductive Updates : Call → DocumentReference → String → FieldUpdate → Prop
  | linkTeam (team : Equipo) (grupoID id : String) :
      Updates (.addTeamToGroup team grupoID) ⟨"grupo", grupoID⟩ "equipos"
        (.arrayUnion [.reference ⟨"equipo", id⟩])
  | addParticipant (teamID participantID : String) :
      Updates (.addParticipantToTeam teamID participantID) ⟨"equipos", teamID⟩ "integrantes"
        (.arrayUnion [.string participantID])
  | removeParticipant (teamID participantID : String) :
      Updates (.removeParticipantFromTeam teamID participantID) ⟨"equipos", teamID⟩ "integrantes"
        (.arrayRemove [.string participantID])
  | linkProject (teamID : String) (project : Proyecto) (id : String) :
      Updates (.addNewProjectToTeam teamID project) ⟨"equipos", teamID⟩ "proyectos"
        (.arrayUnion [.reference ⟨"proyectos", id⟩])
  | status (taskID taskStatus : String) :
      Updates (.changeTaskStatus taskID taskStatus) ⟨"tareas", taskID⟩ "status"
        (.set (.string taskStatus))
  | responsable (taskID : String) (taskResponsible : DocumentReference) :
      Updates (.changeTaskResponsible taskID taskResponsible) ⟨"tareas", taskID⟩ "responsable"
        (.set (.string taskResponsible.documentID))

/-- The request that adds `ref` to a list of references. -/
def link (parent : DocumentReference) (key : String) (ref : DocumentReference) : Program Bool :=
  updateAndReport parent [(key, .arrayUnion [.reference ref])]

theorem linkTeam_eq (grupoID : String) (ref : DocumentReference) :
    linkTeam grupoID ref = link ⟨"grupo", grupoID⟩ "equipos" ref := rfl

theorem linkProject_eq (teamID : String) (ref : DocumentReference) :
    linkProject teamID ref = link ⟨"equipos", teamID⟩ "proyectos" ref := rfl

/-- The document that a call adds. -/
inductive Creates : Call → String → Fields → Prop
  | team (team : Equipo) (grupoID : String) :
      Creates (.addTeamToGroup team grupoID) "equipo" team.firestoreReady
  | project (teamID : String) (project : Proyecto) {data : Fields}
      (h : project.firestoreReady = some data) :
      Creates (.addNewProjectToTeam teamID project) "proyectos" data

/-- The update goes where `document(_:)` leads. -/
theorem Updates.documentReference {call : Call} {r : DocumentReference} {k : String}
    {u : FieldUpdate} (h : Updates call r k u) (hid : IsDocumentID call.target.2) :
    documentReference call.target.1 call.target.2 = some r := by
  rw [call.documentReference_target hid]
  cases h <;> rfl

/-- **What the backend applies for a call**: a new document, which is then to be linked, or
the call's update of one field, which is its last request. -/
theorem accept_cases {call : Call} {p q : Program Bool} {s t : Store} {id : String}
    (hc : call.program.Continues p) (hq : p.accept s id = some (t, q)) :
    (∃ c data parent key, p.isCreation ∧ Creates call c data ∧ (IsDocumentID id ∧ id ∉ s.known) ∧
      t = s.write ⟨c, id⟩ data ∧ q = link parent key ⟨c, id⟩) ∨
    ∃ r k u f, Updates call r k u ∧ p = updateAndReport r [(k, u)] ∧ s.documents r = some f ∧
      t = s.write r (f.update [(k, u)]) ∧ q = .report true := by
  cases call with
  | addTeamToGroup team grupoID =>
    rcases addTeamToGroup_continues hc with rfl | ⟨id', rfl⟩ | ⟨b, rfl⟩
    · obtain ⟨hid, rfl, rfl⟩ := accept_addTeamToGroup hq
      exact Or.inl ⟨_, _, _, _, rfl, .team team grupoID, hid, rfl, linkTeam_eq _ _⟩
    · obtain ⟨f, hf, rfl, rfl⟩ := accept_updateAndReport hq
      exact Or.inr ⟨_, _, _, f, .linkTeam team grupoID id', rfl, hf, rfl, rfl⟩
    · cases hq
  | addNewProjectToTeam teamID project =>
    rcases addNewProjectToTeam_continues hc with rfl | ⟨id', rfl⟩ | ⟨b, rfl⟩
    · obtain ⟨data, hdata, hid, rfl, rfl⟩ := accept_addNewProjectToTeam hq
      refine Or.inl ⟨_, _, _, _, ?_, .project teamID project hdata, hid, rfl, linkProject_eq _ _⟩
      simp [addNewProjectToTeam, createNewProject, hdata, Program.isCreation]
    · obtain ⟨f, hf, rfl, rfl⟩ := accept_updateAndReport hq
      exact Or.inr ⟨_, _, _, f, .linkProject teamID project id', rfl, hf, rfl, rfl⟩
    · cases hq
  | _ =>
    rcases updateAndReport_continues hc with rfl | ⟨b, rfl⟩
    · obtain ⟨f, hf, rfl, rfl⟩ := accept_updateAndReport hq
      exact Or.inr ⟨_, _, _, f, by constructor, rfl, hf, rfl, rfl⟩
    · cases hq

/-- A call whose request is refused reports so at once. -/
theorem refuse_eq_report {call : Call} {p q : Program Bool} {id : String}
    (hc : call.program.Continues p) (hq : p.refuse id = some q) : q = .report false := by
  cases call with
  | addTeamToGroup team grupoID =>
    rcases addTeamToGroup_continues hc with rfl | ⟨id', rfl⟩ | ⟨b, rfl⟩ <;>
      first | exact (Option.some.inj hq).symm | cases hq
  | addNewProjectToTeam teamID project =>
    rcases addNewProjectToTeam_continues hc with rfl | ⟨id', rfl⟩ | ⟨b, rfl⟩
    · unfold addNewProjectToTeam createNewProject at hq
      cases hdata : project.firestoreReady <;> rw [hdata] at hq <;>
        first | exact (Option.some.inj hq).symm | cases hq
    · exact (Option.some.inj hq).symm
    · cases hq
  | _ =>
    rcases updateAndReport_continues hc with rfl | ⟨b, rfl⟩ <;>
      first | exact (Option.some.inj hq).symm | cases hq

/-! ## Documents stay what they are -/

/-- The fields that updates change, by collection. -/
def updatedFields : List (String × String) :=
  [("grupo", "equipos"), ("equipos", "integrantes"), ("equipos", "proyectos"),
    ("tareas", "status"), ("tareas", "responsable")]

theorem collection_of_updatedFields {c k : String} (h : (c, k) ∈ updatedFields) :
    c = "grupo" ∨ c = "equipos" ∨ c = "tareas" := by
  simp only [updatedFields, List.mem_cons, Prod.mk.injEq, List.not_mem_nil, or_false] at h
  grind

theorem Updates.mem_updatedFields {call : Call} {r : DocumentReference} {k : String}
    {u : FieldUpdate} (h : Updates call r k u) : (r.collection, k) ∈ updatedFields := by
  cases h <;> simp [updatedFields]

/-- What is left of the fields `f` of a document in `collection` when they have become
`g`. -/
structure Keeps (collection : String) (f g : Fields) : Prop where
  /-- Nothing happens to a document outside the updated collections. -/
  whole : (∀ k, (collection, k) ∉ updatedFields) → g = f
  lookup : ∀ k, (collection, k) ∉ updatedFields → g.lookup k = f.lookup k
  /-- The list of a group's teams grows at its end. -/
  equipos : collection = "grupo" → ∀ rs, f.lookup "equipos" = some (references rs) →
    ∃ new, g.lookup "equipos" = some (references (rs ++ new))
  status : collection = "tareas" →
    g.lookup "status" = f.lookup "status" ∨ ∃ v, g.lookup "status" = some (.string v)
  responsable : collection = "tareas" → g.lookup "responsable" = f.lookup "responsable" ∨
    ∃ v, g.lookup "responsable" = some (.string v)

theorem Keeps.refl (c : String) (f : Fields) : Keeps c f f where
  whole _ := rfl
  lookup _ _ := rfl
  equipos _ rs h := ⟨[], by rw [List.append_nil, h]⟩
  status _ := Or.inl rfl
  responsable _ := Or.inl rfl

theorem Keeps.trans {c : String} {f g h : Fields} (hfg : Keeps c f g) (hgh : Keeps c g h) :
    Keeps c f h where
  whole hc := (hgh.whole hc).trans (hfg.whole hc)
  lookup k hk := (hgh.lookup k hk).trans (hfg.lookup k hk)
  equipos hc rs hrs := by
    obtain ⟨new, hnew⟩ := hfg.equipos hc rs hrs
    obtain ⟨new', hnew'⟩ := hgh.equipos hc _ hnew
    exact ⟨new ++ new', by rw [hnew', List.append_assoc]⟩
  status hc := by
    rcases hgh.status hc with he | hv
    · exact he ▸ hfg.status hc
    · exact Or.inr hv
  responsable hc := by
    rcases hgh.responsable hc with he | hv
    · exact he ▸ hfg.responsable hc
    · exact Or.inr hv

theorem exists_appendMissing_eq {α : Type} [DecidableEq α] (xs : List α) (y : α) :
    ∃ new, xs.appendMissing [y] = xs ++ new := by
  by_cases h : y ∈ xs
  · exact ⟨[], by rw [List.appendMissing_singleton_of_mem h, List.append_nil]⟩
  · exact ⟨[y], List.appendMissing_singleton_of_notMem h⟩

theorem Updates.keeps {call : Call} {r : DocumentReference} {k : String} {u : FieldUpdate}
    (h : Updates call r k u) (f : Fields) : Keeps r.collection f (f.update [(k, u)]) where
  whole hc := absurd h.mem_updatedFields (hc k)
  lookup l hl := by
    refine Fields.lookup_update_singleton_of_ne _ _ ?_
    rintro rfl
    exact hl h.mem_updatedFields
  equipos hc rs hrs := by
    cases h with
    | linkTeam team grupoID id =>
      obtain ⟨new, hnew⟩ := exists_appendMissing_eq rs ⟨"equipo", id⟩
      refine ⟨new, ?_⟩
      rw [Fields.lookup_update_singleton_self, hrs]
      exact congrArg some ((FieldUpdate.apply_arrayUnion_references rs [⟨"equipo", id⟩]).trans
        (congrArg references hnew))
    | _ => simp at hc
  status hc := by
    cases h with
    | status taskID taskStatus => exact Or.inr ⟨taskStatus, Fields.lookup_update_singleton_self ..⟩
    | responsable taskID taskResponsible =>
      exact Or.inl (Fields.lookup_update_singleton_of_ne _ _ (by decide))
    | _ => simp at hc
  responsable hc := by
    cases h with
    | status taskID taskStatus =>
      exact Or.inl (Fields.lookup_update_singleton_of_ne _ _ (by decide))
    | responsable taskID taskResponsible =>
      exact Or.inr ⟨taskResponsible.documentID, Fields.lookup_update_singleton_self ..⟩
    | _ => simp at hc

/-- Every document of `s` is kept in `t`. -/
def KeepsDocuments (s t : Store) : Prop :=
  ∀ r f, s.documents r = some f → ∃ g, t.documents r = some g ∧ Keeps r.collection f g

theorem KeepsDocuments.refl (s : Store) : KeepsDocuments s s :=
  fun _ f hf => ⟨f, hf, .refl ..⟩

theorem KeepsDocuments.trans {s t u : Store} (h : KeepsDocuments s t) (h' : KeepsDocuments t u) :
    KeepsDocuments s u := by
  intro r f hf
  obtain ⟨g, hg, hfg⟩ := h r f hf
  obtain ⟨k, hk, hgk⟩ := h' r g hg
  exact ⟨k, hk, hfg.trans hgk⟩

/-- One accepted request. -/
theorem accept_keepsDocuments {call : Call} {p q : Program Bool} {s t : Store} {id : String}
    (hc : call.program.Continues p) (hq : p.accept s id = some (t, q)) : KeepsDocuments s t := by
  intro r f hf
  rcases accept_cases hc hq with ⟨c, data, parent, key, -, -, ⟨-, hfresh⟩, rfl, -⟩ |
    ⟨r', k, u, f', hu, -, hf', rfl, -⟩
  · have hne : r ≠ ⟨c, id⟩ := by
      rintro rfl
      cases hf.symm.trans (Store.documents_eq_none_of_fresh hfresh c)
    exact ⟨f, by rw [Store.documents_write_of_ne _ _ hne, hf], .refl ..⟩
  · by_cases hr : r = r'
    · subst hr
      obtain rfl : f = f' := Option.some.inj (hf.symm.trans hf')
      exact ⟨_, s.documents_write_self (s.isDocumentID hf) _, hu.keeps f⟩
    · exact ⟨f, by rw [Store.documents_write_of_ne _ _ hr, hf], .refl ..⟩

variable {calls : ι → Call} {s t : Pool ι Bool}

theorem step_keepsDocuments {a : PoolAction ι}
    (hs : ∀ i, (calls i).program.Continues (s.thread i).program)
    (h : (pool ι Bool).step s a = some t) : KeepsDocuments s.store t.store := by
  cases Pool.step_cases h with
  | accept i id p q u hp hq ht =>
    subst ht
    have hci := hs i
    rw [hp] at hci
    exact accept_keepsDocuments hci hq
  | refuse i id p q hp hq ht | deliver i p hp ht =>
    subst ht
    exact .refl _

theorem run_keepsDocuments {s₀ : Store} {as : List (PoolAction ι)}
    (h : (pool ι Bool).run (Pool.start s₀ fun i => (calls i).program) as = some t) :
    KeepsDocuments s₀ t.store := by
  refine ((pool ι Bool).run_invariant (P := fun t =>
    (∀ i, (calls i).program.Continues (t.thread i).program) ∧ KeepsDocuments s₀ t.store)
    ?_ ⟨fun i => .refl _, .refl _⟩ h).2
  rintro s a t ⟨hc, hs⟩ hstep
  exact ⟨Pool.step_continues hc hstep, hs.trans (step_keepsDocuments hc hstep)⟩

/-! ### What the getters see of it -/

theorem Keeps.field_eq {c : String} {f g : Fields} (h : Keeps c f g) {k : String}
    (hk : (c, k) ∉ updatedFields) {α : Type} (as : FieldValue → Option α) :
    field g k as = field f k as := by
  rw [field, field, h.lookup k hk]

/-- A group is read with more teams at the end of its list. -/
theorem Keeps.decodeGrupo {id : String} {f g : Fields} {grupo : Grupo} (h : Keeps "grupo" f g)
    (hf : decodeGrupo id f = some grupo) :
    ∃ new, decodeGrupo id g = some { grupo with equipos := grupo.equipos ++ new } := by
  obtain ⟨hid, hequipos, hrest⟩ := decodeGrupo_eq_some.mp hf
  obtain ⟨v, hv, hrs⟩ := Option.bind_eq_some_iff.mp hequipos
  obtain rfl := asReferences_eq_some.mp hrs
  obtain ⟨new, hnew⟩ := h.equipos rfl _ hv
  refine ⟨new, decodeGrupo_eq_some.mpr ⟨hid, ?_, ?_⟩⟩
  · rw [field, hnew]
    exact asReferences_references _
  · simpa (disch := decide) only [h.field_eq] using hrest

/-- A task is read with another status at most, unless its responsible was changed: then
it cannot be read. -/
theorem Keeps.decodeTarea {id : String} {f g : Fields} {tarea : Tarea} (h : Keeps "tareas" f g)
    (hf : decodeTarea id f = some tarea) :
    decodeTarea id g = none ∨ ∃ status, decodeTarea id g = some { tarea with status } := by
  obtain ⟨hid, h1, h2, h3, h4, h5, hstatus, hresponsable⟩ := decodeTarea_eq_some.mp hf
  rcases h.responsable rfl with hsame | ⟨v, hv⟩
  · right
    have hresponsable : field g "responsable" asReference = some tarea.responsable := by
      rw [← hresponsable, field, field, hsame]
    obtain ⟨status, hstatus⟩ : ∃ status, field g "status" asString = some status := by
      rcases h.status rfl with hsame | ⟨v, hv⟩
      · exact ⟨tarea.status, by rw [← hstatus, field, field, hsame]⟩
      · exact ⟨v, by rw [field, hv]; rfl⟩
    refine ⟨status, decodeTarea_eq_some.mpr ⟨hid, ?_, ?_, ?_, ?_, ?_, hstatus, hresponsable⟩⟩
    all_goals rw [h.field_eq (by decide)]; assumption
  · left
    rw [Option.eq_none_iff_forall_ne_some]
    intro tarea' h'
    obtain ⟨-, -, -, -, -, -, -, hr⟩ := decodeTarea_eq_some.mp h'
    rw [field, hv] at hr
    cases hr

/-- A document that is kept whole is read as before. -/
theorem KeepsDocuments.readDocument_eq {s t : Store} (h : KeepsDocuments s t)
    {r : DocumentReference} (hr : s.documents r ≠ none)
    (hwhole : ∀ k, (r.collection, k) ∉ updatedFields) (answered : Bool) :
    t.getDocument r answered = s.getDocument r answered := by
  obtain ⟨f, hf⟩ := Option.ne_none_iff_exists'.mp hr
  obtain ⟨g, hg, hkeeps⟩ := h r f hf
  rw [Store.getDocument, Store.getDocument, hg, hf, hkeeps.whole hwhole]

theorem KeepsDocuments.getDocument_eq {s t : Store} (h : KeepsDocuments s t) {c id : String}
    (hc : ResourcePath.IsSegment c.toList) (hr : s.documents ⟨c, id⟩ ≠ none)
    (hwhole : ∀ k, (c, k) ∉ updatedFields) (answered : Bool) :
    getDocument t answered c id = getDocument s answered c id := by
  obtain ⟨f, hf⟩ := Option.ne_none_iff_exists'.mp hr
  have hid := s.isDocumentID hf
  rw [getDocument_of_isDocumentID hc hid, getDocument_of_isDocumentID hc hid,
    h.readDocument_eq hr hwhole]

/-- The lists of references that calls add to, and the list that `createNewTeam` writes. -/
def linkLists : List (String × String) :=
  [("grupo", "equipos"), ("equipos", "proyectos"), ("equipo", "proyectos")]

/-- Every reference in those lists is that of a document. -/
def Linked (s : Store) : Prop :=
  ∀ r key, (r.collection, key) ∈ linkLists → ∀ q ∈ s.references r key, s.documents q ≠ none

/-- An update adds no reference but the one it names. -/
theorem Updates.mem_references {call : Call} {r parent q : DocumentReference} {k key : String}
    {u : FieldUpdate} (h : Updates call r k u) {s : Store} {f : Fields}
    (hf : s.documents r = some f) (hkey : (parent.collection, key) ∈ linkLists)
    (hq : q ∈ (s.write r (f.update [(k, u)])).references parent key) :
    q ∈ s.references parent key ∨ u = .arrayUnion [.reference q] := by
  by_cases hr : parent = r
  · subst hr
    by_cases hk : key = k
    · subst hk
      cases h with
      | linkTeam team grupoID id | linkProject teamID project id =>
        exact ((Store.mem_references_union hf).mp hq).imp_right fun he => by rw [he]
      | _ => simp [linkLists] at hkey
    · left
      rw [Store.references_write_self (s.isDocumentID hf),
        Fields.lookup_update_singleton_of_ne _ _ hk] at hq
      rw [Store.references, hf]
      exact hq
  · left
    rwa [Store.references_write_of_ne _ _ hr] at hq

/-- The list of a created team is the one it was given. -/
theorem references_created {call : Call} {c id key : String} {data : Fields} {s : Store}
    {q : DocumentReference} (h : Creates call c data) (hid : IsDocumentID id)
    (hkey : (c, key) ∈ linkLists) (hq : q ∈ (s.write ⟨c, id⟩ data).references ⟨c, id⟩ key) :
    ∃ team grupoID, call = .addTeamToGroup team grupoID ∧ q ∈ team.proyectos := by
  cases h with
  | project teamID project h => simp [linkLists] at hkey
  | team team grupoID =>
    obtain rfl : key = "proyectos" := by simpa [linkLists] using hkey
    refine ⟨team, grupoID, rfl, ?_⟩
    rw [Store.references_write_self hid, team.lookup_firestoreReady] at hq
    by_cases hp : team.proyectos = []
    · simp [hp, elements] at hq
    · simpa [hp, asReference_eq_some] using hq

/-- The projects that are handed to `addTeamToGroup` have documents. -/
def Given (calls : ι → Call) (s : Store) : Prop :=
  ∀ i team grupoID, calls i = .addTeamToGroup team grupoID →
    ∀ q ∈ team.proyectos, s.documents q ≠ none

/-- The references in the lists, those handed to calls and those of documents that are
still to be linked are those of documents. -/
structure LinksLead (calls : ι → Call) (s : Pool ι Bool) : Prop where
  continues : ∀ i, (calls i).program.Continues (s.thread i).program
  given : Given calls s.store
  linked : Linked s.store
  pending : ∀ i parent key ref, (s.thread i).program = link parent key ref →
    s.store.documents ref ≠ none

omit [DecidableEq ι] in
theorem LinksLead.start {s₀ : Store} (h : Linked s₀) (hgiven : Given calls s₀) :
    LinksLead calls (Pool.start s₀ fun i => (calls i).program) where
  continues i := .refl _
  given := hgiven
  linked := h
  pending i parent key ref he := by
    have he : (calls i).program = link parent key ref := he
    cases hcall : calls i with
    | addNewProjectToTeam teamID project =>
      have he : addNewProjectToTeam teamID project = link parent key ref := by
        rwa [hcall] at he
      unfold addNewProjectToTeam createNewProject at he
      cases hdata : project.firestoreReady <;> rw [hdata] at he <;> cases he
    | _ =>
      rw [hcall] at he
      cases he

theorem link_inj {r parent ref : DocumentReference} {k key : String} {u : FieldUpdate}
    (h : updateAndReport r [(k, u)] = link parent key ref) : u = .arrayUnion [.reference ref] := by
  unfold link updateAndReport at h
  simp only [Program.updateData.injEq, List.cons.injEq, Prod.mk.injEq] at h
  exact h.2.1.1.2

/-- A document that is there stays. -/
theorem LinksLead.stays {a : PoolAction ι} (hs : LinksLead calls s)
    (h : (pool ι Bool).step s a = some t) {q : DocumentReference}
    (hq : s.store.documents q ≠ none) : t.store.documents q ≠ none := by
  obtain ⟨f, hf⟩ := Option.ne_none_iff_exists'.mp hq
  obtain ⟨g, hg, -⟩ := step_keepsDocuments hs.continues h q f hf
  simp [hg]

/-- A request that is accepted puts no reference into the lists but those of documents. -/
theorem LinksLead.linked_step {a : PoolAction ι} (hs : LinksLead calls s)
    (h : (pool ι Bool).step s a = some t) : Linked t.store := by
  intro parent key hkey q hq
  cases Pool.step_cases h with
  | accept i id p q' u hp hq' ht =>
    have hci := hs.continues i
    rw [hp] at hci
    rcases accept_cases hci hq' with ⟨c, data, parent', key', -, hc, hid, hu, -⟩ |
      ⟨r, k, v, f, hv, hpv, hf, hu, -⟩
    · subst ht hu
      rw [Pool.setThread_store] at hq
      by_cases hparent : parent = ⟨c, id⟩
      · subst hparent
        obtain ⟨team, grupoID, he, hq⟩ := references_created hc hid.1 hkey hq
        exact hs.stays h (hs.given i team grupoID he q hq)
      · rw [Store.references_write_of_ne _ _ hparent] at hq
        exact hs.stays h (hs.linked parent key hkey q hq)
    · subst ht hu
      rcases hv.mem_references hf hkey hq with hq | rfl
      · exact hs.stays h (hs.linked parent key hkey q hq)
      · exact hs.stays h (hs.pending i r k q (by rw [hp]; exact hpv))
  | refuse i id p q' hp hq' ht | deliver i p hp ht =>
    subst ht
    exact hs.linked parent key hkey q hq

/-- A call that is about to link a document has added it. -/
theorem LinksLead.pending_step {a : PoolAction ι} (hs : LinksLead calls s)
    (h : (pool ι Bool).step s a = some t) (i : ι) (parent : DocumentReference) (key : String)
    (ref : DocumentReference) (he : (t.thread i).program = link parent key ref) :
    t.store.documents ref ≠ none := by
  revert i parent key ref
  cases Pool.step_cases h with
  | accept i id p q u hp hq ht =>
    subst ht
    have hci := hs.continues i
    rw [hp] at hci
    refine Pool.forall_setThread (P := fun _ x => ∀ parent key ref,
      x.program = link parent key ref → u.documents ref ≠ none) ?_ ?_
    · rcases accept_cases hci hq with ⟨c, data, parent', key', -, hc, hid, hu, rfl⟩ |
        ⟨r, k, v, f, hv, hpv, hf, hu, rfl⟩
      · intro parent key ref he
        have hsame : ref = ⟨c, id⟩ := by simpa [eq_comm] using link_inj he
        rw [hu, hsame, Store.documents_write_self _ hid.1]
        exact Option.some_ne_none _
      · intro parent key ref he
        cases he
    · intro j _ parent key ref he
      exact hs.stays h (hs.pending j parent key ref he)
  | refuse i id p q hp hq ht =>
    subst ht
    have hci := hs.continues i
    rw [hp] at hci
    refine Pool.forall_setThread (P := fun _ x => ∀ parent key ref,
      x.program = link parent key ref → s.store.documents ref ≠ none) ?_ ?_
    · intro parent key ref he
      rw [refuse_eq_report hci hq] at he
      cases he
    · exact fun j _ => hs.pending j
  | deliver i p hp ht =>
    subst ht
    refine Pool.forall_setThread (P := fun _ x => ∀ parent key ref,
      x.program = link parent key ref → s.store.documents ref ≠ none) ?_ ?_
    · intro parent key ref he
      exact hs.pending i parent key ref (by rw [hp]; exact he)
    · exact fun j _ => hs.pending j

theorem LinksLead.step {a : PoolAction ι} (hs : LinksLead calls s)
    (h : (pool ι Bool).step s a = some t) : LinksLead calls t where
  continues := Pool.step_continues hs.continues h
  given i team grupoID he q hq := hs.stays h (hs.given i team grupoID he q hq)
  linked := hs.linked_step h
  pending := hs.pending_step h

/-- **No link dangles.**  If every team in a group's list and every project in a team's
list has a document, be the team in `equipo` or in `equipos`, and so has every project of
the teams to be created, then this is so after any run of upload calls, in whatever state
it is cut off. -/
theorem uploads_keep_links (calls : ι → Call) (s₀ : Store) (h₀ : Linked s₀)
    (hgiven : Given calls s₀) (as : List (PoolAction ι)) (t : Pool ι Bool)
    (h : (pool ι Bool).run (Pool.start s₀ fun i => (calls i).program) as = some t) :
    Linked t.store :=
  ((pool ι Bool).run_invariant (P := LinksLead calls) (fun hs h => hs.step h)
    (.start h₀ hgiven) h).linked

theorem linked_empty : Linked .empty := by
  intro r key _ q hq
  exact absurd hq List.not_mem_nil

/-- A document whose lists are still empty refers to nothing. -/
theorem Linked.write {s : Store} (h : Linked s) {r : DocumentReference} {f : Fields}
    (hf : ∀ key, (r.collection, key) ∈ linkLists → elements (f.lookup key) = []) :
    Linked (s.write r f) := by
  intro r' key hkey q hq
  have stays : s.documents q ≠ none → (s.write r f).documents q ≠ none := by
    intro hs
    by_cases he : q = r
    · subst he
      obtain ⟨g, hg⟩ := Option.ne_none_iff_exists'.mp hs
      rw [s.documents_write_self (s.isDocumentID hg)]
      exact Option.some_ne_none f
    · rwa [Store.documents_write_of_ne _ _ he]
  unfold Store.references at hq
  split at hq
  · rename_i g hg
    rcases s.documents_write_eq_some hg with ⟨rfl, -, rfl⟩ | hg
    · rw [hf key hkey] at hq
      exact absurd hq List.not_mem_nil
    · refine stays (h r' key hkey q ?_)
      rw [Store.references, hg]
      exact hq
  · cases hq

/-- A store with a project, a group and a team of the collection `equipos`. -/
def linkStore : Store :=
  (groupStore.write ⟨"proyectos", "p0"⟩ (Fields.ofList [])).write ⟨"equipos", "t1"⟩
    (Fields.ofList [])

/-- A team is created with a project that is there, and another project is created for a
team; each has its document before anything refers to it. -/
theorem uploads_keep_links_two :
    ∃ t, (pool Bool Bool).run (Pool.start linkStore fun i =>
          (if i then Call.addTeamToGroup ⟨"", "A", [], [⟨"proyectos", "p0"⟩]⟩ "g1"
            else Call.addNewProjectToTeam "t1"
              ⟨"", "P", .field (.string "Scrum"), .field (.integer 1), "", []⟩).program)
        [.accept false "p2", .accept true "t2", .deliver false, .deliver true, .accept true "",
          .accept false "", .deliver false] = some t ∧
      t.store.references ⟨"grupo", "g1"⟩ "equipos" = [⟨"equipo", "t2"⟩] ∧
      t.store.references ⟨"equipo", "t2"⟩ "proyectos" = [⟨"proyectos", "p0"⟩] ∧
      t.store.references ⟨"equipos", "t1"⟩ "proyectos" = [⟨"proyectos", "p2"⟩] ∧
      Linked t.store := by
  refine ⟨_, rfl, by decide +kernel, by decide +kernel, by decide +kernel, ?_⟩
  refine uploads_keep_links (ι := Bool) (fun i =>
    if i then .addTeamToGroup ⟨"", "A", [], [⟨"proyectos", "p0"⟩]⟩ "g1"
    else .addNewProjectToTeam "t1"
      ⟨"", "P", .field (.string "Scrum"), .field (.integer 1), "", []⟩) linkStore ?_ ?_
    [.accept false "p2", .accept true "t2", .deliver false, .deliver true, .accept true "",
      .accept false "", .deliver false] _ rfl
  · exact ((linked_empty.write (by simp [sampleGroup, linkLists])).write fun _ _ => rfl).write
      fun _ _ => rfl
  · intro i team grupoID he q hq
    cases i with
    | false => cases he
    | true =>
      obtain ⟨rfl, -⟩ : _ ∧ _ := by simpa using he
      obtain rfl := List.mem_singleton.mp hq
      decide +kernel

/-! ## Who is in a team -/

/-- What the call wants for the membership of `participantID` in the team: `true` to add,
`false` to remove.  The calls mean the identifier as a string, and that is what they list. -/
def intention (teamID participantID : String) : Call → List Bool
  | .addParticipantToTeam team participant =>
      if team = teamID ∧ participant = participantID then [true] else []
  | .removeParticipantFromTeam team participant =>
      if team = teamID ∧ participant = participantID then [false] else []
  | _ => []

/-- The intentions that are accepted. -/
def memberships (calls : ι → Call) (teamID participantID : String) : PoolAction ι → List Bool
  | .accept i _ => intention teamID participantID (calls i)
  | _ => []

/-- What the document of a team in `equipos` lists as its members. -/
def participants (f : Fields) : List FieldValue := elements (f.lookup "integrantes")

/-- `g` lists the identifiers that are to be listed after what was accepted, given those in
`f`.  A reference to a student is none of them, and no call touches it. -/
structure Members (f g : Fields) (accepted : String → List Bool) : Prop where
  mem_iff : ∀ p, .string p ∈ participants g ↔
    (accepted p).getLast?.getD (decide (.string p ∈ participants f)) = true
  nodup : (participants f).Nodup → (participants g).Nodup

theorem Members.refl (f : Fields) : Members f f fun _ => [] := ⟨fun p => by simp, id⟩

theorem Members.trans {f g h : Fields} {xs ys : String → List Bool} (hfg : Members f g xs)
    (hgh : Members g h ys) : Members f h fun p => xs p ++ ys p where
  mem_iff p := by
    have hg : decide (.string p ∈ participants g) =
        (xs p).getLast?.getD (decide (.string p ∈ participants f)) :=
      Bool.eq_iff_iff.mpr (decide_eq_true_iff.trans (hfg.mem_iff p))
    rw [hgh.mem_iff p, hg, List.getLast?_append, Option.getD_or]
  nodup hf := hgh.nodup (hfg.nodup hf)

theorem participants_update_self (f : Fields) (u : FieldUpdate) :
    participants (f.update [("integrantes", u)]) =
      elements (some (u.apply (f.lookup "integrantes"))) := by
  rw [participants, Fields.lookup_update_singleton_self]

theorem string_injective : Function.Injective FieldValue.string := fun _ _ h => by injection h

/-- Additions and removals. -/
theorem Updates.members {call : Call} {r : DocumentReference} {teamID k : String} {u : FieldUpdate}
    (h : Updates call r k u) (hr : r = ⟨"equipos", teamID⟩) (f : Fields) :
    Members f (f.update [(k, u)]) fun p => intention teamID p call := by
  cases h with
  | addParticipant team participant =>
    obtain rfl : team = teamID := by simpa using hr
    have hmem : participants (f.update [("integrantes", .arrayUnion [.string participant])]) =
        (participants f).appendMissing [.string participant] := by
      rw [participants_update_self, FieldUpdate.apply_arrayUnion (FieldValue.oneForm_of_forall ?_)]
      · rfl
      · simp
    refine ⟨fun p => ?_, fun hf => ?_⟩
    · rw [hmem, List.mem_appendMissing_singleton_iff, string_injective.eq_iff]
      by_cases hp : participant = p
      · simp [intention, hp]
      · simp [intention, hp, Ne.symm hp]
    · rw [hmem]
      by_cases hp : .string participant ∈ participants f
      · rwa [List.appendMissing_singleton_of_mem hp]
      · rw [List.appendMissing_singleton_of_notMem hp]
        exact hf.append (List.nodup_singleton _) (by simpa using hp)
  | removeParticipant team participant =>
    obtain rfl : team = teamID := by simpa using hr
    have hmem : participants (f.update [("integrantes", .arrayRemove [.string participant])]) =
        (participants f).filter (· ∉ [.string participant]) := by
      rw [participants_update_self, FieldUpdate.apply_arrayRemove (FieldValue.oneForm_of_forall ?_)]
      · rfl
      · simp
    refine ⟨fun p => ?_, fun hf => ?_⟩
    · rw [hmem, List.mem_filter]
      by_cases hp : participant = p
      · simp [intention, hp]
      · simp [intention, hp, Ne.symm hp]
    · rw [hmem]
      exact hf.filter _
  | linkProject team project id =>
    have hsame : participants (f.update [("proyectos", .arrayUnion [.reference ⟨"proyectos", id⟩])])
        = participants f := by
      rw [participants, Fields.lookup_update_singleton_of_ne _ _ (by decide)]
      rfl
    exact ⟨fun p => by simp [hsame, intention], fun hf => hsame ▸ hf⟩
  | _ => simp at hr

/-- Calls on other documents have no intention for the team. -/
theorem Updates.intention_eq_nil {call : Call} {r : DocumentReference} {teamID k : String}
    {u : FieldUpdate} (h : Updates call r k u) (hr : r ≠ ⟨"equipos", teamID⟩) (p : String) :
    intention teamID p call = [] := by
  cases h with
  | addParticipant team participant | removeParticipant team participant =>
    exact if_neg fun he => hr (by rw [he.1])
  | _ => rfl

theorem intention_of_isCreation {call : Call} {p : Program Bool} (hc : call.program.Continues p)
    (hp : p.isCreation) (teamID participantID : String) :
    intention teamID participantID call = [] := by
  cases call with
  | addParticipantToTeam team participant | removeParticipantFromTeam team participant =>
    rcases updateAndReport_continues hc with rfl | ⟨b, rfl⟩ <;> cases hp
  | _ => rfl

/-- One accepted request of one call. -/
theorem accept_members {call : Call} {p q : Program Bool} {s t : Store} {id teamID : String}
    {f : Fields} (hc : call.program.Continues p) (hq : p.accept s id = some (t, q))
    (hf : s.documents ⟨"equipos", teamID⟩ = some f) :
    ∃ g, t.documents ⟨"equipos", teamID⟩ = some g ∧
      Members f g fun p => intention teamID p call := by
  rcases accept_cases hc hq with ⟨c, data, parent, key, hp, -, ⟨-, hfresh⟩, rfl, -⟩ |
    ⟨r, k, u, f', hu, -, hf', rfl, -⟩
  · have hne : (⟨"equipos", teamID⟩ : DocumentReference) ≠ ⟨c, id⟩ := by
      intro he
      cases (he ▸ hf).symm.trans (Store.documents_eq_none_of_fresh hfresh c)
    refine ⟨f, by rw [Store.documents_write_of_ne _ _ hne, hf], ?_⟩
    simp only [intention_of_isCreation hc hp]
    exact .refl f
  · by_cases hr : r = ⟨"equipos", teamID⟩
    · subst hr
      obtain rfl : f = f' := Option.some.inj (hf.symm.trans hf')
      exact ⟨_, s.documents_write_self (s.isDocumentID hf) _, hu.members rfl f⟩
    · refine ⟨f, by rw [Store.documents_write_of_ne _ _ (Ne.symm hr), hf], ?_⟩
      simp only [hu.intention_eq_nil hr]
      exact .refl f

/-- **Who is in a team.**  Whatever upload calls run on a team that has a document in
`equipos`, and however they interleave: the identifier of a student, as a string, is listed
among its members afterwards exactly if the last addition or removal of that identifier
that was accepted is an addition, or there was none and it was listed before.  No entry
comes to be there twice. -/
theorem participants_last_accepted (calls : ι → Call) (s₀ : Store) (teamID : String) (f : Fields)
    (hf : s₀.documents ⟨"equipos", teamID⟩ = some f) (as : List (PoolAction ι)) (t : Pool ι Bool)
    (h : (pool ι Bool).run (Pool.start s₀ fun i => (calls i).program) as = some t) :
    ∃ g, t.store.documents ⟨"equipos", teamID⟩ = some g ∧
      (∀ p, .string p ∈ participants g ↔
        (as.flatMap (memberships calls teamID p)).getLast?.getD
          (decide (.string p ∈ participants f)) = true) ∧
      ((participants f).Nodup → (participants g).Nodup) := by
  suffices hinv : (∀ i, (calls i).program.Continues (t.thread i).program) ∧
      ∃ g, t.store.documents ⟨"equipos", teamID⟩ = some g ∧
        Members f g fun p => as.flatMap (memberships calls teamID p) by
    obtain ⟨-, g, hg, hmembers⟩ := hinv
    exact ⟨g, hg, hmembers.mem_iff, hmembers.nodup⟩
  refine (pool ι Bool).run_history (P := fun as t =>
    (∀ i, (calls i).program.Continues (t.thread i).program) ∧
    ∃ g, t.store.documents ⟨"equipos", teamID⟩ = some g ∧
      Members f g fun p => as.flatMap (memberships calls teamID p))
    ⟨fun i => .refl _, f, hf, .refl f⟩ ?_ h
  rintro as s a u - ⟨hc, g, hg, hmembers⟩ hstep
  refine ⟨Pool.step_continues hc hstep, ?_⟩
  simp only [List.flatMap_append, List.flatMap_singleton]
  cases Pool.step_cases hstep with
  | accept i id p q v hp hq ht =>
    subst ht
    have hci := hc i
    rw [hp] at hci
    obtain ⟨g', hg', hmembers'⟩ := accept_members hci hq hg
    exact ⟨g', hg', hmembers.trans hmembers'⟩
  | refuse i id p q hp hq ht | deliver i p hp ht =>
    subst ht
    exact ⟨g, hg, hmembers.trans (.refl g)⟩

/-- Two calls about one student overlap, and the removal is accepted last. -/
theorem participants_last_accepted_two :
    ∃ t, (pool Bool Bool).run
        (Pool.start (Store.empty.write ⟨"equipos", "t1"⟩ (Fields.ofList [])) fun i =>
          (if i then Call.addParticipantToTeam "t1" "a1"
            else Call.removeParticipantFromTeam "t1" "a1").program)
        [.accept true "", .accept false "", .deliver true, .deliver false] = some t ∧
      ∃ g, t.store.documents ⟨"equipos", "t1"⟩ = some g ∧ .string "a1" ∉ participants g := by
  refine ⟨_, rfl, ?_⟩
  obtain ⟨g, hg, hmem, -⟩ := participants_last_accepted (ι := Bool)
    (fun i => if i then .addParticipantToTeam "t1" "a1" else .removeParticipantFromTeam "t1" "a1")
    (Store.empty.write ⟨"equipos", "t1"⟩ (Fields.ofList [])) "t1" _ rfl
    [.accept true "", .accept false "", .deliver true, .deliver false] _ rfl
  refine ⟨g, hg, ?_⟩
  rw [hmem]
  decide +kernel

end Musgravite
