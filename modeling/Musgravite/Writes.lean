import Musgravite.Getters
import Musgravite.Library.RequestProgram

/-! # The upload methods of `FirebaseController`

Each method is the program of its write requests.  The methods differ in the
collections they name, and the names matter: teams are created in `equipo` and
read from `equipo`, but `addParticipantToTeam`, `removeParticipantFromTeam` and
`addNewProjectToTeam` update documents of `equipos`. -/
namespace Musgravite
namespace FirebaseController
open Firestore

/-! ## The methods -/

/-- The common shape of the last request of every method: an update whose block
reports whether it went through. -/
def updateAndReport (document : DocumentReference) (fields : List (String × FieldUpdate)) :
    Program Bool :=
  .updateData document fields fun err => if err then .report false else .report true

def createNewTeam (team : Equipo) (completionBlock : Option DocumentReference → Program Bool) :
    Program Bool :=
  .addDocument "equipo" team.firestoreReady fun ref err =>
    if err then completionBlock none else completionBlock ref

/-- The second request of `addTeamToGroup`. -/
def linkTeam (grupoID : String) (teamID : DocumentReference) : Program Bool :=
  updateAndReport ⟨"grupo", grupoID⟩ [("equipos", .arrayUnion [.reference teamID])]

def addTeamToGroup (team : Equipo) (grupoID : String) : Program Bool :=
  createNewTeam team fun teamID =>
    match teamID with
    | some teamID => linkTeam grupoID teamID
    | none => .report false

def addParticipantToTeam (teamID participantID : String) : Program Bool :=
  updateAndReport ⟨"equipos", teamID⟩ [("integrantes", .arrayUnion [.string participantID])]

def removeParticipantFromTeam (teamID participantID : String) : Program Bool :=
  updateAndReport ⟨"equipos", teamID⟩ [("integrantes", .arrayRemove [.string participantID])]

/-- A project that cannot be stored makes `addDocument` raise an exception. -/
def createNewProject (project : Proyecto)
    (completionBlock : Option DocumentReference → Program Bool) : Program Bool :=
  match project.firestoreReady with
  | some data => .addDocument "proyectos" data fun ref err =>
      if err then completionBlock none else completionBlock ref
  | none => .trap

/-- The second request of `addNewProjectToTeam`. -/
def linkProject (teamID : String) (project : DocumentReference) : Program Bool :=
  updateAndReport ⟨"equipos", teamID⟩ [("proyectos", .arrayUnion [.reference project])]

def addNewProjectToTeam (teamID : String) (project : Proyecto) : Program Bool :=
  createNewProject project fun project =>
    match project with
    | none => .report false
    | some project => linkProject teamID project

def changeTaskStatus (taskID taskStatus : String) : Program Bool :=
  updateAndReport ⟨"tareas", taskID⟩ [("status", .set (.string taskStatus))]

/-- The new responsible is stored as a string, the identifier of the reference. -/
def changeTaskResponsible (taskID : String) (taskResponsible : DocumentReference) : Program Bool :=
  updateAndReport ⟨"tareas", taskID⟩ [("responsable", .set (.string taskResponsible.documentID))]

/-- A call of one of the upload methods.  The methods make their references with `document(_:)`
as the getters do, from identifiers of documents that the screens hold; for these that is
the document updated here (`Call.documentReference_target`). -/
inductive Call
  | addTeamToGroup (team : Equipo) (grupoID : String)
  | addParticipantToTeam (teamID participantID : String)
  | removeParticipantFromTeam (teamID participantID : String)
  | addNewProjectToTeam (teamID : String) (project : Proyecto)
  | changeTaskStatus (taskID taskStatus : String)
  | changeTaskResponsible (taskID : String) (taskResponsible : DocumentReference)

def Call.program : Call → Program Bool
  | addTeamToGroup team grupoID => FirebaseController.addTeamToGroup team grupoID
  | addParticipantToTeam teamID participantID =>
      FirebaseController.addParticipantToTeam teamID participantID
  | removeParticipantFromTeam teamID participantID =>
      FirebaseController.removeParticipantFromTeam teamID participantID
  | addNewProjectToTeam teamID project => FirebaseController.addNewProjectToTeam teamID project
  | changeTaskStatus taskID taskStatus => FirebaseController.changeTaskStatus taskID taskStatus
  | changeTaskResponsible taskID taskResponsible =>
      FirebaseController.changeTaskResponsible taskID taskResponsible

/-- The collection and the text that lead a call to the document it updates. -/
def Call.target : Call → String × String
  | addTeamToGroup _ grupoID => ("grupo", grupoID)
  | addParticipantToTeam teamID _ => ("equipos", teamID)
  | removeParticipantFromTeam teamID _ => ("equipos", teamID)
  | addNewProjectToTeam teamID _ => ("equipos", teamID)
  | changeTaskStatus taskID _ => ("tareas", taskID)
  | changeTaskResponsible taskID _ => ("tareas", taskID)

theorem Call.documentReference_target (call : Call) (h : IsDocumentID call.target.2) :
    documentReference call.target.1 call.target.2 =
      some ⟨call.target.1, call.target.2⟩ := by
  have hc : call.target.1 ∈ ["grupo", "equipos", "tareas"] := by
    cases call <;> simp [target]
  have hsegment : ∀ c ∈ ["grupo", "equipos", "tareas"], ResourcePath.IsSegment c.toList := by
    decide
  exact documentReference_of_isDocumentID (hsegment _ hc) h

/-! ## The points of a method -/

theorem report_continues {b : Bool} {q : Program Bool} (h : (Program.report b).Continues q) :
    q = .report b := by
  cases h
  rfl

theorem updateAndReport_continues {r : DocumentReference} {us : List (String × FieldUpdate)}
    {q : Program Bool} (h : (updateAndReport r us).Continues q) :
    q = updateAndReport r us ∨ ∃ b, q = .report b := by
  cases h with
  | refl => exact Or.inl rfl
  | updateData err h => cases err <;> exact Or.inr ⟨_, report_continues h⟩

theorem addTeamToGroup_continues {team : Equipo} {grupoID : String} {q : Program Bool}
    (h : (addTeamToGroup team grupoID).Continues q) :
    q = addTeamToGroup team grupoID ∨ (∃ id, q = linkTeam grupoID ⟨"equipo", id⟩) ∨
      ∃ b, q = .report b := by
  cases h with
  | refl => exact Or.inl rfl
  | addDocument id err h =>
    cases err with
    | false =>
      rcases updateAndReport_continues h with rfl | hq
      · exact Or.inr (Or.inl ⟨id, rfl⟩)
      · exact Or.inr (Or.inr hq)
    | true => exact Or.inr (Or.inr ⟨_, report_continues h⟩)

theorem addNewProjectToTeam_continues {teamID : String} {project : Proyecto} {q : Program Bool}
    (h : (addNewProjectToTeam teamID project).Continues q) :
    q = addNewProjectToTeam teamID project ∨ (∃ id, q = linkProject teamID ⟨"proyectos", id⟩) ∨
      ∃ b, q = .report b := by
  unfold addNewProjectToTeam createNewProject at h ⊢
  cases hdata : project.firestoreReady with
  | none =>
    rw [hdata] at h
    cases h
    exact Or.inl rfl
  | some data =>
    rw [hdata] at h
    cases h with
    | refl => exact Or.inl rfl
    | addDocument id err h =>
      cases err with
      | false =>
        rcases updateAndReport_continues h with rfl | hq
        · exact Or.inr (Or.inl ⟨id, rfl⟩)
        · exact Or.inr (Or.inr hq)
      | true => exact Or.inr (Or.inr ⟨_, report_continues h⟩)

/-! ## What the backend applies -/

section Accept
variable {s t : Store} {id : String} {q : Program Bool}

theorem accept_updateAndReport {r : DocumentReference} {us : List (String × FieldUpdate)}
    (h : (updateAndReport r us).accept s id = some (t, q)) :
    ∃ f, s.documents r = some f ∧ t = s.write r (f.update us) ∧ q = .report true := by
  obtain ⟨u, hu, he⟩ := Option.map_eq_some_iff.mp h
  obtain ⟨rfl, rfl⟩ := Prod.mk.inj he
  obtain ⟨f, hf, rfl⟩ := Store.updateData_eq_some.mp hu
  exact ⟨f, hf, rfl, rfl⟩

theorem accept_addTeamToGroup {team : Equipo} {grupoID : String}
    (h : (addTeamToGroup team grupoID).accept s id = some (t, q)) :
    (IsDocumentID id ∧ id ∉ s.known) ∧ t = s.write ⟨"equipo", id⟩ team.firestoreReady ∧
      q = linkTeam grupoID ⟨"equipo", id⟩ := by
  obtain ⟨u, hu, he⟩ := Option.map_eq_some_iff.mp h
  obtain ⟨rfl, rfl⟩ := Prod.mk.inj he
  obtain ⟨hid, hfresh, rfl⟩ := Store.addDocument_eq_some.mp hu
  exact ⟨⟨hid, hfresh⟩, rfl, rfl⟩

theorem accept_addNewProjectToTeam {teamID : String} {project : Proyecto}
    (h : (addNewProjectToTeam teamID project).accept s id = some (t, q)) :
    ∃ data, project.firestoreReady = some data ∧ (IsDocumentID id ∧ id ∉ s.known) ∧
      t = s.write ⟨"proyectos", id⟩ data ∧ q = linkProject teamID ⟨"proyectos", id⟩ := by
  unfold addNewProjectToTeam createNewProject at h
  cases hdata : project.firestoreReady with
  | none =>
    rw [hdata] at h
    cases h
  | some data =>
    rw [hdata] at h
    obtain ⟨u, hu, he⟩ := Option.map_eq_some_iff.mp h
    obtain ⟨rfl, rfl⟩ := Prod.mk.inj he
    obtain ⟨hid, hfresh, rfl⟩ := Store.addDocument_eq_some.mp hu
    exact ⟨data, rfl, ⟨hid, hfresh⟩, rfl, rfl⟩

/-- An update that is run on its own: it fails and changes nothing, or it goes through. -/
theorem exec_updateAndReport {r : DocumentReference} {us : List (String × FieldUpdate)}
    {os : List Outcome} {b : Bool} (h : (updateAndReport r us).exec os s = some (t, b)) :
    (b = false ∧ t = s) ∨
      (b = true ∧ ∃ f, s.documents r = some f ∧ t = s.write r (f.update us)) := by
  have failed : (Program.report (β := Bool) false).exec [] s = some (t, b) → b = false ∧ t = s := by
    intro h
    obtain ⟨rfl, rfl⟩ := Prod.mk.inj (Option.some.inj h)
    exact ⟨rfl, rfl⟩
  cases os with
  | nil => cases h
  | cons o os =>
    unfold updateAndReport Program.exec at h
    split at h
    · split at h
      · rename_i u hu
        obtain ⟨f, hf, rfl⟩ := Store.updateData_eq_some.mp hu
        obtain ⟨rfl, rfl⟩ := Prod.mk.inj (Option.some.inj h)
        exact Or.inr ⟨rfl, f, hf, rfl⟩
      · exact Or.inl (failed h)
    · exact Or.inl (failed h)

/-- The effect on the store of one accepted request of an upload method: a new
document in `equipo` or `proyectos`, or other fields in an existing document of
`grupo`, `equipos` or `tareas`. -/
structure Upload (s : Store) (r : DocumentReference) : Prop where
  created : s.documents r = none →
    r.documentID ∉ s.known ∧ (r.collection = "equipo" ∨ r.collection = "proyectos")
  updated : s.documents r ≠ none →
    r.collection = "grupo" ∨ r.collection = "equipos" ∨ r.collection = "tareas"

theorem Upload.of_fresh {c : String} (h : id ∉ s.known) (hc : c = "equipo" ∨ c = "proyectos") :
    Upload s ⟨c, id⟩ where
  created _ := ⟨h, hc⟩
  updated hne := absurd (Store.documents_eq_none_of_fresh h c) hne

theorem Upload.of_update {r : DocumentReference} {f : Fields} (hf : s.documents r = some f)
    (hc : r.collection = "grupo" ∨ r.collection = "equipos" ∨ r.collection = "tareas") :
    Upload s r where
  created h := by rw [hf] at h; cases h
  updated _ := hc

/-- The upload methods write in five collections. -/
theorem Upload.collection_mem {r : DocumentReference} (h : Upload s r) :
    r.collection ∈ ["equipo", "proyectos", "grupo", "equipos", "tareas"] := by
  by_cases hr : s.documents r = none
  · rcases (h.created hr).2 with hc | hc <;> simp [hc]
  · rcases h.updated hr with hc | hc | hc <;> simp [hc]

/-- **Each accepted request of an upload method writes one document.** -/
theorem Call.accept_eq_write {call : Call} {p : Program Bool} (hc : call.program.Continues p)
    (hq : p.accept s id = some (t, q)) : ∃ r f, Upload s r ∧ t = s.write r f := by
  cases call with
  | addTeamToGroup team grupoID =>
    rcases addTeamToGroup_continues hc with rfl | ⟨id', rfl⟩ | ⟨b, rfl⟩
    · obtain ⟨⟨-, hfresh⟩, rfl, -⟩ := accept_addTeamToGroup hq
      exact ⟨_, _, .of_fresh hfresh (by simp), rfl⟩
    · obtain ⟨f, hf, rfl, -⟩ := accept_updateAndReport hq
      exact ⟨_, _, .of_update hf (by simp), rfl⟩
    · cases hq
  | addNewProjectToTeam teamID project =>
    rcases addNewProjectToTeam_continues hc with rfl | ⟨id', rfl⟩ | ⟨b, rfl⟩
    · obtain ⟨data, -, ⟨-, hfresh⟩, rfl, -⟩ := accept_addNewProjectToTeam hq
      exact ⟨_, _, .of_fresh hfresh (by simp), rfl⟩
    · obtain ⟨f, hf, rfl, -⟩ := accept_updateAndReport hq
      exact ⟨_, _, .of_update hf (by simp), rfl⟩
    · cases hq
  | _ =>
    rcases updateAndReport_continues hc with rfl | ⟨b, rfl⟩
    · obtain ⟨f, hf, rfl, -⟩ := accept_updateAndReport hq
      exact ⟨_, _, .of_update hf (by simp), rfl⟩
    · cases hq

end Accept

/-! ## Decoding what was written -/

section Decoding
open FieldValue

/-- **A stored team is read back as it was, under the identifier of its document,
if it has a project; a team without projects is stored without the field and
cannot be read.** -/
theorem decodeEquipo_firestoreReady (team : Equipo) (id : String) :
    decodeEquipo id team.firestoreReady =
      if team.proyectos = [] then none else some { team with documentID := id } := by
  split
  · rename_i hp
    have : field team.firestoreReady "proyectos" asReferences = none := by
      simp [field, team.lookup_firestoreReady, hp]
    rw [Option.eq_none_iff_forall_ne_some]
    intro e he
    rw [(decodeEquipo_eq_some.mp he).2.2.2] at this
    cases this
  · rename_i hp
    rw [decodeEquipo_eq_some]
    simp [field, team.lookup_firestoreReady, hp, asString]

theorem firestoreReady_eq_some {project : Proyecto} {data : Fields}
    (h : project.firestoreReady = some data) :
    ∃ m f, project.metodologia.parse = some m ∧ project.fase.parse = some f ∧
      data = Fields.ofList [("nombre", .string project.nombre), ("metodologia", m), ("fase", f),
        ("descripcion", .string project.descripcion), ("tareas", .references project.tareas)] := by
  unfold Proyecto.firestoreReady at h
  obtain ⟨m, hm, h⟩ := Option.bind_eq_some_iff.mp h
  obtain ⟨f, hf, h⟩ := Option.bind_eq_some_iff.mp h
  exact ⟨m, f, hm, hf, (Option.some.inj h).symm⟩

/-- A stored project is read back with the values that the store holds for its
methodology and its phase. -/
theorem decodeProyecto_firestoreReady {project : Proyecto} {data : Fields}
    (h : project.firestoreReady = some data) (id : String) :
    ∃ m f, project.metodologia.parse = some m ∧ project.fase.parse = some f ∧
      decodeProyecto id data =
        some { project with documentID := id, metodologia := .field m, fase := .field f } := by
  obtain ⟨m, f, hm, hf, rfl⟩ := firestoreReady_eq_some h
  refine ⟨m, f, hm, hf, ?_⟩
  rw [decodeProyecto_eq_some]
  simp [field, asString, asAny]

/-- A value comes back as itself if it is of one of the store's own types, and exact. -/
theorem field_parse_iff {a : AnyValue} {v : FieldValue} (h : a.parse = some v) :
    .field v = a ↔ ∃ w, a = .field w ∧ Exact w := by
  cases a with
  | field w => simp only [AnyValue.field.injEq, exists_eq_left', parseData_eq_iff h]
  | converted w => simp
  | absent => simp
  | unsupported => simp

/-- Linking teams changes the `equipos` of a group and nothing else. -/
theorem decodeGrupo_union {id : String} {f : Fields} {g : Grupo} (new : List DocumentReference)
    (h : decodeGrupo id f = some g) :
    decodeGrupo id (f.update [("equipos", .arrayUnion (new.map reference))]) =
      some { g with equipos := g.equipos.appendMissing new } := by
  rw [decodeGrupo_eq_some] at h ⊢
  obtain ⟨hid, hequipos, hrest⟩ := h
  obtain ⟨v, hv, hrs⟩ := Option.bind_eq_some_iff.mp hequipos
  obtain rfl := asReferences_eq_some.mp hrs
  refine ⟨hid, ?_, ?_⟩
  · rw [field_update_self, hv, FieldUpdate.apply_arrayUnion_references, asReferences_references]
  · simp (disch := decide) only [field_update_of_ne]
    exact hrest

/-- **When decoding undoes encoding.**  A team is read back, from the document it
was stored in, as it was and under the identifier of the document exactly if it has
a project; a project exactly if its methodology and its phase are of the store's
own types, with points in time of whole microseconds and one NaN. -/
theorem firestoreReady_read_back_iff (s : Store) (id : String) :
    (∀ (team : Equipo) (t : Store), s.addDocument "equipo" id team.firestoreReady = some t →
      (getTeamData t true ⟨"equipo", id⟩ = some [some { team with documentID := id }] ↔
        team.proyectos ≠ [])) ∧
    (∀ (project : Proyecto) (data : Fields) (t : Store), project.firestoreReady = some data →
      s.addDocument "proyectos" id data = some t →
      (getProyectoData t true ⟨"proyectos", id⟩ = some [some { project with documentID := id }] ↔
        (∃ v, project.metodologia = .field v ∧ Exact v) ∧
          ∃ v, project.fase = .field v ∧ Exact v)) := by
  constructor
  · intro team t ht
    obtain ⟨hid, -, rfl⟩ := Store.addDocument_eq_some.mp ht
    rw [getTeamData, readDocument_eq_some_iff, Store.documents_write_self _ hid]
    simp [decodeEquipo_firestoreReady]
  · intro project data t hdata ht
    obtain ⟨hid, -, rfl⟩ := Store.addDocument_eq_some.mp ht
    rw [getProyectoData, readDocument_eq_some_iff, Store.documents_write_self _ hid]
    obtain ⟨m, f, hm, hf, hdecode⟩ := decodeProyecto_firestoreReady hdata id
    obtain ⟨i, n, a, b, d, ts⟩ := project
    simp only [Option.some.injEq, exists_eq_left', hdecode, Proyecto.mk.injEq, true_and, and_true]
    rw [field_parse_iff hm, field_parse_iff hf]

/-- A team with a project and a project with a methodology and a phase come back. -/
theorem firestoreReady_read_back_sample :
    (∃ t, Store.empty.addDocument "equipo" "t1"
        (Equipo.firestoreReady ⟨"", "A", [⟨"estudiante", "a1"⟩], [⟨"proyectos", "p1"⟩]⟩) = some t ∧
      getTeamData t true ⟨"equipo", "t1"⟩ =
        some [some ⟨"t1", "A", [⟨"estudiante", "a1"⟩], [⟨"proyectos", "p1"⟩]⟩]) ∧
    ∃ data t, Proyecto.firestoreReady
        ⟨"", "P", .field (.string "Scrum"), .field (.timestamp ⟨7, 1000⟩), "", []⟩ = some data ∧
      Store.empty.addDocument "proyectos" "p1" data = some t ∧
      getProyectoData t true ⟨"proyectos", "p1"⟩ =
        some [some
          ⟨"p1", "P", .field (.string "Scrum"), .field (.timestamp ⟨7, 1000⟩), "", []⟩] := by
  refine ⟨⟨_, rfl, ?_⟩, _, _, rfl, rfl, ?_⟩
  · exact ((firestoreReady_read_back_iff Store.empty "t1").1
      ⟨"", "A", [⟨"estudiante", "a1"⟩], [⟨"proyectos", "p1"⟩]⟩ _ rfl).mpr (by simp)
  · exact ((firestoreReady_read_back_iff Store.empty "p1").2
      ⟨"", "P", .field (.string "Scrum"), .field (.timestamp ⟨7, 1000⟩), "", []⟩ _ _ rfl rfl).mpr
        ⟨⟨_, rfl, trivial⟩, ⟨_, rfl, rfl⟩⟩

/-- Reading back a team that was stored without projects traps, a project
without a methodology comes back with the store's null for one, and a phase given to the
nanosecond comes back without it. -/
theorem firestoreReady_not_read_back :
    (∃ t, Store.empty.addDocument "equipo" "t1"
        (Equipo.firestoreReady ⟨"", "A", [⟨"estudiante", "a1"⟩], []⟩) = some t ∧
      getTeamData t true ⟨"equipo", "t1"⟩ = none) ∧
    ∃ data t, Proyecto.firestoreReady ⟨"", "P", .absent, .field (.timestamp ⟨0, 1⟩), "", []⟩ =
        some data ∧
      Store.empty.addDocument "proyectos" "p1" data = some t ∧
      getProyectoData t true ⟨"proyectos", "p1"⟩ =
        some [some ⟨"p1", "P", .field .null, .field (.timestamp ⟨0, 0⟩), "", []⟩] :=
  ⟨⟨_, rfl, rfl⟩, _, _, rfl, rfl, rfl⟩

end Decoding

end FirebaseController

/-- A group without teams. -/
def sampleGroup : Fields := Fields.ofList [
  ("equipos", .references []), ("estudiantes", .references [⟨"estudiante", "a1"⟩]),
  ("proyecto", .reference ⟨"proyectos", "p1"⟩), ("horaInicio", .integer 9),
  ("duracion", .integer 2), ("numero", .integer 1), ("salon", .reference ⟨"salon", "s1"⟩)]

/-- The document of a student. -/
def sampleStudent : Fields := Fields.ofList [
  ("mail", .string "a1@tec.mx"), ("nombre", .string "Ana"), ("apellidos", .string ""),
  ("matricula", .string ""), ("equipos", .references []), ("proyectos", .references []),
  ("grupos", .references []), ("tareas", .references []), ("cursos", .references [])]

/-- A store with one group, for the runs on fixed inputs. -/
def groupStore : Store := Store.empty.write ⟨"grupo", "g1"⟩ sampleGroup

end Musgravite
