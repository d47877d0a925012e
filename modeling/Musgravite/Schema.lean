import Musgravite.Writes

/-! # Which writes keep the documents readable

A store is well-typed when every document of the app's collections passes the
forced casts of the getters that read it.  `wellTyped_throughout_iff` gives the
exact condition under which a run of upload methods, with any interleaving of
their requests and any of them refused, keeps the store well-typed all along.
Two writers break it: a team without projects is stored without the field
`proyectos`, and `changeTaskResponsible` puts a string where `getTareaData`
expects a reference. -/
namespace Musgravite
open FirebaseController FieldValue

/-- Every document of the collection passes the decoder's casts. -/
def Readable {α : Type} (s : Store) (collection : String)
    (decode : String → Fields → Option α) : Prop :=
  ∀ id f, s.documents ⟨collection, id⟩ = some f → (decode id f).isSome

theorem Readable.write {α : Type} {s : Store} {c : String} {decode : String → Fields → Option α}
    (hs : Readable s c decode) {r : DocumentReference} {f : Fields}
    (hf : r.collection = c → (decode r.documentID f).isSome) : Readable (s.write r f) c decode := by
  intro id g hg
  rcases s.documents_write_eq_some hg with ⟨rfl, -, rfl⟩ | hg
  · exact hf rfl
  · exact hs id g hg

/-- A document that was just written is readable only if it decodes. -/
theorem Readable.of_write {α : Type} {s : Store} {c id : String}
    {decode : String → Fields → Option α} {f : Fields} (hid : IsDocumentID id)
    (h : Readable (s.write ⟨c, id⟩ f) c decode) : (decode id f).isSome :=
  h id f (s.documents_write_self hid f)

/-- The well-typed stores. -/
structure WellTyped (s : Store) : Prop where
  equipo : Readable s "equipo" decodeEquipo
  estudiante : Readable s "estudiante" decodeEstudiante
  tareas : Readable s "tareas" decodeTarea
  proyectos : Readable s "proyectos" decodeProyecto
  grupo : Readable s "grupo" decodeGrupo
  curso : Readable s "curso" decodeCurso
  salon : Readable s "salon" decodeSalon
  salones : Readable s "salon" decodeSalonInList

/-- The fields written at `r` pass the casts of whatever getter reads `r`. -/
structure PassesCasts (r : DocumentReference) (f : Fields) : Prop where
  equipo : r.collection = "equipo" → (decodeEquipo r.documentID f).isSome
  estudiante : r.collection = "estudiante" → (decodeEstudiante r.documentID f).isSome
  tareas : r.collection = "tareas" → (decodeTarea r.documentID f).isSome
  proyectos : r.collection = "proyectos" → (decodeProyecto r.documentID f).isSome
  grupo : r.collection = "grupo" → (decodeGrupo r.documentID f).isSome
  curso : r.collection = "curso" → (decodeCurso r.documentID f).isSome
  salon : r.collection = "salon" → (decodeSalon r.documentID f).isSome
  salones : r.collection = "salon" → (decodeSalonInList r.documentID f).isSome

/-- In a readable collection a getter traps only on a missing document. -/
theorem Readable.readDocument_eq_none_iff {α : Type} {s : Store} {c : String}
    {decode : String → Fields → Option α} (hs : Readable s c decode) (id : String)
    (answered : Bool) :
    readDocument decode (s.getDocument ⟨c, id⟩ answered) = none ↔
      answered = true ∧ s.documents ⟨c, id⟩ = none := by
  rw [FirebaseController.readDocument_eq_none_iff, Option.bind_eq_none_iff]
  refine and_congr_right fun _ => ⟨fun h => ?_, fun h f hf => by rw [h] at hf; cases hf⟩
  rw [Option.eq_none_iff_forall_ne_some]
  intro f hf
  have := hs id f hf
  rw [h f hf] at this
  cases this

theorem wellTyped_empty : WellTyped .empty := by
  constructor <;> · intro id f h; cases h

theorem WellTyped.write {s : Store} (hs : WellTyped s) {r : DocumentReference} {f : Fields}
    (hf : PassesCasts r f) : WellTyped (s.write r f) where
  equipo := hs.equipo.write hf.equipo
  estudiante := hs.estudiante.write hf.estudiante
  tareas := hs.tareas.write hf.tareas
  proyectos := hs.proyectos.write hf.proyectos
  grupo := hs.grupo.write hf.grupo
  curso := hs.curso.write hf.curso
  salon := hs.salon.write hf.salon
  salones := hs.salones.write hf.salones

/-! ## One writer at a time -/

theorem passesCasts_team {team : Equipo} (h : team.proyectos ≠ []) (id : String) :
    PassesCasts ⟨"equipo", id⟩ team.firestoreReady := by
  constructor <;> simp [decodeEquipo_firestoreReady, h]

theorem passesCasts_project {project : Proyecto} {data : Fields}
    (h : project.firestoreReady = some data) (id : String) :
    PassesCasts ⟨"proyectos", id⟩ data := by
  obtain ⟨m, f, -, -, hdecode⟩ := decodeProyecto_firestoreReady h id
  constructor <;> simp [hdecode]

/-- No getter reads the collection `equipos`. -/
theorem passesCasts_equipos (id : String) (f : Fields) : PassesCasts ⟨"equipos", id⟩ f := by
  constructor <;> simp

theorem passesCasts_group {id : String} {f : Fields} (new : List DocumentReference)
    (h : (decodeGrupo id f).isSome) :
    PassesCasts ⟨"grupo", id⟩ (f.update [("equipos", .arrayUnion (new.map reference))]) := by
  obtain ⟨g, hg⟩ := Option.isSome_iff_exists.mp h
  constructor <;> simp [decodeGrupo_union new hg]

theorem passesCasts_status {id : String} {f : Fields} (status : String)
    (h : (decodeTarea id f).isSome) :
    PassesCasts ⟨"tareas", id⟩ (f.update [("status", .set (.string status))]) := by
  have : (decodeTarea id (f.update [("status", .set (.string status))])).isSome := by
    rw [decodeTarea_isSome] at h ⊢
    obtain ⟨h1, h2, h3, h4, h5, -, h7⟩ := h
    simp (disch := decide) only [field_update_of_ne, field_update_self]
    exact ⟨h1, h2, h3, h4, h5, rfl, h7⟩
  constructor <;> simp [this]

theorem decodeTarea_responsable (id : String) (f : Fields) (responsable : String) :
    ¬ (decodeTarea id (f.update [("responsable", .set (.string responsable))])).isSome := by
  rw [decodeTarea_isSome, field_update_self]
  rintro ⟨-, -, -, -, -, -, h⟩
  cases h

/-! ## Runs of upload methods -/

variable {ι : Type} [DecidableEq ι]

/-- The steps that keep a well-typed store well-typed: no creation of a team
without projects is accepted, and no `changeTaskResponsible` is. -/
def KeepsReadable (calls : ι → Call) (s : Pool ι Bool) : PoolAction ι → Prop
  | .accept i _ =>
      match calls i with
      | .addTeamToGroup team _ => (s.thread i).program.isCreation → team.proyectos ≠ []
      | .changeTaskResponsible _ _ => False
      | _ => True
  | _ => True

omit [DecidableEq ι] in
/-- **One request**: what the backend applies at some point of a call keeps a
well-typed store well-typed exactly when the step is one of `KeepsReadable`. -/
theorem wellTyped_accept_iff {calls : ι → Call} {s : Pool ι Bool} {i : ι} {id : String}
    {p q : Program Bool} {u : Store} (hs : WellTyped s.store) (hp : s.thread i = .sent p)
    (hc : (calls i).program.Continues p) (hq : p.accept s.store id = some (u, q)) :
    WellTyped u ↔ KeepsReadable calls s (.accept i id) := by
  rw [KeepsReadable, hp]
  cases hcall : calls i with
  | addTeamToGroup team grupoID =>
    rw [hcall] at hc
    rcases addTeamToGroup_continues hc with rfl | ⟨id', rfl⟩ | ⟨b, rfl⟩
    · obtain ⟨⟨hid, -⟩, rfl, -⟩ := accept_addTeamToGroup hq
      -- the stored team decodes exactly if it has a project
      constructor
      · intro h _ he
        have := h.equipo.of_write hid
        rw [decodeEquipo_firestoreReady, if_pos he] at this
        cases this
      · intro h
        exact hs.write (passesCasts_team (h rfl) id)
    · obtain ⟨f, hf, rfl, -⟩ := accept_updateAndReport hq
      -- the list of the group gets one more reference and stays a list of references
      refine iff_of_true (hs.write ?_) (fun h => by cases h)
      exact passesCasts_group [⟨"equipo", id'⟩] (hs.grupo _ _ hf)
    · cases hq
  | addParticipantToTeam teamID participantID | removeParticipantFromTeam teamID participantID =>
    rw [hcall] at hc
    rcases updateAndReport_continues hc with rfl | ⟨b, rfl⟩
    · obtain ⟨f, -, rfl, -⟩ := accept_updateAndReport hq
      exact iff_of_true (hs.write (passesCasts_equipos _ _)) trivial
    · cases hq
  | addNewProjectToTeam teamID project =>
    rw [hcall] at hc
    rcases addNewProjectToTeam_continues hc with rfl | ⟨id', rfl⟩ | ⟨b, rfl⟩
    · obtain ⟨data, hdata, -, rfl, -⟩ := accept_addNewProjectToTeam hq
      exact iff_of_true (hs.write (passesCasts_project hdata id)) trivial
    · obtain ⟨f, -, rfl, -⟩ := accept_updateAndReport hq
      exact iff_of_true (hs.write (passesCasts_equipos _ _)) trivial
    · cases hq
  | changeTaskStatus taskID taskStatus =>
    rw [hcall] at hc
    rcases updateAndReport_continues hc with rfl | ⟨b, rfl⟩
    · obtain ⟨f, hf, rfl, -⟩ := accept_updateAndReport hq
      exact iff_of_true (hs.write (passesCasts_status _ (hs.tareas _ _ hf))) trivial
    · cases hq
  | changeTaskResponsible taskID taskResponsible =>
    rw [hcall] at hc
    rcases updateAndReport_continues hc with rfl | ⟨b, rfl⟩
    · obtain ⟨f, hf, rfl, -⟩ := accept_updateAndReport hq
      refine iff_of_false (fun h => ?_) not_false
      exact decodeTarea_responsable _ _ _ (h.tareas.of_write (s.store.isDocumentID hf))
    · cases hq

/-! ### Calls that are harmless -/

/-- The call writes no unreadable document, whatever happens. -/
def Harmless : Call → Prop
  | .addTeamToGroup team _ => team.proyectos ≠ []
  | .changeTaskResponsible _ _ => False
  | _ => True

omit [DecidableEq ι] in
theorem keepsReadable_of_harmless {calls : ι → Call} (h : ∀ i, Harmless (calls i)) (s : Pool ι Bool)
    (a : PoolAction ι) : KeepsReadable calls s a := by
  cases a with
  | accept i id =>
    have hi := h i
    rw [KeepsReadable]
    cases hcall : calls i with
    | addTeamToGroup team grupoID =>
      rw [hcall] at hi
      exact fun _ => hi
    | changeTaskResponsible taskID taskResponsible =>
      rw [hcall] at hi
      exact hi
    | _ => trivial
  | _ => trivial

/-- **One step of harmless calls** keeps a well-typed store well-typed. -/
theorem wellTyped_step {calls : ι → Call} (hcalls : ∀ i, Harmless (calls i)) {s t : Pool ι Bool}
    {a : PoolAction ι} (hc : ∀ i, (calls i).program.Continues (s.thread i).program)
    (hs : WellTyped s.store) (h : (pool ι Bool).step s a = some t) : WellTyped t.store := by
  cases Pool.step_cases h with
  | accept i id p q u hp hq ht =>
    subst ht
    have hci := hc i
    rw [hp] at hci
    exact (wellTyped_accept_iff hs hp hci hq).mpr (keepsReadable_of_harmless hcalls _ _)
  | refuse i id p q hp hq ht | deliver i p hp ht =>
    subst ht
    exact hs

/-- A harmless call that runs on its own keeps a well-typed store well-typed. -/
theorem WellTyped.exec {call : Call} (hcall : Harmless call) {s t : Store} (hs : WellTyped s)
    {os : List Outcome} {b : Bool} (h : call.program.exec os s = some (t, b)) : WellTyped t := by
  -- the same requests are a run of a pool in which only this call moves
  have hreach := Pool.exec_runs (s := Pool.start s fun _ : Unit => call.program) (i := ()) h rfl
  refine (hreach.invariant (P := fun u =>
    (∀ i, call.program.Continues (u.thread i).program) ∧ WellTyped u.store) ⟨fun _ => .refl _, hs⟩
    ?_).2
  rintro u a v ⟨hc, hu⟩ hstep
  exact ⟨Pool.step_continues hc hstep, wellTyped_step (fun _ => hcall) hc hu hstep⟩

/-! ### Exactly which runs -/

/-- **The exact condition for a readable store.**  In any run of upload methods
from a well-typed store, all states on the way are well-typed if and only if no
step creates a team without projects or changes the responsible of a task. -/
theorem wellTyped_throughout_iff (calls : ι → Call) {s₀ : Store} (h₀ : WellTyped s₀)
    {as : List (PoolAction ι)} {t : Pool ι Bool}
    (h : (pool ι Bool).run (Pool.start s₀ fun i => (calls i).program) as = some t) :
    (∀ u, (pool ι Bool).Visits (Pool.start s₀ fun i => (calls i).program) as u →
        WellTyped u.store) ↔
      (pool ι Bool).Meets (KeepsReadable calls) (Pool.start s₀ fun i => (calls i).program) as := by
  refine (pool ι Bool).visited_iff_meets (P := fun u => WellTyped u.store)
    (I := fun u => ∀ i, (calls i).program.Continues (u.thread i).program)
    (fun hs hstep => Pool.step_continues hs hstep) ?_ (fun i => .refl _) h₀ h
  intro s a t hI hP hstep
  cases Pool.step_cases hstep with
  | accept i id p q u hp hq ht =>
    subst ht
    have hc := hI i
    rw [hp] at hc
    exact wellTyped_accept_iff hP hp hc hq
  | refuse i id p q hp hq ht | deliver i p hp ht =>
    subst ht
    exact iff_of_true hP trivial

/-- The document of a task. -/
def sampleTask : Fields := Fields.ofList [
  ("nombre", .string "Maqueta"), ("descripcion", .string ""),
  ("fechaInicio", .timestamp ⟨0, 0⟩), ("fechaFin", .timestamp ⟨86400, 0⟩),
  ("fase", .string "1"), ("status", .string "abierta"),
  ("responsable", .reference ⟨"estudiante", "a1"⟩)]

def taskStore : Store := Store.empty.write ⟨"tareas", "t1"⟩ sampleTask

theorem wellTyped_taskStore : WellTyped taskStore := by
  refine wellTyped_empty.write ?_
  constructor <;> first | (intro; rfl) | simp

/-- Closing a task keeps all documents readable. -/
theorem changeTaskStatus_wellTyped :
    ∃ t, (pool Unit Bool).run
        (Pool.start taskStore fun _ => (Call.changeTaskStatus "t1" "cerrada").program)
        [.accept () "", .deliver ()] = some t ∧ WellTyped t.store := by
  obtain ⟨t, ht⟩ : ∃ t, (pool Unit Bool).run
      (Pool.start taskStore fun _ => (Call.changeTaskStatus "t1" "cerrada").program)
      [.accept () "", .deliver ()] = some t := ⟨_, rfl⟩
  have hall := (wellTyped_throughout_iff (fun _ : Unit => .changeTaskStatus "t1" "cerrada")
    wellTyped_taskStore ht).mpr ⟨trivial, fun _ _ => ⟨trivial, fun _ _ => trivial⟩⟩
  exact ⟨t, ht, hall t ((pool Unit Bool).visits_last ht)⟩

/-- Reassigning a task leaves its document unreadable: `getTareaData` traps on it. -/
theorem changeTaskResponsible_unreadable :
    WellTyped taskStore ∧
    ∃ t, (pool Unit Bool).run
        (Pool.start taskStore fun _ =>
          (Call.changeTaskResponsible "t1" ⟨"estudiante", "a2"⟩).program)
        [.accept () "", .deliver ()] = some t ∧
      (t.thread ()).program = .report true ∧ ¬ WellTyped t.store ∧
      getTareaData t.store true ⟨"tareas", "t1"⟩ = none := by
  refine ⟨wellTyped_taskStore, _, rfl, rfl, fun h => ?_, by decide +kernel⟩
  exact absurd (h.tareas "t1" _ rfl) (by decide +kernel)

end Musgravite
