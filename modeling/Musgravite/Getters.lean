import Musgravite.Firestore.ResourcePaths
import Musgravite.Library.DocumentStore
import Musgravite.Models

/-! # The download methods of `FirebaseController`

A getter sends one request and decodes the snapshot in its completion block with
forced unwraps and casts.  The block either traps or calls the caller's completion
block; `Calls` records which, and with what arguments.  Where the identifier
comes as a string, `document(_:)` looks for its document first, and may stop the app.

All blocks but that of `getClassData` have one shape, `readDocument`: on an error
they answer `nil`, otherwise they take `querySnapshot!.data()!` and decode it.
Since a missing document arrives without an error and with no data, that unwrap
traps there. -/
namespace Musgravite

/-- What a completion block does: `none` if it traps, otherwise the arguments of
its calls of the caller's completion block, in order. -/
abbrev Calls (α : Type) := Option (List α)

namespace FirebaseController
open FieldValue Firestore

/-- `data["key"] as! T`: the field has to be there and to be a `T`. -/
def field {α : Type} (data : Fields) (key : String) (as : FieldValue → Option α) : Option α :=
  (data.lookup key).bind as

theorem field_update_self {α : Type} (f : Fields) (k : String) (u : FieldUpdate)
    (as : FieldValue → Option α) : field (f.update [(k, u)]) k as = as (u.apply (f.lookup k)) := by
  rw [field, Fields.lookup_update_singleton_self]
  rfl

theorem field_update_of_ne {α : Type} (f : Fields) {k l : String} (u : FieldUpdate)
    (as : FieldValue → Option α) (h : l ≠ k) : field (f.update [(k, u)]) l as = field f l as := by
  rw [field, Fields.lookup_update_singleton_of_ne _ _ h]
  rfl

/-! ## Decoders -/

def decodeCurso (documentID : String) (data : Fields) : Option Curso := do
  let nombre ← field data "nombre" asString
  let nombreProfesor ← field data "nombreProfesor" asString
  let semestre ← field data "semestre" asString
  let grupos ← field data "grupos" asReferences
  let salones ← field data "salones" asReferences
  return ⟨documentID, nombre, nombreProfesor, semestre, grupos, salones⟩

def decodeGrupo (documentID : String) (data : Fields) : Option Grupo := do
  let equipos ← field data "equipos" asReferences
  let estudiantes ← field data "estudiantes" asReferences
  let proyecto ← field data "proyecto" asReference
  let horaInicio ← field data "horaInicio" asInt
  let duracion ← field data "duracion" asInt
  let numero ← field data "numero" asInt
  let salon ← field data "salon" asReference
  return ⟨documentID, equipos, estudiantes, proyecto, horaInicio, duracion, numero, salon⟩

def decodeEquipo (documentID : String) (data : Fields) : Option Equipo := do
  let nombre ← field data "nombre" asString
  let integrantes ← field data "integrantes" asReferences
  let proyectos ← field data "proyectos" asReferences
  return ⟨documentID, nombre, integrantes, proyectos⟩

def decodeEstudiante (documentID : String) (data : Fields) : Option Estudiante := do
  let mail ← field data "mail" asString
  let nombre ← field data "nombre" asString
  let apellidos ← field data "apellidos" asString
  let matricula ← field data "matricula" asString
  let equipos ← field data "equipos" asReferences
  let proyectos ← field data "proyectos" asReferences
  let grupos ← field data "grupos" asReferences
  let tareas ← field data "tareas" asReferences
  let cursos ← field data "cursos" asReferences
  return ⟨documentID, mail, nombre, apellidos, matricula, equipos, proyectos, grupos, tareas,
    cursos⟩

def decodeTarea (documentID : String) (data : Fields) : Option Tarea := do
  let nombre ← field data "nombre" asString
  let descripcion ← field data "descripcion" asString
  let fechaInicio ← field data "fechaInicio" asTimestamp
  let fechaFin ← field data "fechaFin" asTimestamp
  let fase ← field data "fase" asString
  let status ← field data "status" asString
  let responsable ← field data "responsable" asReference
  return ⟨documentID, nombre, descripcion, dateValue fechaInicio, dateValue fechaFin, fase, status,
    responsable⟩

/-- `data()!["key"] as Any` boxes whatever is there, also nothing. -/
def asAny : Option FieldValue → AnyValue
  | some v => .field v
  | none => .absent

def decodeProyecto (documentID : String) (data : Fields) : Option Proyecto := do
  let nombre ← field data "nombre" asString
  let metodologia := asAny (data.lookup "metodologia")
  let fase := asAny (data.lookup "fase")
  let descripcion ← field data "descripcion" asString
  let tareas ← field data "tareas" asReferences
  return ⟨documentID, nombre, metodologia, fase, descripcion, tareas⟩

/-- The decoder in `getClassData`. -/
def decodeSalon (documentID : String) (data : Fields) : Option Salon := do
  let poster ← match data.lookup "nombre" with
    | some name => do
        let posterImage ← field data "posterImage" asString
        let classroomName ← name.asString
        let building ← field data "edificio" asString
        let buildnumb ← field data "numero" asInt
        pure [ContentElement.ofPoster posterImage classroomName building buildnumb]
    | none => pure []
  let images ← match data.lookup "imagenes" with
    | some imageArray => match data.lookup "imagen360" with
      | some panonoImage => do
          let images ← imageArray.asStrings
          let image360 ← panonoImage.asString
          pure [ContentElement.ofImages images image360]
      | none => do
          let images ← imageArray.asStrings
          pure [ContentElement.ofImages images]
    | none => pure []
  let videos ← match data.lookup "videos" with
    | some videoArray => do
        let videos ← videoArray.asStrings
        pure [ContentElement.ofVideos videos]
    | none => pure []
  let documents ← match data.lookup "documentos" with
    | some documentArray => do
        let documents ← documentArray.asStrings
        pure [ContentElement.ofDocuments documents]
    | none => pure []
  let contentelems := poster ++ images ++ videos ++ documents
  let nombre ← field data "nombre" asString
  let cursos ← field data "cursos" asReferences
  let edificio ← field data "edificio" asString
  let numero ← field data "numero" asInt
  let tipo ← field data "tipo" asInt
  return Salon.make documentID nombre cursos edificio numero tipo contentelems

/-! ### What a decoder accepts -/

theorem decodeEquipo_eq_some {id : String} {f : Fields} {e : Equipo} :
    decodeEquipo id f = some e ↔
      e.documentID = id ∧ field f "nombre" asString = some e.nombre ∧
      field f "integrantes" asReferences = some e.integrantes ∧
      field f "proyectos" asReferences = some e.proyectos := by
  obtain ⟨i, n, m, p⟩ := e
  simp only [decodeEquipo, Option.bind_eq_bind, Option.bind_eq_some_iff, Option.pure_def,
    Option.some.injEq, Equipo.mk.injEq]
  grind

theorem decodeGrupo_eq_some {id : String} {f : Fields} {g : Grupo} :
    decodeGrupo id f = some g ↔
      g.documentID = id ∧ field f "equipos" asReferences = some g.equipos ∧
      field f "estudiantes" asReferences = some g.estudiantes ∧
      field f "proyecto" asReference = some g.proyecto ∧
      field f "horaInicio" asInt = some g.horaInicio ∧
      field f "duracion" asInt = some g.duracion ∧
      field f "numero" asInt = some g.numero ∧
      field f "salon" asReference = some g.salon := by
  obtain ⟨i, e, st, p, ho, d, n, sa⟩ := g
  simp only [decodeGrupo, Option.bind_eq_bind, Option.bind_eq_some_iff, Option.pure_def,
    Option.some.injEq, Grupo.mk.injEq]
  grind

theorem id_of_decodeEstudiante {id : String} {f : Fields} {e : Estudiante}
    (h : decodeEstudiante id f = some e) : e.id = id := by
  simp only [decodeEstudiante, Option.bind_eq_bind, Option.bind_eq_some_iff, Option.pure_def,
    Option.some.injEq] at h
  obtain ⟨-, -, -, -, -, -, -, -, -, -, -, -, -, -, -, -, -, -, rfl⟩ := h
  rfl

theorem id_of_decodeTarea {id : String} {f : Fields} {t : Tarea}
    (h : decodeTarea id f = some t) : t.id = id := by
  simp only [decodeTarea, Option.bind_eq_bind, Option.bind_eq_some_iff, Option.pure_def,
    Option.some.injEq] at h
  obtain ⟨-, -, -, -, -, -, -, -, -, -, -, -, -, -, rfl⟩ := h
  rfl

theorem decodeTarea_isSome {id : String} {f : Fields} :
    (decodeTarea id f).isSome ↔
      (field f "nombre" asString).isSome ∧ (field f "descripcion" asString).isSome ∧
      (field f "fechaInicio" asTimestamp).isSome ∧ (field f "fechaFin" asTimestamp).isSome ∧
      (field f "fase" asString).isSome ∧ (field f "status" asString).isSome ∧
      (field f "responsable" asReference).isSome := by
  simp only [decodeTarea, Option.bind_eq_bind, Option.isSome_iff_exists, Option.bind_eq_some_iff,
    Option.pure_def, Option.some.injEq]
  grind

theorem decodeTarea_eq_some {id : String} {f : Fields} {t : Tarea} :
    decodeTarea id f = some t ↔
      t.id = id ∧ field f "nombre" asString = some t.nombre ∧
      field f "descripcion" asString = some t.descripcion ∧
      (field f "fechaInicio" asTimestamp).map dateValue = some t.fechaInicio ∧
      (field f "fechaFin" asTimestamp).map dateValue = some t.fechaFin ∧
      field f "fase" asString = some t.fase ∧ field f "status" asString = some t.status ∧
      field f "responsable" asReference = some t.responsable := by
  obtain ⟨i, n, d, fi, ff, fa, st, r⟩ := t
  simp only [decodeTarea, Option.bind_eq_bind, Option.bind_eq_some_iff, Option.pure_def,
    Option.some.injEq, Tarea.mk.injEq, Option.map_eq_some_iff]
  grind

theorem decodeProyecto_eq_some {id : String} {f : Fields} {p : Proyecto} :
    decodeProyecto id f = some p ↔
      p.documentID = id ∧ field f "nombre" asString = some p.nombre ∧
      p.metodologia = asAny (f.lookup "metodologia") ∧ p.fase = asAny (f.lookup "fase") ∧
      field f "descripcion" asString = some p.descripcion ∧
      field f "tareas" asReferences = some p.tareas := by
  obtain ⟨i, n, m, fa, d, t⟩ := p
  simp only [decodeProyecto, Option.bind_eq_bind, Option.bind_eq_some_iff, Option.pure_def,
    Option.some.injEq, Proyecto.mk.injEq]
  grind

/-! ## Getters of one document -/

/-- The shared shape of the completion blocks. -/
def readDocument {α : Type} (decode : String → Fields → Option α) :
    DocumentReply → Calls (Option α)
  | .error => some [none]
  | .snapshot documentID data => (data.bind (decode documentID)).map fun object => [some object]

variable (s : Store) (answered : Bool)

/-- The reply to `collection(_:).document(_:).getDocument`; `none` where there is no
such path, which stops the app. -/
def getDocument (collection documentID : String) : Option DocumentReply :=
  (documentReference collection documentID).map fun r => s.getDocument r answered

/-- The block answers `nil` on an error and goes on to `if let document =
querySnapshot`, which an error leaves `nil`. -/
def getClassData (classroomID : String) : Calls (Option Salon) :=
  (getDocument s answered "salon" classroomID).bind fun
    -- the block goes on after the answer, and there is no snapshot to go on with
    | .error => some ([none] ++ [])
    | .snapshot documentID data =>
        (data.bind (decodeSalon documentID)).map fun salon => [some salon]

def getCourseData (cursoId : String) : Calls (Option Curso) :=
  (getDocument s answered "curso" cursoId).bind (readDocument decodeCurso)

def getGroupData (grupoId : String) : Calls (Option Grupo) :=
  (getDocument s answered "grupo" grupoId).bind (readDocument decodeGrupo)

/-- `getStudentData(studentID:)`. -/
def getStudentDataByID (studentID : String) : Calls (Option Estudiante) :=
  (getDocument s answered "estudiante" studentID).bind (readDocument decodeEstudiante)

/-! The other getters take a reference.  Its `documentID` is a segment of its path, and for
that `document(_:)` leads straight to the document (`getDocument_of_isDocumentID`). -/

def getTeamData (team : DocumentReference) : Calls (Option Equipo) :=
  readDocument decodeEquipo (s.getDocument ⟨"equipo", team.documentID⟩ answered)

/-- `getStudentData(studentReference:)`. -/
def getStudentData (studentReference : DocumentReference) : Calls (Option Estudiante) :=
  readDocument decodeEstudiante (s.getDocument ⟨"estudiante", studentReference.documentID⟩ answered)

def getTareaData (tarea : DocumentReference) : Calls (Option Tarea) :=
  readDocument decodeTarea (s.getDocument ⟨"tareas", tarea.documentID⟩ answered)

def getProyectoData (proyecto : DocumentReference) : Calls (Option Proyecto) :=
  readDocument decodeProyecto (s.getDocument ⟨"proyectos", proyecto.documentID⟩ answered)

/-! ## The classroom list -/

/-- The body of the loop in `getClassroomData`, a second copy of the decoder. -/
def decodeSalonInList (documentID : String) (data : Fields) : Option Salon := do
  let poster ← match data.lookup "nombre" with
    | some name => do
        let posterImage ← field data "posterImage" asString
        let classroomName ← name.asString
        let building ← field data "edificio" asString
        let buildnumb ← field data "numero" asInt
        pure [ContentElement.ofPoster posterImage classroomName building buildnumb]
    | none => pure []
  let images ← match data.lookup "imagenes" with
    | some imageArray => match data.lookup "imagen360" with
      | some panonoImage => do
          let images ← imageArray.asStrings
          let image360 ← panonoImage.asString
          pure [ContentElement.ofImages images image360]
      | none => do
          let images ← imageArray.asStrings
          pure [ContentElement.ofImages images]
    | none => pure []
  let videos ← match data.lookup "videos" with
    | some videoArray => do
        let videos ← videoArray.asStrings
        pure [ContentElement.ofVideos videos]
    | none => pure []
  let documents ← match data.lookup "documentos" with
    | some documentArray => do
        let documents ← documentArray.asStrings
        pure [ContentElement.ofDocuments documents]
    | none => pure []
  let contentelems := poster ++ images ++ videos ++ documents
  let nombre ← field data "nombre" asString
  let cursos ← field data "cursos" asReferences
  let edificio ← field data "edificio" asString
  let numero ← field data "numero" asInt
  let tipo ← field data "tipo" asInt
  return Salon.make documentID nombre cursos edificio numero tipo contentelems

/-- One round of the loop: `salones` stays `nil` until the first classroom. -/
def appendSalon (salones : Option (List Salon)) (document : String × Fields) :
    Option (Option (List Salon)) :=
  (decodeSalonInList document.1 document.2).map fun salon =>
    match salones with
    | none => some [salon]
    | some salones => some (salones ++ [salon])

def getClassroomData : QueryReply → Calls (Option (List Salon))
  | .error => some [none]
  | .documents ds => (ds.foldlM appendSalon none).map fun salones => [salones]

/-! ## What a getter owes its caller -/

/-- The contract of a getter, for the reply its block gets, if it gets that far: a
document that can be decoded is handed on decoded, and a failed request or a missing
document is answered with `nil`; one call in either case. -/
structure AnswersOrNil {α : Type} (calls : Calls (Option α)) (decode : String → Fields → Option α)
    (reply : Option DocumentReply) : Prop where
  decoded : ∀ id data object, reply = some (.snapshot id (some data)) →
    decode id data = some object → calls = some [some object]
  -- without a path there is no document either
  absent : (reply = none ∨ reply = some .error ∨ ∃ id, reply = some (.snapshot id none)) →
    calls = some [none]

/-- **The shared block meets the contract except on a missing document**, where it
traps instead of answering. -/
theorem answersOrNil_readDocument {α : Type} (decode : String → Fields → Option α)
    (reply : Option DocumentReply) :
    AnswersOrNil (reply.bind (readDocument decode)) decode reply ↔
      ∃ r, reply = some r ∧ ∀ id, r ≠ .snapshot id none := by
  constructor
  · rintro ⟨-, habsent⟩
    cases reply with
    | none => simp at habsent
    | some r =>
      refine ⟨r, rfl, ?_⟩
      rintro id rfl
      have := habsent (Or.inr (Or.inr ⟨id, rfl⟩))
      simp [readDocument] at this
  · rintro ⟨r, rfl, h⟩
    refine ⟨?_, ?_⟩
    · rintro id data object he hdecode
      obtain rfl := Option.some.inj he
      simp [readDocument, hdecode]
    · rintro (he | he | ⟨id, he⟩)
      · cases he
      · obtain rfl := Option.some.inj he
        rfl
      · exact absurd (Option.some.inj he) (h id)

variable {s answered}

theorem getDocument_ne_missing_iff (r : DocumentReference) :
    (∀ id, s.getDocument r answered ≠ .snapshot id none) ↔
      ¬ (answered = true ∧ s.documents r = none) := by
  cases answered <;> simp [Store.getDocument]

/-- A getter that is given a string meets its contract exactly if that leads to a
document and, in case the request succeeds, the document is there. -/
theorem answersOrNil_getDocument_iff {α : Type} (decode : String → Fields → Option α)
    (collection documentID : String) :
    AnswersOrNil ((getDocument s answered collection documentID).bind (readDocument decode)) decode
        (getDocument s answered collection documentID) ↔
      ∃ r, documentReference collection documentID = some r ∧
        ¬ (answered = true ∧ s.documents r = none) := by
  rw [answersOrNil_readDocument]
  simp only [getDocument, Option.map_eq_some_iff, ← getDocument_ne_missing_iff]
  constructor
  · rintro ⟨-, ⟨r, hr, rfl⟩, h⟩
    exact ⟨r, hr, h⟩
  · rintro ⟨r, hr, h⟩
    exact ⟨_, ⟨r, hr, rfl⟩, h⟩

/-- Where an identifier leads. -/
theorem getDocument_of_isDocumentID {collection id : String}
    (hc : ResourcePath.IsSegment collection.toList) (hid : IsDocumentID id) :
    getDocument s answered collection id = some (s.getDocument ⟨collection, id⟩ answered) := by
  rw [getDocument, documentReference_of_isDocumentID hc hid, Option.map_some]

/-- A document that is there is found by its identifier. -/
theorem getDocument_of_document {collection id : String} {data : Fields}
    (hc : ResourcePath.IsSegment collection.toList)
    (h : s.documents ⟨collection, id⟩ = some data) :
    getDocument s true collection id = some (.snapshot id (some data)) := by
  rw [getDocument_of_isDocumentID hc (s.isDocumentID h), Store.getDocument, if_pos rfl, h]

/-- A getter that is given a reference meets its contract unless the request succeeds
and there is no such document. -/
theorem answersOrNil_getDocument_iff_of_isDocumentID {α : Type}
    (decode : String → Fields → Option α) {collection id : String}
    (hc : ResourcePath.IsSegment collection.toList) (hid : IsDocumentID id) :
    AnswersOrNil (readDocument decode (s.getDocument ⟨collection, id⟩ answered)) decode
        (getDocument s answered collection id) ↔
      ¬ (answered = true ∧ s.documents ⟨collection, id⟩ = none) := by
  have h := @answersOrNil_getDocument_iff s answered α decode collection id
  rw [getDocument_of_isDocumentID hc hid, Option.bind_some,
    documentReference_of_isDocumentID hc hid] at h
  simpa [getDocument_of_isDocumentID hc hid] using h

/-- The block of `getClassData` does what the shared one would do. -/
theorem getClassData_eq (classroomID : String) :
    getClassData s answered classroomID =
      (getDocument s answered "salon" classroomID).bind (readDocument decodeSalon) := by
  unfold getClassData
  cases getDocument s answered "salon" classroomID with
  | none => rfl
  | some reply => cases reply <;> rfl

/-- A getter of the shared shape traps exactly when the request succeeds and the
document is missing or does not decode. -/
theorem readDocument_eq_none_iff {α : Type} (decode : String → Fields → Option α)
    (r : DocumentReference) :
    readDocument decode (s.getDocument r answered) = none ↔
      answered = true ∧ (s.documents r).bind (decode r.documentID) = none := by
  cases answered <;> simp [Store.getDocument, readDocument]

/-- What a getter of the shared shape hands on is there and decodes. -/
theorem readDocument_eq_some_iff {α : Type} {decode : String → Fields → Option α}
    {r : DocumentReference} {object : α} :
    readDocument decode (s.getDocument r true) = some [some object] ↔
      ∃ data, s.documents r = some data ∧ decode r.documentID data = some object := by
  simp [Store.getDocument, readDocument, Option.bind_eq_some_iff]

/-- When a getter that is given a string does not trap. -/
theorem getDocument_bind_ne_none_iff {α : Type} (decode : String → Fields → Option α)
    (collection documentID : String) :
    (getDocument s answered collection documentID).bind (readDocument decode) ≠ none ↔
      ∃ r, documentReference collection documentID = some r ∧
        (answered = false ∨ ∃ data, s.documents r = some data ∧
          (decode r.documentID data).isSome) := by
  rw [getDocument]
  cases documentReference collection documentID with
  | none => simp
  | some r =>
    simp only [Option.map_some, Option.bind_some, ne_eq, readDocument_eq_none_iff,
      Option.some.injEq, exists_eq_left']
    cases answered with
    | false => simp
    | true => cases s.documents r <;> simp [Option.isSome_iff_ne_none]

/-- What a getter that is given a string hands on is there, under whatever identifier the
string leads to, and decodes. -/
theorem getDocument_bind_eq_some_iff {α : Type} {decode : String → Fields → Option α}
    {collection documentID : String} {object : α} :
    (getDocument s true collection documentID).bind (readDocument decode) = some [some object] ↔
      ∃ r data, documentReference collection documentID = some r ∧ s.documents r = some data ∧
        decode r.documentID data = some object := by
  rw [Option.bind_eq_some_iff]
  simp only [getDocument, Option.map_eq_some_iff]
  constructor
  · rintro ⟨-, ⟨r, hr, rfl⟩, h⟩
    obtain ⟨data, hdata, hobject⟩ := readDocument_eq_some_iff.mp h
    exact ⟨r, data, hr, hdata, hobject⟩
  · rintro ⟨r, data, hr, hdata, hobject⟩
    exact ⟨_, ⟨r, hr, rfl⟩, readDocument_eq_some_iff.mpr ⟨data, hdata, hobject⟩⟩

/-- A group that is handed on under its own identifier is stored under it: the text it was
asked for by is that identifier, and leads nowhere else. -/
theorem stored_of_getGroupData {id : String} {g : Grupo}
    (h : getGroupData s true id = some [some g]) (hg : g.documentID = id) :
    ∃ data, s.documents ⟨"grupo", id⟩ = some data ∧ decodeGrupo id data = some g := by
  obtain ⟨r, data, hr, hdata, hdecode⟩ := getDocument_bind_eq_some_iff.mp h
  have hid : r.documentID = id := (decodeGrupo_eq_some.mp hdecode).1.symm.trans hg
  have hown : documentReference "grupo" r.documentID = some ⟨"grupo", r.documentID⟩ :=
    documentReference_of_isDocumentID (by decide) (s.isDocumentID hdata)
  rw [hid] at hown
  obtain rfl : r = ⟨"grupo", id⟩ := Option.some.inj (hr.symm.trans hown)
  exact ⟨data, hdata, hdecode⟩

theorem getGroupData_of_stored {id : String} {g : Grupo} {data : Fields}
    (hdata : s.documents ⟨"grupo", id⟩ = some data) (hdecode : decodeGrupo id data = some g) :
    getGroupData s true id = some [some g] :=
  getDocument_bind_eq_some_iff.mpr ⟨_, data,
    documentReference_of_isDocumentID (by decide) (s.isDocumentID hdata), hdata, hdecode⟩

/-- A list field that passes its cast holds nothing but references. -/
theorem references_of_field {r : DocumentReference} {data : Fields} {key : String}
    {rs : List DocumentReference} (hr : s.documents r = some data)
    (hf : field data key asReferences = some rs) : s.references r key = rs := by
  obtain ⟨v, hv, hrs⟩ := Option.bind_eq_some_iff.mp hf
  obtain rfl := asReferences_eq_some.mp hrs
  simp only [Store.references, hr, hv, elements_references, List.filterMap_map]
  exact List.filterMap_some

/-- The references in a list of a stored document are known to the store. -/
theorem known_of_field {r q : DocumentReference} {data : Fields} {key : String}
    {rs : List DocumentReference} (hr : s.documents r = some data)
    (hf : field data key asReferences = some rs) (hq : q ∈ rs) : q.documentID ∈ s.known :=
  Store.known_of_mem_references (references_of_field hr hf ▸ hq)

/-! ## The classroom list -/

/-- The contract of `getClassroomData`: the classrooms in a list, which is empty if
there are none, and `nil` only for a failed query. -/
structure AnswersListOrNil (calls : Calls (Option (List Salon))) (reply : QueryReply) : Prop where
  decoded : ∀ ds salones, reply = .documents ds →
    ds.mapM (fun d => decodeSalonInList d.1 d.2) = some salones → calls = some [some salones]
  failed : reply = .error → calls = some [none]
  nil_only : calls = some [none] → reply = .error

theorem foldlM_appendSalon (ds : List (String × Fields)) (salones : Option (List Salon)) :
    ds.foldlM appendSalon salones =
      (ds.mapM fun d => decodeSalonInList d.1 d.2).map fun l =>
        if l = [] then salones else some (salones.getD [] ++ l) := by
  induction ds generalizing salones with
  | nil => rfl
  | cons d ds ih =>
    rw [List.foldlM_cons, List.mapM_cons, appendSalon]
    cases decodeSalonInList d.1 d.2 with
    | none => rfl
    | some salon =>
      simp only [Option.map_some, Option.bind_eq_bind, Option.bind_some, ih, Option.pure_def,
        Option.map_bind]
      cases ds.mapM fun d => decodeSalonInList d.1 d.2 with
      | none => rfl
      | some l => cases salones <;> by_cases hl : l = [] <;> simp [hl]

/-- `getClassroomData` hands on the list, but `nil` in place of the empty one. -/
theorem getClassroomData_documents (ds : List (String × Fields)) :
    getClassroomData (.documents ds) =
      (ds.mapM fun d => decodeSalonInList d.1 d.2).map fun l =>
        [if l = [] then none else some l] := by
  rw [getClassroomData, foldlM_appendSalon, Option.map_map]
  rfl

/-- **`getClassroomData` meets its contract except on an empty collection.** -/
theorem answersListOrNil_iff (reply : QueryReply) :
    AnswersListOrNil (getClassroomData reply) reply ↔ reply ≠ .documents [] := by
  cases reply with
  | error => exact iff_of_true ⟨by simp, fun _ => rfl, fun _ => rfl⟩ (by simp)
  | documents ds =>
    rw [getClassroomData_documents]
    constructor
    · rintro h he
      obtain rfl : ds = [] := by injection he
      cases h.nil_only rfl
    · intro hne
      -- a list of documents does not decode to an empty list of classrooms
      have hlength : ∀ l, (ds.mapM fun d => decodeSalonInList d.1 d.2) = some l → l ≠ [] := by
        rintro l hl rfl
        cases ds with
        | nil => exact hne rfl
        | cons d ds => simp [List.mapM_cons, Option.bind_eq_some_iff] at hl
      refine ⟨?_, by simp, ?_⟩
      · rintro ds' salones he hsalones
        obtain rfl : ds = ds' := by injection he
        simp [hsalones, hlength _ hsalones]
      · intro h
        obtain ⟨l, hl, he⟩ := Option.map_eq_some_iff.mp h
        simp [hlength l hl] at he

/-! ## One classroom and all of them -/

/-- The two copies of the decoder agree on every document. -/
theorem decodeSalonInList_eq (documentID : String) (data : Fields) :
    decodeSalonInList documentID data = decodeSalon documentID data := rfl

/-- What `getClassData` makes of an existing document. -/
theorem getClassData_of_document {id : String} {data : Fields}
    (h : s.documents ⟨"salon", id⟩ = some data) :
    getClassData s true id = (decodeSalonInList id data).map fun salon => [some salon] := by
  rw [getClassData_eq, decodeSalonInList_eq, getDocument_of_document (by decide) h]
  rfl

/-- Classrooms that are all there are listed as they are one by one. -/
theorem mapM_decodeSalonInList {ds : List (String × Fields)}
    (hds : ∀ d ∈ ds, s.documents ⟨"salon", d.1⟩ = some d.2)
    (hne : ∀ d ∈ ds, getClassData s true d.1 ≠ none) :
    ∃ salones, (ds.mapM fun d => decodeSalonInList d.1 d.2) = some salones ∧
      ds.map (fun d => getClassData s true d.1) = salones.map fun salon => some [some salon] := by
  induction ds with
  | nil => exact ⟨[], rfl, rfl⟩
  | cons d ds ih =>
    obtain ⟨salones, hlist, hcalls⟩ := ih (fun e he => hds e (List.mem_cons_of_mem _ he))
      (fun e he => hne e (List.mem_cons_of_mem _ he))
    have hd := getClassData_of_document (hds d List.mem_cons_self)
    cases hsalon : decodeSalonInList d.1 d.2 with
    | none => exact absurd (by rw [hd, hsalon]; rfl) (hne d List.mem_cons_self)
    | some salon =>
      refine ⟨salon :: salones, ?_, ?_⟩
      · simp [List.mapM_cons, hsalon, hlist]
      · rw [List.map_cons, List.map_cons, hcalls, hd, hsalon]
        rfl

/-- **The single-classroom and the list download decode alike.**  For every answer
to the query for the collection, each document traps in both or in neither, with the
same classroom; and if none traps, the list is handed on in query order. -/
theorem classroomDownloads_agree (s : Store) (ds : List (String × Fields))
    (hds : s.Lists "salon" (.documents ds)) :
    (∀ id data, s.documents ⟨"salon", id⟩ = some data →
      getClassData s true id = (decodeSalonInList id data).map fun salon => [some salon]) ∧
    (ds ≠ [] → (∀ d ∈ ds, getClassData s true d.1 ≠ none) →
      ∃ salones, getClassroomData (.documents ds) = some [some salones] ∧
        ds.map (fun d => getClassData s true d.1) =
          salones.map fun salon => some [some salon]) := by
  refine ⟨fun id data h => getClassData_of_document h, fun hne htraps => ?_⟩
  obtain ⟨salones, hlist, hcalls⟩ :=
    mapM_decodeSalonInList (fun d hd => (hds d.1 d.2).mp hd) htraps
  refine ⟨salones, ?_, hcalls⟩
  have hsalones : salones ≠ [] := by
    rintro rfl
    exact hne (List.map_eq_nil_iff.mp hcalls)
  rw [getClassroomData_documents, hlist]
  simp [hsalones]

/-- The document of a classroom, with images and no panorama. -/
def sampleClassroom : Fields := Fields.ofList [
  ("nombre", .string "Robótica"), ("posterImage", .string "r.jpg"), ("edificio", .string "A"),
  ("numero", .integer 201), ("tipo", .integer 0), ("cursos", .references []),
  ("imagenes", .array [.string "https://a/1.jpg", .string "https://a/2.jpg"])]

/-- The document of a room for independent work. -/
def independentRoom : Fields := Fields.ofList [
  ("nombre", .string "Cubículo"), ("posterImage", .string "c.jpg"), ("edificio", .string "B"),
  ("numero", .integer 12), ("tipo", .integer 2), ("cursos", .references [⟨"curso", "c1"⟩]),
  ("documentos", .array [.string "https://a/reglas.pdf"])]

def classroomStore : Store :=
  (Store.empty.write ⟨"salon", "s2"⟩ independentRoom).write ⟨"salon", "s1"⟩ sampleClassroom

theorem classroomStore_lists :
    classroomStore.Lists "salon" (.documents [("s2", independentRoom), ("s1", sampleClassroom)]) :=
  ((Store.lists_empty "salon").write (by decide) rfl independentRoom).write (by decide) rfl
    sampleClassroom

/-- A collection of two classrooms, listed in the order of the query. -/
theorem classroomDownloads_agree_two :
    ∃ salones, getClassroomData (.documents [("s2", independentRoom), ("s1", sampleClassroom)]) =
        some [some salones] ∧
      [getClassData classroomStore true "s2", getClassData classroomStore true "s1"] =
        salones.map fun salon => some [some salon] := by
  refine (classroomDownloads_agree classroomStore _ classroomStore_lists).2 (by simp) ?_
  intro d hd
  rw [getClassData_of_document ((classroomStore_lists d.1 d.2).mp hd)]
  simp only [List.mem_cons, List.not_mem_nil, or_false] at hd
  rcases hd with rfl | rfl <;>
  · simp [sampleClassroom, independentRoom, decodeSalonInList, field, FieldValue.asString,
      FieldValue.asInt, FieldValue.asStrings, FieldValue.asArray]

end FirebaseController

end Musgravite
