import Musgravite.Firestore.UserData

/-! # The model classes

The classes of `Models/`, one structure each.  The source declares nearly every
property optional, but each class has only initialisers that set them all, and
nothing sets one to `nil` afterwards; so the properties are plain fields here and
`self.nombre!` never traps. -/
namespace Musgravite

/-- A point in time as the app handles it, `Timestamp.dateValue()` of a stored one. -/
structure Date where
  seconds : Int
  nanoseconds : Nat
deriving DecidableEq, Repr

def dateValue (t : Timestamp) : Date := ⟨t.seconds, t.nanoseconds⟩

/-- `Calendar.current`, as far as the app asks it: the number of the calendar day on which a
date falls, the start of that day, and the days that `dateComponents([.day], from:to:)`
counts.  From the start of one day to the start of another it counts the days between them
(in a time zone whose days all start at midnight). -/
structure Calendar where
  dayNumber : Date → Int
  startOfDay : Date → Date
  dateComponents : Date → Date → Option Int
  dateComponents_startOfDay : ∀ date1 date2,
    dateComponents (startOfDay date1) (startOfDay date2) = some (dayNumber date2 - dayNumber date1)

/-- The calendar of a time zone that is always so many seconds ahead of UTC. -/
def Calendar.ofOffset (offset : Int) : Calendar where
  dayNumber date := (date.seconds + offset) / 86400
  startOfDay date := ⟨(date.seconds + offset) / 86400 * 86400 - offset, 0⟩
  dateComponents date1 date2 :=
    some (((date2.seconds - date1.seconds) * 10 ^ 9 +
      (date2.nanoseconds - date1.nanoseconds)).tdiv (86400 * 10 ^ 9))
  dateComponents_startOfDay date1 date2 := by
    have hdays : ∀ m n : Int, ((n * 86400 - offset - (m * 86400 - offset)) * 10 ^ 9 +
        ((0 : Nat) - (0 : Nat))) = (n - m) * (86400 * 10 ^ 9) := by
      intro m n
      omega
    rw [hdays, Int.mul_tdiv_cancel _ (by decide)]

/-- A value of Swift's `Any`, as far as the store is concerned: something it has
a type for, something it holds as a value of another type (a `Date` as a
timestamp, also inside an array or a dictionary), an absent optional boxed in `Any`, or
something it refuses.  The sentinels of an update are no values. -/
inductive AnyValue
  | field (v : FieldValue)
  | converted (v : FieldValue)
  | absent
  | unsupported

/-- What the SDK makes of an `Any` in a dictionary; `none` when it raises an
exception.  A boxed absent optional reaches it as `NSNull`. -/
def AnyValue.parse : AnyValue → Option FieldValue
  | field v => Firestore.parseData true false v
  | converted v => some v
  | absent => some .null
  | unsupported => none

structure Equipo where
  documentID : String
  nombre : String
  integrantes : List DocumentReference
  proyectos : List DocumentReference
deriving DecidableEq

/-- An empty project list is left out of the document. -/
def Equipo.firestoreReady (self : Equipo) : Fields :=
  let dictionary := Fields.ofList [
    ("nombre", .string self.nombre),
    ("integrantes", .references self.integrantes)]
  if !self.proyectos.isEmpty then
    dictionary.insert "proyectos" (.references self.proyectos)
  else dictionary

structure Grupo where
  documentID : String
  equipos : List DocumentReference
  estudiantes : List DocumentReference
  proyecto : DocumentReference
  horaInicio : Int
  duracion : Int
  numero : Int
  salon : DocumentReference
deriving DecidableEq

structure Estudiante where
  id : String
  mail : String
  nombre : String
  apellidos : String
  matricula : String
  equipos : List DocumentReference
  proyectos : List DocumentReference
  grupos : List DocumentReference
  tareas : List DocumentReference
  cursos : List DocumentReference
deriving DecidableEq

structure Curso where
  documentID : String
  nombre : String
  nombreProfesor : String
  semestre : String
  grupos : List DocumentReference
  salones : List DocumentReference
deriving DecidableEq

structure Tarea where
  id : String
  nombre : String
  descripcion : String
  fechaInicio : Date
  fechaFin : Date
  fase : String
  status : String
  responsable : DocumentReference
deriving DecidableEq

def Tarea.daysLeft (calendar : Calendar) (self : Tarea) : Int :=
  let date1 := calendar.startOfDay self.fechaInicio
  let date2 := calendar.startOfDay self.fechaFin
  (calendar.dateComponents date1 date2).getD (-1)

/-- The days from the start of the task to its end, on whatever day it is asked. -/
theorem Tarea.daysLeft_eq (calendar : Calendar) (self : Tarea) : self.daysLeft calendar =
    calendar.dayNumber self.fechaFin - calendar.dayNumber self.fechaInicio := by
  simp [daysLeft, calendar.dateComponents_startOfDay]

structure Proyecto where
  documentID : String
  nombre : String
  metodologia : AnyValue
  fase : AnyValue
  descripcion : String
  tareas : List DocumentReference

/-- `none` when `metodologia` or `fase` is nothing the store can hold: handing
such a dictionary to the SDK raises an exception. -/
def Proyecto.firestoreReady (self : Proyecto) : Option Fields := do
  let metodologia ← self.metodologia.parse
  let fase ← self.fase.parse
  return Fields.ofList [
    ("nombre", .string self.nombre),
    ("metodologia", metodologia),
    ("fase", fase),
    ("descripcion", .string self.descripcion),
    ("tareas", .references self.tareas)]

inductive ContentType
  | unknown
  | poster
  | imageCarrousel
  | videoCarrousel
  | documentCarrousel
deriving DecidableEq

/-- One row of a classroom's page. -/
structure ContentElement where
  contentType : ContentType := .unknown
  images : List String := []
  videos : List String := []
  image360 : String := ""
  posterImage : String := ""
  classroomName : String := ""
  building : String := ""
  buildnumb : Int := 0
  documents : Option (List String) := none
deriving DecidableEq

namespace ContentElement

def ofImages (images : List String) (image360 : String := "") : ContentElement where
  contentType := .imageCarrousel
  images := images
  image360 := image360

def ofVideos (videos : List String) : ContentElement where
  contentType := .videoCarrousel
  videos := videos

def ofPoster (posterImage classroomName building : String) (buildnumb : Int) : ContentElement where
  contentType := .poster
  posterImage := posterImage
  classroomName := classroomName
  building := building
  buildnumb := buildnumb

def ofDocuments (documents : List String) : ContentElement where
  contentType := .documentCarrousel
  documents := some documents

end ContentElement

inductive Tipo
  | Laboratorio
  | Aula
  | Independiente
deriving DecidableEq

structure Salon where
  documentID : String
  cursos : List DocumentReference
  edificio : String
  numero : Int
  tipo : Tipo
  nombre : String
  nombreCorto : String
  contents : List ContentElement
deriving DecidableEq

namespace Salon

def setClassroomName (tipo : Tipo) (nombre : String) : String :=
  match tipo with
  | .Aula => "Aula de " ++ nombre
  | .Laboratorio => "Laboratorio de " ++ nombre
  | .Independiente => nombre

/-- The initialiser. -/
def make (documentID nombre : String) (cursos : List DocumentReference) (edificio : String)
    (numero tipo : Int) (contents : List ContentElement) : Salon :=
  let t : Tipo := if tipo = 0 then .Laboratorio else if tipo = 1 then .Aula else .Independiente
  { documentID := documentID
    cursos := cursos
    contents := contents
    edificio := edificio
    numero := numero
    tipo := t
    nombreCorto := nombre
    nombre := setClassroomName t nombre }

end Salon

inductive MenuItem.ContentType
  | horizontal
  | vertical
deriving DecidableEq

/-- One card of a menu; the image is given by its name in the assets. -/
structure MenuItem where
  image : String
  title : String
  itemDescription : String := ""
  destinationSegue : String
  type : MenuItem.ContentType
deriving DecidableEq

/-! ## The encoders, field by field -/

theorem Equipo.lookup_firestoreReady (self : Equipo) (k : String) :
    self.firestoreReady.lookup k =
      if k = "nombre" then some (.string self.nombre)
      else if k = "integrantes" then some (.references self.integrantes)
      else if k = "proyectos" ∧ self.proyectos ≠ [] then some (.references self.proyectos)
      else none := by
  unfold firestoreReady
  by_cases hp : self.proyectos = []
  · simp [hp]
  · by_cases hk : k = "proyectos"
    · subst hk
      simp [hp]
    · simp [hp, hk]

end Musgravite
