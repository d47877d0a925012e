import Musgravite.Writes

/-! # Data that is not there

A getter whose request succeeds on a missing document traps in `data()!`, a text that is
no path to a document stops the app before there is a request, and `getClassroomData`
answers `nil` for an empty collection.  This is everything that separates the getters
from their contract (`AnswersOrNil`, `AnswersListOrNil`).

A new account is where it bites.  `signUp` makes an account and nothing else, and
no upload method writes to `estudiante`; so the lookup that
`ProjectMenuViewController` makes for the current user finds a student only if
one was stored under the email before. -/
namespace Musgravite
open FirebaseController Firestore

/-! ## Sessions -/

/-- The authentication service as one device sees it, and the store with the
uploads in progress. -/
structure Session (ι : Type) where
  accounts : List String
  /-- `Auth.auth().currentUser?.email`. -/
  currentUser : Option String
  uploads : Pool ι Bool

/-- What can happen in a session.  Whether the service grants a request is its
choice, as far as it has one. -/
inductive SessionAction (ι : Type)
  | signUp (email : String) (created : Bool)
  | signIn (email : String) (granted : Bool)
  | logOut (done : Bool)
  | upload (a : PoolAction ι)

namespace Session
variable {ι : Type} [DecidableEq ι]

/-- `currentAuthenticatedUserMail()`. -/
def currentAuthenticatedUserMail (s : Session ι) : String := s.currentUser.getD ""

/-- A created account is one for a new email, and its owner is signed in. -/
def step (s : Session ι) : SessionAction ι → Option (Session ι)
  | .signUp email created =>
      if !created then some s
      -- the service makes no account without an email or for a taken one
      else if email = "" ∨ email ∈ s.accounts then none
      else some { s with accounts := email :: s.accounts, currentUser := some email }
  | .signIn email granted =>
      if !granted then some s
      else if email ∈ s.accounts then some { s with currentUser := some email }
      else none
  | .logOut done => if done then some { s with currentUser := none } else some s
  | .upload a => ((pool ι Bool).step s.uploads a).map fun p => { s with uploads := p }

/-- A fresh installation: nobody is signed in, the upload calls are about to be made. -/
def start (accounts : List String) (s₀ : Store) (calls : ι → Call) : Session ι :=
  ⟨accounts, none, Pool.start s₀ fun i => (calls i).program⟩

/-- The lookup in `ProjectMenuViewController.viewWillAppear`. -/
def lookupStudent (s : Session ι) (answered : Bool) : Calls (Option Estudiante) :=
  getStudentDataByID s.uploads.store answered s.currentAuthenticatedUserMail

end Session

/-- Sessions, step by step. -/
def sessions (ι : Type) [DecidableEq ι] : TransitionSystem (Session ι) (SessionAction ι) :=
  ⟨Session.step⟩

namespace Session
variable {ι : Type} [DecidableEq ι] {s t : Session ι}

/-- A step either leaves the uploads alone or is a step of theirs. -/
theorem step_uploads {a : SessionAction ι} (h : (sessions ι).step s a = some t) :
    t.uploads = s.uploads ∨ ∃ b, (pool ι Bool).step s.uploads b = some t.uploads := by
  cases a with
  | signUp email created =>
    simp only [sessions, step] at h
    split at h
    · exact Or.inl (Option.some.inj h ▸ rfl)
    · split at h
      · cases h
      · exact Or.inl (Option.some.inj h ▸ rfl)
  | signIn email granted =>
    simp only [sessions, step] at h
    split at h
    · exact Or.inl (Option.some.inj h ▸ rfl)
    · split at h
      · exact Or.inl (Option.some.inj h ▸ rfl)
      · cases h
  | logOut done =>
    simp only [sessions, step] at h
    split at h <;> exact Or.inl (Option.some.inj h ▸ rfl)
  | upload b =>
    obtain ⟨p, hp, rfl⟩ := Option.map_eq_some_iff.mp h
    exact Or.inr ⟨b, hp⟩

/-- What a successful `signUp` does. -/
theorem step_signUp {email : String} (h : (sessions ι).step s (.signUp email true) = some t) :
    email ∉ s.accounts ∧
      t = { s with accounts := email :: s.accounts, currentUser := some email } := by
  simp only [sessions, step, Bool.not_true, Bool.false_eq_true, if_false] at h
  split at h
  · cases h
  · rename_i hemail
    exact ⟨fun hmem => hemail (Or.inr hmem), (Option.some.inj h).symm⟩

/-- **No run writes a student document**, or one further down. -/
theorem estudiante_unchanged {accounts : List String} {s₀ : Store} {calls : ι → Call}
    {as : List (SessionAction ι)} (h : (sessions ι).run (start accounts s₀ calls) as = some t)
    {student : DocumentReference} (hstudent : "estudiante".toList <+: student.collection.toList) :
    t.uploads.store.documents student = s₀.documents student := by
  refine ((sessions ι).run_invariant (P := fun t =>
    (∀ i, (calls i).program.Continues (t.uploads.thread i).program) ∧
      t.uploads.store.documents student = s₀.documents student)
    ?_ ⟨fun _ => .refl _, rfl⟩ h).2
  rintro s a t ⟨hc, hs⟩ hstep
  rcases step_uploads hstep with he | ⟨b, hb⟩
  · rw [he]
    exact ⟨hc, hs⟩
  · refine ⟨Pool.step_continues hc hb, ?_⟩
    cases Pool.step_cases hb with
    | accept i id' p q u hp hq ht =>
      have hci := hc i
      rw [hp] at hci
      obtain ⟨r, f, hup, rfl⟩ := Call.accept_eq_write hci hq
      have hne : student ≠ r := by
        rintro rfl
        have hmem := hup.collection_mem
        simp only [List.mem_cons, List.not_mem_nil, or_false] at hmem
        rcases hmem with hr | hr | hr | hr | hr <;>
        · rw [hr] at hstudent
          revert hstudent
          decide
      rw [ht, Pool.setThread_store, Store.documents_write_of_ne _ _ hne]
      exact hs
    | refuse i id' p q hp hq ht | deliver i p hp ht =>
      rw [ht]
      exact hs

/-- After a successful `signUp` the lookup traps unless the email leads to a document and
its request fails or a student was stored there from the start. -/
theorem lookupStudent_after_signUp {accounts : List String} {s₀ : Store} {calls : ι → Call}
    {as : List (SessionAction ι)} {email : String}
    (h : (sessions ι).run (start accounts s₀ calls) as = some s)
    (hsignUp : (sessions ι).step s (.signUp email true) = some t) (answered : Bool) :
    t.lookupStudent answered ≠ none ↔
      ∃ r, documentReference "estudiante" email = some r ∧
        (answered = false ∨ ∃ data, s₀.documents r = some data ∧
          (decodeEstudiante r.documentID data).isSome) := by
  obtain ⟨-, rfl⟩ := step_signUp hsignUp
  rw [lookupStudent, getStudentDataByID, getDocument_bind_ne_none_iff]
  refine exists_congr fun r => and_congr_right fun hr => ?_
  rw [estudiante_unchanged h (isDocumentID_of_documentReference (by decide) hr).2]

end Session

/-! ## The getters and their contract -/

/-- **When the getters answer instead of trapping.**  Each getter of one document meets its
contract exactly if what it is given leads to a document and, in case its request succeeds,
the document is there; an identifier of a document, as any reference has one, leads to
that document.  `getClassroomData` meets its contract unless its query succeeds and the
collection is empty; and after a successful `signUp` the student lookup does not trap
exactly if the email leads to a document and the request fails or a readable student was
stored there from the start. -/
theorem getters_answer_iff (s : Store) (answered : Bool) :
    (∀ classroomID, AnswersOrNil (getClassData s answered classroomID) decodeSalon
        (getDocument s answered "salon" classroomID) ↔
      ∃ r, documentReference "salon" classroomID = some r ∧
        ¬ (answered = true ∧ s.documents r = none)) ∧
    (∀ cursoId, AnswersOrNil (getCourseData s answered cursoId) decodeCurso
        (getDocument s answered "curso" cursoId) ↔
      ∃ r, documentReference "curso" cursoId = some r ∧
        ¬ (answered = true ∧ s.documents r = none)) ∧
    (∀ grupoId, AnswersOrNil (getGroupData s answered grupoId) decodeGrupo
        (getDocument s answered "grupo" grupoId) ↔
      ∃ r, documentReference "grupo" grupoId = some r ∧
        ¬ (answered = true ∧ s.documents r = none)) ∧
    (∀ studentID, AnswersOrNil (getStudentDataByID s answered studentID) decodeEstudiante
        (getDocument s answered "estudiante" studentID) ↔
      ∃ r, documentReference "estudiante" studentID = some r ∧
        ¬ (answered = true ∧ s.documents r = none)) ∧
    (∀ team : DocumentReference, IsDocumentID team.documentID →
      (AnswersOrNil (getTeamData s answered team) decodeEquipo
          (getDocument s answered "equipo" team.documentID) ↔
        ¬ (answered = true ∧ s.documents ⟨"equipo", team.documentID⟩ = none))) ∧
    (∀ student : DocumentReference, IsDocumentID student.documentID →
      (AnswersOrNil (getStudentData s answered student) decodeEstudiante
          (getDocument s answered "estudiante" student.documentID) ↔
        ¬ (answered = true ∧ s.documents ⟨"estudiante", student.documentID⟩ = none))) ∧
    (∀ tarea : DocumentReference, IsDocumentID tarea.documentID →
      (AnswersOrNil (getTareaData s answered tarea) decodeTarea
          (getDocument s answered "tareas" tarea.documentID) ↔
        ¬ (answered = true ∧ s.documents ⟨"tareas", tarea.documentID⟩ = none))) ∧
    (∀ proyecto : DocumentReference, IsDocumentID proyecto.documentID →
      (AnswersOrNil (getProyectoData s answered proyecto) decodeProyecto
          (getDocument s answered "proyectos" proyecto.documentID) ↔
        ¬ (answered = true ∧ s.documents ⟨"proyectos", proyecto.documentID⟩ = none))) ∧
    (∀ collection id, collection ∈ ["salon", "curso", "grupo", "estudiante"] → IsDocumentID id →
      documentReference collection id = some ⟨collection, id⟩) ∧
    (∀ reply : QueryReply, s.Lists "salon" reply →
      (AnswersListOrNil (getClassroomData reply) reply ↔
        ¬ (reply ≠ .error ∧ ∀ id, s.documents ⟨"salon", id⟩ = none))) ∧
    (∀ (ι : Type) [DecidableEq ι] (accounts : List String) (calls : ι → Call)
      (as : List (SessionAction ι)) (before after : Session ι) (email : String),
      (sessions ι).run (.start accounts s calls) as = some before →
      (sessions ι).step before (.signUp email true) = some after →
      (after.lookupStudent answered ≠ none ↔
        ∃ r, documentReference "estudiante" email = some r ∧
          (answered = false ∨ ∃ data, s.documents r = some data ∧
            (decodeEstudiante r.documentID data).isSome))) := by
  refine ⟨fun classroomID => ?_, fun _ => answersOrNil_getDocument_iff ..,
    fun _ => answersOrNil_getDocument_iff .., fun _ => answersOrNil_getDocument_iff ..,
    fun _ hid => answersOrNil_getDocument_iff_of_isDocumentID _ (by decide) hid,
    fun _ hid => answersOrNil_getDocument_iff_of_isDocumentID _ (by decide) hid,
    fun _ hid => answersOrNil_getDocument_iff_of_isDocumentID _ (by decide) hid,
    fun _ hid => answersOrNil_getDocument_iff_of_isDocumentID _ (by decide) hid,
    fun collection id hcollection hid => documentReference_of_isDocumentID ?_ hid,
    fun reply hreply => ?_, ?_⟩
  · rw [getClassData_eq]
    exact answersOrNil_getDocument_iff ..
  · revert collection
    decide
  · rw [answersListOrNil_iff]
    cases reply with
    | error => simp
    | documents ds => simp [← hreply.eq_nil_iff]
  · intro ι _ accounts calls as before after email h hsignUp
    exact Session.lookupStudent_after_signUp h hsignUp answered

/-- A store with one student. -/
def registeredStore : Store := Store.empty.write ⟨"estudiante", "a1@tec.mx"⟩ sampleStudent

/-- Where one student is stored, the getter answers for his email with a slash before it, a
failed request for somebody else by reference is answered too, and whoever signs up with the
stored email is found. -/
theorem getters_answer_registered :
    AnswersOrNil (getStudentDataByID registeredStore true "/a1@tec.mx") decodeEstudiante
      (getDocument registeredStore true "estudiante" "/a1@tec.mx") ∧
    AnswersOrNil (getStudentData registeredStore false ⟨"estudiante", "a2@tec.mx"⟩)
      decodeEstudiante (getDocument registeredStore false "estudiante" "a2@tec.mx") ∧
    ∃ t, (sessions Empty).run (.start [] registeredStore Empty.elim)
        [.signUp "a1@tec.mx" true] = some t ∧ t.lookupStudent true ≠ none := by
  obtain ⟨-, -, -, hbyID, -, -, -, -, -, -, hsignUp⟩ :=
    getters_answer_iff registeredStore true
  obtain ⟨-, -, -, -, -, hrefused, -⟩ := getters_answer_iff registeredStore false
  refine ⟨(hbyID "/a1@tec.mx").mpr ⟨⟨"estudiante", "a1@tec.mx"⟩, by decide, ?_⟩,
    (hrefused ⟨"estudiante", "a2@tec.mx"⟩ (by decide)).mpr (fun h => nomatch h.1), _, rfl,
    (hsignUp Empty [] Empty.elim [] _ _ "a1@tec.mx" rfl rfl).mpr
      ⟨⟨"estudiante", "a1@tec.mx"⟩, by decide, Or.inr ⟨_, rfl, rfl⟩⟩⟩
  rintro ⟨-, h⟩
  cases h

/-- A dangling reference makes `getTeamData` trap, a course that is no path to a document
stops `getCourseData` although its request would fail, the empty list of classrooms
comes back as `nil`, and the first screen after signing up traps. -/
theorem getters_trap :
    getTeamData .empty true ⟨"equipo", "t1"⟩ = none ∧
    getCourseData .empty false "fisica/1" = none ∧
    getClassroomData (.documents []) = some [none] ∧
    ∃ t, (sessions Empty).run (.start [] .empty Empty.elim) [.signUp "a1@tec.mx" true] = some t ∧
      t.lookupStudent true = none :=
  ⟨rfl, by decide, rfl, _, rfl, rfl⟩

end Musgravite
