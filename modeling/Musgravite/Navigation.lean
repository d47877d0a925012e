import Musgravite.GroupScreens
import Musgravite.LabDetail
import Musgravite.SchoolSearch

/-! # The screens and the segues between them

The project menu leads to a course, the course to a group and the group to its
classroom: a tap on a row starts a download whose completion block keeps the model
that arrived and performs a segue with it.  Each screen besides downloads its lists
when it appears.  The classroom search is the fourth screen.

A block either runs to its end, possibly with a segue, or stops the app in a forced
unwrap or `fatalError`; and a segue stops it too if the next screen unwraps a model
that is not there.  `App` makes the stop a state of its own, so
`failedReplies_intact_iff` can say what a failed download does: it stops the app,
always, and nothing else does. -/
namespace Musgravite
open FirebaseController FanOut

/-- A segue, with the model that `prepare(for:sender:)` hands over. -/
inductive Segue
  | projectCourse (course : Option Curso)
  | courseGroup (group : Option Grupo)
  | groupClassroom (selectedClassroom : Option Salon)
  | searchLab (selectedClassroom : Option Salon)

/-! ## The project menu -/

structure ProjectMenu where
  equipos : List String := ["No se han encontrado equipos..."]
  grupos : List String := ["No se han encontrado grupos..."]
  cursos : List String := ["No se han encontrado cursos..."]
  selectedCourse : Option Curso := none
  /-- Downloads of the student in progress. -/
  studentLoads : Nat := 0
  /-- Courses whose download is in progress. -/
  courseLoads : List String := []

inductive MenuEvent
  | viewWillAppear
  | studentDownloaded (estudiante : Option Estudiante)
  /-- A tap on a row of the table of courses. -/
  | didSelectRowAt (row : Nat)
  /-- The `k`-th course download in progress is answered. -/
  | courseDownloaded (k : Nat) (curso : Option Curso)

namespace ProjectMenu

/-- The lines of one table after a download of the student. -/
def refill (lines : List String) (documents : List DocumentReference) : List String :=
  (if documents.length > 0 then [] else lines) ++ documents.map DocumentReference.documentID

/-- The completion block in `viewWillAppear`; `estudiante?.grupos!.count` is unwrapped. -/
def studentDownloaded (self : ProjectMenu) (estudiante : Option Estudiante) : Option ProjectMenu :=
  estudiante.map fun estudiante => { self with
    grupos := refill self.grupos estudiante.grupos
    cursos := refill self.cursos estudiante.cursos
    equipos := refill self.equipos estudiante.equipos }

/-- The completion block in `didSelectRowAt`, with its segue. -/
def courseDownloaded (self : ProjectMenu) (curso : Option Curso) : ProjectMenu × Segue :=
  let self := { self with selectedCourse := curso }
  (self, .projectCourse self.selectedCourse)

/-- What an event does, `none` if it cannot happen: the app is stopped, or there is a
screen and maybe a segue. -/
def step (self : ProjectMenu) : MenuEvent → Option (Option (ProjectMenu × Option Segue))
  | .viewWillAppear => some (some ({ self with studentLoads := self.studentLoads + 1 }, none))
  | .studentDownloaded estudiante =>
      if self.studentLoads = 0 then none
      else some (({ self with studentLoads := self.studentLoads - 1 }.studentDownloaded
        estudiante).map fun self => (self, none))
  | .didSelectRowAt row => self.cursos[row]?.map fun curso =>
      some ({ self with courseLoads := self.courseLoads ++ [curso] }, none)
  | .courseDownloaded k curso => self.courseLoads[k]?.map fun _ =>
      let out := { self with courseLoads := self.courseLoads.eraseIdx k }.courseDownloaded curso
      some (out.1, some out.2)

end ProjectMenu

/-! ## A course -/

/-- A `CoursesViewController`. -/
structure CourseScreen where
  course : Curso
  groups : List Grupo := []
  selectedGroup : Option Grupo := none
  downloads : List (Download String Grupo) := []
  /-- Groups whose download is in progress. -/
  groupLoads : List String := []

inductive CourseEvent
  | viewWillAppear
  /-- Request `k` of the `n`-th download of the groups is served. -/
  | serveGroup (n k : Nat) (reply : Option Grupo)
  | deliverGroup (n k : Nat)
  | didSelectRowAt (row : Nat)
  | groupDownloaded (k : Nat) (group : Option Grupo)

namespace CourseScreen

/-- `viewDidLoad` unwraps the course. -/
def viewDidLoad (course : Option Curso) : Option CourseScreen :=
  course.map fun course => { course }

def ref2String (documents : List DocumentReference) : List String :=
  if documents.isEmpty then [] else documents.map DocumentReference.documentID

def viewWillAppear (self : CourseScreen) : CourseScreen :=
  { self with downloads := self.downloads ++ [.start (ref2String self.course.grupos)] }

/-- The completion block in `viewWillAppear`. -/
def groupsDownloaded (self : CourseScreen) (grupos : Option (List Grupo)) : Option CourseScreen :=
  grupos.map fun grupos => { self with groups := grupos }

/-- The completion block in `didSelectRowAt`, with its segue. -/
def groupDownloaded (self : CourseScreen) (group : Option Grupo) : CourseScreen × Segue :=
  let self := { self with selectedGroup := group }
  (self, .courseGroup self.selectedGroup)

def step (self : CourseScreen) : CourseEvent → Option (Option (CourseScreen × Option Segue))
  | .viewWillAppear => some (some (self.viewWillAppear, none))
  | .serveGroup n k reply => do
      let d ← self.downloads[n]?
      let e ← getGroupsInCourse.serve d k reply
      return some ({ self with downloads := self.downloads.set n e }, none)
  | .deliverGroup n k => do
      let d ← self.downloads[n]?
      let e ← getGroupsInCourse.deliver d k
      return ((d.newCompletions e).foldlM groupsDownloaded
        { self with downloads := self.downloads.set n e }).map fun self => (self, none)
  | .didSelectRowAt row => self.groups[row]?.map fun group =>
      some ({ self with groupLoads := self.groupLoads ++ [group.documentID] }, none)
  | .groupDownloaded k group => self.groupLoads[k]?.map fun _ =>
      let out := { self with groupLoads := self.groupLoads.eraseIdx k }.groupDownloaded group
      some (out.1, some out.2)

end CourseScreen

/-! ## A group -/

/-- A `GroupViewController` with its way to the classroom. -/
structure OpenGroup where
  screen : GroupScreen
  selectedSalon : Option Salon := none
  /-- Downloads of the classroom in progress. -/
  classroomLoads : Nat := 0

inductive GroupEvent
  | viewWillAppear
  | serveTeam (n k : Nat) (reply : Option Equipo)
  | deliverTeam (n k : Nat)
  | serveStudent (n k : Nat) (reply : Option Estudiante)
  | deliverStudent (n k : Nat)
  | seeClassroom
  | classroomDownloaded (salon : Option Salon)

namespace OpenGroup

/-- `viewDidLoad`, that is `setupStaticData`, unwraps the group. -/
def viewDidLoad (group : Option Grupo) : Option OpenGroup :=
  group.map fun group => { screen := { group } }

/-- The completion block in `seeClassroom`, with its segue. -/
def classroomDownloaded (self : OpenGroup) (salon : Option Salon) : OpenGroup × Segue :=
  let self := { self with selectedSalon := salon }
  (self, .groupClassroom self.selectedSalon)

def step (self : OpenGroup) : GroupEvent → Option (Option (OpenGroup × Option Segue))
  | .viewWillAppear => some (some ({ self with screen := self.screen.viewWillAppear }, none))
  | .serveTeam n k reply => do
      let d ← self.screen.teamDownloads[n]?
      let e ← getTeamsInCourse.serve d k reply
      let screen := { self.screen with teamDownloads := self.screen.teamDownloads.set n e }
      return some ({ self with screen }, none)
  | .deliverTeam n k => do
      let d ← self.screen.teamDownloads[n]?
      let e ← getTeamsInCourse.deliver d k
      return ((d.newCompletions e).foldlM GroupScreen.teamsDownloaded
        { self.screen with teamDownloads := self.screen.teamDownloads.set n e }).map
          fun screen => ({ self with screen }, none)
  | .serveStudent n k reply => do
      let d ← self.screen.studentDownloads[n]?
      let e ← getStudentsInCourse.serve d k reply
      let screen := { self.screen with studentDownloads := self.screen.studentDownloads.set n e }
      return some ({ self with screen }, none)
  | .deliverStudent n k => do
      let d ← self.screen.studentDownloads[n]?
      let e ← getStudentsInCourse.deliver d k
      return ((d.newCompletions e).foldlM GroupScreen.studentsDownloaded
        { self.screen with studentDownloads := self.screen.studentDownloads.set n e }).map
          fun screen => ({ self with screen }, none)
  | .seeClassroom => some (some ({ self with classroomLoads := self.classroomLoads + 1 }, none))
  | .classroomDownloaded salon =>
      if self.classroomLoads = 0 then none
      else
        let out := { self with
          classroomLoads := self.classroomLoads - 1 }.classroomDownloaded salon
        some (some (out.1, some out.2))

end OpenGroup

/-! ## The app -/

/-- The screens: the menu, the courses and groups that have been opened, and the search. -/
structure Screens where
  menu : ProjectMenu := {}
  courses : List CourseScreen := []
  groups : List OpenGroup := []
  search : SchoolSearch := {}

/-- The app, running or stopped. -/
inductive App
  | running (screens : Screens)
  | stopped

inductive AppEvent
  | menu (e : MenuEvent)
  | course (i : Nat) (e : CourseEvent)
  | group (i : Nat) (e : GroupEvent)
  | search (e : SchoolSearch.Event)
  /-- A tap on a row of the search screen. -/
  | searchRow (row : Nat)

namespace Screens

/-- The next screen is opened with the model it is handed. -/
def perform (s : Screens) : Segue → Option Screens
  | .projectCourse course => (CourseScreen.viewDidLoad course).map fun screen =>
      { s with courses := s.courses ++ [screen.viewWillAppear] }
  | .courseGroup group => (OpenGroup.viewDidLoad group).map fun open' =>
      { s with groups := s.groups ++ [{ open' with screen := open'.screen.viewWillAppear }] }
  | .groupClassroom selectedClassroom => (LabDetail.numberOfRows selectedClassroom).map fun _ => s
  | .searchLab selectedClassroom => (LabDetail.numberOfRows selectedClassroom).map fun _ => s

/-- The app after a block that leaves a screen and maybe a segue. -/
def finish {σ : Type} (put : σ → Screens) : Option (σ × Option Segue) → App
  | none => .stopped
  | some (screen, none) => .running (put screen)
  | some (screen, some segue) => match (put screen).perform segue with
    | some s => .running s
    | none => .stopped

/-- The lists that the screens display. -/
def displayed (s : Screens) : (List String × List String × List String) × List (List Grupo) ×
    List (List Equipo × List Estudiante) × List Salon × List Salon × List Int :=
  ((s.menu.grupos, s.menu.cursos, s.menu.equipos), s.courses.map CourseScreen.groups,
    s.groups.map fun g => (g.screen.teams, g.screen.students),
    s.search.salones, s.search.salonests, s.search.pisos)

end Screens

/-- The app after an event, `none` if it cannot happen. -/
def App.step (str : StringSearch) : App → AppEvent → Option App
  | .stopped, _ => none
  | .running s, .menu e => (s.menu.step e).map (Screens.finish fun menu => { s with menu })
  | .running s, .course i e => s.courses[i]?.bind fun screen =>
      (screen.step e).map
        (Screens.finish fun screen => { s with courses := s.courses.set i screen })
  | .running s, .group i e => s.groups[i]?.bind fun screen =>
      (screen.step e).map (Screens.finish fun screen => { s with groups := s.groups.set i screen })
  | .running s, .search (.downloaded salones) =>
      if s.search.downloads = 0 then none
      else some (Screens.finish (fun search => { s with search })
        (({ s.search with downloads := s.search.downloads - 1 }.classroomsDownloaded salones).map
          fun search => (search, none)))
  | .running s, .search e =>
      (s.search.step str e).map fun search => .running { s with search }
  | .running s, .searchRow row => (s.search.rows.bind fun salones => salones[row]?).map fun salon =>
      Screens.finish (fun search => { s with search })
        (some (s.search, some (.searchLab (some salon))))

/-- The app with its screens. -/
def app (str : StringSearch) : TransitionSystem App AppEvent := ⟨App.step str⟩

/-! ## Failed downloads -/

/-- The segue hands over no model. -/
def Segue.HandsNil : Segue → Prop
  | projectCourse course => course = none
  | courseGroup group => group = none
  | groupClassroom selectedClassroom => selectedClassroom = none
  | searchLab selectedClassroom => selectedClassroom = none

/-- The block stops the app, by itself or through its segue. -/
def Stops {σ : Type} (out : Option (σ × Option Segue)) : Prop :=
  out = none ∨ ∃ screen segue, out = some (screen, some segue) ∧ segue.HandsNil

/-- The event hands a block a failed reply. -/
def MenuEvent.Failed : MenuEvent → Prop
  | .studentDownloaded estudiante => estudiante = none
  | .courseDownloaded _ curso => curso = none
  | _ => False

def CourseEvent.Failed (screen : CourseScreen) : CourseEvent → Prop
  | .deliverGroup n k => ∃ d, screen.downloads[n]? = some d ∧
      d.transit[k]?.map Prod.snd = some none
  | .groupDownloaded _ group => group = none
  | _ => False

def GroupEvent.Failed (self : OpenGroup) : GroupEvent → Prop
  | .deliverTeam n k => ∃ d, self.screen.teamDownloads[n]? = some d ∧
      d.transit[k]?.map Prod.snd = some none
  | .deliverStudent n k => ∃ d, self.screen.studentDownloads[n]? = some d ∧
      d.transit[k]?.map Prod.snd = some none
  | .classroomDownloaded salon => salon = none
  | _ => False

def AppEvent.Failed (s : Screens) : AppEvent → Prop
  | .menu e => e.Failed
  | .course i e => ∃ screen, s.courses[i]? = some screen ∧ e.Failed screen
  | .group i e => ∃ screen, s.groups[i]? = some screen ∧ e.Failed screen
  | .search (.downloaded salones) => salones = none
  | .search _ => False
  | .searchRow _ => False

section Failed
variable {str : StringSearch} {s : Screens}

@[simp] theorem stops_none {σ : Type} : Stops (none : Option (σ × Option Segue)) := Or.inl rfl

@[simp] theorem not_stops_screen {σ : Type} (screen : σ) : ¬ Stops (some (screen, none)) := by
  simp [Stops]

@[simp] theorem stops_segue_iff {σ : Type} (screen : σ) (segue : Segue) :
    Stops (some (screen, some segue)) ↔ segue.HandsNil := by
  simp [Stops]

/-- A block without a segue. -/
theorem stops_map_iff {σ τ : Type} {f : σ → τ} {out : Option σ} :
    Stops (out.map fun screen => (f screen, none)) ↔ out = none := by
  cases out <;> simp

/-- A segue stops the app exactly if it hands over nothing. -/
theorem Screens.perform_eq_none_iff {segue : Segue} : s.perform segue = none ↔ segue.HandsNil := by
  cases segue <;>
    simp [perform, Segue.HandsNil, CourseScreen.viewDidLoad, OpenGroup.viewDidLoad,
      LabDetail.numberOfRows]

theorem Screens.finish_eq_stopped_iff {σ : Type} {put : σ → Screens}
    {out : Option (σ × Option Segue)} : Screens.finish put out = .stopped ↔ Stops out := by
  match out with
  | none => simp [finish]
  | some (screen, none) => simp [finish]
  | some (screen, some segue) =>
    rw [stops_segue_iff, ← perform_eq_none_iff (s := put screen)]
    cases h : (put screen).perform segue <;> simp [finish, h]

theorem ProjectMenu.stops_iff {self : ProjectMenu} {e : MenuEvent}
    {out : Option (ProjectMenu × Option Segue)} (h : self.step e = some out) :
    Stops out ↔ e.Failed := by
  cases e with
  | viewWillAppear =>
    obtain rfl := Option.some.inj h
    simp [MenuEvent.Failed]
  | studentDownloaded estudiante =>
    simp only [step] at h
    split at h
    · cases h
    · obtain rfl := Option.some.inj h
      rw [stops_map_iff]
      simp [studentDownloaded, MenuEvent.Failed]
  | didSelectRowAt row =>
    obtain ⟨curso, -, rfl⟩ := Option.map_eq_some_iff.mp h
    simp [MenuEvent.Failed]
  | courseDownloaded k curso =>
    obtain ⟨-, -, rfl⟩ := Option.map_eq_some_iff.mp h
    simp [courseDownloaded, Segue.HandsNil, MenuEvent.Failed]

/-- The calls of a completion block that traps on `nil`, at the delivery of a reply. -/
theorem stops_deliver_iff {ρ α σ τ : Type} {F : FanOut ρ α} (hF : ReportsFailures F)
    {d e : Download ρ α} {k : Nat} (he : F.deliver d k = some e)
    {f : σ → Option (List α) → Option σ} (hnone : ∀ b, f b none = none)
    (hsome : ∀ b l, (f b (some l)).isSome) (b : σ) (g : σ → τ) :
    Stops (((d.newCompletions e).foldlM f b).map fun screen => (g screen, none)) ↔
      d.transit[k]?.map Prod.snd = some none := by
  rw [stops_map_iff, foldlM_eq_none_iff hnone hsome, hF.none_mem_iff he]

theorem CourseScreen.stops_iff {self : CourseScreen} {e : CourseEvent}
    {out : Option (CourseScreen × Option Segue)} (h : self.step e = some out) :
    Stops out ↔ e.Failed self := by
  cases e with
  | viewWillAppear =>
    obtain rfl := Option.some.inj h
    simp [CourseEvent.Failed]
  | serveGroup n k reply =>
    obtain ⟨d, -, h⟩ := Option.bind_eq_some_iff.mp h
    obtain ⟨e, -, h⟩ := Option.bind_eq_some_iff.mp h
    obtain rfl := Option.some.inj h
    simp [CourseEvent.Failed]
  | deliverGroup n k =>
    obtain ⟨d, hd, h⟩ := Option.bind_eq_some_iff.mp h
    obtain ⟨e, he, h⟩ := Option.bind_eq_some_iff.mp h
    obtain rfl := Option.some.inj h
    refine (stops_deliver_iff (f := groupsDownloaded) (g := fun screen => screen)
      reportsFailures_groups he (fun _ => rfl) (fun _ _ => rfl) _).trans ?_
    simp [CourseEvent.Failed, hd]
  | didSelectRowAt row =>
    obtain ⟨group, -, rfl⟩ := Option.map_eq_some_iff.mp h
    simp [CourseEvent.Failed]
  | groupDownloaded k group =>
    obtain ⟨-, -, rfl⟩ := Option.map_eq_some_iff.mp h
    simp [groupDownloaded, Segue.HandsNil, CourseEvent.Failed]

theorem OpenGroup.stops_iff {self : OpenGroup} {e : GroupEvent}
    {out : Option (OpenGroup × Option Segue)} (h : self.step e = some out) :
    Stops out ↔ e.Failed self := by
  cases e with
  | viewWillAppear =>
    obtain rfl := Option.some.inj h
    simp [GroupEvent.Failed]
  | serveTeam n k reply =>
    obtain ⟨d, -, h⟩ := Option.bind_eq_some_iff.mp h
    obtain ⟨e, -, h⟩ := Option.bind_eq_some_iff.mp h
    obtain rfl := Option.some.inj h
    simp [GroupEvent.Failed]
  | deliverTeam n k =>
    obtain ⟨d, hd, h⟩ := Option.bind_eq_some_iff.mp h
    obtain ⟨e, he, h⟩ := Option.bind_eq_some_iff.mp h
    obtain rfl := Option.some.inj h
    rw [stops_deliver_iff (f := GroupScreen.teamsDownloaded) reportsFailures_teams he
      (fun _ => rfl) (fun _ _ => rfl)]
    simp [GroupEvent.Failed, hd]
  | serveStudent n k reply =>
    obtain ⟨d, -, h⟩ := Option.bind_eq_some_iff.mp h
    obtain ⟨e, -, h⟩ := Option.bind_eq_some_iff.mp h
    obtain rfl := Option.some.inj h
    simp [GroupEvent.Failed]
  | deliverStudent n k =>
    obtain ⟨d, hd, h⟩ := Option.bind_eq_some_iff.mp h
    obtain ⟨e, he, h⟩ := Option.bind_eq_some_iff.mp h
    obtain rfl := Option.some.inj h
    rw [stops_deliver_iff (f := GroupScreen.studentsDownloaded) reportsFailures_students he
      (fun _ => rfl) (fun _ _ => rfl)]
    simp [GroupEvent.Failed, hd]
  | seeClassroom =>
    obtain rfl := Option.some.inj h
    simp [GroupEvent.Failed]
  | classroomDownloaded salon =>
    simp only [step] at h
    split at h
    · cases h
    · obtain rfl := Option.some.inj h
      simp [classroomDownloaded, Segue.HandsNil, GroupEvent.Failed]

/-- **An event stops the app exactly if it hands a block a failed reply.** -/
theorem App.step_stopped_iff {e : AppEvent} {x : App} (h : (app str).step (.running s) e = some x) :
    x = .stopped ↔ e.Failed s := by
  cases e with
  | menu e =>
    obtain ⟨out, hout, rfl⟩ := Option.map_eq_some_iff.mp h
    rw [Screens.finish_eq_stopped_iff, ProjectMenu.stops_iff hout]
    rfl
  | course i e =>
    obtain ⟨screen, hscreen, h⟩ := Option.bind_eq_some_iff.mp h
    obtain ⟨out, hout, rfl⟩ := Option.map_eq_some_iff.mp h
    rw [Screens.finish_eq_stopped_iff, CourseScreen.stops_iff hout]
    simp [AppEvent.Failed, hscreen]
  | group i e =>
    obtain ⟨screen, hscreen, h⟩ := Option.bind_eq_some_iff.mp h
    obtain ⟨out, hout, rfl⟩ := Option.map_eq_some_iff.mp h
    rw [Screens.finish_eq_stopped_iff, OpenGroup.stops_iff hout]
    simp [AppEvent.Failed, hscreen]
  | search e =>
    cases e with
    | downloaded salones =>
      simp only [app, App.step] at h
      split at h
      · cases h
      · obtain rfl := Option.some.inj h
        rw [Screens.finish_eq_stopped_iff, stops_map_iff]
        simp [SchoolSearch.classroomsDownloaded, AppEvent.Failed]
    | _ =>
      simp only [app, App.step] at h
      obtain ⟨search, -, rfl⟩ := Option.map_eq_some_iff.mp h
      simp [AppEvent.Failed]
  | searchRow row =>
    obtain ⟨salon, -, rfl⟩ := Option.map_eq_some_iff.mp h
    rw [Screens.finish_eq_stopped_iff]
    simp [Segue.HandsNil, AppEvent.Failed]

/-- The event is no failed reply. -/
def NotFailed (x : App) (e : AppEvent) : Prop := ∀ s, x = .running s → ¬ e.Failed s

/-- The app is running as long as no reply has failed. -/
theorem App.run_stopped_iff {es : List AppEvent} {x : App}
    (h : (app str).run (.running s) es = some x) :
    x ≠ .stopped ↔ (app str).Meets NotFailed (.running s) es := by
  induction es generalizing s with
  | nil =>
    obtain rfl := Option.some.inj h
    simp
  | cons e es ih =>
    obtain ⟨y, hy, hrun⟩ := (app str).run_cons_eq_some.mp h
    rw [(app str).meets_cons _ hy]
    have hfirst : NotFailed (.running s) e ↔ y ≠ .stopped := by
      rw [Ne, step_stopped_iff hy]
      exact ⟨fun h => h s rfl, fun h t ht => by injection ht with ht; exact ht ▸ h⟩
    rw [hfirst]
    cases y with
    | running t => rw [ih hrun]; simp
    | stopped =>
      -- nothing happens any more
      cases es with
      | nil =>
        obtain rfl := Option.some.inj hrun
        simp
      | cons e' es =>
        obtain ⟨_, hstep, _⟩ := (app str).run_cons_eq_some.mp hrun
        cases hstep

end Failed

/-- A failed reply leaves the screens as they are: the app goes on running, and all
lists are displayed as before. -/
def LeavesScreensIntact (str : StringSearch) (x : App) (e : AppEvent) : Prop :=
  ∀ s, x = .running s → e.Failed s →
    ∃ t, (app str).step x e = some (.running t) ∧ t.displayed = s.displayed

/-- **No failed download leaves the screens intact.**  In a run, failed replies leave
the screens intact exactly if there are none; and the app is running at the end of
exactly these runs. -/
theorem failedReplies_intact_iff (str : StringSearch) (es : List AppEvent) (x : App)
    (hrun : (app str).run (.running {}) es = some x) :
    ((app str).Meets (LeavesScreensIntact str) (.running {}) es ↔
      (app str).Meets NotFailed (.running {}) es) ∧
    (x ≠ .stopped ↔ (app str).Meets NotFailed (.running {}) es) := by
  constructor
  · refine (app str).meets_congr _ (fun {y e z} h => ?_) hrun
    constructor
    · -- an event that stops the app does not leave it running
      intro hintact s hs hfailed
      obtain ⟨t, ht, -⟩ := hintact s hs hfailed
      subst hs
      cases (App.step_stopped_iff ht).mpr hfailed
    · intro hnot s hs hfailed
      exact absurd hfailed (hnot s hs)
  · exact App.run_stopped_iff hrun

/-- The classrooms arrive. -/
theorem failedReplies_intact_search :
    ∃ x, (app asciiSearch).run (.running {}) [.search .viewWillAppear,
        .search (.downloaded (some [sampleRoom "Taller" 101]))] = some x ∧ x ≠ .stopped := by
  refine ⟨_, rfl, (failedReplies_intact_iff asciiSearch [.search .viewWillAppear,
    .search (.downloaded (some [sampleRoom "Taller" 101]))] _ rfl).2.mpr ?_⟩
  exact (app asciiSearch).meets_of_forall _ (by simp [NotFailed, AppEvent.Failed])

/-- A student with one course. -/
def courseStudent : Estudiante :=
  ⟨"a1", "a1@tec.mx", "Ana", "", "", [], [], [], [], [⟨"curso", "c1"⟩]⟩

/-- The classrooms cannot be downloaded; nor can the course of a row that was tapped, so
the next screen is opened without one. -/
theorem failedReplies_stop :
    (app asciiSearch).run (.running {}) [.search .viewWillAppear, .search (.downloaded none)] =
      some .stopped ∧
    (app asciiSearch).run (.running {}) [.menu .viewWillAppear,
      .menu (.studentDownloaded (some courseStudent)), .menu (.didSelectRowAt 0),
      .menu (.courseDownloaded 0 none)] = some .stopped ∧
    ¬ (app asciiSearch).Meets (LeavesScreensIntact asciiSearch) (.running {})
      [.search .viewWillAppear, .search (.downloaded none)] := by
  refine ⟨rfl, rfl, fun h => ?_⟩
  obtain ⟨-, hintact⟩ := ((app asciiSearch).meets_cons _ rfl).mp h
  obtain ⟨t, ht, -⟩ := (((app asciiSearch).meets_cons _ rfl).mp hintact).1 _ rfl rfl
  cases ht

end Musgravite
