import Musgravite.TeamSelection
import Musgravite.Writes

/-! # Group screens at work

Any number of group screens, each reached through `CoursesViewController` and each
with the creator in front of it from time to time, share one store.  A screen
holds the copy of the group document with which it was opened; every appearance
starts a download of the teams in that copy, whose completion sets `teams` and
starts a download of the students.  `createTeam` submits a team and returns; the
call of `addTeamToGroup` then runs on its own.

`World` is all of this and `world` its step relation: every read is served by the
store of that moment, and replies, taps and upload requests interleave freely.
An event that would crash the app is no step. -/
namespace Musgravite
open FirebaseController

/-- A `GroupViewController`, with its downloads in progress, the creator in front
of it, and the calls of `addTeamToGroup` made from there so far. -/
structure GroupScreen where
  group : Grupo
  teams : List Equipo := []
  students : List Estudiante := []
  teamDownloads : List (Download DocumentReference Equipo) := []
  studentDownloads : List (Download DocumentReference Estudiante) := []
  creator : Option TeamCreator := none
  submitted : List (Equipo × String) := []

/-- What can happen on a group screen. -/
inductive ScreenAction
  /-- The screen comes back from a classroom. -/
  | viewWillAppear
  /-- Request `k` of the `n`-th team download is served. -/
  | serveTeam (n k : Nat) (answered : Bool)
  | deliverTeam (n k : Nat)
  | serveStudent (n k : Nat) (answered : Bool)
  | deliverStudent (n k : Nat)
  /-- The creator is opened. -/
  | addTeam
  | createTeam (teamName : String) (rows : List Nat)
  /-- The creator goes away, by itself after a success or by the back button. -/
  | popCreator

namespace GroupScreen

/-- `viewWillAppear`, that is `setupDynamicData`. -/
def viewWillAppear (self : GroupScreen) : GroupScreen :=
  { self with teamDownloads := self.teamDownloads ++ [.start self.group.equipos] }

/-- The completion block of `getTeamsInCourse`; `teams!` traps on `nil`. -/
def teamsDownloaded (self : GroupScreen) (teams : Option (List Equipo)) : Option GroupScreen :=
  teams.map fun teams =>
    { self with
      teams := teams
      studentDownloads := self.studentDownloads ++ [.start self.group.estudiantes] }

/-- The completion block of `getStudentsInCourse`. -/
def studentsDownloaded (self : GroupScreen) (students : Option (List Estudiante)) :
    Option GroupScreen :=
  students.map fun students => { self with students := students }

/-- The screen after an event, and the call of `addTeamToGroup` it makes. -/
def step (self : GroupScreen) (s : Store) :
    ScreenAction → Option (GroupScreen × Option (Equipo × String))
  | .viewWillAppear => some (self.viewWillAppear, none)
  | .serveTeam n k answered => do
      let d ← self.teamDownloads[n]?
      let e ← getTeamsInCourse.serveWith (getTeamData s answered) d k
      return ({ self with teamDownloads := self.teamDownloads.set n e }, none)
  | .deliverTeam n k => do
      let d ← self.teamDownloads[n]?
      let e ← getTeamsInCourse.deliver d k
      let self ← (d.newCompletions e).foldlM teamsDownloaded
        { self with teamDownloads := self.teamDownloads.set n e }
      return (self, none)
  | .serveStudent n k answered => do
      let d ← self.studentDownloads[n]?
      let e ← getStudentsInCourse.serveWith (getStudentData s answered) d k
      return ({ self with studentDownloads := self.studentDownloads.set n e }, none)
  | .deliverStudent n k => do
      let d ← self.studentDownloads[n]?
      let e ← getStudentsInCourse.deliver d k
      let self ← (d.newCompletions e).foldlM studentsDownloaded
        { self with studentDownloads := self.studentDownloads.set n e }
      return (self, none)
  | .addTeam =>
      some ({ self with creator := some (.prepare self.group self.teams self.students) }, none)
  | .createTeam teamName rows => do
      let creator ← self.creator
      -- the table selects among its rows
      guard (rows.Nodup ∧ ∀ row ∈ rows, row < creator.students.length)
      match creator.createTeam teamName rows with
      | .alert .. => return (self, none)
      -- a selected row has no reference
      | .trap => none
      | .addTeamToGroup team grupoID =>
          return ({ self with submitted := self.submitted ++ [(team, grupoID)] },
            some (team, grupoID))
  | .popCreator => do
      let _ ← self.creator
      return ({ self with creator := none }.viewWillAppear, none)

end GroupScreen

/-! ## What a screen shows -/

namespace GroupScreen
open FanOut

/-- A screen shows all teams of its group document or none yet, and likewise the
students; its downloads are downloads of these. -/
structure Sound (screen : GroupScreen) : Prop where
  teamDownloads : ∀ d ∈ screen.teamDownloads,
    getTeamsInCourse.Sound d ∧ d.requests = screen.group.equipos
  studentDownloads : ∀ d ∈ screen.studentDownloads,
    getStudentsInCourse.Sound d ∧ d.requests = screen.group.estudiantes
  teams : screen.teams = [] ∨ (screen.teams.map Equipo.documentID).Perm
    (screen.group.equipos.map DocumentReference.documentID)
  students : screen.students = [] ∨ (screen.students.map Estudiante.id).Perm
    (screen.group.estudiantes.map DocumentReference.documentID)

variable {screen next : GroupScreen}

theorem sound_viewWillAppear (h : Sound screen) : Sound screen.viewWillAppear where
  teamDownloads := sound_append_start h.teamDownloads
  studentDownloads := h.studentDownloads
  teams := h.teams
  students := h.students

/-- The completions of a team download, one after the other. -/
theorem sound_teamsDownloaded {cs : List (Option (List Equipo))} (h : Sound screen)
    (hcs : ∀ l, some l ∈ cs →
      (l.map Equipo.documentID).Perm (screen.group.equipos.map DocumentReference.documentID))
    (hfold : cs.foldlM teamsDownloaded screen = some next) :
    Sound next ∧ next.group = screen.group ∧ next.submitted = screen.submitted := by
  refine foldlM_invariant (P := fun next => Sound next ∧ next.group = screen.group ∧
    next.submitted = screen.submitted) ?_ ⟨h, rfl, rfl⟩ hfold
  rintro c hc s t ⟨hs, hgroup, hsub⟩ ht
  obtain ⟨l, rfl, rfl⟩ := Option.map_eq_some_iff.mp ht
  exact ⟨⟨hs.teamDownloads, sound_append_start hs.studentDownloads, Or.inr (hgroup ▸ hcs l hc),
    hs.students⟩, hgroup, hsub⟩

/-- The completions of a student download, one after the other. -/
theorem sound_studentsDownloaded {cs : List (Option (List Estudiante))} (h : Sound screen)
    (hcs : ∀ l, some l ∈ cs →
      (l.map Estudiante.id).Perm (screen.group.estudiantes.map DocumentReference.documentID))
    (hfold : cs.foldlM studentsDownloaded screen = some next) :
    Sound next ∧ next.group = screen.group ∧ next.submitted = screen.submitted := by
  refine foldlM_invariant (P := fun next => Sound next ∧ next.group = screen.group ∧
    next.submitted = screen.submitted) ?_ ⟨h, rfl, rfl⟩ hfold
  rintro c hc s t ⟨hs, hgroup, hsub⟩ ht
  obtain ⟨l, rfl, rfl⟩ := Option.map_eq_some_iff.mp ht
  exact ⟨⟨hs.teamDownloads, hs.studentDownloads, hs.teams, Or.inr (hgroup ▸ hcs l hc)⟩,
    hgroup, hsub⟩

/-- Replacing a download by what becomes of it. -/
theorem sound_setTeamDownload (h : Sound screen) {n : Nat}
    {e : Download DocumentReference Equipo} (he : getTeamsInCourse.Sound e)
    (hreq : e.requests = screen.group.equipos) :
    Sound { screen with teamDownloads := screen.teamDownloads.set n e } where
  teamDownloads := sound_set h.teamDownloads he hreq
  studentDownloads := h.studentDownloads
  teams := h.teams
  students := h.students

theorem sound_setStudentDownload (h : Sound screen) {n : Nat}
    {e : Download DocumentReference Estudiante} (he : getStudentsInCourse.Sound e)
    (hreq : e.requests = screen.group.estudiantes) :
    Sound { screen with studentDownloads := screen.studentDownloads.set n e } where
  teamDownloads := h.teamDownloads
  studentDownloads := sound_set h.studentDownloads he hreq
  teams := h.teams
  students := h.students

/-- **What an event does to a screen**: the screen keeps its group document and
goes on showing whole lists, and a call of `addTeamToGroup` is what `createTeam`
makes of a selection. -/
theorem step_spec {s : Store} {a : ScreenAction} {call : Option (Equipo × String)}
    (hs : Sound screen) (h : screen.step s a = some (next, call)) :
    Sound next ∧ next.group = screen.group ∧ next.submitted = screen.submitted ++ call.toList ∧
    ∀ team grupoID, call = some (team, grupoID) → ∃ teamName rows creator,
      a = .createTeam teamName rows ∧ screen.creator = some creator ∧
        creator.createTeam teamName rows = .addTeamToGroup team grupoID := by
  cases a with
  | viewWillAppear =>
    obtain ⟨rfl, rfl⟩ := Prod.mk.inj (Option.some.inj h)
    exact ⟨sound_viewWillAppear hs, rfl, by simp [viewWillAppear], by simp⟩
  | serveTeam n k answered =>
    obtain ⟨d, hd, h⟩ := Option.bind_eq_some_iff.mp h
    obtain ⟨e, he, h⟩ := Option.bind_eq_some_iff.mp h
    obtain ⟨rfl, rfl⟩ := Prod.mk.inj (Option.some.inj h)
    obtain ⟨_, a, -, -, ha⟩ := serveWith_eq_some he
    obtain ⟨hsound, hreq⟩ := hs.teamDownloads d (List.mem_of_getElem? hd)
    exact ⟨sound_setTeamDownload hs (hsound.serve ha) ((requests_serve ha).trans hreq), rfl,
      by simp, by simp⟩
  | deliverTeam n k =>
    obtain ⟨d, hd, h⟩ := Option.bind_eq_some_iff.mp h
    obtain ⟨e, he, h⟩ := Option.bind_eq_some_iff.mp h
    obtain ⟨mid, hmid, h⟩ := Option.bind_eq_some_iff.mp h
    obtain ⟨rfl, rfl⟩ := Prod.mk.inj (Option.some.inj h)
    obtain ⟨hsound, hreq⟩ := hs.teamDownloads d (List.mem_of_getElem? hd)
    obtain ⟨hs', hgroup, hsub⟩ := sound_teamsDownloaded
      (sound_setTeamDownload hs (hsound.deliver he) ((requests_deliver he).trans hreq))
      (fun l hl => hreq ▸ joinsByCount_teams.perm_of_deliver hsound he hl) hmid
    exact ⟨hs', hgroup, by simpa using hsub, by simp⟩
  | serveStudent n k answered =>
    obtain ⟨d, hd, h⟩ := Option.bind_eq_some_iff.mp h
    obtain ⟨e, he, h⟩ := Option.bind_eq_some_iff.mp h
    obtain ⟨rfl, rfl⟩ := Prod.mk.inj (Option.some.inj h)
    obtain ⟨_, a, -, -, ha⟩ := serveWith_eq_some he
    obtain ⟨hsound, hreq⟩ := hs.studentDownloads d (List.mem_of_getElem? hd)
    exact ⟨sound_setStudentDownload hs (hsound.serve ha) ((requests_serve ha).trans hreq), rfl,
      by simp, by simp⟩
  | deliverStudent n k =>
    obtain ⟨d, hd, h⟩ := Option.bind_eq_some_iff.mp h
    obtain ⟨e, he, h⟩ := Option.bind_eq_some_iff.mp h
    obtain ⟨mid, hmid, h⟩ := Option.bind_eq_some_iff.mp h
    obtain ⟨rfl, rfl⟩ := Prod.mk.inj (Option.some.inj h)
    obtain ⟨hsound, hreq⟩ := hs.studentDownloads d (List.mem_of_getElem? hd)
    obtain ⟨hs', hgroup, hsub⟩ := sound_studentsDownloaded
      (sound_setStudentDownload hs (hsound.deliver he) ((requests_deliver he).trans hreq))
      (fun l hl => hreq ▸ joinsByCount_students.perm_of_deliver hsound he hl) hmid
    exact ⟨hs', hgroup, by simpa using hsub, by simp⟩
  | addTeam =>
    obtain ⟨rfl, rfl⟩ := Prod.mk.inj (Option.some.inj h)
    exact ⟨⟨hs.teamDownloads, hs.studentDownloads, hs.teams, hs.students⟩, rfl, by simp, by simp⟩
  | createTeam teamName rows =>
    obtain ⟨creator, hcreator, h⟩ := Option.bind_eq_some_iff.mp h
    obtain ⟨-, -, h⟩ := Option.bind_eq_some_iff.mp h
    split at h
    · obtain ⟨rfl, rfl⟩ := Prod.mk.inj (Option.some.inj h)
      exact ⟨hs, rfl, by simp, by simp⟩
    · cases h
    · rename_i team grupoID hcall
      obtain ⟨rfl, rfl⟩ := Prod.mk.inj (Option.some.inj h)
      refine ⟨⟨hs.teamDownloads, hs.studentDownloads, hs.teams, hs.students⟩, rfl, rfl, ?_⟩
      intro team' grupoID' he
      obtain ⟨rfl, rfl⟩ := Prod.mk.inj (Option.some.inj he)
      exact ⟨teamName, rows, creator, rfl, hcreator, hcall⟩
  | popCreator =>
    obtain ⟨creator, -, h⟩ := Option.bind_eq_some_iff.mp h
    obtain ⟨rfl, rfl⟩ := Prod.mk.inj (Option.some.inj h)
    exact ⟨sound_viewWillAppear ⟨hs.teamDownloads, hs.studentDownloads, hs.teams, hs.students⟩,
      rfl, by simp [viewWillAppear], by simp⟩

end GroupScreen

/-- How far a user has come on the way to a group screen. -/
inductive Screen
  /-- In the list of groups. -/
  | courses
  /-- `getGroupData` has been served, its reply is on its way. -/
  | selected (group : Grupo)
  | group (self : GroupScreen)

/-- The store, the uploads in progress and the screens.  Upload `(i, n)` is the
`n`-th call of `addTeamToGroup` made from screen `i`. -/
structure World (ι : Type) where
  uploads : Pool (ι × Nat) Bool
  screen : ι → Screen

inductive WorldAction (ι : Type)
  /-- A group is tapped, and its document is read. -/
  | didSelectRow (i : ι) (grupoID : String)
  /-- The document arrives and the group screen opens. -/
  | openGroup (i : ι)
  | screen (i : ι) (a : ScreenAction)
  | upload (a : PoolAction (ι × Nat))

namespace World
variable {ι : Type} [DecidableEq ι]

/-- Every user is in the list of groups; the uploads are not there yet. -/
def start (s₀ : Store) : World ι := ⟨⟨s₀, fun _ => .sent .trap⟩, fun _ => .courses⟩

/-- Replaces screen `i` and starts the upload it calls for, if it does. -/
def update (w : World ι) (i : ι) (before : GroupScreen)
    (after : GroupScreen × Option (Equipo × String)) : World ι where
  screen := Function.update w.screen i (.group after.1)
  uploads := match after.2 with
    | some (team, grupoID) =>
        w.uploads.setThread (i, before.submitted.length) (.sent (addTeamToGroup team grupoID))
    | none => w.uploads

def step (w : World ι) : WorldAction ι → Option (World ι)
  | .didSelectRow i grupoID => match w.screen i, getGroupData w.uploads.store true grupoID with
    | .courses, some [some group] =>
        some { w with screen := Function.update w.screen i (.selected group) }
    | _, _ => none
  | .openGroup i => match w.screen i with
    | .selected group => some { w with
        screen := Function.update w.screen i (.group (GroupScreen.viewWillAppear { group })) }
    | _ => none
  | .screen i a => match w.screen i with
    | .group self => (self.step w.uploads.store a).map (w.update i self)
    | _ => none
  | .upload a => ((pool (ι × Nat) Bool).step w.uploads a).map fun u => { w with uploads := u }

end World

/-- Group screens at work on one store. -/
def world (ι : Type) [DecidableEq ι] : TransitionSystem (World ι) (WorldAction ι) := ⟨World.step⟩

namespace World
variable {ι : Type} [DecidableEq ι] {w v : World ι}

/-- The calls of `addTeamToGroup` made from screen `i`. -/
def submitted (w : World ι) (i : ι) : List (Equipo × String) :=
  match w.screen i with
  | .group self => self.submitted
  | _ => []

/-- The call behind upload `k`, if it has been made. -/
def submission (w : World ι) (k : ι × Nat) : Option (Equipo × String) :=
  (w.submitted k.1)[k.2]?

/-- Screens are sound, and each upload is somewhere in the call behind it. -/
structure Sound (w : World ι) : Prop where
  screens : ∀ i self, w.screen i = .group self → self.Sound
  idle : ∀ k, w.submission k = none → w.uploads.thread k = .sent .trap
  running : ∀ k team grupoID, w.submission k = some (team, grupoID) →
    (addTeamToGroup team grupoID).Continues (w.uploads.thread k).program

/-- **What a step can do.** -/
inductive StepCase (w v : World ι) : WorldAction ι → Prop
  | upload (a : PoolAction (ι × Nat)) (h : (pool (ι × Nat) Bool).step w.uploads a = some v.uploads)
      (hscreen : v.screen = w.screen) : StepCase w v (.upload a)
  /-- A group document is read. -/
  | didSelectRow (i : ι) (grupoID : String) (grupo : Grupo) (h : w.screen i = .courses)
      (hread : getGroupData w.uploads.store true grupoID = some [some grupo])
      (hv : v = ⟨w.uploads, Function.update w.screen i (.selected grupo)⟩) :
      StepCase w v (.didSelectRow i grupoID)
  /-- The screen opens with the document that was read. -/
  | openGroup (i : ι) (grupo : Grupo) (h : w.screen i = .selected grupo) (next : GroupScreen)
      (hnext : next.Sound) (hgroup : next.group = grupo) (hsub : next.submitted = [])
      (hv : v = ⟨w.uploads, Function.update w.screen i (.group next)⟩) : StepCase w v (.openGroup i)
  /-- Something happens on the screen that makes no call. -/
  | screen (i : ι) (a : ScreenAction) (self next : GroupScreen) (h : w.screen i = .group self)
      (hnext : next.Sound) (hgroup : next.group = self.group)
      (hsub : next.submitted = self.submitted)
      (hv : v = ⟨w.uploads, Function.update w.screen i (.group next)⟩) : StepCase w v (.screen i a)
  /-- A team is submitted. -/
  | submit (i : ι) (teamName : String) (rows : List Nat) (self next : GroupScreen)
      (creator : TeamCreator) (team : Equipo) (grupoID : String) (h : w.screen i = .group self)
      (hcreator : self.creator = some creator)
      (hcall : creator.createTeam teamName rows = .addTeamToGroup team grupoID)
      (hnext : next.Sound) (hgroup : next.group = self.group)
      (hsub : next.submitted = self.submitted ++ [(team, grupoID)])
      (hv : v = ⟨w.uploads.setThread (i, self.submitted.length)
        (.sent (addTeamToGroup team grupoID)), Function.update w.screen i (.group next)⟩) :
      StepCase w v (.screen i (.createTeam teamName rows))

theorem Sound.step_cases {a : WorldAction ι} (hw : w.Sound) (h : (world ι).step w a = some v) :
    StepCase w v a := by
  cases a with
  | didSelectRow i grupoID =>
    simp only [world, step] at h
    split at h
    · rename_i grupo hi hread
      exact .didSelectRow i grupoID grupo hi hread (Option.some.inj h).symm
    · cases h
  | openGroup i =>
    simp only [world, step] at h
    split at h
    · rename_i grupo hi
      refine .openGroup i grupo hi _ ?_ rfl rfl (Option.some.inj h).symm
      exact GroupScreen.sound_viewWillAppear ⟨by simp, by simp, Or.inl rfl, Or.inl rfl⟩
    · cases h
  | screen i a =>
    simp only [world, step] at h
    split at h
    · rename_i self hi
      obtain ⟨⟨next, call⟩, hstep, rfl⟩ := Option.map_eq_some_iff.mp h
      obtain ⟨hnext, hgroup, hsub, hcall⟩ := GroupScreen.step_spec (hw.screens i self hi) hstep
      cases call with
      | none => exact .screen i a self next hi hnext hgroup (by simpa using hsub) rfl
      | some call =>
        obtain ⟨team, grupoID⟩ := call
        obtain ⟨teamName, rows, creator, rfl, hcreator, hcreate⟩ := hcall team grupoID rfl
        exact .submit i teamName rows self next creator team grupoID hi hcreator hcreate hnext
          hgroup hsub rfl
    · cases h
  | upload a =>
    obtain ⟨u, hu, rfl⟩ := Option.map_eq_some_iff.mp h
    exact .upload a hu rfl

/-! ## Each upload belongs to its call -/

omit [DecidableEq ι] in
theorem submission_of_screen_eq (h : v.screen = w.screen) (k : ι × Nat) :
    v.submission k = w.submission k := by
  rw [submission, submission, submitted, submitted, h]

theorem submission_update_self (u : Pool (ι × Nat) Bool) (screen : ι → Screen) (i : ι)
    (next : GroupScreen) (n : Nat) :
    (⟨u, Function.update screen i (.group next)⟩ : World ι).submission (i, n) =
      next.submitted[n]? := by
  simp [submission, submitted]

theorem submission_update_of_ne (u : Pool (ι × Nat) Bool) (x : Screen) {i : ι} {k : ι × Nat}
    (h : k.1 ≠ i) :
    (⟨u, Function.update w.screen i x⟩ : World ι).submission k = w.submission k := by
  simp [submission, submitted, Function.update_of_ne h]

/-- A step that submits nothing leaves the calls behind the uploads as they are. -/
theorem submission_update_same (u : Pool (ι × Nat) Bool) {i : ι} {x : Screen}
    (h : ∀ n, (⟨u, Function.update w.screen i x⟩ : World ι).submission (i, n) =
      w.submission (i, n)) (k : ι × Nat) :
    (⟨u, Function.update w.screen i x⟩ : World ι).submission k = w.submission k := by
  obtain ⟨j, n⟩ := k
  by_cases hj : j = i
  · subst hj
    exact h n
  · exact submission_update_of_ne u x hj

/-- **What a step does to the calls and the uploads**: an upload goes on, or
nothing happens there, or one call is made. -/
inductive UploadCase (w v : World ι) : WorldAction ι → Prop
  | upload (a : PoolAction (ι × Nat)) (h : (pool (ι × Nat) Bool).step w.uploads a = some v.uploads)
      (hsub : ∀ k, v.submission k = w.submission k) : UploadCase w v (.upload a)
  | none (a : WorldAction ι) (h : v.uploads = w.uploads)
      (hsub : ∀ k, v.submission k = w.submission k) : UploadCase w v a
  | submit (i : ι) (teamName : String) (rows : List Nat) (self : GroupScreen)
      (creator : TeamCreator) (team : Equipo) (grupoID : String) (h : w.screen i = .group self)
      (hcreator : self.creator = some creator)
      (hcall : creator.createTeam teamName rows = .addTeamToGroup team grupoID) (k : ι × Nat)
      (hk : w.submission k = .none) (hkv : v.submission k = some (team, grupoID))
      (hsub : ∀ j, j ≠ k → v.submission j = w.submission j)
      (hv : v.uploads = w.uploads.setThread k (.sent (addTeamToGroup team grupoID))) :
      UploadCase w v (.screen i (.createTeam teamName rows))

theorem Sound.upload_cases {a : WorldAction ι} (hw : w.Sound) (h : (world ι).step w a = some v) :
    UploadCase w v a := by
  cases hw.step_cases h with
  | upload a hup hscreen => exact .upload a hup (submission_of_screen_eq hscreen)
  | didSelectRow i grupoID grupo hi hread hv =>
    subst hv
    refine .none _ rfl (submission_update_same _ fun n => ?_)
    simp [submission, submitted, hi]
  | openGroup i grupo hi next hnext hgroup hsub hv =>
    subst hv
    refine .none _ rfl (submission_update_same _ fun n => ?_)
    simp [submission, submitted, hi, hsub]
  | screen i a self next hi hnext hgroup hsub hv =>
    subst hv
    refine .none _ rfl (submission_update_same _ fun n => ?_)
    simp [submission, submitted, hi, hsub]
  | submit i teamName rows self next creator team grupoID hi hcreator hcall hnext hgroup hsub hv =>
    subst hv
    refine .submit i teamName rows self creator team grupoID hi hcreator hcall
      (i, self.submitted.length) ?_ ?_ ?_ rfl
    · simp [submission, submitted, hi]
    · rw [submission_update_self, hsub, List.getElem?_concat_length]
    · rintro ⟨j, n⟩ hne
      by_cases hj : j = i
      · subst hj
        rw [submission_update_self, hsub]
        simp only [submission, submitted, hi]
        have hn : n ≠ self.submitted.length := fun he => hne (by rw [he])
        rcases Nat.lt_or_gt_of_ne hn with hn | hn
        · exact List.getElem?_append_left hn
        · rw [List.getElem?_eq_none (by simp; omega), List.getElem?_eq_none hn.le]
      · exact submission_update_of_ne _ _ hj

/-- The screens of a sound world stay sound. -/
theorem Sound.step_screens {a : WorldAction ι} (hw : w.Sound) (h : (world ι).step w a = some v)
    (i : ι) (self : GroupScreen) (hi : v.screen i = .group self) : self.Sound := by
  have update : ∀ (j : ι) (x : Screen), (∀ self, x = .group self → self.Sound) →
      v.screen = Function.update w.screen j x → self.Sound := by
    intro j x hx hv
    rw [hv] at hi
    by_cases hij : i = j
    · subst hij
      exact hx self (by simpa using hi)
    · exact hw.screens i self (by simpa [Function.update_of_ne hij] using hi)
  cases hw.step_cases h with
  | upload a hup hscreen => exact hw.screens i self (hscreen ▸ hi)
  | didSelectRow j grupoID grupo hj hread hv =>
    subst hv
    exact update j _ (by simp) rfl
  | openGroup j grupo hj next hnext hgroup hsub hv
  | screen j a before next hj hnext hgroup hsub hv
  | submit j teamName rows before next creator team grupoID hj hcreator hcall hnext hgroup hsub
      hv =>
    subst hv
    exact update j _ (by rintro _ ⟨⟩; exact hnext) rfl

theorem Sound.step {a : WorldAction ι} (hw : w.Sound) (h : (world ι).step w a = some v) :
    v.Sound := by
  have screens := hw.step_screens h
  cases hw.upload_cases h with
  | upload a hup hsub =>
    refine ⟨screens, fun k hk => ?_, fun k team grupoID hk => ?_⟩
    · exact Pool.step_trap hup (hw.idle k (hsub k ▸ hk))
    · exact (hw.running k team grupoID (hsub k ▸ hk)).trans (Pool.step_thread hup k)
  | none a hup hsub =>
    refine ⟨screens, fun k hk => ?_, fun k team grupoID hk => ?_⟩
    · rw [hup]
      exact hw.idle k (hsub k ▸ hk)
    · rw [hup]
      exact hw.running k team grupoID (hsub k ▸ hk)
  | submit i teamName rows self creator team grupoID hi hcreator hcall k hk hkv hsub hv =>
    refine ⟨screens, fun j hj => ?_, fun j team' grupoID' hj => ?_⟩
    · have hjk : j ≠ k := by
        rintro rfl
        rw [hkv] at hj
        cases hj
      rw [hv, Pool.setThread_of_ne _ _ hjk]
      exact hw.idle j (hsub j hjk ▸ hj)
    · by_cases hjk : j = k
      · subst hjk
        rw [hkv] at hj
        obtain ⟨rfl, rfl⟩ := Prod.mk.inj (Option.some.inj hj)
        rw [hv, Pool.setThread_self]
        exact .refl _
      · rw [hv, Pool.setThread_of_ne _ _ hjk]
        exact hw.running j team' grupoID' (hsub j hjk ▸ hj)

omit [DecidableEq ι] in
theorem sound_start (s₀ : Store) : (start s₀ : World ι).Sound where
  screens i self h := by cases h
  idle _ _ := rfl
  running k team grupoID h := by cases h

/-- **In every run the screens are sound, and each upload is somewhere in the call
behind it.** -/
theorem sound_of_run {s₀ : Store} {as : List (WorldAction ι)}
    (h : (world ι).run (start s₀) as = some w) : w.Sound :=
  (world ι).run_invariant Sound.step (sound_start s₀) h

end World

/-- A store with a group of one student and one team without members, for the runs
on fixed inputs. -/
def rosterStore : Store :=
  ((Store.empty.write ⟨"grupo", "g1"⟩ (Fields.ofList [
    ("equipos", .references [⟨"equipo", "t0"⟩]),
    ("estudiantes", .references [⟨"estudiante", "a1"⟩]),
    ("proyecto", .reference ⟨"proyectos", "p1"⟩), ("horaInicio", .integer 9),
    ("duracion", .integer 2), ("numero", .integer 1),
    ("salon", .reference ⟨"salon", "s1"⟩)])).write ⟨"equipo", "t0"⟩
      (Equipo.firestoreReady ⟨"", "T", [], [⟨"proyectos", "p1"⟩]⟩)).write ⟨"estudiante", "a1"⟩
        sampleStudent

/-- The `n`-th download of screen `i`, with one team and one student. -/
def loadRoster {ι : Type} (i : ι) (n : Nat) : List (WorldAction ι) := [
  .screen i (.serveTeam n 0 true), .screen i (.deliverTeam n 0),
  .screen i (.serveStudent n 0 true), .screen i (.deliverStudent n 0)]

/-- A call of `addTeamToGroup` that goes through, its team under `id`. -/
def runUpload {ι : Type} (k : ι × Nat) (id : String) : List (WorldAction ι) := [
  .upload (.accept k id), .upload (.deliver k), .upload (.accept k ""), .upload (.deliver k)]

/-- Screen `i` is opened on the group and loaded, and its creator is opened. -/
def openCreator {ι : Type} (i : ι) : List (WorldAction ι) :=
  [.didSelectRow i "g1", .openGroup i] ++ loadRoster i 0 ++ [.screen i .addTeam]

end Musgravite
