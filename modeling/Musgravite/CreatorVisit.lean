import Musgravite.TeamSelection
import Musgravite.Writes

/-! # One visit to the team creator

`TeamCreatorViewController` from its appearance until it is popped: rows are tapped,
the name is edited, the button is tapped, and the calls of `addTeamToGroup` it has made
go on side by side.

Two of its promises depend on the user.  The delegate method that shows the alert about
the limit hands the row back all the same, so the row is selected
(`visit_within_limit_iff`).  And the button makes a call at each tap, whatever has become
of the calls before (`visit_creates_once_iff`). -/
namespace Musgravite
open FirebaseController

/-- A `TeamCreatorViewController`. -/
structure CreatorVisit where
  creator : TeamCreator
  limit : Nat := 3
  /-- The text in the name field. -/
  teamName : String := ""
  /-- The rows of `indexPathsForSelectedRows`, which is `nil` if there are none. -/
  selectedRows : List Nat := []
  /-- The alerts shown so far, title and message. -/
  alerts : List (String × String) := []
  /-- The teams handed to `addTeamToGroup` so far; the `n`-th is that of upload `n`. -/
  submitted : List Equipo := []
  uploads : Pool Nat Bool
  popped : Bool := false

namespace CreatorVisit

inductive Event
  /-- A tap on a row, which selects or deselects it. -/
  | didTapRow (row : Nat)
  | editTeamName (text : String)
  /-- A tap on the button. -/
  | createTeam
  /-- An upload goes on. -/
  | upload (a : PoolAction Nat)
  /-- The screen goes away, by itself after a success or by the back button. -/
  | pop

def present (self : CreatorVisit) (title message : String) : CreatorVisit :=
  { self with alerts := self.alerts ++ [(title, message)] }

/-- `tableView(_:willSelectRowAt:)`; the row that is handed back is selected. -/
def willSelectRowAt (self : CreatorVisit) (row : Nat) : CreatorVisit × Option Nat :=
  let self :=
    if self.selectedRows ≠ [] ∧ self.selectedRows.length = self.limit then
      self.present "Oops!" ("You're limited to " ++ toString self.limit ++ " selections")
    else self
  (self, some row)

def didTapRow (self : CreatorVisit) (row : Nat) : CreatorVisit :=
  if row ∈ self.selectedRows then { self with selectedRows := self.selectedRows.erase row }
  else match self.willSelectRowAt row with
    | (self, some row) => { self with selectedRows := self.selectedRows ++ [row] }
    | (self, none) => self

/-- A tap on the button, `none` if it traps. -/
def createTeam (self : CreatorVisit) : Option CreatorVisit :=
  match self.creator.createTeam self.teamName self.selectedRows with
  | .alert title message => some (self.present title message)
  | .trap => none
  | .addTeamToGroup team grupoID => some { self with
      submitted := self.submitted ++ [team]
      uploads := self.uploads.setThread self.submitted.length
        (.sent (addTeamToGroup team grupoID)) }

/-- The visit after an event, `none` if it cannot happen or stops the app. -/
def step (self : CreatorVisit) : Event → Option CreatorVisit
  | .didTapRow row =>
      if self.popped = false ∧ row < self.creator.students.length then some (self.didTapRow row)
      else none
  | .editTeamName text => if self.popped then none else some { self with teamName := text }
  | .createTeam => if self.popped then none else self.createTeam
  | .upload a => ((pool Nat Bool).step self.uploads a).map fun uploads => { self with uploads }
  | .pop => if self.popped then none else some { self with popped := true }

/-- The screen appears. -/
def start (creator : TeamCreator) (s₀ : Store) : CreatorVisit :=
  { creator, uploads := ⟨s₀, fun _ => .sent .trap⟩ }

end CreatorVisit

/-- A visit, step by step. -/
def creatorVisit : TransitionSystem CreatorVisit CreatorVisit.Event := ⟨CreatorVisit.step⟩

namespace CreatorVisit
variable {s t : CreatorVisit} {e : Event}

/-! ## What a step does -/

/-- The button does not get past its alerts. -/
def Refused (s : CreatorVisit) : Prop := s.teamName = "" ∨ s.selectedRows = []

/-- What a step can do. -/
inductive StepCase (s : CreatorVisit) : Event → CreatorVisit → Prop
  | deselect (row) (hrow : row ∈ s.selectedRows) :
      StepCase s (.didTapRow row) { s with selectedRows := s.selectedRows.erase row }
  /-- Whatever the limit. -/
  | select (row alerts) (hrow : row ∉ s.selectedRows) (hshown : row < s.creator.students.length) :
      StepCase s (.didTapRow row)
        { s with selectedRows := s.selectedRows ++ [row], alerts }
  | editTeamName (text) : StepCase s (.editTeamName text) { s with teamName := text }
  | refuse (alerts) (hrefused : Refused s) : StepCase s .createTeam { s with alerts }
  | submit (members) (hrefused : ¬ Refused s)
      (hmembers : members.length = s.selectedRows.length)
      (hin : members ⊆ s.creator.studentsDR) :
      StepCase s .createTeam { s with
        submitted := s.submitted ++ [⟨"", s.teamName, members, [s.creator.group.proyecto]⟩]
        uploads := s.uploads.setThread s.submitted.length
          (.sent (addTeamToGroup ⟨"", s.teamName, members, [s.creator.group.proyecto]⟩
            s.creator.group.documentID)) }
  | upload (a uploads) (h : (pool Nat Bool).step s.uploads a = some uploads) :
      StepCase s (.upload a) { s with uploads }
  | pop : StepCase s .pop { s with popped := true }

theorem length_of_mapM {α β : Type} {f : α → Option β} {l : List α} {ys : List β}
    (h : l.mapM f = some ys) : ys.length = l.length := by
  induction l generalizing ys with
  | nil =>
    obtain rfl : [] = ys := by simpa using h
    rfl
  | cons x l ih =>
    rw [List.mapM_cons] at h
    obtain ⟨y, -, h⟩ := Option.bind_eq_some_iff.mp h
    obtain ⟨rest, hrest, h⟩ := Option.bind_eq_some_iff.mp h
    obtain rfl : y :: rest = ys := by simpa using h
    rw [List.length_cons, List.length_cons, ih hrest]

theorem createTeam_cases (h : s.createTeam = some t) : StepCase s .createTeam t := by
  unfold createTeam TeamCreator.createTeam at h
  by_cases hname : s.teamName = ""
  · rw [if_pos (by simpa using hname)] at h
    obtain rfl := Option.some.inj h
    exact .refuse _ (Or.inl hname)
  by_cases hrows : s.selectedRows = []
  · rw [if_neg (by simpa using hname), if_pos (by simpa using hrows)] at h
    obtain rfl := Option.some.inj h
    exact .refuse _ (Or.inr hrows)
  rw [if_neg (by simpa using hname), if_neg (by simpa using hrows)] at h
  cases hmembers : s.selectedRows.mapM fun row => s.creator.studentsDR[row]? with
  | none =>
    rw [hmembers] at h
    cases h
  | some members =>
    rw [hmembers] at h
    obtain rfl := Option.some.inj h
    exact .submit members (not_or.mpr ⟨hname, hrows⟩) (length_of_mapM hmembers)
      (TeamCreator.subset_of_mapM_getElem? hmembers)

theorem step_cases (h : creatorVisit.step s e = some t) : StepCase s e t := by
  cases e with
  | didTapRow row =>
    simp only [creatorVisit, step] at h
    split at h
    · rename_i hshown
      obtain rfl := Option.some.inj h
      unfold didTapRow
      split
      · rename_i hrow
        exact .deselect row hrow
      · rename_i hrow
        simp only [willSelectRowAt]
        split
        · exact .select row _ hrow hshown.2
        · exact .select row s.alerts hrow hshown.2
    · cases h
  | editTeamName text =>
    simp only [creatorVisit, step] at h
    split at h
    · cases h
    · obtain rfl := Option.some.inj h
      exact .editTeamName text
  | createTeam =>
    simp only [creatorVisit, step] at h
    split at h
    · cases h
    · exact createTeam_cases h
  | upload a =>
    obtain ⟨uploads, huploads, rfl⟩ := Option.map_eq_some_iff.mp h
    exact .upload a uploads huploads
  | pop =>
    simp only [creatorVisit, step] at h
    split at h
    · cases h
    · obtain rfl := Option.some.inj h
      exact .pop

/-! ## The limit -/

/-- No more rows are selected than the limit allows, and every team that was submitted
has a name and between one and that many members. -/
structure WithinLimit (s : CreatorVisit) : Prop where
  selectedRows : s.selectedRows.length ≤ s.limit
  submitted : ∀ team ∈ s.submitted, team.nombre ≠ "" ∧
    1 ≤ team.integrantes.length ∧ team.integrantes.length ≤ s.limit

/-- The condition on a step: a row is not added to a full selection. -/
def HasRoom (s : CreatorVisit) : Event → Prop
  | .didTapRow row => row ∉ s.selectedRows → s.selectedRows.length < s.limit
  | _ => True

/-- **One step stays within the limit exactly if it meets the condition.** -/
theorem withinLimit_step (hs : WithinLimit s) (h : creatorVisit.step s e = some t) :
    WithinLimit t ↔ HasRoom s e := by
  cases step_cases h with
  | deselect row hrow =>
    refine iff_of_true ⟨?_, hs.submitted⟩ fun hnot => absurd hrow hnot
    exact List.length_erase_le.trans hs.selectedRows
  | select row alerts hrow hshown =>
    have hlength : (s.selectedRows ++ [row]).length = s.selectedRows.length + 1 :=
      List.length_append
    constructor
    · intro ht _
      have hle := ht.selectedRows
      rw [hlength] at hle
      exact hle
    · intro hroom
      exact ⟨hlength.trans_le (hroom hrow), hs.submitted⟩
  | editTeamName text => exact iff_of_true ⟨hs.selectedRows, hs.submitted⟩ trivial
  | refuse alerts hrefused => exact iff_of_true ⟨hs.selectedRows, hs.submitted⟩ trivial
  | submit members hrefused hmembers hin =>
    refine iff_of_true ⟨hs.selectedRows, fun team hteam => ?_⟩ trivial
    obtain ⟨hname, hrows⟩ := not_or.mp hrefused
    rcases List.mem_append.mp hteam with hteam | hteam
    · exact hs.submitted team hteam
    · obtain rfl := List.mem_singleton.mp hteam
      refine ⟨hname, ?_, ?_⟩
      · rw [hmembers]
        exact List.length_pos_iff.mpr hrows
      · rw [hmembers]
        exact hs.selectedRows
  | upload a uploads hstep => exact iff_of_true ⟨hs.selectedRows, hs.submitted⟩ trivial
  | pop => exact iff_of_true ⟨hs.selectedRows, hs.submitted⟩ trivial

theorem withinLimit_start (creator : TeamCreator) (s₀ : Store) :
    WithinLimit (start creator s₀) :=
  ⟨Nat.zero_le _, fun _ hteam => nomatch hteam⟩

/-! ## One team -/

/-- The `n`-th call has called back with `true`. -/
def Succeeded (s : CreatorVisit) (n : Nat) : Prop := s.uploads.thread n = .sent (.report true)

/-- The `n`-th call has been made and has not called back. -/
def InFlight (s : CreatorVisit) (n : Nat) : Prop :=
  n < s.submitted.length ∧ ∀ b, s.uploads.thread n ≠ .sent (.report b)

/-- A creation is in flight or has succeeded. -/
def Busy (s : CreatorVisit) : Prop := ∃ n, InFlight s n ∨ Succeeded s n

/-- At most one call has succeeded. -/
def OneSucceeded (s : CreatorVisit) : Prop := ∀ m n, Succeeded s m → Succeeded s n → m = n

/-- A tap on the button of a busy screen starts nothing. -/
def StartsNoMore (s : CreatorVisit) (e : Event) : Prop :=
  ∀ t, creatorVisit.step s e = some t → e = .createTeam → Busy s → t.submitted = s.submitted

/-- The condition on a step: when the button of a busy screen is tapped, the name is empty
or no row is selected. -/
def RefusedWhenBusy (s : CreatorVisit) (e : Event) : Prop :=
  e = .createTeam → Busy s → Refused s

theorem startsNoMore_iff (h : creatorVisit.step s e = some t) :
    StartsNoMore s e ↔ RefusedWhenBusy s e := by
  simp only [StartsNoMore, RefusedWhenBusy, h, Option.some.injEq, forall_eq']
  refine forall₂_congr fun he _ => ?_
  subst he
  cases step_cases h with
  | refuse alerts hrefused => exact iff_of_true rfl hrefused
  | submit members hrefused hmembers hin => exact iff_of_false (by simp) hrefused

/-- Only the last call may have succeeded or be under way; there are no uploads but the
calls. -/
structure OneLive (s : CreatorVisit) : Prop where
  idle : ∀ n, s.submitted.length ≤ n → s.uploads.thread n = .sent .trap
  failed : ∀ n, n + 1 < s.submitted.length → s.uploads.thread n = .sent (.report false)

theorem oneLive_start (creator : TeamCreator) (s₀ : Store) : OneLive (start creator s₀) :=
  ⟨fun _ _ => rfl, fun _ hn => nomatch hn⟩

/-- Nothing is live on a screen that is not busy. -/
theorem thread_of_not_busy (h : ¬ Busy s) {n : Nat} (hn : n < s.submitted.length) :
    s.uploads.thread n = .sent (.report false) := by
  by_contra hthread
  refine h ⟨n, ?_⟩
  by_cases hsucceeded : Succeeded s n
  · exact Or.inr hsucceeded
  · refine Or.inl ⟨hn, fun b => ?_⟩
    cases b with
    | true => exact hsucceeded
    | false => exact hthread

theorem OneLive.step (hs : OneLive s) (hC : RefusedWhenBusy s e)
    (h : creatorVisit.step s e = some t) : OneLive t := by
  cases step_cases h with
  | submit members hrefused hmembers hin =>
    have hbusy : ¬ Busy s := fun hbusy => hrefused (hC rfl hbusy)
    refine ⟨fun n hn => ?_, fun n hn => ?_⟩
    · rw [List.length_append, List.length_singleton] at hn
      exact (Pool.setThread_of_ne _ _ (by omega)).trans (hs.idle n (by omega))
    · rw [List.length_append, List.length_singleton] at hn
      exact (Pool.setThread_of_ne _ _ (by omega)).trans (thread_of_not_busy hbusy (by omega))
  | upload a uploads hstep =>
    exact ⟨fun n hn => Pool.step_trap hstep (hs.idle n hn),
      fun n hn => Pool.step_report hstep (hs.failed n hn)⟩
  | deselect | select | editTeamName | refuse | pop => exact ⟨hs.idle, hs.failed⟩

theorem OneLive.oneSucceeded (hs : OneLive s) : OneSucceeded s := by
  have hlast : ∀ n, Succeeded s n → n + 1 = s.submitted.length := by
    intro n hn
    have hlt : n < s.submitted.length := by
      by_contra hle
      cases hn.symm.trans (hs.idle n (by omega))
    by_contra hne
    cases hn.symm.trans (hs.failed n (by omega))
  intro m n hm hn
  have := hlast m hm
  have := hlast n hn
  omega

end CreatorVisit

/-- **When a team never exceeds the limit**: in all states of a visit exactly if no row is
added to a full selection. -/
theorem visit_within_limit_iff (creator : TeamCreator) (s₀ : Store)
    (es : List CreatorVisit.Event) (s : CreatorVisit)
    (hrun : creatorVisit.run (.start creator s₀) es = some s) :
    (∀ u, creatorVisit.Visits (.start creator s₀) es u → CreatorVisit.WithinLimit u) ↔
      creatorVisit.Meets CreatorVisit.HasRoom (.start creator s₀) es :=
  creatorVisit.visited_iff_meets (I := fun _ => True) (fun _ _ => trivial)
    (fun _ hs h => CreatorVisit.withinLimit_step hs h) trivial
    (CreatorVisit.withinLimit_start creator s₀) hrun

/-- The creator of a group, which offers four students. -/
def fourStudents : TeamCreator where
  students := [blankStudent "a1", blankStudent "a2", blankStudent "a3", blankStudent "a4"]
  studentsDR := [⟨"estudiante", "a1"⟩, ⟨"estudiante", "a2"⟩, ⟨"estudiante", "a3"⟩,
    ⟨"estudiante", "a4"⟩]
  group := pairGroup

/-- Three rows are selected, and one of them again deselected. -/
theorem visit_within_limit_three :
    ∃ s, creatorVisit.run (.start fourStudents groupStore) [.didTapRow 0, .didTapRow 2,
        .didTapRow 1, .didTapRow 2, .editTeamName "A", .createTeam] = some s ∧
      ∀ u, creatorVisit.Visits (.start fourStudents groupStore) [.didTapRow 0, .didTapRow 2,
        .didTapRow 1, .didTapRow 2, .editTeamName "A", .createTeam] u →
        CreatorVisit.WithinLimit u := by
  refine ⟨_, rfl, (visit_within_limit_iff fourStudents groupStore [.didTapRow 0, .didTapRow 2,
    .didTapRow 1, .didTapRow 2, .editTeamName "A", .createTeam] _ rfl).mpr ?_⟩
  refine (creatorVisit.meets_cons _ rfl).mpr ⟨fun _ => by decide, ?_⟩
  refine (creatorVisit.meets_cons _ rfl).mpr ⟨fun _ => by decide, ?_⟩
  refine (creatorVisit.meets_cons _ rfl).mpr ⟨fun _ => by decide, ?_⟩
  refine (creatorVisit.meets_cons _ rfl).mpr ⟨fun h => absurd (by decide) h, ?_⟩
  refine (creatorVisit.meets_cons _ rfl).mpr ⟨trivial, ?_⟩
  exact (creatorVisit.meets_cons _ rfl).mpr ⟨trivial, trivial⟩

/-- The fourth row brings the alert and is selected, and a team of four is submitted. -/
theorem visit_beyond_limit :
    ∃ s, creatorVisit.run (.start fourStudents groupStore) [.didTapRow 0, .didTapRow 1,
        .didTapRow 2, .didTapRow 3, .editTeamName "A", .createTeam] = some s ∧
      s.alerts = [("Oops!", "You're limited to 3 selections")] ∧
      s.selectedRows = [0, 1, 2, 3] ∧
      s.submitted.map (fun team => team.integrantes.length) = [4] ∧
      ¬ CreatorVisit.WithinLimit s := by
  refine ⟨_, rfl, by decide +kernel, rfl, rfl, fun h => ?_⟩
  exact absurd h.selectedRows (by decide)

/-- **When one visit creates at most one team**: at most one call succeeds, and a busy
screen starts no further one, exactly if every tap on the button of a busy screen finds
the name empty or no row selected. -/
theorem visit_creates_once_iff (creator : TeamCreator) (s₀ : Store)
    (es : List CreatorVisit.Event) (s : CreatorVisit)
    (hrun : creatorVisit.run (.start creator s₀) es = some s) :
    ((∀ u, creatorVisit.Visits (.start creator s₀) es u → CreatorVisit.OneSucceeded u) ∧
      creatorVisit.Meets CreatorVisit.StartsNoMore (.start creator s₀) es) ↔
      creatorVisit.Meets CreatorVisit.RefusedWhenBusy (.start creator s₀) es := by
  rw [creatorVisit.meets_congr _ (fun h => CreatorVisit.startsNoMore_iff h) hrun]
  refine and_iff_right_of_imp fun hC u hu => ?_
  exact (creatorVisit.visits_invariant_of_meets (P := CreatorVisit.OneLive)
    (fun hs hC h => hs.step hC h) (CreatorVisit.oneLive_start creator s₀) hC hu).oneSucceeded

/-- The first creation fails at the backend, and the button is tapped again after that. -/
theorem visit_creates_once_retry :
    ∃ s, creatorVisit.run (.start fourStudents groupStore) [.didTapRow 0, .editTeamName "A",
        .createTeam, .upload (.refuse 0 "t1"), .upload (.deliver 0), .createTeam] = some s ∧
      (∀ u, creatorVisit.Visits (.start fourStudents groupStore) [.didTapRow 0,
        .editTeamName "A", .createTeam, .upload (.refuse 0 "t1"), .upload (.deliver 0),
        .createTeam] u → CreatorVisit.OneSucceeded u) ∧
      creatorVisit.Meets CreatorVisit.StartsNoMore (.start fourStudents groupStore)
        [.didTapRow 0, .editTeamName "A", .createTeam, .upload (.refuse 0 "t1"),
          .upload (.deliver 0), .createTeam] := by
  refine ⟨_, rfl, (visit_creates_once_iff fourStudents groupStore [.didTapRow 0,
    .editTeamName "A", .createTeam, .upload (.refuse 0 "t1"), .upload (.deliver 0), .createTeam]
    _ rfl).mpr ?_⟩
  refine (creatorVisit.meets_cons _ rfl).mpr ⟨nofun, ?_⟩
  refine (creatorVisit.meets_cons _ rfl).mpr ⟨nofun, ?_⟩
  refine (creatorVisit.meets_cons _ rfl).mpr ⟨fun _ hbusy => ?_, ?_⟩
  · obtain ⟨n, ⟨hn, -⟩ | hn⟩ := hbusy
    · cases hn
    · cases hn
  refine (creatorVisit.meets_cons _ rfl).mpr ⟨nofun, ?_⟩
  refine (creatorVisit.meets_cons _ rfl).mpr ⟨nofun, ?_⟩
  refine (creatorVisit.meets_cons _ rfl).mpr ⟨fun _ hbusy => ?_, trivial⟩
  -- the one call there is has failed
  obtain ⟨n, hn⟩ := hbusy
  cases n with
  | zero =>
    obtain ⟨-, hn⟩ | hn := hn
    · exact absurd rfl (hn false)
    · cases hn
  | succ n =>
    obtain ⟨hn, -⟩ | hn := hn
    · have hlt : n + 1 < 1 := hn
      omega
    · cases hn

/-- The button is tapped twice before the first reply: both creations succeed. -/
theorem visit_creates_twice :
    ∃ s, creatorVisit.run (.start fourStudents groupStore) [.didTapRow 0, .editTeamName "A",
        .createTeam, .createTeam, .upload (.accept 0 "t1"), .upload (.deliver 0),
        .upload (.accept 0 ""), .upload (.deliver 0), .upload (.accept 1 "t2"),
        .upload (.deliver 1), .upload (.accept 1 ""), .upload (.deliver 1)] = some s ∧
      s.submitted = [⟨"", "A", [⟨"estudiante", "a1"⟩], [⟨"proyectos", "p1"⟩]⟩,
        ⟨"", "A", [⟨"estudiante", "a1"⟩], [⟨"proyectos", "p1"⟩]⟩] ∧
      s.Succeeded 0 ∧ s.Succeeded 1 ∧ ¬ CreatorVisit.OneSucceeded s := by
  refine ⟨_, rfl, rfl, rfl, rfl, fun h => ?_⟩
  cases h 0 1 rfl rfl

end Musgravite
