import Musgravite.Downloads
import Musgravite.Library.Blocks

/-! # Selecting the members of a new team

When the creator screen opens, `selectableStudents` computes two lists side by
side: the references of the students that some team does not contain, team by
team in the order of the group document, and the students to show, in the order
in which their documents arrived.  The table shows the second list; `createTeam`
takes the selected row numbers to the first.

`returnsTeamless_iff` gives the exact condition under which the two lists are the
students without a team, and `createTeam_picks_shown_iff` the one under which they
name the same student in every row. -/
namespace Musgravite

/-- `GroupViewController.selectableStudents`: the students and their references. -/
def selectableStudents (group : Grupo) (teams : List Equipo) (students : List Estudiante) :
    List Estudiante × List DocumentReference :=
  -- once for each team that does not contain the student
  let selectable := group.estudiantes.flatMap fun student =>
    teams.flatMap fun team => if !team.integrantes.contains student then [student] else []
  -- once for each time the student is in the first list
  let selectableStudent := students.flatMap fun student =>
    selectable.flatMap fun id => if student.id == id.documentID then [student] else []
  (selectableStudent, selectable)

/-- What `TeamCreatorViewController` is given. -/
structure TeamCreator where
  students : List Estudiante
  studentsDR : List DocumentReference
  group : Grupo

/-- `GroupViewController.prepare(for:sender:)`, the segue to the creator. -/
def TeamCreator.prepare (group : Grupo) (teams : List Equipo) (students : List Estudiante) :
    TeamCreator :=
  let result := selectableStudents group teams students
  ⟨result.1, result.2, group⟩

/-- What a tap on the creator's button leads to. -/
inductive CreateTeam
  | alert (title message : String)
  | trap
  | addTeamToGroup (team : Equipo) (grupoID : String)

namespace TeamCreator
variable (creator : TeamCreator)

/-- `TeamCreatorViewController.createTeam`, with the text in the name field and
the selected rows. -/
def createTeam (teamName : String) (rows : List Nat) : CreateTeam :=
  if teamName.isEmpty then .alert "Empty" "Please create a project name"
  else if rows.isEmpty then .alert "Empty" "Please add at least one team member"
  else match rows.mapM fun row => creator.studentsDR[row]? with
    | some selectedStudents =>
        .addTeamToGroup ⟨"", teamName, selectedStudents, [creator.group.proyecto]⟩
          creator.group.documentID
    | none => .trap

/-- The rows a user can have selected: some rows of the table, in any order. -/
structure Selection (rows : List Nat) : Prop where
  nonempty : rows ≠ []
  nodup : rows.Nodup
  shown : ∀ row ∈ rows, row < creator.students.length

/-- Each row of the table has a reference, to the student it shows. -/
def RowsNameStudents : Prop :=
  ∀ row (h : row < creator.students.length), ∃ h' : row < creator.studentsDR.length,
    creator.studentsDR[row].documentID = creator.students[row].id

/-- Whatever is selected, `createTeam` makes the team of the students shown in the
selected rows. -/
def PicksShown : Prop :=
  ∀ teamName rows, teamName ≠ "" → creator.Selection rows →
    ∃ team, creator.createTeam teamName rows = .addTeamToGroup team creator.group.documentID ∧
      team.integrantes.map (fun r => some r.documentID) =
        rows.map fun row => creator.students[row]?.map Estudiante.id

variable {creator}

theorem rowsNameStudents_iff_prefix :
    creator.RowsNameStudents ↔
      creator.students.map Estudiante.id <+:
        creator.studentsDR.map DocumentReference.documentID := by
  rw [List.prefix_iff_getElem?]
  simp only [RowsNameStudents, List.length_map, List.getElem_map, List.getElem?_map,
    Option.map_eq_some_iff, List.getElem?_eq_some_iff]
  refine forall₂_congr fun row h => ?_
  constructor
  · rintro ⟨h', he⟩
    exact ⟨_, ⟨h', rfl⟩, he⟩
  · rintro ⟨_, ⟨h', rfl⟩, he⟩
    exact ⟨h', he⟩

/-- What is looked up in a list is in it. -/
theorem subset_of_mapM_getElem? {α : Type} {l : List α} {rows : List Nat} {xs : List α}
    (h : (rows.mapM fun row => l[row]?) = some xs) : xs ⊆ l := by
  induction rows generalizing xs with
  | nil =>
    obtain rfl : [] = xs := by simpa using h
    exact List.nil_subset _
  | cons row rows ih =>
    rw [List.mapM_cons] at h
    obtain ⟨x, hx, h⟩ := Option.bind_eq_some_iff.mp h
    obtain ⟨rest, hrest, h⟩ := Option.bind_eq_some_iff.mp h
    obtain rfl : x :: rest = xs := by simpa using h
    exact List.cons_subset.mpr ⟨List.mem_of_getElem? hx, ih hrest⟩

/-- The references that the selected rows stand for. -/
theorem mapM_studentsDR (h : creator.RowsNameStudents) {rows : List Nat}
    (hrows : ∀ row ∈ rows, row < creator.students.length) :
    ∃ refs, (rows.mapM fun row => creator.studentsDR[row]?) = some refs ∧
      refs.map (fun r => some r.documentID) =
        rows.map fun row => creator.students[row]?.map Estudiante.id := by
  induction rows with
  | nil => exact ⟨[], rfl, rfl⟩
  | cons row rows ih =>
    obtain ⟨refs, hrefs, hids⟩ := ih fun r hr => hrows r (List.mem_cons_of_mem _ hr)
    have hrow := hrows row List.mem_cons_self
    obtain ⟨h', hid⟩ := h row hrow
    refine ⟨creator.studentsDR[row] :: refs, ?_, ?_⟩
    · simp [List.mapM_cons, hrefs, h']
    · simp [hids, hid, hrow]

/-- With a name and a selection, `createTeam` gets past its alerts. -/
theorem createTeam_eq_addTeamToGroup {teamName : String} {rows : List Nat} (hname : teamName ≠ "")
    (hrows : rows ≠ []) {team : Equipo} :
    creator.createTeam teamName rows = .addTeamToGroup team creator.group.documentID ↔
      ∃ refs, (rows.mapM fun row => creator.studentsDR[row]?) = some refs ∧
        team = ⟨"", teamName, refs, [creator.group.proyecto]⟩ := by
  rw [createTeam, if_neg (by simpa using hname), if_neg (by simpa using hrows)]
  cases rows.mapM fun row => creator.studentsDR[row]? <;> simp [eq_comm]

/-- Whoever is selected was offered. -/
theorem integrantes_subset {teamName : String} {rows : List Nat} {team : Equipo} {grupoID : String}
    (h : creator.createTeam teamName rows = .addTeamToGroup team grupoID) :
    team.integrantes ⊆ creator.studentsDR := by
  unfold createTeam at h
  split at h
  · cases h
  · split at h
    · cases h
    · split at h
      · rename_i refs hrows
        injection h with hteam
        exact hteam ▸ subset_of_mapM_getElem? hrows
      · cases h

/-- The two ways to say that rows name the right students. -/
theorem picksShown_iff : creator.PicksShown ↔ creator.RowsNameStudents := by
  constructor
  · intro h row hrow
    obtain ⟨team, hteam, hids⟩ := h "a" [row] (by simp) ⟨by simp, by simp, by simpa using hrow⟩
    obtain ⟨refs, hrefs, rfl⟩ := (createTeam_eq_addTeamToGroup (by simp) (by simp)).mp hteam
    rw [List.mapM_cons] at hrefs
    obtain ⟨r, hr, hrefs⟩ := Option.bind_eq_some_iff.mp hrefs
    obtain rfl : [r] = refs := by simpa using hrefs
    obtain ⟨h', rfl⟩ := List.getElem?_eq_some_iff.mp hr
    exact ⟨h', by simpa [hrow] using hids⟩
  · intro h teamName rows hname hrows
    obtain ⟨refs, hrefs, hids⟩ := mapM_studentsDR h hrows.shown
    exact ⟨_, (createTeam_eq_addTeamToGroup hname hrows.nonempty).mpr ⟨refs, hrefs, rfl⟩, hids⟩

end TeamCreator

/-! ## What is selectable -/

/-- The number of teams that do not contain the student. -/
def teamsWithout (teams : List Equipo) (student : DocumentReference) : Nat :=
  teams.countP fun team => !team.integrantes.contains student

/-- The students of the group that some team does not contain. -/
def availableStudents (group : Grupo) (teams : List Equipo) : List DocumentReference :=
  group.estudiantes.filter fun student => 0 < teamsWithout teams student

theorem flatMap_ite_singleton {α β : Type} (p : α → Bool) (x : β) (l : List α) :
    (l.flatMap fun y => if p y then [x] else []) = List.replicate (l.countP p) x := by
  induction l with
  | nil => rfl
  | cons y l ih => cases h : p y <;> simp [h, ih, List.replicate_succ]

/-- The references form one block for each available student. -/
theorem selectableStudents_snd (group : Grupo) (teams : List Equipo) (students : List Estudiante) :
    (selectableStudents group teams students).2 =
      List.expand ((availableStudents group teams).map fun student =>
        (student, teamsWithout teams student)) := by
  rw [availableStudents, List.expand_filter, List.expand, List.flatMap_map]
  exact List.flatMap_congr fun student _ => flatMap_ite_singleton ..

/-- **The creator offers who is outside some team**, not who is outside all of them. -/
theorem mem_selectableStudents_snd {group : Grupo} {teams : List Equipo}
    {students : List Estudiante} {r : DocumentReference} :
    r ∈ (selectableStudents group teams students).2 ↔
      r ∈ group.estudiantes ∧ ∃ team ∈ teams, r ∉ team.integrantes := by
  simp only [selectableStudents, List.mem_flatMap]
  constructor
  · rintro ⟨student, hstudent, team, hteam, hr⟩
    split at hr
    · rename_i hout
      obtain rfl := List.mem_singleton.mp hr
      exact ⟨hstudent, team, hteam, by simpa using hout⟩
    · cases hr
  · rintro ⟨hr, team, hteam, hout⟩
    exact ⟨r, hr, team, hteam, by simp [hout]⟩

/-- The shown students are looked up in the references. -/
theorem selectableStudents_fst_eq_expand (group : Grupo) (teams : List Equipo)
    (students : List Estudiante) :
    (selectableStudents group teams students).1 = List.expand (students.map fun student =>
      (student, ((selectableStudents group teams students).2.map
        DocumentReference.documentID).count student.id)) := by
  rw [List.expand, List.flatMap_map]
  refine List.flatMap_congr fun student _ => ?_
  rw [flatMap_ite_singleton, List.count, List.countP_map]
  refine congrArg₂ _ (List.countP_congr fun r _ => ?_) rfl
  simp only [Function.comp_apply, beq_iff_eq]
  exact eq_comm

theorem selectableStudents_fst (group : Grupo) (teams : List Equipo) (students : List Estudiante) :
    (selectableStudents group teams students).1.map Estudiante.id =
      List.recount ((selectableStudents group teams students).2.map DocumentReference.documentID)
        (students.map Estudiante.id) := by
  rw [selectableStudents_fst_eq_expand, List.map_expand, List.recount_eq_expand, List.map_map,
    List.map_map]
  rfl

/-- **When the rows name the right students**: the available students are listed
once each, and their documents arrived in the order of the group document. -/
theorem rowsNameStudents_iff {group : Grupo} {teams : List Equipo} {students : List Estudiante}
    (hstudents : (students.map Estudiante.id).Perm
      (group.estudiantes.map DocumentReference.documentID)) :
    (TeamCreator.prepare group teams students).RowsNameStudents ↔
      ((availableStudents group teams).map DocumentReference.documentID).Nodup ∧
      (students.map Estudiante.id).filter
          (· ∈ (availableStudents group teams).map DocumentReference.documentID) =
        (availableStudents group teams).map DocumentReference.documentID := by
  rw [TeamCreator.rowsNameStudents_iff_prefix]
  simp only [TeamCreator.prepare]
  rw [selectableStudents_fst, selectableStudents_snd, List.map_expand, List.map_map]
  have hfst : ((availableStudents group teams).map
      ((fun p : DocumentReference × Nat => (p.1.documentID, p.2)) ∘
        fun student => (student, teamsWithout teams student))).map Prod.fst =
      (availableStudents group teams).map DocumentReference.documentID := by
    rw [List.map_map]
    rfl
  rw [List.recount_prefix_iff, hfst]
  · intro p hp
    obtain ⟨student, hstudent, rfl⟩ := List.mem_map.mp hp
    simpa [availableStudents] using (List.mem_filter.mp hstudent).2
  · intro x
    rw [hfst, hstudents.count_eq]
    exact (List.filter_sublist.map _).count_le x

/-! ## Students without a team -/

/-- The students of the group that no team contains. -/
def teamlessStudents (group : Grupo) (teams : List Equipo) : List DocumentReference :=
  group.estudiantes.filter fun student => ∀ team ∈ teams, student ∉ team.integrantes

/-- `selectableStudents` returns the students without a team: each of their
references once and nothing else, and of the downloaded students exactly the ones
with these identifiers, once each. -/
structure ReturnsTeamless (group : Grupo) (teams : List Equipo) (students : List Estudiante) :
    Prop where
  references : ∀ r, (selectableStudents group teams students).2.count r =
    if r ∈ group.estudiantes ∧ ∀ team ∈ teams, r ∉ team.integrantes then 1 else 0
  students : (selectableStudents group teams students).1.Perm (students.filter fun student =>
    student.id ∈ (teamlessStudents group teams).map DocumentReference.documentID)

section Teamless
variable {group : Grupo} {teams : List Equipo} {students : List Estudiante}

theorem mem_teamlessStudents {r : DocumentReference} :
    r ∈ teamlessStudents group teams ↔
      r ∈ group.estudiantes ∧ ∀ team ∈ teams, r ∉ team.integrantes := by
  simp [teamlessStudents]

/-- A reference is returned once for each mention in the group and each team that
does not contain it. -/
theorem count_selectableStudents_snd (r : DocumentReference) :
    (selectableStudents group teams students).2.count r =
      group.estudiantes.count r * teamsWithout teams r := by
  rw [selectableStudents_snd, availableStudents, List.expand_filter, List.count_expand_map]

theorem teamsWithout_eq_zero_iff {r : DocumentReference} :
    teamsWithout teams r = 0 ↔ ∀ team ∈ teams, r ∈ team.integrantes := by
  simp [teamsWithout, List.countP_eq_zero]

theorem teamsWithout_of_teamless {r : DocumentReference}
    (h : ∀ team ∈ teams, r ∉ team.integrantes) : teamsWithout teams r = teams.length := by
  rw [teamsWithout, List.countP_eq_length]
  simpa using h

/-- **When the references are those of the students without a team.** -/
theorem references_teamless_iff :
    (∀ r, (selectableStudents group teams students).2.count r =
      if r ∈ group.estudiantes ∧ ∀ team ∈ teams, r ∉ team.integrantes then 1 else 0) ↔
    (∀ r ∈ group.estudiantes, (∃ team ∈ teams, r ∈ team.integrantes) →
      ∀ team ∈ teams, r ∈ team.integrantes) ∧
    (teamlessStudents group teams ≠ [] → teams.length = 1) ∧
    (teamlessStudents group teams).Nodup := by
  simp only [count_selectableStudents_snd]
  constructor
  · intro h
    -- a student without a team is mentioned once, and there is one team to count
    have hone : ∀ r ∈ teamlessStudents group teams,
        group.estudiantes.count r = 1 ∧ teams.length = 1 := by
      intro r hr
      have hr := mem_teamlessStudents.mp hr
      have hcount := h r
      rw [if_pos hr, teamsWithout_of_teamless hr.2] at hcount
      exact ⟨Nat.eq_one_of_mul_eq_one_right hcount, Nat.eq_one_of_mul_eq_one_left hcount⟩
    refine ⟨?_, ?_, ?_⟩
    · rintro r hr ⟨team, hteam, hmem⟩
      have hcount := h r
      rw [if_neg (fun hr => hr.2 team hteam hmem), Nat.mul_eq_zero] at hcount
      rcases hcount with hcount | hcount
      · exact absurd hr (List.count_eq_zero.mp hcount)
      · exact teamsWithout_eq_zero_iff.mp hcount
    · intro hne
      obtain ⟨r, hr⟩ := List.exists_mem_of_ne_nil _ hne
      exact (hone r hr).2
    · rw [List.nodup_iff_count_le_one]
      intro r
      by_cases hr : r ∈ teamlessStudents group teams
      · exact (hone r hr).1 ▸ List.filter_sublist.count_le r
      · rw [List.count_eq_zero.mpr hr]
        exact Nat.zero_le 1
  · rintro ⟨hall, hone, hnodup⟩ r
    split
    · rename_i hr
      have hmem := mem_teamlessStudents.mpr hr
      have hcount : (teamlessStudents group teams).count r = group.estudiantes.count r :=
        List.count_filter (by simpa using hr.2)
      rw [teamsWithout_of_teamless hr.2, hone (List.ne_nil_of_mem hmem), ← hcount,
        List.count_eq_one_of_mem hnodup hmem]
    · rename_i hr
      by_cases hmem : r ∈ group.estudiantes
      · have hteam : ∃ team ∈ teams, r ∈ team.integrantes := by
          by_contra hno
          exact hr ⟨hmem, fun team hteam hin => hno ⟨team, hteam, hin⟩⟩
        rw [teamsWithout_eq_zero_iff.mpr (hall r hmem hteam), Nat.mul_zero]
      · rw [List.count_eq_zero.mpr hmem, Nat.zero_mul]

/-- When the references are right, the students are if the references name
different students. -/
theorem students_teamless_iff
    (hstudents : (students.map Estudiante.id).Perm
      (group.estudiantes.dedup.map DocumentReference.documentID))
    (hperm : (selectableStudents group teams students).2.Perm (teamlessStudents group teams)) :
    (selectableStudents group teams students).1.Perm (students.filter fun student =>
      student.id ∈ (teamlessStudents group teams).map DocumentReference.documentID) ↔
    ((teamlessStudents group teams).map DocumentReference.documentID).Nodup := by
  simp only [selectableStudents_fst_eq_expand,
    (hperm.map DocumentReference.documentID).count_eq]
  generalize hids : (teamlessStudents group teams).map DocumentReference.documentID = ids
  constructor
  · intro h
    rw [List.nodup_iff_count_le_one]
    intro id
    by_cases hid : id ∈ ids
    · -- the student with this identifier has been downloaded
      have hsome : id ∈ students.map Estudiante.id := by
        rw [hstudents.mem_iff]
        rw [← hids] at hid
        obtain ⟨r, hr, rfl⟩ := List.mem_map.mp hid
        exact List.mem_map_of_mem (List.mem_dedup.mpr (mem_teamlessStudents.mp hr).1)
      obtain ⟨student, hstudent, rfl⟩ := List.mem_map.mp hsome
      have hcount := h.count_eq student
      rw [List.count_expand_map, List.count_filter (by simpa using hid)] at hcount
      exact (Nat.eq_of_mul_eq_mul_left (List.count_pos_iff.mpr hstudent)
        (hcount.trans (Nat.mul_one _).symm)).le
    · rw [List.count_eq_zero.mpr hid]
      exact Nat.zero_le 1
  · intro h
    simp only [h.count, List.expand_ite]
    exact List.Perm.refl _

end Teamless

/-- A student without any entries. -/
def blankStudent (id : String) : Estudiante := ⟨id, "", "", "", "", [], [], [], [], []⟩

/-- A group of two students with one team. -/
def pairGroup : Grupo :=
  ⟨"g1", [⟨"equipo", "t1"⟩], [⟨"estudiante", "a1"⟩, ⟨"estudiante", "a2"⟩],
    ⟨"proyectos", "p1"⟩, 9, 2, 1, ⟨"salon", "s1"⟩⟩

open FirebaseController FanOut

end Musgravite
