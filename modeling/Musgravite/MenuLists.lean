import Musgravite.Navigation

/-! # The lists of the project menu

The three tables of `ProjectMenuViewController` show what the last download of the
student brought, or a line that says that nothing was found.  The completion block
throws the lines of a table away only if there are new ones (`ProjectMenu.refill`), and
the array behind the table of courses is also where a tap finds the identifier it sends
to `getCourseData`.

`menu_shows_lastReply_iff` gives the exact condition on the steps of a run under which
the tables show the last reply and nothing else, and taps send its courses only. -/
namespace Musgravite
open ProjectMenu

/-- The tables of the menu. -/
inductive MenuTable
  | equiposTV
  | grupoTV
  | cursosTV

namespace MenuTable

/-- The lines behind a table. -/
def lines (menu : ProjectMenu) : MenuTable → List String
  | equiposTV => menu.equipos
  | grupoTV => menu.grupos
  | cursosTV => menu.cursos

/-- The documents of a student that a table is for. -/
def documents (estudiante : Estudiante) : MenuTable → List DocumentReference
  | equiposTV => estudiante.equipos
  | grupoTV => estudiante.grupos
  | cursosTV => estudiante.cursos

/-- The line that says that nothing was found. -/
def placeholder (table : MenuTable) : List String := table.lines {}

/-- What a table should show after a reply. -/
def expected (table : MenuTable) (reply : Option Estudiante) : List String :=
  match reply with
  | none => table.placeholder
  | some estudiante =>
      if table.documents estudiante = [] then table.placeholder
      else (table.documents estudiante).map DocumentReference.documentID

end MenuTable

/-- The menu, and the last student that was downloaded. -/
structure MenuVisit where
  menu : ProjectMenu := {}
  lastReply : Option Estudiante := none

namespace MenuVisit

/-- The menu after an event, `none` if it cannot happen or stops the app. -/
def step (self : MenuVisit) (e : MenuEvent) : Option MenuVisit := do
  let out ← self.menu.step e
  let (menu, _) ← out
  return { menu, lastReply := match e with
    | .studentDownloaded estudiante => estudiante
    | _ => self.lastReply }

end MenuVisit

/-- The menu, step by step. -/
def menuVisits : TransitionSystem MenuVisit MenuEvent := ⟨MenuVisit.step⟩

namespace MenuVisit
variable {s t : MenuVisit}

/-- What a step can do. -/
inductive StepCase (s : MenuVisit) : MenuEvent → MenuVisit → Prop
  | viewWillAppear : StepCase s .viewWillAppear
      { s with menu := { s.menu with studentLoads := s.menu.studentLoads + 1 } }
  | studentDownloaded (estudiante : Estudiante) (menu : ProjectMenu)
      (hmenu : ∀ table : MenuTable, table.lines menu =
        refill (table.lines s.menu) (table.documents estudiante)) :
      StepCase s (.studentDownloaded (some estudiante)) ⟨menu, some estudiante⟩
  | didSelectRowAt (row : Nat) (curso : String) (menu : ProjectMenu)
      (hrow : s.menu.cursos[row]? = some curso)
      (hsent : menu.courseLoads = s.menu.courseLoads ++ [curso])
      (hmenu : ∀ table : MenuTable, table.lines menu = table.lines s.menu) :
      StepCase s (.didSelectRowAt row) { s with menu }
  | courseDownloaded (k : Nat) (curso : Option Curso) (menu : ProjectMenu)
      (hmenu : ∀ table : MenuTable, table.lines menu = table.lines s.menu) :
      StepCase s (.courseDownloaded k curso) { s with menu }

theorem step_cases {e : MenuEvent} (h : menuVisits.step s e = some t) : StepCase s e t := by
  obtain ⟨out, hout, h⟩ := Option.bind_eq_some_iff.mp h
  obtain ⟨⟨menu, segue⟩, rfl, h⟩ := Option.bind_eq_some_iff.mp h
  obtain rfl := Option.some.inj h
  cases e with
  | viewWillAppear =>
    obtain ⟨rfl, -⟩ := Prod.mk.inj (Option.some.inj (Option.some.inj hout))
    exact .viewWillAppear
  | studentDownloaded estudiante =>
    simp only [ProjectMenu.step] at hout
    split at hout
    · cases hout
    · obtain ⟨menu', hmenu', he⟩ := Option.map_eq_some_iff.mp (Option.some.inj hout)
      obtain ⟨rfl, -⟩ := Prod.mk.inj he
      obtain ⟨estudiante, rfl, rfl⟩ := Option.map_eq_some_iff.mp hmenu'
      exact .studentDownloaded estudiante _ fun table => by cases table <;> rfl
  | didSelectRowAt row =>
    obtain ⟨curso, hrow, he⟩ := Option.map_eq_some_iff.mp hout
    obtain ⟨rfl, -⟩ := Prod.mk.inj (Option.some.inj he)
    exact .didSelectRowAt row curso _ hrow rfl fun table => by cases table <;> rfl
  | courseDownloaded k curso =>
    obtain ⟨_, -, he⟩ := Option.map_eq_some_iff.mp hout
    obtain ⟨rfl, -⟩ := Prod.mk.inj (Option.some.inj he)
    exact .courseDownloaded k curso _ fun table => by cases table <;> rfl

/-! ## Showing the last reply -/

/-- What is asked of a step: after a reply each table shows the identifiers in it, or its
placeholder; and an identifier that a tap sends is one of a course in the last reply, and
no placeholder. -/
def Right (s : MenuVisit) (e : MenuEvent) : Prop :=
  ∀ t, menuVisits.step s e = some t → match e with
    | .studentDownloaded estudiante =>
        ∀ table : MenuTable, table.lines t.menu = table.expected estudiante
    | .didSelectRowAt _ => ∀ curso, t.menu.courseLoads = s.menu.courseLoads ++ [curso] →
        curso ∉ MenuTable.cursosTV.placeholder ∧ ∃ estudiante, s.lastReply = some estudiante ∧
          curso ∈ estudiante.cursos.map DocumentReference.documentID
    | _ => True

/-- A reply that leaves the placeholder of a table alone. -/
def Bare (table : MenuTable) (estudiante : Estudiante) : Prop :=
  table.documents estudiante = [] ∨
    (table.documents estudiante).map DocumentReference.documentID = table.placeholder

/-- The condition on a step.  A list that is empty in a reply was empty in the one before
(or held one document, with the placeholder as its identifier); and a row is tapped only
if the last reply has a course for it (whose identifier is not the placeholder). -/
def KeepsLists (s : MenuVisit) : MenuEvent → Prop
  | .studentDownloaded estudiante => ∀ now ∈ estudiante, ∀ before ∈ s.lastReply,
      ∀ table : MenuTable, table.documents now = [] → Bare table before
  | .didSelectRowAt row => ∃ estudiante curso, s.lastReply = some estudiante ∧
      estudiante.cursos[row]? = some curso ∧
      curso.documentID ∉ MenuTable.cursosTV.placeholder
  | _ => True

/-- The tables show the last reply. -/
def Shows (s : MenuVisit) : Prop :=
  ∀ table : MenuTable, table.lines s.menu = table.expected s.lastReply

theorem expected_eq_placeholder_iff {table : MenuTable} {reply : Option Estudiante} :
    table.expected reply = table.placeholder ↔ ∀ estudiante ∈ reply, Bare table estudiante := by
  cases reply with
  | none => simp [MenuTable.expected]
  | some estudiante =>
    by_cases h : table.documents estudiante = [] <;> simp [MenuTable.expected, Bare, h]

/-- A table shows the reply after it was refilled, unless the reply has nothing for it and
there was something before. -/
theorem refill_eq_expected_iff {table : MenuTable} {lines : List String}
    {estudiante : Estudiante} :
    refill lines (table.documents estudiante) = table.expected (some estudiante) ↔
      (table.documents estudiante = [] → lines = table.placeholder) := by
  by_cases h : table.documents estudiante = []
  · simp [refill, MenuTable.expected, h]
  · have hpos : 0 < (table.documents estudiante).length := List.length_pos_iff.mpr h
    simp [refill, MenuTable.expected, h, hpos]

/-- The identifier in a row of a table that shows the last reply. -/
theorem Shows.row (hs : Shows s) {row : Nat} {curso : String}
    (hrow : s.menu.cursos[row]? = some curso) :
    (curso ∉ MenuTable.cursosTV.placeholder ∧ ∃ estudiante, s.lastReply = some estudiante ∧
      curso ∈ estudiante.cursos.map DocumentReference.documentID) ↔
      KeepsLists s (.didSelectRowAt row) := by
  have hlines : s.menu.cursos = MenuTable.cursosTV.expected s.lastReply := hs .cursosTV
  rw [hlines] at hrow
  cases hreply : s.lastReply with
  | none => simp [KeepsLists, hreply]
  | some estudiante =>
    by_cases hempty : estudiante.cursos = []
    · simp [KeepsLists, hreply, hempty]
    · have hcurso : ∃ doc, estudiante.cursos[row]? = some doc ∧ doc.documentID = curso := by
        simpa [MenuTable.expected, hreply, MenuTable.documents, hempty] using hrow
      obtain ⟨doc, hdoc, rfl⟩ := hcurso
      simp only [KeepsLists, hreply, hdoc, Option.some.injEq, exists_and_left, exists_eq_left',
        and_iff_left_iff_imp]
      exact fun _ => List.mem_map_of_mem (List.mem_of_getElem? hdoc)

/-- **One step is right exactly if it meets the condition.** -/
theorem right_iff {e : MenuEvent} (hs : Shows s) (h : menuVisits.step s e = some t) :
    Right s e ↔ KeepsLists s e := by
  simp only [Right, h, Option.some.injEq, forall_eq']
  cases step_cases h with
  | viewWillAppear => exact Iff.rfl
  | studentDownloaded estudiante menu hmenu =>
    simp only [hmenu, refill_eq_expected_iff, hs _, expected_eq_placeholder_iff, KeepsLists,
      Option.mem_some_iff, forall_eq']
    constructor
    · intro hall before hbefore table hempty
      exact hall table hempty before hbefore
    · intro hall table hempty before hbefore
      exact hall before hbefore table hempty
  | didSelectRowAt row curso menu hrow hsent =>
    simp only [hsent, List.append_cancel_left_eq, List.cons.injEq, and_true, forall_eq']
    exact hs.row hrow
  | courseDownloaded k curso menu hmenu => exact Iff.rfl

/-- And then the tables go on showing the last reply. -/
theorem Shows.step {e : MenuEvent} (hs : Shows s) (hright : Right s e)
    (h : menuVisits.step s e = some t) : Shows t := by
  have hright := hright t h
  cases step_cases h with
  | viewWillAppear => exact hs
  | studentDownloaded estudiante menu hmenu => exact hright
  | didSelectRowAt row curso menu hrow hsent hmenu =>
    exact fun table => (hmenu table).trans (hs table)
  | courseDownloaded k curso menu hmenu => exact fun table => (hmenu table).trans (hs table)

end MenuVisit

/-- **When the menu shows the last student record and nothing else**: in a run, exactly if
all its steps meet `KeepsLists`. -/
theorem menu_shows_lastReply_iff (es : List MenuEvent) (s : MenuVisit)
    (hrun : menuVisits.run {} es = some s) :
    menuVisits.Meets MenuVisit.Right {} es ↔ menuVisits.Meets MenuVisit.KeepsLists {} es := by
  refine menuVisits.meets_congr_of_invariant _ (P := MenuVisit.Shows) (fun hs hC h => ?_)
    (fun hs h => MenuVisit.right_iff hs h) (fun table => rfl) hrun
  exact hs.step ((MenuVisit.right_iff hs h).mpr hC) h

/-- A student with a course. -/
def sampleEstudiante (cursos : List DocumentReference) : Estudiante :=
  ⟨"a1@tec.mx", "a1@tec.mx", "A", "B", "A01", [], [], [], [], cursos⟩

/-- The student's course is listed and tapped; then there is another one, which is listed and
tapped in its place. -/
def twoReplies : List MenuEvent :=
  [.viewWillAppear, .studentDownloaded (some (sampleEstudiante [⟨"curso", "c1"⟩])),
    .didSelectRowAt 0, .viewWillAppear,
    .studentDownloaded (some (sampleEstudiante [⟨"curso", "c2"⟩])), .didSelectRowAt 0]

theorem menu_shows_lastReply_courses :
    ∃ s, menuVisits.run {} twoReplies = some s ∧
      menuVisits.Meets MenuVisit.Right {} twoReplies := by
  refine ⟨_, rfl, (menu_shows_lastReply_iff twoReplies _ rfl).mpr ?_⟩
  refine (menuVisits.meets_cons _ rfl).mpr ⟨trivial, ?_⟩
  refine (menuVisits.meets_cons _ rfl).mpr ⟨fun _ _ _ h => (nomatch h), ?_⟩
  refine (menuVisits.meets_cons _ rfl).mpr ⟨⟨_, _, rfl, rfl, by decide⟩, ?_⟩
  refine (menuVisits.meets_cons _ rfl).mpr ⟨trivial, ?_⟩
  refine (menuVisits.meets_cons _ rfl).mpr ⟨?_, ?_⟩
  · -- the other two tables were empty before, and the courses are not empty now
    rintro now hnow before hbefore table hempty
    obtain rfl := Option.some.inj hnow
    obtain rfl := Option.some.inj hbefore
    cases table with
    | equiposTV | grupoTV => exact Or.inl rfl
    | cursosTV => cases hempty
  exact (menuVisits.meets_cons _ rfl).mpr ⟨⟨_, _, rfl, rfl, by decide⟩, trivial⟩

/-- The student has left the only course: it is still listed, and a tap still sends it.
And a tap before the first reply sends the placeholder. -/
theorem menu_keeps_old_course :
    (∃ s, menuVisits.run {} [.viewWillAppear,
        .studentDownloaded (some (sampleEstudiante [⟨"curso", "c1"⟩])), .viewWillAppear] = some s ∧
      s.menu.cursos = ["c1"] ∧
      ¬ MenuVisit.Right s (.studentDownloaded (some (sampleEstudiante [])))) ∧
    ∃ s, menuVisits.run {} [.viewWillAppear] = some s ∧
      (menuVisits.step s (.didSelectRowAt 0)).map (fun t => t.menu.courseLoads) =
        some ["No se han encontrado cursos..."] ∧
      ¬ MenuVisit.Right s (.didSelectRowAt 0) := by
  refine ⟨⟨_, rfl, rfl, fun h => ?_⟩, _, rfl, rfl, fun h => ?_⟩
  · exact absurd (h _ rfl .cursosTV) (by decide)
  · exact (h _ rfl _ rfl).1 (by decide)

end Musgravite
