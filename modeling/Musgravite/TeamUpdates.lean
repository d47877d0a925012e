import Mathlib.Data.Set.Insert
import Mathlib.Order.BooleanAlgebra.Set
import Musgravite.Writes

/-! # Do team updates reach the team?

For its members a team is a name, a set of members and a set of projects, and an
update changes one of the two sets.  An upload method implements an update of a
team if it reports success and what `getTeamData` shows afterwards is what it
showed before, updated.

Teams live in `equipo`; the three methods update `equipos`.  So they implement an
update only when there is nothing to do, and a document in `equipos` happens to
have the team's identifier; no method of the app ever puts one there. -/
namespace Musgravite
open FirebaseController

/-- A team, as its members see it. -/
@[ext] structure Team where
  nombre : String
  integrantes : Set String
  proyectos : Set DocumentReference

namespace Team

def addParticipant (p : String) (team : Team) : Team :=
  { team with integrantes := insert p team.integrantes }

def removeParticipant (p : String) (team : Team) : Team :=
  { team with integrantes := team.integrantes \ {p} }

def addProject (r : DocumentReference) (team : Team) : Team :=
  { team with proyectos := insert r team.proyectos }

theorem addParticipant_eq_self_iff {p : String} {team : Team} :
    team.addParticipant p = team ↔ p ∈ team.integrantes := by
  rw [Team.ext_iff]
  simp [addParticipant, Set.insert_eq_self]

theorem removeParticipant_eq_self_iff {p : String} {team : Team} :
    team.removeParticipant p = team ↔ p ∉ team.integrantes := by
  rw [Team.ext_iff]
  simp [removeParticipant]

theorem addProject_eq_self_iff {r : DocumentReference} {team : Team} :
    team.addProject r = team ↔ r ∈ team.proyectos := by
  rw [Team.ext_iff]
  simp [addProject, Set.insert_eq_self]

end Team

/-- The team a decoded document stands for. -/
def Equipo.team (e : Equipo) : Team where
  nombre := e.nombre
  integrantes := {p | ∃ r ∈ e.integrantes, r.documentID = p}
  proyectos := {r | r ∈ e.proyectos}

/-- `getTeamData` shows `team` for the identifier. -/
def Shows (s : Store) (teamID : String) (team : Team) : Prop :=
  ∃ e, getTeamData s true ⟨"equipo", teamID⟩ = some [some e] ∧ e.team = team

/-- The method, its requests answered with `os`, updates the team by `effect`: it
reports true, and `getTeamData` shows the team before, and the updated one after. -/
def Implements (program : Program Bool) (os : List Outcome) (s : Store) (teamID : String)
    (effect : Team → Team) : Prop :=
  ∃ t team, program.exec os s = some (t, true) ∧ Shows s teamID team ∧
    Shows t teamID (effect team)

/-! ## What `getTeamData` reads -/

theorem Shows.unique {s : Store} {teamID : String} {team team' : Team} (h : Shows s teamID team)
    (h' : Shows s teamID team') : team = team' := by
  obtain ⟨e, he, rfl⟩ := h
  obtain ⟨e', he', rfl⟩ := h'
  rw [he] at he'
  obtain rfl : e = e' := by simpa using he'
  rfl

/-- Writes elsewhere do not show. -/
theorem shows_write_iff {s : Store} {r : DocumentReference} {f : Fields} {teamID : String}
    {team : Team} (h : r ≠ ⟨"equipo", teamID⟩) :
    Shows (s.write r f) teamID team ↔ Shows s teamID team := by
  unfold Shows getTeamData Store.getDocument
  rw [Store.documents_write_of_ne _ _ h.symm]

/-- A shown team is stored, so its projects are known to the store. -/
theorem Shows.known {s : Store} {teamID : String} {team : Team} (h : Shows s teamID team) :
    teamID ∈ s.known ∧ ∀ r ∈ team.proyectos, r.documentID ∈ s.known := by
  obtain ⟨e, he, rfl⟩ := h
  obtain ⟨f, hf, hdecode⟩ := readDocument_eq_some_iff.mp he
  exact ⟨s.document_known hf, fun r hr =>
    known_of_field hf (decodeEquipo_eq_some.mp hdecode).2.2.2 hr⟩

/-! ## Updates of `equipos` -/

/-- **An update of a document in `equipos`** goes through if there is such a
document, and what is shown of the team stays as it is. -/
theorem implements_equipos_iff {s : Store} {teamID id : String}
    {fields : List (String × FieldUpdate)} {effect : Team → Team} :
    Implements (updateAndReport ⟨"equipos", teamID⟩ fields) [⟨true, id⟩] s teamID effect ↔
      s.documents ⟨"equipos", teamID⟩ ≠ none ∧
        ∃ team, Shows s teamID team ∧ effect team = team := by
  unfold Implements updateAndReport Program.exec
  cases hdoc : s.documents ⟨"equipos", teamID⟩ with
  | none => simp [Store.updateData, hdoc, Program.exec]
  | some f =>
    simp only [if_true, Store.updateData, hdoc, Option.map_some, Bool.false_eq_true, if_false,
      Program.exec, Option.some.injEq, Prod.mk.injEq, and_true, exists_and_left, exists_eq_left',
      ne_eq, reduceCtorEq, not_false_eq_true, true_and]
    refine exists_congr fun team => and_congr_right fun hteam => ?_
    rw [shows_write_iff (by simp)]
    exact ⟨fun h => h.unique hteam, fun h => by rwa [h]⟩

/-- `addNewProjectToTeam` never implements the addition of the project: the
reference of the new project is new, and the shown team is the old one. -/
theorem not_implements_addNewProjectToTeam {s : Store} {teamID id id' : String}
    {project : Proyecto} :
    ¬ Implements (addNewProjectToTeam teamID project) [⟨true, id⟩, ⟨true, id'⟩] s teamID
      (Team.addProject ⟨"proyectos", id⟩) := by
  rintro ⟨t, team, hexec, hteam, hafter⟩
  unfold addNewProjectToTeam createNewProject at hexec
  cases hdata : project.firestoreReady with
  | none =>
    rw [hdata] at hexec
    cases hexec
  | some data =>
    rw [hdata] at hexec
    simp only [Program.exec, if_true, Bool.false_eq_true, if_false] at hexec
    obtain ⟨u, hu, hlink⟩ := Option.bind_eq_some_iff.mp hexec
    obtain ⟨-, hfresh, rfl⟩ := Store.addDocument_eq_some.mp hu
    -- between the two requests the old team is shown, so the second one would have to
    -- leave it as it is, with a project that the store did not know
    have hbefore : Shows (s.write ⟨"proyectos", id⟩ data) teamID team :=
      (shows_write_iff (by simp)).mpr hteam
    obtain ⟨-, team', hteam', hsame⟩ := implements_equipos_iff.mp ⟨t, team, hlink, hbefore, hafter⟩
    obtain rfl := hteam'.unique hbefore
    exact hfresh (hteam.known.2 _ (Team.addProject_eq_self_iff.mp hsame))

/-! ## Teams made by the app -/

section Runs
variable {ι : Type} [DecidableEq ι]

/-- No upload method creates a document in `equipos`. -/
theorem equipos_stays_missing {calls : ι → Call} {s t : Pool ι Bool} {as : List (PoolAction ι)}
    {teamID : String} (hc : ∀ i, (calls i).program.Continues (s.thread i).program)
    (hs : s.store.documents ⟨"equipos", teamID⟩ = none)
    (h : (pool ι Bool).run s as = some t) : t.store.documents ⟨"equipos", teamID⟩ = none := by
  refine ((pool ι Bool).run_invariant (P := fun t =>
    (∀ i, (calls i).program.Continues (t.thread i).program) ∧
      t.store.documents ⟨"equipos", teamID⟩ = none) ?_ ⟨hc, hs⟩ h).2
  rintro s a t ⟨hc, hs⟩ hstep
  refine ⟨Pool.step_continues hc hstep, ?_⟩
  cases Pool.step_cases hstep with
  | accept i id p q u hp hq ht =>
    subst ht
    have hci := hc i
    rw [hp] at hci
    obtain ⟨r, f, hup, rfl⟩ := Call.accept_eq_write hci hq
    have hne : (⟨"equipos", teamID⟩ : DocumentReference) ≠ r := by
      rintro rfl
      have := (hup.created hs).2
      simp at this
    rw [Pool.setThread_store, Store.documents_write_of_ne _ _ hne]
    exact hs
  | refuse i id p q hp hq ht | deliver i p hp ht =>
    subst ht
    exact hs

/-- When `addTeamToGroup` creates a team, `equipos` has no document under its
identifier. -/
theorem equipos_missing_of_created {s t : Pool ι Bool} {i : ι} {teamID : String} {team : Equipo}
    {grupoID : String} (hthread : s.thread i = .sent (addTeamToGroup team grupoID))
    (hstep : (pool ι Bool).step s (.accept i teamID) = some t) :
    t.store.documents ⟨"equipos", teamID⟩ = none := by
  cases Pool.step_cases hstep with
  | accept i id p q v hp hq ht =>
    subst ht
    obtain rfl : addTeamToGroup team grupoID = p := by injection hthread.symm.trans hp
    obtain ⟨⟨-, hfresh⟩, rfl, -⟩ := accept_addTeamToGroup hq
    rw [Pool.setThread_store, Store.documents_write_of_ne _ _ (by simp)]
    exact Store.documents_eq_none_of_fresh hfresh _

end Runs

theorem implements_addParticipantToTeam_iff {s : Store} {teamID participantID id : String} :
    Implements (addParticipantToTeam teamID participantID) [⟨true, id⟩] s teamID
        (Team.addParticipant participantID) ↔
      s.documents ⟨"equipos", teamID⟩ ≠ none ∧
        ∃ team, Shows s teamID team ∧ participantID ∈ team.integrantes := by
  simp only [addParticipantToTeam, implements_equipos_iff, Team.addParticipant_eq_self_iff]

theorem implements_removeParticipantFromTeam_iff {s : Store} {teamID participantID id : String} :
    Implements (removeParticipantFromTeam teamID participantID) [⟨true, id⟩] s teamID
        (Team.removeParticipant participantID) ↔
      s.documents ⟨"equipos", teamID⟩ ≠ none ∧
        ∃ team, Shows s teamID team ∧ participantID ∉ team.integrantes := by
  simp only [removeParticipantFromTeam, implements_equipos_iff,
    Team.removeParticipant_eq_self_iff]

/-- **When team updates reach the team.**  In an arbitrary store, adding (removing)
a participant does what it says exactly if `equipos` holds a document under the
team's identifier, the team can be read and the participant is already in (not
in) it; adding a project never does.  After `addTeamToGroup` has created the team,
in whatever run of upload methods, `equipos` never holds such a document. -/
theorem teamUpdates_implemented_iff (s₀ : Store) (teamID : String) :
    (∀ participantID id,
      Implements (addParticipantToTeam teamID participantID) [⟨true, id⟩] s₀ teamID
          (Team.addParticipant participantID) ↔
        s₀.documents ⟨"equipos", teamID⟩ ≠ none ∧
          ∃ team, Shows s₀ teamID team ∧ participantID ∈ team.integrantes) ∧
    (∀ participantID id,
      Implements (removeParticipantFromTeam teamID participantID) [⟨true, id⟩] s₀ teamID
          (Team.removeParticipant participantID) ↔
        s₀.documents ⟨"equipos", teamID⟩ ≠ none ∧
          ∃ team, Shows s₀ teamID team ∧ participantID ∉ team.integrantes) ∧
    (∀ project id id',
      ¬ Implements (addNewProjectToTeam teamID project) [⟨true, id⟩, ⟨true, id'⟩] s₀ teamID
        (Team.addProject ⟨"proyectos", id⟩)) ∧
    ∀ (ι : Type) [DecidableEq ι] (calls : ι → Call) (as bs : List (PoolAction ι))
      (s t u : Pool ι Bool) (i : ι) (team : Equipo) (grupoID : String),
      (pool ι Bool).run (Pool.start s₀ fun i => (calls i).program) as = some s →
      s.thread i = .sent (addTeamToGroup team grupoID) →
      (pool ι Bool).step s (.accept i teamID) = some t →
      (pool ι Bool).run t bs = some u →
      u.store.documents ⟨"equipos", teamID⟩ = none := by
  refine ⟨fun _ _ => implements_addParticipantToTeam_iff,
    fun _ _ => implements_removeParticipantFromTeam_iff,
    fun _ _ _ => not_implements_addNewProjectToTeam, ?_⟩
  intro ι _ calls as bs s t u i team grupoID hrun hthread hstep hrun'
  exact equipos_stays_missing (Pool.step_continues (Pool.run_continues hrun) hstep)
    (equipos_missing_of_created hthread hstep) hrun'

/-- One call of `addTeamToGroup` creates and links its team. -/
theorem teamUpdates_miss_created :
    ∃ u, (pool Unit Bool).run (Pool.start groupStore fun _ =>
        (Call.addTeamToGroup ⟨"", "Equipo 1", [⟨"estudiante", "a1"⟩], []⟩ "g1").program)
      [.accept () "t1", .deliver (), .accept () "", .deliver ()] = some u ∧
      u.store.documents ⟨"equipos", "t1"⟩ = none :=
  ⟨_, rfl, (teamUpdates_implemented_iff groupStore "t1").2.2.2 Unit
    (fun _ => .addTeamToGroup ⟨"", "Equipo 1", [⟨"estudiante", "a1"⟩], []⟩ "g1") []
    [.deliver (), .accept () "", .deliver ()] _ _ _ () _ "g1" rfl rfl rfl rfl⟩

/-- A team is created and linked; adding a participant to it then fails. -/
theorem addParticipantToTeam_misses :
    ∃ s, (addTeamToGroup ⟨"", "Equipo 1", [⟨"estudiante", "a1"⟩], [⟨"proyectos", "p1"⟩]⟩ "g1").exec
        [⟨true, "t1"⟩, ⟨true, ""⟩] groupStore = some (s, true) ∧
      getTeamData s true ⟨"equipo", "t1"⟩ =
        some [some ⟨"t1", "Equipo 1", [⟨"estudiante", "a1"⟩], [⟨"proyectos", "p1"⟩]⟩] ∧
      (addParticipantToTeam "t1" "a2").exec [⟨true, ""⟩] s = some (s, false) ∧
      ¬ Implements (addParticipantToTeam "t1" "a2") [⟨true, ""⟩] s "t1"
        (Team.addParticipant "a2") := by
  refine ⟨_, rfl, by decide +kernel, rfl, ?_⟩
  rw [implements_addParticipantToTeam_iff]
  exact fun h => h.1 rfl

end Musgravite
