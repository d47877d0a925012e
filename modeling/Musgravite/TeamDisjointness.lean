import Musgravite.TeamVisibility

/-! # Can a student end up in two teams of one group?

Nothing in the store forbids it: the only guard is the list of students that the
creator offers, computed from what the screen downloaded some time before.  So the
teams of a group stay disjoint as long as the submissions are: a submission has to
be free, when it is made, of the members of the teams that the group lists at that
moment and of the teams that are still on their way to it (`SubmitsFree`).

The invariant (`Apart`) is that the teams listed and the teams on their way are
pairwise disjoint.  A team joins at its submission, where the condition is about
exactly these, and moves from one side to the other when it is linked. -/
namespace Musgravite
open FirebaseController

/-- The teams in the `equipos` of a group. -/
def listedTeams (s : Store) (grupoID : String) : List DocumentReference :=
  s.references ⟨"grupo", grupoID⟩ "equipos"

/-- The members of a team, which `getTeamData` looks for in `equipo`. -/
def members (s : Store) (team : DocumentReference) : List DocumentReference :=
  s.references ⟨"equipo", team.documentID⟩ "integrantes"

/-- No two teams listed in the group have a member in common. -/
def TeamsDisjoint (s : Store) (grupoID : String) : Prop :=
  ∀ r ∈ listedTeams s grupoID, ∀ q ∈ listedTeams s grupoID, r.documentID ≠ q.documentID →
    (members s r).Disjoint (members s q)

theorem members_of_stored {s : Store} {r : DocumentReference} {team : Equipo}
    (hc : r.collection = "equipo") (h : s.documents r = some team.firestoreReady) :
    members s r = team.integrantes := by
  obtain ⟨collection, id⟩ := r
  obtain rfl : collection = "equipo" := hc
  refine references_of_field h ?_
  simp [field, team.lookup_firestoreReady]

/-! ## Writes -/

section Writes
variable {s : Store} {grupoID id : String}

theorem listedTeams_write_team (data : Fields) :
    listedTeams (s.write ⟨"equipo", id⟩ data) grupoID = listedTeams s grupoID :=
  Store.references_write_of_ne _ _ (by simp)

theorem members_write_team {r : DocumentReference} (hr : r.documentID ∈ s.known)
    (hid : id ∉ s.known) (data : Fields) :
    members (s.write ⟨"equipo", id⟩ data) r = members s r := by
  refine Store.references_write_of_ne _ _ ?_
  rintro he
  obtain rfl : r.documentID = id := by simpa using he
  exact hid hr

theorem members_write_group (r : DocumentReference) (data : Fields) :
    members (s.write ⟨"grupo", id⟩ data) r = members s r :=
  Store.references_write_of_ne _ _ (by simp)

theorem listedTeams_write_group_of_ne (data : Fields) (h : grupoID ≠ id) :
    listedTeams (s.write ⟨"grupo", id⟩ data) grupoID = listedTeams s grupoID :=
  Store.references_write_of_ne _ _ (by simpa using h)

end Writes

namespace World
variable {ι : Type} [DecidableEq ι] {w v : World ι} {grupoID : String}

/-- The upload is on its way to the group with this team: it has been submitted and
has not come to a report. -/
def InFlight (w : World ι) (grupoID : String) (k : ι × Nat) (team : Equipo) : Prop :=
  w.submission k = some (team, grupoID) ∧ ∀ b, (w.uploads.thread k).program ≠ .report b

/-- No member of the team is in a team listed in the group or on its way there. -/
structure Free (w : World ι) (grupoID : String) (team : Equipo) : Prop where
  listed : ∀ r ∈ listedTeams w.uploads.store grupoID,
    team.integrantes.Disjoint (members w.uploads.store r)
  inFlight : ∀ k other, w.InFlight grupoID k other →
    team.integrantes.Disjoint other.integrantes

omit [DecidableEq ι] in
/-- **When the creator's list is guard enough**: the screen showed one team when the
creator was opened, the teams that the group lists now have its members or none,
and no other team is on its way. -/
theorem free_of_one_team {team shown : Equipo} {group : Grupo} {students : List Estudiante}
    {teamName target : String} {rows : List Nat}
    (hcall : (TeamCreator.prepare group [shown] students).createTeam teamName rows =
      .addTeamToGroup team target)
    (hlisted : ∀ r ∈ listedTeams w.uploads.store grupoID,
      members w.uploads.store r ⊆ shown.integrantes)
    (hflight : ∀ k other, ¬ w.InFlight grupoID k other) : w.Free grupoID team where
  listed r hr m hm hmr := by
    have hoffered : m ∈ (selectableStudents group [shown] students).2 :=
      TeamCreator.integrantes_subset hcall hm
    obtain ⟨-, t, ht, hout⟩ := mem_selectableStudents_snd.mp hoffered
    obtain rfl := List.mem_singleton.mp ht
    exact hout (hlisted r hr hmr)
  inFlight k other hk := absurd hk (hflight k other)

/-- The steps that submit to the group only free teams. -/
def SubmitsFree (grupoID : String) (w : World ι) : WorldAction ι → Prop
  | .screen i (.createTeam teamName rows) => ∀ screen creator team,
      w.screen i = .group screen → screen.creator = some creator →
      creator.createTeam teamName rows = .addTeamToGroup team grupoID → w.Free grupoID team
  | _ => True

/-- The teams listed in the group and those on their way to it are disjoint. -/
structure Apart (grupoID : String) (w : World ι) : Prop where
  sound : w.Sound
  listed : TeamsDisjoint w.uploads.store grupoID
  inFlight_free : ∀ k team, w.InFlight grupoID k team → ∀ r ∈ listedTeams w.uploads.store grupoID,
    team.integrantes.Disjoint (members w.uploads.store r)
  inFlight : ∀ k j team other, w.InFlight grupoID k team → w.InFlight grupoID j other → k ≠ j →
    team.integrantes.Disjoint other.integrantes
  /-- A team to be linked is stored as it was submitted. -/
  stored : ∀ k team r, w.submission k = some (team, grupoID) →
    (w.uploads.thread k).program = linkTeam grupoID r →
    r.collection = "equipo" ∧ w.uploads.store.documents r = some team.firestoreReady

/-! ## Uploads -/

/-- An upload that is on its way after a step was on its way before. -/
theorem InFlight.of_upload {a : PoolAction (ι × Nat)} {k : ι × Nat} {team : Equipo}
    (h : (pool (ι × Nat) Bool).step w.uploads a = some v.uploads)
    (hsub : ∀ k, v.submission k = w.submission k) (hk : v.InFlight grupoID k team) :
    w.InFlight grupoID k team := by
  refine ⟨hsub k ▸ hk.1, fun b hb => hk.2 b ?_⟩
  have := Pool.step_thread h k
  rw [hb] at this
  exact report_continues this

/-- What a step of the uploads must keep: the store may change as long as the listed
teams stay disjoint, also from those on their way, and a team to be linked is
stored. -/
theorem Apart.of_upload (hw : w.Apart grupoID) (hv : v.Sound) {a : PoolAction (ι × Nat)}
    (h : (pool (ι × Nat) Bool).step w.uploads a = some v.uploads)
    (hsub : ∀ k, v.submission k = w.submission k)
    (hlisted : TeamsDisjoint v.uploads.store grupoID)
    (hfree : ∀ k team, v.InFlight grupoID k team → ∀ r ∈ listedTeams v.uploads.store grupoID,
      team.integrantes.Disjoint (members v.uploads.store r))
    (hstored : ∀ k team r, w.submission k = some (team, grupoID) →
      (v.uploads.thread k).program = linkTeam grupoID r →
      r.collection = "equipo" ∧ v.uploads.store.documents r = some team.firestoreReady) :
    v.Apart grupoID where
  sound := hv
  listed := hlisted
  inFlight_free := hfree
  inFlight k j team other hk hj :=
    hw.inFlight k j team other (hk.of_upload h hsub) (hj.of_upload h hsub)
  stored k team r hk hr := hstored k team r (hsub k ▸ hk) hr

/-- A team is created: nothing listed changes. -/
theorem Apart.create (hw : w.Apart grupoID) (hv : v.Sound) {k : ι × Nat} {id : String}
    {team : Equipo} {target : String}
    (h : (pool (ι × Nat) Bool).step w.uploads (.accept k id) = some v.uploads)
    (hsub : ∀ k, v.submission k = w.submission k) (hk : w.submission k = some (team, target))
    (hid : IsDocumentID id) (hfresh : id ∉ w.uploads.store.known)
    (huploads : v.uploads = Pool.setThread
      ⟨w.uploads.store.write ⟨"equipo", id⟩ team.firestoreReady, w.uploads.thread⟩ k
      (.answered (linkTeam target ⟨"equipo", id⟩))) : v.Apart grupoID := by
  have hstore : v.uploads.store = w.uploads.store.write ⟨"equipo", id⟩ team.firestoreReady := by
    rw [huploads]
    rfl
  have hlist : listedTeams v.uploads.store grupoID = listedTeams w.uploads.store grupoID := by
    rw [hstore, listedTeams_write_team]
  have hmembers : ∀ r ∈ listedTeams w.uploads.store grupoID,
      members v.uploads.store r = members w.uploads.store r := fun r hr => by
    rw [hstore, members_write_team (Store.known_of_mem_references hr) hfresh]
  refine hw.of_upload hv h hsub ?_ ?_ ?_
  · intro r hr q hq hne
    rw [hlist] at hr hq
    rw [hmembers r hr, hmembers q hq]
    exact hw.listed r hr q hq hne
  · intro j other hj r hr
    rw [hlist] at hr
    rw [hmembers r hr]
    exact hw.inFlight_free j other (hj.of_upload h hsub) r hr
  · intro j other r hj hr
    rw [hstore]
    by_cases hjk : j = k
    · subst hjk
      rw [huploads, Pool.setThread_self] at hr
      rw [hk] at hj
      obtain ⟨rfl, rfl⟩ := Prod.mk.inj (Option.some.inj hj)
      obtain rfl : (⟨"equipo", id⟩ : DocumentReference) = r := by
        simpa [Thread.program, linkTeam, updateAndReport] using hr
      exact ⟨rfl, w.uploads.store.documents_write_self hid _⟩
    · rw [huploads, Pool.setThread_of_ne _ _ hjk] at hr
      obtain ⟨hc, hd⟩ := hw.stored j other r hj hr
      refine ⟨hc, ?_⟩
      rw [Store.documents_write_of_ne _ _ ?_]
      · exact hd
      · rintro rfl
        exact hfresh (w.uploads.store.document_known hd)

section Link
variable {k : ι × Nat} {id : String} {team : Equipo} {target : String} {r : DocumentReference}
  {f : Fields}

/-- The uploads after a link: `r` is in the list of `target`. -/
def Linked (w v : World ι) (k : ι × Nat) (target : String) (r : DocumentReference) (f : Fields) :
    Prop :=
  v.uploads = Pool.setThread ⟨w.uploads.store.write ⟨"grupo", target⟩
    (f.update [("equipos", .arrayUnion [.reference r])]), w.uploads.thread⟩ k
      (.answered (.report true))

theorem Linked.store (h : Linked w v k target r f) :
    v.uploads.store = w.uploads.store.write ⟨"grupo", target⟩
      (f.update [("equipos", .arrayUnion [.reference r])]) := by
  rw [h]
  rfl

theorem Linked.members (h : Linked w v k target r f) (q : DocumentReference) :
    members v.uploads.store q = members w.uploads.store q := by
  rw [h.store, members_write_group]

/-- The other teams to be linked are still stored. -/
theorem Linked.stored (h : Linked w v k target r f) (hw : w.Apart grupoID) (j : ι × Nat)
    (other : Equipo) (q : DocumentReference) (hj : w.submission j = some (other, grupoID))
    (hq : (v.uploads.thread j).program = linkTeam grupoID q) :
    q.collection = "equipo" ∧ v.uploads.store.documents q = some other.firestoreReady := by
  by_cases hjk : j = k
  · subst hjk
    rw [h, Pool.setThread_self] at hq
    cases hq
  · rw [h, Pool.setThread_of_ne _ _ hjk] at hq
    obtain ⟨hc, hd⟩ := hw.stored j other q hj hq
    refine ⟨hc, ?_⟩
    rw [h.store, Store.documents_write_of_ne _ _ (by rintro rfl; simp at hc)]
    exact hd

/-- A link in another group changes nothing here. -/
theorem Apart.link_elsewhere (hw : w.Apart grupoID) (hv : v.Sound)
    (h : (pool (ι × Nat) Bool).step w.uploads (.accept k id) = some v.uploads)
    (hsub : ∀ k, v.submission k = w.submission k) (hlinked : Linked w v k target r f)
    (htarget : grupoID ≠ target) : v.Apart grupoID := by
  have hlist : listedTeams v.uploads.store grupoID = listedTeams w.uploads.store grupoID := by
    rw [hlinked.store, listedTeams_write_group_of_ne _ htarget]
  refine hw.of_upload hv h hsub ?_ ?_ (hlinked.stored hw)
  · intro q hq p hp hne
    rw [hlist] at hq hp
    rw [hlinked.members, hlinked.members]
    exact hw.listed q hq p hp hne
  · intro j other hj q hq
    rw [hlist] at hq
    rw [hlinked.members]
    exact hw.inFlight_free j other (hj.of_upload h hsub) q hq

/-- A team is linked: it was disjoint from everything listed while on its way. -/
theorem Apart.link (hw : w.Apart grupoID) (hv : v.Sound)
    (h : (pool (ι × Nat) Bool).step w.uploads (.accept k id) = some v.uploads)
    (hsub : ∀ k, v.submission k = w.submission k) (hk : w.submission k = some (team, grupoID))
    (hthread : (w.uploads.thread k).program = linkTeam grupoID r)
    (hf : w.uploads.store.documents ⟨"grupo", grupoID⟩ = some f)
    (hlinked : Linked w v k grupoID r f) : v.Apart grupoID := by
  have hflight : w.InFlight grupoID k team :=
    ⟨hk, fun b hb => by rw [hthread] at hb; cases hb⟩
  have hteam : members w.uploads.store r = team.integrantes := by
    obtain ⟨hc, hd⟩ := hw.stored k team r hk hthread
    exact members_of_stored hc hd
  -- the list has one new entry, whose team was on its way until now
  have hmem : ∀ q, q ∈ listedTeams v.uploads.store grupoID ↔
      q ∈ listedTeams w.uploads.store grupoID ∨ q = r := fun q => by
    rw [hlinked.store]
    exact Store.mem_references_union hf
  refine hw.of_upload hv h hsub ?_ ?_ (hlinked.stored hw)
  · intro q hq p hp hne
    rw [hlinked.members, hlinked.members]
    rcases (hmem q).mp hq with hq | rfl
    · rcases (hmem p).mp hp with hp | rfl
      · exact hw.listed q hq p hp hne
      · rw [hteam]
        exact (hw.inFlight_free k team hflight q hq).symm
    · rcases (hmem p).mp hp with hp | rfl
      · rw [hteam]
        exact hw.inFlight_free k team hflight p hp
      · exact absurd rfl hne
  · intro j other hj q hq
    have hjw := hj.of_upload h hsub
    rw [hlinked.members]
    rcases (hmem q).mp hq with hq | rfl
    · exact hw.inFlight_free j other hjw q hq
    · rw [hteam]
      refine hw.inFlight j k other team hjw hflight ?_
      rintro rfl
      exact hj.2 true (by rw [hlinked, Pool.setThread_self]; rfl)

end Link

/-- A step that leaves the store alone, and does not bring a link near. -/
theorem Apart.quiet (hw : w.Apart grupoID) (hv : v.Sound) {a : PoolAction (ι × Nat)}
    (h : (pool (ι × Nat) Bool).step w.uploads a = some v.uploads)
    (hsub : ∀ k, v.submission k = w.submission k) (hstore : v.uploads.store = w.uploads.store)
    (hlink : ∀ k r, (v.uploads.thread k).program = linkTeam grupoID r →
      (w.uploads.thread k).program = linkTeam grupoID r) : v.Apart grupoID := by
  refine hw.of_upload hv h hsub ?_ ?_ ?_
  · rw [hstore]
    exact hw.listed
  · rw [hstore]
    exact fun k team hk => hw.inFlight_free k team (hk.of_upload h hsub)
  · rw [hstore]
    exact fun k team r hk hr => hw.stored k team r hk (hlink k r hr)

theorem Apart.upload (hw : w.Apart grupoID) (hv : v.Sound) {a : PoolAction (ι × Nat)}
    (h : (pool (ι × Nat) Bool).step w.uploads a = some v.uploads)
    (hsub : ∀ k, v.submission k = w.submission k) : v.Apart grupoID := by
  cases Pool.step_cases h with
  | accept k id p q u hp hq ht =>
    obtain ⟨team, target, hk, hc⟩ := hw.sound.submission_of_sent hp (by rintro rfl; cases hq)
    rcases addTeamToGroup_continues hc with rfl | ⟨id', rfl⟩ | ⟨b, rfl⟩
    · obtain ⟨hid, rfl, rfl⟩ := accept_addTeamToGroup hq
      exact hw.create hv h hsub hk hid.1 hid.2 ht
    · obtain ⟨f, hf, rfl, rfl⟩ := accept_updateAndReport hq
      by_cases htarget : grupoID = target
      · subst htarget
        exact hw.link hv h hsub hk (by rw [hp]; rfl) hf ht
      · exact hw.link_elsewhere hv h hsub ht htarget
    · cases hq
  | refuse k id p q hp hq ht =>
    obtain ⟨team, target, hk, hc⟩ := hw.sound.submission_of_sent hp (by rintro rfl; cases hq)
    refine hw.quiet hv h hsub (by rw [ht]; rfl) fun j r hj => ?_
    by_cases hjk : j = k
    · subst hjk
      rw [ht, Pool.setThread_self, Thread.program, refuse_addTeamToGroup hc hq] at hj
      cases hj
    · rwa [ht, Pool.setThread_of_ne _ _ hjk] at hj
  | deliver k p hp ht =>
    refine hw.quiet hv h hsub (by rw [ht]; rfl) fun j r hj => ?_
    by_cases hjk : j = k
    · subst hjk
      rw [ht, Pool.setThread_self] at hj
      rw [hp]
      exact hj
    · rwa [ht, Pool.setThread_of_ne _ _ hjk] at hj

/-! ## Any step -/

/-- **A step that submits to the group only free teams keeps its teams apart.** -/
theorem Apart.step (hw : w.Apart grupoID) {a : WorldAction ι} (ha : SubmitsFree grupoID w a)
    (h : (world ι).step w a = some v) : v.Apart grupoID := by
  have hv := hw.sound.step h
  cases hw.sound.upload_cases h with
  | upload a hup hsub => exact hw.upload hv hup hsub
  | none a hup hsub =>
    have hflight : ∀ k team, v.InFlight grupoID k team → w.InFlight grupoID k team :=
      fun k team hk => ⟨hsub k ▸ hk.1, hup ▸ hk.2⟩
    refine ⟨hv, hup ▸ hw.listed, ?_, ?_, ?_⟩
    · rw [hup]
      exact fun k team hk => hw.inFlight_free k team (hflight k team hk)
    · exact fun k j team other hk hj =>
        hw.inFlight k j team other (hflight k team hk) (hflight j other hj)
    · rw [hup]
      exact fun k team r hk hr => hw.stored k team r (hsub k ▸ hk) hr
  | submit i teamName rows screen creator team target hi hcreator hcall k hk hkv hsub hvu =>
    have hstore : v.uploads.store = w.uploads.store := by
      rw [hvu]
      rfl
    -- the new upload, whose team is free if it is for this group, and the old ones
    have hflight : ∀ j other, v.InFlight grupoID j other →
        (j = k ∧ other = team ∧ w.Free grupoID team) ∨ (j ≠ k ∧ w.InFlight grupoID j other) := by
      intro j other hj
      by_cases hjk : j = k
      · subst hjk
        have hcalled := hj.1
        rw [hkv] at hcalled
        obtain ⟨rfl, rfl⟩ := Prod.mk.inj (Option.some.inj hcalled)
        exact Or.inl ⟨rfl, rfl, ha screen creator team hi hcreator hcall⟩
      · refine Or.inr ⟨hjk, hsub j hjk ▸ hj.1, fun b hb => hj.2 b ?_⟩
        rw [hvu, Pool.setThread_of_ne _ _ hjk]
        exact hb
    refine ⟨hv, hstore ▸ hw.listed, ?_, ?_, ?_⟩
    · rw [hstore]
      intro j other hj
      rcases hflight j other hj with ⟨-, rfl, hfree⟩ | ⟨-, hold⟩
      · exact hfree.listed
      · exact hw.inFlight_free j other hold
    · intro j l other another hj hl hne
      rcases hflight j other hj with ⟨rfl, rfl, hfree⟩ | ⟨-, hold⟩
      · rcases hflight l another hl with ⟨rfl, -, -⟩ | ⟨-, hold'⟩
        · exact absurd rfl hne
        · exact hfree.inFlight l another hold'
      · rcases hflight l another hl with ⟨rfl, rfl, hfree⟩ | ⟨-, hold'⟩
        · exact (hfree.inFlight j other hold).symm
        · exact hw.inFlight j l other another hold hold' hne
    · intro j other r hj hr
      rw [hstore]
      by_cases hjk : j = k
      · subst hjk
        rw [hvu, Pool.setThread_self] at hr
        cases hr
      · rw [hvu, Pool.setThread_of_ne _ _ hjk] at hr
        exact hw.stored j other r (hsub j hjk ▸ hj) hr

omit [DecidableEq ι] in
theorem apart_start {s₀ : Store} (h : TeamsDisjoint s₀ grupoID) :
    (start s₀ : World ι).Apart grupoID where
  sound := sound_start s₀
  listed := h
  inFlight_free k team hk := by cases hk.1
  inFlight k j team other hk := by cases hk.1
  stored k team r hk := by cases hk

end World

/-- **The teams of a group stay disjoint while the submissions are free.**  In any
run of group screens, of any number of clients, in which each team submitted to the
group has no member in common with the teams that the group lists at that moment
or with those still on their way there: if the teams listed in the group have no
common members at the start, they never have. -/
theorem teams_stay_disjoint {ι : Type} [DecidableEq ι] (s₀ : Store) (grupoID : String)
    (h₀ : TeamsDisjoint s₀ grupoID) (as : List (WorldAction ι)) (w : World ι)
    (hfree : (world ι).Meets (World.SubmitsFree grupoID) (.start s₀) as)
    (h : (world ι).run (.start s₀) as = some w) : TeamsDisjoint w.uploads.store grupoID :=
  ((world ι).run_invariant_of_meets (P := World.Apart grupoID)
    (fun hw ha hstep => hw.step ha hstep) (World.apart_start h₀) hfree h).listed

theorem teamsDisjoint_rosterStore : TeamsDisjoint rosterStore "g1" := by
  intro r hr q hq hne
  have hlist : listedTeams rosterStore "g1" = [⟨"equipo", "t0"⟩] := by decide +kernel
  rw [hlist, List.mem_singleton] at hr hq
  exact absurd (by rw [hr, hq]) hne

/-- A store with a group of three students, one of whom is in a team. -/
def threeStudents : Store :=
  ((((Store.empty.write ⟨"grupo", "g1"⟩ (Fields.ofList [
    ("equipos", .references [⟨"equipo", "t0"⟩]),
    ("estudiantes", .references [⟨"estudiante", "a1"⟩, ⟨"estudiante", "a2"⟩, ⟨"estudiante", "a3"⟩]),
    ("proyecto", .reference ⟨"proyectos", "p1"⟩), ("horaInicio", .integer 9),
    ("duracion", .integer 2), ("numero", .integer 1),
    ("salon", .reference ⟨"salon", "s1"⟩)])).write ⟨"equipo", "t0"⟩
      (Equipo.firestoreReady ⟨"", "T", [⟨"estudiante", "a3"⟩], [⟨"proyectos", "p1"⟩]⟩)).write
        ⟨"estudiante", "a1"⟩ sampleStudent).write ⟨"estudiante", "a2"⟩ sampleStudent).write
          ⟨"estudiante", "a3"⟩ sampleStudent

theorem teamsDisjoint_threeStudents : TeamsDisjoint threeStudents "g1" := by
  intro r hr q hq hne
  have hlist : listedTeams threeStudents "g1" = [⟨"equipo", "t0"⟩] := by decide +kernel
  rw [hlist, List.mem_singleton] at hr hq
  exact absurd (by rw [hr, hq]) hne

/-- Screen `i` is opened on the group and loaded, and its creator is opened. -/
def openOnThree {ι : Type} (i : ι) : List (WorldAction ι) :=
  [.didSelectRow i "g1", .openGroup i, .screen i (.serveTeam 0 0 true),
    .screen i (.deliverTeam 0 0)] ++
    (List.replicate 3 [.screen i (.serveStudent 0 0 true), .screen i (.deliverStudent 0 0)]).flatten
      ++ [.screen i .addTeam]

namespace World

/-- The team that the creator on screen `i` submits, and to which group. -/
def submits {ι : Type} (w : World ι) (i : ι) (teamName : String) (rows : List Nat) :
    Option (Equipo × String) :=
  match w.screen i with
  | .group screen => screen.creator.bind fun creator =>
      match creator.createTeam teamName rows with
      | .addTeamToGroup team grupoID => some (team, grupoID)
      | _ => none
  | _ => none

/-- What makes a submission free, in terms of the members of all teams concerned. -/
theorem free_of_submits {ι : Type} {w : World ι} {grupoID teamName : String} {i : ι}
    {rows : List Nat} {integrantes : List DocumentReference}
    {listed : List (List DocumentReference)} (inFlight : ι → List (List DocumentReference))
    (hsubmits : (w.submits i teamName rows).map (·.1.integrantes) = some integrantes)
    (hlisted : (listedTeams w.uploads.store grupoID).map (members w.uploads.store) = listed)
    (hflight : ∀ j, (w.submitted j).map (·.1.integrantes) = inFlight j)
    (hfree : ∀ l ∈ listed, integrantes.Disjoint l)
    (hfree' : ∀ j, ∀ l ∈ inFlight j, integrantes.Disjoint l) :
    SubmitsFree grupoID w (.screen i (.createTeam teamName rows)) := by
  intro screen creator team hscreen hcreator hcall
  have hteam : w.submits i teamName rows = some (team, grupoID) := by
    simp [submits, hscreen, hcreator, hcall]
  rw [hteam, Option.map_some] at hsubmits
  obtain rfl := Option.some.inj hsubmits
  refine ⟨fun r hr => hfree _ ?_, fun k other hk => hfree' k.1 _ ?_⟩
  · exact hlisted ▸ List.mem_map_of_mem hr
  · exact hflight k.1 ▸ List.mem_map_of_mem (List.mem_of_getElem? hk.1)

end World

/-- Beside a team that is listed, two clients make teams of one student each, and the
second is submitted while the first is on its way. -/
theorem teams_stay_disjoint_two :
    ∃ w, (world Bool).run (.start threeStudents) ((openOnThree true ++ openOnThree false) ++
        .screen true (.createTeam "A" [0]) :: .screen false (.createTeam "B" [1]) ::
          (runUpload (true, 0) "t1" ++ runUpload (false, 0) "t2")) = some w ∧
      (listedTeams w.uploads.store "g1").map (members w.uploads.store) =
        [[⟨"estudiante", "a3"⟩], [⟨"estudiante", "a1"⟩], [⟨"estudiante", "a2"⟩]] ∧
      TeamsDisjoint w.uploads.store "g1" := by
  have hrun : ((world Bool).run (.start threeStudents) ((openOnThree true ++ openOnThree false) ++
      .screen true (.createTeam "A" [0]) :: .screen false (.createTeam "B" [1]) ::
        (runUpload (true, 0) "t1" ++ runUpload (false, 0) "t2"))).map (fun w =>
      (listedTeams w.uploads.store "g1").map (members w.uploads.store)) =
    some [[⟨"estudiante", "a3"⟩], [⟨"estudiante", "a1"⟩], [⟨"estudiante", "a2"⟩]] := by
    decide +kernel
  have hopen : ((world Bool).run (.start threeStudents)
      (openOnThree true ++ openOnThree false)).map (fun w =>
      ((w.submits true "A" [0]).map (·.1.integrantes),
        (listedTeams w.uploads.store "g1").map (members w.uploads.store),
        (w.submitted true).map (·.1.integrantes), (w.submitted false).map (·.1.integrantes))) =
    some (some [⟨"estudiante", "a1"⟩], [[⟨"estudiante", "a3"⟩]], [], []) := by decide +kernel
  have hfirst : ((world Bool).run (.start threeStudents) ((openOnThree true ++ openOnThree false) ++
      [.screen true (.createTeam "A" [0])])).map (fun w =>
      ((w.submits false "B" [1]).map (·.1.integrantes),
        (listedTeams w.uploads.store "g1").map (members w.uploads.store),
        (w.submitted true).map (·.1.integrantes), (w.submitted false).map (·.1.integrantes))) =
    some (some [⟨"estudiante", "a2"⟩], [[⟨"estudiante", "a3"⟩]], [[⟨"estudiante", "a1"⟩]], []) := by
    decide +kernel
  obtain ⟨w, hw, hlisted⟩ := Option.map_eq_some_iff.mp hrun
  obtain ⟨v, hv, he⟩ := Option.map_eq_some_iff.mp hopen
  obtain ⟨hA, hmembers, htrue, hfalse⟩ : _ ∧ _ ∧ _ ∧ _ := by
    simpa only [Prod.mk.injEq] using he
  obtain ⟨u, hu, he⟩ := Option.map_eq_some_iff.mp hfirst
  obtain ⟨hB, hmembers', htrue', hfalse'⟩ : _ ∧ _ ∧ _ ∧ _ := by
    simpa only [Prod.mk.injEq] using he
  have hstep : (world Bool).step v (.screen true (.createTeam "A" [0])) = some u := by
    rw [TransitionSystem.run_append, hv, Option.bind_some] at hu
    obtain ⟨u', hu', he⟩ := (world Bool).run_cons_eq_some.mp hu
    exact hu'.trans he
  refine ⟨w, hw, hlisted, teams_stay_disjoint threeStudents "g1" teamsDisjoint_threeStudents _ w
    ?_ hw⟩
  rw [TransitionSystem.meets_append _ _ hv, TransitionSystem.meets_cons _ _ hstep]
  refine ⟨TransitionSystem.meets_of_forall _ _ ?_, ?_, ?_, fun t _ =>
    TransitionSystem.meets_of_forall _ _ ?_⟩
  · simp [openOnThree, World.SubmitsFree]
  · refine World.free_of_submits (fun _ => []) hA hmembers (fun j => ?_) (by simp) (by simp)
    cases j with
    | true => exact htrue
    | false => exact hfalse
  · refine World.free_of_submits (fun j => cond j [[⟨"estudiante", "a1"⟩]] []) hB hmembers'
      (fun j => ?_) (by simp) (by simp)
    cases j with
    | true => exact htrue'
    | false => exact hfalse'
  · simp [runUpload, World.SubmitsFree]

/-- Two clients load the same group, and each makes a team of the same student. -/
def overlappingRun : List (WorldAction Bool) :=
  openCreator true ++ openCreator false ++
    [.screen true (.createTeam "A" [0]), .screen false (.createTeam "B" [0])] ++
    runUpload (true, 0) "t1" ++ runUpload (false, 0) "t2"

/-- Both teams are linked. -/
theorem teams_overlap :
    TeamsDisjoint rosterStore "g1" ∧
    ∃ w, (world Bool).run (.start rosterStore) overlappingRun = some w ∧
      ¬ TeamsDisjoint w.uploads.store "g1" := by
  refine ⟨teamsDisjoint_rosterStore, ?_⟩
  have hrun : ((world Bool).run (.start rosterStore) overlappingRun).map (fun w =>
      (listedTeams w.uploads.store "g1", members w.uploads.store ⟨"equipo", "t1"⟩,
        members w.uploads.store ⟨"equipo", "t2"⟩)) =
      some ([⟨"equipo", "t0"⟩, ⟨"equipo", "t1"⟩, ⟨"equipo", "t2"⟩], [⟨"estudiante", "a1"⟩],
        [⟨"estudiante", "a1"⟩]) := by decide +kernel
  obtain ⟨w, hw, he⟩ := Option.map_eq_some_iff.mp hrun
  obtain ⟨hlist, hmembers, hmembers'⟩ : _ ∧ _ ∧ _ := by simpa using he
  refine ⟨w, hw, fun h => ?_⟩
  have hdisjoint := h ⟨"equipo", "t1"⟩ (by simp [hlist]) ⟨"equipo", "t2"⟩ (by simp [hlist])
    (by decide)
  rw [hmembers, hmembers'] at hdisjoint
  exact hdisjoint (List.mem_singleton_self _) (List.mem_singleton_self _)

end Musgravite
