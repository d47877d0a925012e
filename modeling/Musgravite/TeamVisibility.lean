import Musgravite.GroupScreens
import Musgravite.TeamCreation

/-! # Is a created team shown when the user comes back?

A group screen downloads the teams of the copy of the group document with which
it was opened, at every appearance.  The new team is linked in the store, not in
that copy, and its identifier is a fresh one; so no reload of the screen ever
shows it.  `showsCreated_iff` says so for every run: what a screen shows agrees
with the teams made from it exactly as long as none has been made. -/
namespace Musgravite
open FirebaseController

namespace World
variable {ι : Type} [DecidableEq ι] {w v : World ι}
  {created : List ((ι × Nat) × DocumentReference)}

/-- The document that the step creates, with the upload it belongs to. -/
def createdStep (w : World ι) : WorldAction ι → List ((ι × Nat) × DocumentReference)
  | .upload a => Musgravite.createdStep w.uploads a
  | _ => []

/-- The copy of the group document that screen `i` works with. -/
def copy (w : World ι) (i : ι) : Option Grupo :=
  match w.screen i with
  | .courses => none
  | .selected grupo => some grupo
  | .group self => some self.group

/-- The upload has created its team: what is left is the link or a success. -/
def Made (p : Program Bool) : Prop := (∃ grupoID r, p = linkTeam grupoID r) ∨ p = .report true

/-- The invariant of copies: what has been created from a screen is not in its copy. -/
structure Stale (created : List ((ι × Nat) × DocumentReference)) (w : World ι) : Prop where
  sound : w.Sound
  copy_known : ∀ i grupo, w.copy i = some grupo → ∀ r ∈ grupo.equipos,
    r.documentID ∈ w.uploads.store.known
  created_new : ∀ k r, (k, r) ∈ created → ∃ grupo, w.copy k.1 = some grupo ∧
    r.documentID ∉ grupo.equipos.map DocumentReference.documentID
  made : ∀ k, Made (w.uploads.thread k).program → ∃ r, (k, r) ∈ created

/-! ## One step -/

omit [DecidableEq ι] in
theorem copy_of_submission {k : ι × Nat} {call : Equipo × String}
    (h : w.submission k = some call) : ∃ grupo, w.copy k.1 = some grupo := by
  unfold submission submitted at h
  unfold copy
  split at h
  · rename_i self hself
    rw [hself]
    exact ⟨self.group, rfl⟩
  · cases h

omit [DecidableEq ι] in
theorem mem_createdStep {s : Pool (ι × Nat) Bool} {a : PoolAction (ι × Nat)} {k : ι × Nat}
    {r : DocumentReference} (h : (k, r) ∈ Musgravite.createdStep s a) :
    ∃ collection data block, s.thread k = .sent (.addDocument collection data block) ∧
      a = .accept k r.documentID := by
  unfold Musgravite.createdStep at h
  split at h
  · rename_i i id
    split at h
    · rename_i collection data block hthread
      obtain ⟨rfl, rfl⟩ := Prod.mk.inj (List.mem_singleton.mp h)
      exact ⟨collection, data, block, hthread, rfl⟩
    · cases h
  · cases h

theorem not_made_failed : ¬ Made (.report false) := by
  rintro (⟨grupoID, r, h⟩ | h) <;> cases h

/-- What a call that has been refused goes on with is a failure. -/
theorem refuse_addTeamToGroup {team : Equipo} {grupoID id : String} {p q : Program Bool}
    (hc : (addTeamToGroup team grupoID).Continues p) (h : p.refuse id = some q) :
    q = .report false := by
  rcases addTeamToGroup_continues hc with rfl | ⟨id', rfl⟩ | ⟨b, rfl⟩
  · exact (Option.some.inj h).symm
  · exact (Option.some.inj h).symm
  · cases h

omit [DecidableEq ι] in
/-- A thread in motion belongs to a call. -/
theorem Sound.submission_of_sent (hw : w.Sound) {k : ι × Nat} {p : Program Bool}
    (h : w.uploads.thread k = .sent p) (hp : p ≠ .trap) :
    ∃ team grupoID, w.submission k = some (team, grupoID) ∧
      (addTeamToGroup team grupoID).Continues p := by
  cases hsub : w.submission k with
  | none =>
    have := hw.idle k hsub
    rw [h] at this
    exact absurd (by injection this) hp
  | some call =>
    have := hw.running k call.1 call.2 hsub
    rw [h] at this
    exact ⟨call.1, call.2, rfl, this⟩

/-- A document that a step creates was not known before, and belongs to a call. -/
theorem Stale.created_fresh (hw : Stale created w) {a : PoolAction (ι × Nat)}
    (h : (pool (ι × Nat) Bool).step w.uploads a = some v.uploads) {k : ι × Nat}
    {r : DocumentReference} (hr : (k, r) ∈ Musgravite.createdStep w.uploads a) :
    r.documentID ∉ w.uploads.store.known ∧ ∃ grupo, w.copy k.1 = some grupo := by
  obtain ⟨collection, data, block, hthread, rfl⟩ := mem_createdStep hr
  obtain ⟨team, grupoID, hsub, -⟩ := hw.sound.submission_of_sent hthread (by simp)
  refine ⟨?_, copy_of_submission hsub⟩
  cases Pool.step_cases h with
  | accept k id p q u hp hq ht =>
    obtain rfl : .addDocument collection data block = p := by injection hthread.symm.trans hp
    obtain ⟨u', hu', -⟩ := Option.map_eq_some_iff.mp hq
    exact (Store.addDocument_eq_some.mp hu').2.1

/-- A call that has created its team has left it in the history. -/
theorem Stale.made_upload (hw : Stale created w) {a : PoolAction (ι × Nat)}
    (h : (pool (ι × Nat) Bool).step w.uploads a = some v.uploads) {k : ι × Nat}
    (hk : Made (v.uploads.thread k).program) :
    ∃ r, (k, r) ∈ created ++ Musgravite.createdStep w.uploads a := by
  have old : ∀ k, Made (w.uploads.thread k).program →
      ∃ r, (k, r) ∈ created ++ Musgravite.createdStep w.uploads a := by
    intro k hm
    obtain ⟨r, hr⟩ := hw.made k hm
    exact ⟨r, List.mem_append_left _ hr⟩
  -- only the call that moves can have come to this point just now
  have moved : ∀ {s : Store} {i : ι × Nat} {x : Thread Bool},
      v.uploads = Pool.setThread ⟨s, w.uploads.thread⟩ i x →
      (Made x.program → ∃ r, (i, r) ∈ created ++ Musgravite.createdStep w.uploads a) →
      ∃ r, (k, r) ∈ created ++ Musgravite.createdStep w.uploads a := by
    intro s i x ht hx
    rw [ht] at hk
    exact Pool.forall_setThread (P := fun k x => Made x.program →
      ∃ r, (k, r) ∈ created ++ Musgravite.createdStep w.uploads a) hx (fun j _ => old j) k hk
  cases Pool.step_cases h with
  | accept i id p q u hp hq ht =>
    refine moved ht fun _ => ?_
    obtain ⟨team, grupoID, -, hc⟩ := hw.sound.submission_of_sent hp (by rintro rfl; cases hq)
    rcases addTeamToGroup_continues hc with rfl | ⟨id', rfl⟩ | ⟨b, rfl⟩
    · exact ⟨⟨"equipo", id⟩, List.mem_append_right _ (by
        simp [Musgravite.createdStep, hp, addTeamToGroup, createNewTeam])⟩
    · exact old i (Or.inl ⟨grupoID, ⟨"equipo", id'⟩, by rw [hp]; rfl⟩)
    · cases hq
  | refuse i id p q hp hq ht =>
    refine moved ht fun hmade => ?_
    obtain ⟨team, grupoID, -, hc⟩ := hw.sound.submission_of_sent hp (by rintro rfl; cases hq)
    obtain rfl := refuse_addTeamToGroup hc hq
    exact absurd hmade not_made_failed
  | deliver i p hp ht => exact moved ht fun hmade => old i (by rw [hp]; exact hmade)

/-- An upload goes on: what it creates is fresh, and the copies are not. -/
theorem Stale.upload (hw : Stale created w) {a : PoolAction (ι × Nat)}
    (h : (pool (ι × Nat) Bool).step w.uploads a = some v.uploads) (hscreen : v.screen = w.screen)
    (hv : v.Sound) : Stale (created ++ Musgravite.createdStep w.uploads a) v := by
  have hcopy : ∀ i, v.copy i = w.copy i := fun i => by rw [copy, copy, hscreen]
  refine ⟨hv, ?_, ?_, fun k hk => hw.made_upload h hk⟩
  · intro i grupo hi r hr
    exact Pool.step_known h (hw.copy_known i grupo (hcopy i ▸ hi) r hr)
  · intro k r hr
    rw [hcopy]
    rcases List.mem_append.mp hr with hr | hr
    · exact hw.created_new k r hr
    · -- the new identifier is fresh, and the store knows what is in the copy
      obtain ⟨hfresh, grupo, hgrupo⟩ := hw.created_fresh h hr
      refine ⟨grupo, hgrupo, fun hmem => ?_⟩
      obtain ⟨q, hq, hid⟩ := List.mem_map.mp hmem
      exact hfresh (hid ▸ hw.copy_known k.1 grupo hgrupo q hq)

omit [DecidableEq ι] in
/-- A screen changes: a copy that is there stays, and a new one is read from the
store while nothing has been created from the screen. -/
theorem Stale.screen (hw : Stale created w) (hv : v.Sound)
    (huploads : v.uploads.store = w.uploads.store)
    (hmade : ∀ k, Made (v.uploads.thread k).program → Made (w.uploads.thread k).program)
    (hcopy : ∀ i, v.copy i = w.copy i ∨ w.copy i = none ∧ ∀ grupo, v.copy i = some grupo →
      ∀ r ∈ grupo.equipos, r.documentID ∈ w.uploads.store.known) : Stale created v := by
  refine ⟨hv, ?_, ?_, fun k hk => hw.made k (hmade k hk)⟩
  · intro i grupo hi
    rw [huploads]
    rcases hcopy i with he | ⟨-, hknown⟩
    · exact hw.copy_known i grupo (he ▸ hi)
    · exact hknown grupo hi
  · intro k r hr
    obtain ⟨grupo, hgrupo, hnew⟩ := hw.created_new k r hr
    rcases hcopy k.1 with he | ⟨hnone, -⟩
    · exact ⟨grupo, he ▸ hgrupo, hnew⟩
    · rw [hnone] at hgrupo
      cases hgrupo

/-- The copies after one screen has changed. -/
theorem copy_update (u : Pool (ι × Nat) Bool) {i : ι} {x : Screen}
    (h : (⟨u, Function.update w.screen i x⟩ : World ι).copy i = w.copy i) (j : ι) :
    (⟨u, Function.update w.screen i x⟩ : World ι).copy j = w.copy j := by
  by_cases hj : j = i
  · subst hj
    exact h
  · simp [copy, Function.update_of_ne hj]

theorem Stale.step (hw : Stale created w) {a : WorldAction ι} (h : (world ι).step w a = some v) :
    Stale (created ++ createdStep w a) v := by
  have hv := hw.sound.step h
  cases hw.sound.step_cases h with
  | upload a hup hscreen => exact hw.upload hup hscreen hv
  | didSelectRow i grupoID grupo hi hread hvw =>
    subst hvw
    simp only [createdStep, List.append_nil]
    refine hw.screen hv rfl (fun _ hk => hk) fun j => ?_
    by_cases hj : j = i
    · subst hj
      refine Or.inr ⟨by simp [copy, hi], ?_⟩
      intro grupo' hgrupo r hr
      obtain rfl : grupo = grupo' := by simpa [copy] using hgrupo
      obtain ⟨r₀, f, -, hf, hdecode⟩ := getDocument_bind_eq_some_iff.mp hread
      exact known_of_field hf (decodeGrupo_eq_some.mp hdecode).2.1 hr
    · exact Or.inl (by simp [copy, Function.update_of_ne hj])
  | openGroup i grupo hi next hnext hgroup hsub hvw =>
    subst hvw
    simp only [createdStep, List.append_nil]
    exact hw.screen hv rfl (fun _ hk => hk) fun j =>
      Or.inl (copy_update _ (by simp [copy, hi, hgroup]) j)
  | screen i a self next hi hnext hgroup hsub hvw =>
    subst hvw
    simp only [createdStep, List.append_nil]
    exact hw.screen hv rfl (fun _ hk => hk) fun j =>
      Or.inl (copy_update _ (by simp [copy, hi, hgroup]) j)
  | submit i teamName rows self next creator team grupoID hi hcreator hcall hnext hgroup hsub hvw =>
    subst hvw
    simp only [createdStep, List.append_nil]
    refine hw.screen hv rfl (fun k hk => ?_) fun j =>
      Or.inl (copy_update _ (by simp [copy, hi, hgroup]) j)
    by_cases hki : k = (i, self.submitted.length)
    · subst hki
      rw [Pool.setThread_self] at hk
      rcases hk with ⟨grupoID', r, he⟩ | he <;> cases he
    · rwa [Pool.setThread_of_ne _ _ hki] at hk

/-! ## Every run -/

omit [DecidableEq ι] in
theorem stale_start (s₀ : Store) : Stale [] (start s₀ : World ι) where
  sound := sound_start s₀
  copy_known i grupo h := by cases h
  created_new k r h := by cases h
  made k h := by rcases h with ⟨grupoID, r, he⟩ | he <;> cases he

/-- **In every run the copies stay stale.** -/
theorem stale_of_run {s₀ : Store} {as : List (WorldAction ι)}
    (h : (world ι).run (start s₀) as = some w) :
    Stale ((world ι).trace createdStep (start s₀) as) w := by
  refine (world ι).run_history (P := fun as w => Stale ((world ι).trace createdStep _ as) w)
    (stale_start s₀) ?_ h
  intro as s a t hr hs hstep
  rw [TransitionSystem.trace_snoc _ _ hr hstep]
  exact hs.step hstep

omit [DecidableEq ι] in
/-- What was created from a screen is never among the teams it shows. -/
theorem Stale.notMem_teams (hw : Stale created w) {i : ι} {self : GroupScreen}
    (hi : w.screen i = .group self) {n : Nat} {r : DocumentReference}
    (hr : ((i, n), r) ∈ created) : r.documentID ∉ self.teams.map Equipo.documentID := by
  obtain ⟨grupo, hgrupo, hnew⟩ := hw.created_new _ r hr
  obtain rfl : self.group = grupo := by simpa [copy, hi] using hgrupo
  rcases (hw.sound.screens i self hi).teams with hteams | hteams
  · simp [hteams]
  · exact fun hmem => hnew (hteams.subset hmem)

end World

/-- The screen agrees with the teams made from it, given by the upload that made
each and the reference it was created under: it shows them all, and the creator
would offer none of their members. -/
structure ShowsCreated {ι : Type} (created : List ((ι × Nat) × DocumentReference)) (w : World ι)
    (i : ι) (screen : GroupScreen) : Prop where
  teams : ∀ n r, ((i, n), r) ∈ created → w.uploads.thread (i, n) = .sent (.report true) →
    r.documentID ∈ screen.teams.map Equipo.documentID
  members : ∀ n team grupoID, w.submission (i, n) = some (team, grupoID) →
    w.uploads.thread (i, n) = .sent (.report true) → ∀ m ∈ team.integrantes,
    m.documentID ∉
      (selectableStudents screen.group screen.teams screen.students).1.map Estudiante.id

/-- **A created team is never shown.**  In every state that group screens at work
can reach, whatever has been reloaded: a screen agrees with the teams made from it
if and only if no call made from it has reported success yet. -/
theorem showsCreated_iff {ι : Type} [DecidableEq ι] (s₀ : Store) (as : List (WorldAction ι))
    (w : World ι) (h : (world ι).run (.start s₀) as = some w) (i : ι) (screen : GroupScreen)
    (hi : w.screen i = .group screen) :
    ShowsCreated ((world ι).trace World.createdStep (.start s₀) as) w i screen ↔
      ∀ n, w.uploads.thread (i, n) ≠ .sent (.report true) := by
  have hw := World.stale_of_run h
  constructor
  · intro hshows n hn
    obtain ⟨r, hr⟩ := hw.made (i, n) (Or.inr (by rw [hn]; rfl))
    exact hw.notMem_teams hi hr (hshows.teams n r hr hn)
  · intro hnone
    exact ⟨fun n r _ hn => absurd hn (hnone n), fun n _ _ _ hn => absurd hn (hnone n)⟩

/-- A screen that has just been loaded, with nothing made from it, shows all of that. -/
theorem showsCreated_fresh :
    ∃ w screen, (world Unit).run (.start rosterStore)
        ([.didSelectRow () "g1", .openGroup ()] ++ loadRoster () 0) = some w ∧
      w.screen () = .group screen ∧
      ShowsCreated ((world Unit).trace World.createdStep (.start rosterStore)
        ([.didSelectRow () "g1", .openGroup ()] ++ loadRoster () 0)) w () screen := by
  refine ⟨_, _, rfl, rfl, ?_⟩
  exact (showsCreated_iff rosterStore ([.didSelectRow () "g1", .openGroup ()] ++ loadRoster () 0)
    _ rfl () _ rfl).mpr (fun n h => by cases h)

/-- A team is made, reported and linked, the creator goes away and everything is
downloaded again: the screen still shows the old team only, and the member of the
new one can be selected again. -/
theorem createdTeam_not_shown :
    ∃ w screen, (world Unit).run (.start rosterStore)
        ([.didSelectRow () "g1", .openGroup ()] ++ loadRoster () 0 ++
          [.screen () .addTeam, .screen () (.createTeam "A" [0])] ++ runUpload ((), 0) "t1" ++
          [.screen () .popCreator] ++ loadRoster () 1) = some w ∧
      w.screen () = .group screen ∧
      screen.teamDownloads.all (fun d => d.unserved.isEmpty && d.transit.isEmpty) ∧
      screen.studentDownloads.all (fun d => d.unserved.isEmpty && d.transit.isEmpty) ∧
      w.uploads.thread ((), 0) = .sent (.report true) ∧
      w.submission ((), 0) = some (⟨"", "A", [⟨"estudiante", "a1"⟩], [⟨"proyectos", "p1"⟩]⟩, "g1") ∧
      getTeamData w.uploads.store true ⟨"equipo", "t1"⟩ =
        some [some ⟨"t1", "A", [⟨"estudiante", "a1"⟩], [⟨"proyectos", "p1"⟩]⟩] ∧
      screen.teams.map Equipo.documentID = ["t0"] ∧
      (selectableStudents screen.group screen.teams screen.students).1.map Estudiante.id = ["a1"] :=
  ⟨_, _, rfl, rfl, by decide +kernel, by decide +kernel, rfl, by decide +kernel, by decide +kernel,
    by decide +kernel, by decide +kernel⟩

end Musgravite
