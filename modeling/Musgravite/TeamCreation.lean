import Musgravite.Writes

/-! # Concurrent team creations

Any number of clients call `addTeamToGroup` on one group.  Each call goes through
the phases *about to create*, *created, not linked*, *linked* and *failed*; what
the group holds is determined by the calls that got as far as *linked*.

The two histories of a run are the teams created and the links made, each with
the call it belongs to and in the order in which the backend applied them.  The
invariant `GroupGrows` says that the group's list is the initial one followed by
the links, that no reference occurs twice, and that each call's report agrees
with the list. -/
namespace Musgravite
open FirebaseController

variable {ι : Type} [DecidableEq ι]

/-- The document that the request of the step adds, with the call it belongs to. -/
def createdStep (s : Pool ι Bool) : PoolAction ι → List (ι × DocumentReference)
  | .accept i id => match s.thread i with
    | .sent (.addDocument collection _ _) => [(i, ⟨collection, id⟩)]
    | _ => []
  | _ => []

/-- The reference that the request of the step adds to an array. -/
def linkedStep (s : Pool ι Bool) : PoolAction ι → List (ι × DocumentReference)
  | .accept i _ => match s.thread i with
    | .sent (.updateData _ [(_, .arrayUnion [.reference r])] _) => [(i, r)]
    | _ => []
  | _ => []

/-- Where a call of `addTeamToGroup` is, given the histories. -/
inductive Phase (team : ι → Equipo) (grupoID : String)
    (created linked : List (ι × DocumentReference)) (i : ι) : Program Bool → Prop
  | toCreate (h : i ∉ created.map Prod.fst) :
      Phase team grupoID created linked i (addTeamToGroup (team i) grupoID)
  | toLink (r : DocumentReference) (h : (i, r) ∈ created) (h' : i ∉ linked.map Prod.fst) :
      Phase team grupoID created linked i (linkTeam grupoID r)
  | succeeded (h : i ∈ linked.map Prod.fst) :
      Phase team grupoID created linked i (.report true)
  | failed (h : i ∉ linked.map Prod.fst) :
      Phase team grupoID created linked i (.report false)

/-- The invariant of concurrent team creations in the group `grupo`. -/
structure GroupGrows (team : ι → Equipo) (grupo : Grupo)
    (created linked : List (ι × DocumentReference)) (s : Pool ι Bool) : Prop where
  /-- The group's list is the initial one followed by the links. -/
  group : getGroupData s.store true grupo.documentID =
    some [some { grupo with equipos := grupo.equipos ++ linked.map Prod.snd }]
  phase : ∀ i, Phase team grupo.documentID created linked i (s.thread i).program
  linked_created : ∀ x ∈ linked, x ∈ created
  caller_nodup : (created.map Prod.fst).Nodup
  reference_nodup : (created.map Prod.snd).Nodup
  linked_nodup : (linked.map Prod.fst).Nodup
  reference_new : ∀ x ∈ created, x.2 ∉ grupo.equipos
  /-- Each created team is stored as it was submitted. -/
  stored : ∀ x ∈ created, x.2.collection = "equipo" ∧
    s.store.documents x.2 = some (team x.1).firestoreReady

namespace GroupGrows
variable {team : ι → Equipo} {grupo : Grupo} {created linked : List (ι × DocumentReference)}
  {s t : Pool ι Bool}

omit [DecidableEq ι]

/-- The references in the group's list are known to the store. -/
theorem known_of_mem (hs : GroupGrows team grupo created linked s) {r : DocumentReference}
    (hr : r ∈ grupo.equipos ++ linked.map Prod.snd) : r.documentID ∈ s.store.known := by
  obtain ⟨f, hf, hdecode⟩ := stored_of_getGroupData hs.group rfl
  exact known_of_field hf (decodeGrupo_eq_some.mp hdecode).2.1 hr

/-- So are the teams that were created. -/
theorem known_of_created (hs : GroupGrows team grupo created linked s)
    {x : ι × DocumentReference} (hx : x ∈ created) : x.2.documentID ∈ s.store.known :=
  s.store.document_known (hs.stored x hx).2

/-- A reference is created by one call only. -/
theorem caller_unique (hs : GroupGrows team grupo created linked s) {i j : ι}
    {r : DocumentReference} (hi : (i, r) ∈ created) (hj : (j, r) ∈ created) : i = j :=
  congrArg Prod.fst (List.inj_on_of_nodup_map hs.reference_nodup hi hj rfl)

/-- A reference that its call has not linked is not in the group's list. -/
theorem notMem_of_not_linked (hs : GroupGrows team grupo created linked s) {i : ι}
    {r : DocumentReference} (hr : (i, r) ∈ created) (hi : i ∉ linked.map Prod.fst) :
    r ∉ grupo.equipos ++ linked.map Prod.snd := by
  intro hmem
  rcases List.mem_append.mp hmem with hmem | hmem
  · exact hs.reference_new _ hr hmem
  · obtain ⟨⟨j, q⟩, hx, rfl⟩ := List.mem_map.mp hmem
    obtain rfl := hs.caller_unique hr (hs.linked_created _ hx)
    exact hi (List.mem_map_of_mem hx)

end GroupGrows

/-! ## Other calls' steps keep a call's phase -/

section Phase
variable {team : ι → Equipo} {grupoID : String} {created linked : List (ι × DocumentReference)}
  {i j : ι} {r : DocumentReference} {p : Program Bool}

omit [DecidableEq ι]

theorem notMem_map_snoc (hij : i ≠ j) (h : i ∉ linked.map Prod.fst) :
    i ∉ (linked ++ [(j, r)]).map Prod.fst := by
  simpa [hij] using h

theorem Phase.created_snoc (hij : i ≠ j) (h : Phase team grupoID created linked i p) :
    Phase team grupoID (created ++ [(j, r)]) linked i p := by
  cases h with
  | toCreate h => exact .toCreate (notMem_map_snoc hij h)
  | toLink r h h' => exact .toLink r (List.mem_append_left _ h) h'
  | succeeded h => exact .succeeded h
  | failed h => exact .failed h

theorem Phase.linked_snoc (hij : i ≠ j) (h : Phase team grupoID created linked i p) :
    Phase team grupoID created (linked ++ [(j, r)]) i p := by
  cases h with
  | toCreate h => exact .toCreate h
  | toLink r h h' => exact .toLink r h (notMem_map_snoc hij h')
  | succeeded h => exact .succeeded (by simp [h])
  | failed h => exact .failed (notMem_map_snoc hij h)

end Phase

namespace GroupGrows
variable {team : ι → Equipo} {grupo : Grupo} {created linked : List (ι × DocumentReference)}
  {s t : Pool ι Bool} {i : ι}

/-! ## One step -/

omit [DecidableEq ι] in
theorem start {s₀ : Store}
    (h₀ : getGroupData s₀ true grupo.documentID = some [some grupo]) :
    GroupGrows team grupo [] []
      (Pool.start s₀ fun i => addTeamToGroup (team i) grupo.documentID) where
  group := by simpa [Pool.start] using h₀
  phase i := .toCreate List.not_mem_nil
  linked_created := by simp
  caller_nodup := List.nodup_nil
  reference_nodup := List.nodup_nil
  linked_nodup := List.nodup_nil
  reference_new := by simp
  stored := by simp

/-- A step that leaves the store alone only has to respect the phase of its call. -/
theorem setThread (hs : GroupGrows team grupo created linked s) {x : Thread Bool}
    (hx : Phase team grupo.documentID created linked i x.program) :
    GroupGrows team grupo created linked (s.setThread i x) where
  group := hs.group
  phase := Pool.forall_setThread (P := fun j x => Phase team grupo.documentID created linked j
    x.program) hx fun j _ => hs.phase j
  linked_created := hs.linked_created
  caller_nodup := hs.caller_nodup
  reference_nodup := hs.reference_nodup
  linked_nodup := hs.linked_nodup
  reference_new := hs.reference_new
  stored := hs.stored

/-- A team is created: its identifier is fresh, so it is nobody else's. -/
theorem create (hs : GroupGrows team grupo created linked s) {id : String}
    (hi : i ∉ created.map Prod.fst) (hid : IsDocumentID id) (hfresh : id ∉ s.store.known) :
    GroupGrows team grupo (created ++ [(i, ⟨"equipo", id⟩)]) linked
      ({ s with store := s.store.write ⟨"equipo", id⟩ (team i).firestoreReady }.setThread i
        (.answered (linkTeam grupo.documentID ⟨"equipo", id⟩))) := by
  -- a call links only what it has created
  have hlinked : i ∉ linked.map Prod.fst := by
    intro h
    obtain ⟨x, hx, rfl⟩ := List.mem_map.mp h
    exact hi (List.mem_map_of_mem (hs.linked_created x hx))
  have hnew : ∀ x ∈ created, x.2 ≠ ⟨"equipo", id⟩ := by
    intro x hx he
    have := hs.known_of_created hx
    rw [he] at this
    exact hfresh this
  refine ⟨?_, ?_, ?_, ?_, ?_, hs.linked_nodup, ?_, ?_⟩
  · obtain ⟨f, hf, hdecode⟩ := stored_of_getGroupData hs.group rfl
    refine getGroupData_of_stored ?_ hdecode
    rw [Pool.setThread_store, Store.documents_write_of_ne _ _ (by simp)]
    exact hf
  · refine Pool.forall_setThread (P := fun j x => Phase _ _ _ _ j x.program) ?_ fun j hj => ?_
    · exact .toLink _ (by simp) hlinked
    · exact (hs.phase j).created_snoc hj
  · exact fun x hx => List.mem_append_left _ (hs.linked_created x hx)
  · rw [List.map_append, List.map_singleton]
    exact hs.caller_nodup.append (List.nodup_singleton _) (List.disjoint_singleton.mpr hi)
  · rw [List.map_append, List.map_singleton]
    refine hs.reference_nodup.append (List.nodup_singleton _) (List.disjoint_singleton.mpr ?_)
    intro h
    obtain ⟨x, hx, he⟩ := List.mem_map.mp h
    exact hnew x hx he
  · intro x hx hmem
    rcases List.mem_append.mp hx with hx | hx
    · exact hs.reference_new x hx hmem
    · obtain rfl := List.mem_singleton.mp hx
      exact hfresh (hs.known_of_mem (List.mem_append_left _ hmem))
  · intro x hx
    rcases List.mem_append.mp hx with hx | hx
    · rw [Pool.setThread_store, Store.documents_write_of_ne _ _ (hnew x hx)]
      exact hs.stored x hx
    · obtain rfl := List.mem_singleton.mp hx
      exact ⟨rfl, s.store.documents_write_self hid _⟩

/-- A team is linked: the union puts its reference, which was not in the list, at
the end. -/
theorem link (hs : GroupGrows team grupo created linked s) {r : DocumentReference} {f : Fields}
    (hr : (i, r) ∈ created) (hi : i ∉ linked.map Prod.fst)
    (hf : s.store.documents ⟨"grupo", grupo.documentID⟩ = some f) :
    GroupGrows team grupo created (linked ++ [(i, r)])
      (Pool.setThread ⟨s.store.write ⟨"grupo", grupo.documentID⟩
          (f.update [("equipos", .arrayUnion [.reference r])]), s.thread⟩ i
        (.answered (.report true))) := by
  refine ⟨?_, ?_, ?_, hs.caller_nodup, hs.reference_nodup, ?_, hs.reference_new, ?_⟩
  · obtain ⟨f', hf', hdecode⟩ := stored_of_getGroupData hs.group rfl
    obtain rfl : f = f' := Option.some.inj (hf.symm.trans hf')
    refine getGroupData_of_stored (s.store.documents_write_self (s.store.isDocumentID hf) _) ?_
    have hunion := decodeGrupo_union [r] hdecode
    rw [List.appendMissing_singleton_of_notMem (hs.notMem_of_not_linked hr hi)] at hunion
    rw [List.map_append, List.map_singleton, ← List.append_assoc]
    exact hunion
  · refine Pool.forall_setThread (P := fun j x => Phase _ _ _ _ j x.program) ?_ fun j hj => ?_
    · exact .succeeded (by simp)
    · exact (hs.phase j).linked_snoc hj
  · intro x hx
    rcases List.mem_append.mp hx with hx | hx
    · exact hs.linked_created x hx
    · obtain rfl := List.mem_singleton.mp hx
      exact hr
  · rw [List.map_append, List.map_singleton]
    exact hs.linked_nodup.append (List.nodup_singleton _) (List.disjoint_singleton.mpr hi)
  · intro x hx
    obtain ⟨hc, hd⟩ := hs.stored x hx
    refine ⟨hc, ?_⟩
    rw [Pool.setThread_store, Store.documents_write_of_ne _ _ (by rintro h; simp [h] at hc)]
    exact hd

/-- **One step of any call.** -/
theorem step (hs : GroupGrows team grupo created linked s) {a : PoolAction ι}
    (h : (pool ι Bool).step s a = some t) :
    GroupGrows team grupo (created ++ createdStep s a) (linked ++ linkedStep s a) t := by
  cases Pool.step_cases h with
  | accept i id p q u hp hq ht =>
    -- the backend applies a request: one of the histories grows
    subst ht
    have hphase := hs.phase i
    rw [hp] at hphase
    cases hphase with
    | toCreate hi =>
      obtain ⟨hid, rfl, rfl⟩ := accept_addTeamToGroup hq
      simpa [createdStep, linkedStep, hp, addTeamToGroup, createNewTeam]
        using hs.create hi hid.1 hid.2
    | toLink r hr hi =>
      obtain ⟨f, hf, rfl, rfl⟩ := accept_updateAndReport hq
      simpa [createdStep, linkedStep, hp, linkTeam, updateAndReport] using hs.link hr hi hf
    | succeeded hi | failed hi => cases hq
  | refuse i id p q hp hq ht =>
    -- the call fails; the store and the histories stay
    subst ht
    have hphase := hs.phase i
    rw [hp] at hphase
    simp only [createdStep, linkedStep, List.append_nil]
    refine hs.setThread ?_
    cases hphase with
    | toCreate hi =>
      obtain rfl := Option.some.inj hq
      refine .failed fun h => hi ?_
      obtain ⟨x, hx, rfl⟩ := List.mem_map.mp h
      exact List.mem_map_of_mem (hs.linked_created x hx)
    | toLink r hr hi =>
      obtain rfl := Option.some.inj hq
      exact .failed hi
    | succeeded hi | failed hi => cases hq
  | deliver i p hp ht =>
    subst ht
    simp only [createdStep, linkedStep, List.append_nil]
    refine hs.setThread ?_
    have hphase := hs.phase i
    rw [hp] at hphase
    exact hphase

end GroupGrows

/-! ## Every run -/

/-- **In every run the group grows by its links.** -/
theorem groupGrows_of_run {team : ι → Equipo} {grupo : Grupo} {s₀ : Store}
    (h₀ : getGroupData s₀ true grupo.documentID = some [some grupo])
    {as : List (PoolAction ι)} {t : Pool ι Bool}
    (h : (pool ι Bool).run
      (Pool.start s₀ fun i => addTeamToGroup (team i) grupo.documentID) as = some t) :
    GroupGrows team grupo
      ((pool ι Bool).trace createdStep
        (Pool.start s₀ fun i => addTeamToGroup (team i) grupo.documentID) as)
      ((pool ι Bool).trace linkedStep
        (Pool.start s₀ fun i => addTeamToGroup (team i) grupo.documentID) as) t := by
  refine (pool ι Bool).run_history (P := fun as t => GroupGrows team grupo
    ((pool ι Bool).trace createdStep _ as) ((pool ι Bool).trace linkedStep _ as) t)
    (GroupGrows.start h₀) ?_ h
  intro as s a t hr hs hstep
  rw [TransitionSystem.trace_snoc _ _ hr hstep, TransitionSystem.trace_snoc _ _ hr hstep]
  exact hs.step hstep

/-- The reference of a call's team is in the group's list exactly if it was linked. -/
theorem GroupGrows.mem_iff {team : ι → Equipo} {grupo : Grupo}
    {created linked : List (ι × DocumentReference)} {s : Pool ι Bool} {i : ι}
    (hs : GroupGrows team grupo created linked s) :
    (∃ r, (i, r) ∈ created ∧ r ∈ grupo.equipos ++ linked.map Prod.snd) ↔
      i ∈ linked.map Prod.fst := by
  constructor
  · rintro ⟨r, hr, hmem⟩
    by_contra hi
    exact hs.notMem_of_not_linked hr hi hmem
  · intro hi
    obtain ⟨⟨j, r⟩, hx, rfl⟩ := List.mem_map.mp hi
    exact ⟨r, hs.linked_created _ hx, List.mem_append_right _ (List.mem_map_of_mem hx)⟩

/-- **Concurrent team creations lose nothing.**  Whatever the interleaving and
whichever requests fail: the group's list is the initial one followed by the
references linked so far, in the order of the links and each of them once; a call
that is through reports `true` exactly if the reference of its team is in the
list; what was linked earlier in the run stays where it was; and each linked
reference leads to the team its call submitted. -/
theorem teamCreations_lose_nothing (team : ι → Equipo) (grupo : Grupo) (s₀ : Store)
    (h₀ : getGroupData s₀ true grupo.documentID = some [some grupo])
    (hproyectos : ∀ i, (team i).proyectos ≠ []) (as : List (PoolAction ι)) (t : Pool ι Bool)
    (h : (pool ι Bool).run
      (Pool.start s₀ fun i => addTeamToGroup (team i) grupo.documentID) as = some t) :
    let start := Pool.start s₀ fun i => addTeamToGroup (team i) grupo.documentID
    let created := (pool ι Bool).trace createdStep start as
    let linked := (pool ι Bool).trace linkedStep start as
    getGroupData t.store true grupo.documentID =
      some [some { grupo with equipos := grupo.equipos ++ linked.map Prod.snd }] ∧
    (linked.map Prod.snd).Nodup ∧ (∀ r ∈ linked.map Prod.snd, r ∉ grupo.equipos) ∧
    (∀ i b, t.thread i = .sent (.report b) →
      (b = true ↔ ∃ r, (i, r) ∈ created ∧ r ∈ grupo.equipos ++ linked.map Prod.snd)) ∧
    (∀ bs cs, as = bs ++ cs → (pool ι Bool).trace linkedStep start bs <+: linked) ∧
    (∀ i r, (i, r) ∈ linked → (i, r) ∈ created ∧
      getTeamData t.store true r = some [some { team i with documentID := r.documentID }]) := by
  intro start created linked
  have hs : GroupGrows team grupo created linked t := groupGrows_of_run h₀ h
  refine ⟨hs.group, ?_, ?_, ?_, ?_, ?_⟩
  · refine hs.linked_nodup.of_map Prod.fst |>.map_on fun x hx y hy he => ?_
    exact List.inj_on_of_nodup_map hs.reference_nodup (hs.linked_created x hx)
      (hs.linked_created y hy) he
  · intro r hr
    obtain ⟨x, hx, rfl⟩ := List.mem_map.mp hr
    exact hs.reference_new x (hs.linked_created x hx)
  · intro i b hi
    have hphase := hs.phase i
    rw [hi] at hphase
    rw [hs.mem_iff]
    cases hphase with
    | succeeded hlinked => exact iff_of_true rfl hlinked
    | failed hlinked => exact iff_of_false (by simp) hlinked
  · rintro bs cs rfl
    rw [TransitionSystem.run_append] at h
    obtain ⟨u, hu, -⟩ := Option.bind_eq_some_iff.mp h
    exact ⟨_, (TransitionSystem.trace_append _ _ hu cs).symm⟩
  · intro i r hr
    obtain ⟨hc, hd⟩ := hs.stored _ (hs.linked_created _ hr)
    refine ⟨hs.linked_created _ hr, readDocument_eq_some_iff.mpr ⟨(team i).firestoreReady, ?_, ?_⟩⟩
    · rw [← hd, ← hc]
    · rw [decodeEquipo_firestoreReady, if_neg (hproyectos i)]

/-- Two calls on one group: both teams are created, only the second is linked. -/
theorem teamCreations_lose_nothing_two :
    ∃ t, (pool Bool Bool).run
        (Pool.start groupStore fun i => addTeamToGroup
          ⟨"", if i then "A" else "B", [⟨"estudiante", "a1"⟩], [⟨"proyectos", "p1"⟩]⟩ "g1")
        [.accept true "t1", .accept false "t2", .deliver false, .accept false "", .deliver true,
          .refuse true "", .deliver true, .deliver false] = some t ∧
      getGroupData t.store true "g1" = some [some ⟨"g1", [⟨"equipo", "t2"⟩],
        [⟨"estudiante", "a1"⟩], ⟨"proyectos", "p1"⟩, 9, 2, 1, ⟨"salon", "s1"⟩⟩] := by
  refine ⟨_, rfl, ?_⟩
  exact (teamCreations_lose_nothing (ι := Bool)
    (fun i => ⟨"", if i then "A" else "B", [⟨"estudiante", "a1"⟩], [⟨"proyectos", "p1"⟩]⟩)
    ⟨"g1", [], [⟨"estudiante", "a1"⟩], ⟨"proyectos", "p1"⟩, 9, 2, 1, ⟨"salon", "s1"⟩⟩ groupStore
    (by decide +kernel) (fun i => by simp)
    [.accept true "t1", .accept false "t2", .deliver false, .accept false "", .deliver true,
      .refuse true "", .deliver true, .deliver false] _ rfl).1

end Musgravite
