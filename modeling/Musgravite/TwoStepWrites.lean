import Musgravite.Writes

/-! # What the two-step writes leave behind

`addTeamToGroup` and `addNewProjectToTeam` first add a document and then, in a
second request, link it from its parent's list.  There is no transaction and no
clean-up: when the second request fails, the call reports `false` and the new
document stays, referred to by nothing.

Both methods are `createThenLink`, and everything is proved about that: what a
call leaves (`CreatesThenLinks`), and how many documents a series of attempts
leaves. -/
namespace Musgravite
open FirebaseController FieldValue

/-- Adds a document to `collection` and links it from the list `key` of `parent`. -/
def createThenLink (collection : String) (data : Fields) (parent : DocumentReference)
    (key : String) : Program Bool :=
  .addDocument collection data fun ref err =>
    match if err then none else ref with
    | some ref => updateAndReport parent [(key, .arrayUnion [.reference ref])]
    | none => .report false

theorem addTeamToGroup_eq (team : Equipo) (grupoID : String) :
    addTeamToGroup team grupoID =
      createThenLink "equipo" team.firestoreReady ⟨"grupo", grupoID⟩ "equipos" := by
  refine congrArg (Program.addDocument "equipo" _) (funext fun ref => funext fun err => ?_)
  cases err <;> cases ref <;> rfl

theorem addNewProjectToTeam_eq {teamID : String} {project : Proyecto} {data : Fields}
    (h : project.firestoreReady = some data) :
    addNewProjectToTeam teamID project =
      createThenLink "proyectos" data ⟨"equipos", teamID⟩ "proyectos" := by
  unfold addNewProjectToTeam createNewProject
  rw [h]
  refine congrArg (Program.addDocument "proyectos" data) (funext fun ref => funext fun err => ?_)
  cases err <;> cases ref <;> rfl

/-! ## One call -/

/-- The backend applied the first request of the call. -/
def creationApplied : List Outcome → Bool
  | [] => false
  | o :: _ => o.accepted

/-- `t` differs from `s` in a new document at `r`, with the given data, and
perhaps in the document at `parent`. -/
structure Adds (s t : Store) (r : DocumentReference) (data : Fields) (parent : DocumentReference) :
    Prop where
  fresh : r.documentID ∉ s.known
  added : t.documents r = some data
  others : ∀ q, q ≠ r → q ≠ parent → t.documents q = s.documents q
  parent_kept : t.documents parent = none ↔ s.documents parent = none

/-- **The three ways a call can end**: refused at once, with the document linked,
or with the document there and not linked. -/
theorem createThenLink_exec {collection : String} {data : Fields} {parent : DocumentReference}
    {key : String} (hparent : parent.collection ≠ collection) {os : List Outcome} {s t : Store}
    {b : Bool} (h : (createThenLink collection data parent key).exec os s = some (t, b)) :
    (creationApplied os = false ∧ b = false ∧ t = s) ∨
    (creationApplied os = true ∧ ∃ id, Adds s t ⟨collection, id⟩ data parent ∧
      ((b = true ∧ ⟨collection, id⟩ ∈ t.references parent key) ∨
        (b = false ∧ t = s.write ⟨collection, id⟩ data))) := by
  unfold createThenLink at h
  cases os with
  | nil => cases h
  | cons o os =>
    cases ho : o.accepted with
    | false =>
      simp only [Program.exec, ho, Bool.false_eq_true, if_false, if_true] at h
      obtain ⟨rfl, rfl⟩ := Prod.mk.inj (Option.some.inj h)
      exact Or.inl ⟨ho, rfl, rfl⟩
    | true =>
      simp only [Program.exec, ho, Bool.false_eq_true, if_false, if_true] at h
      obtain ⟨u, hu, h⟩ := Option.bind_eq_some_iff.mp h
      obtain ⟨hid, hfresh, rfl⟩ := Store.addDocument_eq_some.mp hu
      refine Or.inr ⟨ho, o.id, ?_⟩
      -- the document is there; what is left is the link, which changes its parent or nothing
      have hne : parent ≠ ⟨collection, o.id⟩ := by
        rintro rfl
        exact hparent rfl
      have hadds : Adds s (s.write ⟨collection, o.id⟩ data) ⟨collection, o.id⟩ data parent :=
        ⟨hfresh, s.documents_write_self hid data,
          fun q hq _ => Store.documents_write_of_ne _ _ hq, by
          rw [Store.documents_write_of_ne _ _ hne]⟩
      rcases exec_updateAndReport h with ⟨rfl, rfl⟩ | ⟨rfl, f, hf, rfl⟩
      · exact ⟨hadds, Or.inr ⟨rfl, rfl⟩⟩
      · refine ⟨⟨hfresh, ?_, ?_, ?_⟩, Or.inl ⟨rfl, ?_⟩⟩
        · rw [Store.documents_write_of_ne _ _ hne.symm]
          exact hadds.added
        · intro q hq hqp
          rw [Store.documents_write_of_ne _ _ hqp]
          exact hadds.others q hq hqp
        · rw [Store.documents_write_self _ (Store.isDocumentID _ hf), ← hadds.parent_kept, hf]
          simp
        · exact (Store.mem_references_union hf).mpr (Or.inr rfl)

/-! ## A series of attempts -/

/-- Calls the method again and again, with the given outcomes for each attempt. -/
def attempts (program : Program Bool) : List (List Outcome) → Store → Option (Store × List Bool)
  | [], s => some (s, [])
  | os :: oss, s => do
      let (t, b) ← program.exec os s
      let (u, bs) ← attempts program oss t
      return (u, b :: bs)

theorem Adds.newDocuments {s t : Store} {r : DocumentReference} {data : Fields}
    {parent : DocumentReference} (h : Adds s t r data parent) : Store.NewDocuments s t [r] where
  nodup := List.nodup_singleton r
  new q hq := by
    obtain rfl := List.mem_singleton.mp hq
    exact Store.documents_eq_none_of_fresh h.fresh q.collection
  documents q := by
    rw [List.mem_singleton]
    by_cases hq : q = r
    · subst hq
      simp [h.added]
    · by_cases hp : q = parent
      · subst hp
        simp [h.parent_kept, hq]
      · simp [h.others q hq hp, hq]

/-- One document for each attempt whose creation was applied. -/
theorem attempts_newDocuments {collection : String} {data : Fields} {parent : DocumentReference}
    {key : String} (hparent : parent.collection ≠ collection) {oss : List (List Outcome)}
    {s t : Store} {bs : List Bool}
    (h : attempts (createThenLink collection data parent key) oss s = some (t, bs)) :
    ∃ created, Store.NewDocuments s t created ∧ created.length = oss.countP creationApplied := by
  induction oss generalizing s bs with
  | nil =>
    obtain ⟨rfl, rfl⟩ := Prod.mk.inj (Option.some.inj h)
    exact ⟨[], .refl s, rfl⟩
  | cons os oss ih =>
    obtain ⟨⟨u, b⟩, hu, h⟩ := Option.bind_eq_some_iff.mp h
    obtain ⟨⟨v, bs'⟩, hv, h⟩ := Option.bind_eq_some_iff.mp h
    obtain ⟨rfl, rfl⟩ := Prod.mk.inj (Option.some.inj h)
    obtain ⟨created, hcreated, hlen⟩ := ih hv
    rcases createThenLink_exec hparent hu with ⟨ho, -, rfl⟩ | ⟨ho, id, hadds, -⟩
    · exact ⟨created, hcreated, by simp [ho, hlen]⟩
    · exact ⟨_ :: created, hadds.newDocuments.trans hcreated, by simp [ho, hlen]⟩

/-! ## Both methods -/

/-- What a two-step write does, whatever the store and the outcomes of its requests. -/
structure CreatesThenLinks (program : Program Bool) (collection : String) (data : Fields)
    (parent : DocumentReference) (key : String) : Prop where
  /-- After a success there is one new document, and the parent refers to it. -/
  succeeded : ∀ s os t, program.exec os s = some (t, true) →
    ∃ id, Adds s t ⟨collection, id⟩ data parent ∧ ⟨collection, id⟩ ∈ t.references parent key
  /-- After a failure the store is what it was if the creation was refused. -/
  refused : ∀ s os t, program.exec os s = some (t, false) → creationApplied os = false → t = s
  /-- After a failure to link, one new document that nothing refers to is left. -/
  unlinked : ∀ s os t, program.exec os s = some (t, false) → creationApplied os = true →
    ∃ id, id ∉ s.known ∧ t = s.write ⟨collection, id⟩ data ∧ t.Orphan ⟨collection, id⟩
  /-- Failed attempts and then a success leave one new document for the success
  and one for each failed attempt whose creation was applied. -/
  retried : ∀ s oss os t u,
    attempts program oss s = some (t, List.replicate oss.length false) →
    program.exec os t = some (u, true) →
    ∃ created, Store.NewDocuments s u created ∧ created.length = oss.countP creationApplied + 1

theorem createThenLink_createsThenLinks {collection : String} {data : Fields}
    {parent : DocumentReference} {key : String} (hparent : parent.collection ≠ collection) :
    CreatesThenLinks (createThenLink collection data parent key) collection data parent key where
  succeeded s os t h := by
    rcases createThenLink_exec hparent h with ⟨-, hb, -⟩ | ⟨-, id, hadds, ⟨-, href⟩ | ⟨hb, -⟩⟩
    · cases hb
    · exact ⟨id, hadds, href⟩
    · cases hb
  refused s os t h ho := by
    rcases createThenLink_exec hparent h with ⟨-, -, ht⟩ | ⟨ho', -⟩
    · exact ht
    · rw [ho] at ho'
      cases ho'
  unlinked s os t h ho := by
    rcases createThenLink_exec hparent h with ⟨ho', -⟩ | ⟨-, id, hadds, ⟨hb, -⟩ | ⟨-, rfl⟩⟩
    · rw [ho] at ho'
      cases ho'
    · cases hb
    · exact ⟨id, hadds.fresh, rfl, Store.orphan_write hadds.fresh data⟩
  retried s oss os t u h hlast := by
    obtain ⟨created, hcreated, hlen⟩ := attempts_newDocuments hparent h
    rcases createThenLink_exec hparent hlast with ⟨-, hb, -⟩ | ⟨-, id, hadds, -⟩
    · cases hb
    · exact ⟨_, hcreated.trans hadds.newDocuments, by simp [hlen]⟩

/-- **What the two-step writes leave behind.**  A project that cannot be stored
makes `addNewProjectToTeam` trap before its first request. -/
theorem twoStepWrites_createThenLink :
    (∀ team grupoID, CreatesThenLinks (addTeamToGroup team grupoID) "equipo" team.firestoreReady
      ⟨"grupo", grupoID⟩ "equipos") ∧
    (∀ teamID project data, project.firestoreReady = some data →
      CreatesThenLinks (addNewProjectToTeam teamID project) "proyectos" data
        ⟨"equipos", teamID⟩ "proyectos") := by
  constructor
  · intro team grupoID
    rw [addTeamToGroup_eq]
    exact createThenLink_createsThenLinks (by simp)
  · intro teamID project data h
    rw [addNewProjectToTeam_eq h]
    exact createThenLink_createsThenLinks (by simp)

/-- A project for a team that `equipos` does not know is created all the same. -/
theorem addNewProjectToTeam_leaves_orphan :
    ∃ t, (addNewProjectToTeam "t1" ⟨"", "Proyecto 1", .absent, .absent, "", []⟩).exec
        [⟨true, "p2"⟩, ⟨true, ""⟩] groupStore = some (t, false) ∧
      ∃ id, id ∉ groupStore.known ∧ t.Orphan ⟨"proyectos", id⟩ := by
  refine ⟨_, rfl, ?_⟩
  obtain ⟨id, hid, -, horphan⟩ := (twoStepWrites_createThenLink.2 "t1"
    ⟨"", "Proyecto 1", .absent, .absent, "", []⟩ _ rfl).unlinked groupStore
      [⟨true, "p2"⟩, ⟨true, ""⟩] _ rfl rfl
  exact ⟨id, hid, horphan⟩

/-- The link is refused: the call reports false, and the team it created stays.
The second attempt leaves a second team. -/
theorem addTeamToGroup_leaves_orphan :
    ∃ t, (addTeamToGroup ⟨"", "Equipo 1", [⟨"estudiante", "a1"⟩], [⟨"proyectos", "p1"⟩]⟩ "g1").exec
        [⟨true, "t1"⟩, ⟨false, ""⟩] groupStore = some (t, false) ∧
      groupStore.documents ⟨"equipo", "t1"⟩ = none ∧ t.documents ⟨"equipo", "t1"⟩ ≠ none ∧
      ∃ u, (addTeamToGroup ⟨"", "Equipo 1", [⟨"estudiante", "a1"⟩], [⟨"proyectos", "p1"⟩]⟩
          "g1").exec [⟨true, "t2"⟩, ⟨true, ""⟩] t = some (u, true) ∧
        u.documents ⟨"equipo", "t1"⟩ ≠ none ∧ u.documents ⟨"equipo", "t2"⟩ ≠ none := by
  exact ⟨_, rfl, rfl, by decide +kernel, _, rfl, by decide +kernel, by decide +kernel⟩

end Musgravite
