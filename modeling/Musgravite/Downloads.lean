import Musgravite.Getters
import Musgravite.Library.FanOut

/-! # The fan-out downloads of `FirebaseController`

Five methods download a list of documents, one request to a getter for each.
Their completion blocks add what arrives to a captured list and differ in the
test that decides when to answer: `getGroupsInCourse` counts in its success
branch, `getStudentsInCourse` and `getTeamsInCourse` count after both branches,
`getTareasData` looks whether the request was the last one of the list, and
`getTasksInProject` has no test at all. -/
namespace Musgravite
namespace FirebaseController
open FanOut

/-! ## The completion blocks -/

/-- `if returnX == nil { returnX = [x] } else { returnX!.append(x) }`. -/
def appendTo {α : Type} (returned : Option (List α)) (x : α) : List α :=
  match returned with
  | none => [x]
  | some xs => xs ++ [x]

/-- The block of `getStudentsInCourse` and `getTeamsInCourse`: the count is tested
after either branch. -/
def countAfterBranches {ρ α : Type} (requests : List ρ) (returned : Option (List α)) (_ : ρ)
    (retrieved : Option α) : Option (List α) × List (Option (List α)) :=
  let (returned, calls) := match retrieved with
    | some x => (some (appendTo returned x), [])
    | none => (returned, [none])
  (returned, calls ++
    if returned.map List.length = some requests.length then [returned] else [])

def getGroupsInCourse : FanOut String Grupo where
  key := id
  ident := Grupo.documentID
  block grupos returnGrupo _
    -- the count is tested in this branch only
    | some retrievedGrupo =>
        let returnGrupo := appendTo returnGrupo retrievedGrupo
        (some returnGrupo, if returnGrupo.length = grupos.length then [some returnGrupo] else [])
    | none => (returnGrupo, [none])

def getStudentsInCourse : FanOut DocumentReference Estudiante where
  key := DocumentReference.documentID
  ident := Estudiante.id
  block := countAfterBranches

def getTeamsInCourse : FanOut DocumentReference Equipo where
  key := DocumentReference.documentID
  ident := Equipo.documentID
  block := countAfterBranches

def getTasksInProject : FanOut DocumentReference Tarea where
  key := DocumentReference.documentID
  ident := Tarea.id
  block _ returnTasks _
    | some retrievedTarea =>
        let returnTasks := appendTo returnTasks retrievedTarea
        (some returnTasks, [some returnTasks])
    | none => (returnTasks, [none])

/-- `tareas.last!` is there: the block was registered for an element of `tareas`. -/
def getTareasData : FanOut DocumentReference Tarea where
  key := DocumentReference.documentID
  ident := Tarea.id
  block tareas tareasToStore tarea
    | some tareax =>
        let tareasToStore := appendTo tareasToStore tareax
        (some tareasToStore, if tareas.getLast? = some tarea then [some tareasToStore] else [])
    | none => (tareasToStore, [none])

/-! ## Where the replies come from -/

/-- What a getter hands on is a document with the identifier that was asked for:
a reply of the store is one that `FanOut.serve` admits. -/
theorem documentID_of_readDocument {α : Type} {decode : String → Fields → Option α}
    {ident : α → String} (hident : ∀ id f x, decode id f = some x → ident x = id) {s : Store}
    {r : DocumentReference} {answered : Bool} {a : Option α}
    (h : readDocument decode (s.getDocument r answered) = some [a]) :
    ∀ x ∈ a, ident x = r.documentID := by
  rintro x rfl
  cases answered with
  | false => simp [Store.getDocument, readDocument] at h
  | true =>
    obtain ⟨y, hy, he⟩ := Option.map_eq_some_iff.mp h
    obtain ⟨f, -, hf⟩ := Option.bind_eq_some_iff.mp hy
    obtain rfl : y = x := by simpa using he
    exact hident _ _ _ hf

/-- Serving a download from the store goes wrong only where its getter traps: no
reply of the store is turned away. -/
theorem serveWith_readDocument_iff {ρ α : Type} {F : FanOut ρ α}
    {decode : String → Fields → Option α} (hident : ∀ id f x, decode id f = some x → F.ident x = id)
    {s : Store} {answered : Bool} {collection : String} {d : Download ρ α} {k : Nat} :
    (F.serveWith (fun r => readDocument decode (s.getDocument ⟨collection, F.key r⟩ answered))
        d k).isSome ↔
      ∃ r, d.unserved[k]? = some r ∧
        readDocument decode (s.getDocument ⟨collection, F.key r⟩ answered) ≠ none := by
  constructor
  · intro h
    cases hr : d.unserved[k]? with
    | none => simp [serveWith, hr] at h
    | some r =>
      refine ⟨r, rfl, fun hnone => ?_⟩
      simp [serveWith, hr, hnone] at h
  · rintro ⟨r, hr, hne⟩
    obtain ⟨a, ha⟩ : ∃ a, readDocument decode (s.getDocument ⟨collection, F.key r⟩ answered) =
        some [a] := by
      cases hreply : s.getDocument ⟨collection, F.key r⟩ answered with
      | error => exact ⟨none, rfl⟩
      | snapshot id data =>
        rw [hreply] at hne
        obtain ⟨calls, hcalls⟩ := Option.ne_none_iff_exists'.mp hne
        obtain ⟨x, hx, rfl⟩ := Option.map_eq_some_iff.mp hcalls
        exact ⟨some x, hcalls⟩
    exact serveWith_isSome hr ha (documentID_of_readDocument hident ha)

theorem getTeamsInCourse_serveWith_iff {s : Store} {answered : Bool}
    {d : Download DocumentReference Equipo} {k : Nat} :
    (getTeamsInCourse.serveWith (getTeamData s answered) d k).isSome ↔
      ∃ team, d.unserved[k]? = some team ∧ getTeamData s answered team ≠ none :=
  serveWith_readDocument_iff fun _ _ _ h => (decodeEquipo_eq_some.mp h).1

theorem getStudentsInCourse_serveWith_iff {s : Store} {answered : Bool}
    {d : Download DocumentReference Estudiante} {k : Nat} :
    (getStudentsInCourse.serveWith (getStudentData s answered) d k).isSome ↔
      ∃ student, d.unserved[k]? = some student ∧ getStudentData s answered student ≠ none :=
  serveWith_readDocument_iff fun _ _ _ h => id_of_decodeEstudiante h

theorem getTareasData_serveWith_iff {s : Store} {answered : Bool}
    {d : Download DocumentReference Tarea} {k : Nat} :
    (getTareasData.serveWith (getTareaData s answered) d k).isSome ↔
      ∃ tarea, d.unserved[k]? = some tarea ∧ getTareaData s answered tarea ≠ none :=
  serveWith_readDocument_iff fun _ _ _ h => id_of_decodeTarea h

/-! ## The counting blocks join by count -/

theorem appendTo_eq {α : Type} (returned : Option (List α)) (x : α) :
    appendTo returned x = returned.getD [] ++ [x] := by
  cases returned <;> rfl

/-- One after the other, whatever has been returned before. -/
theorem foldl_appendTo {α β : Type} (f : α → β) (returned : Option (List β)) {l : List α}
    (h : l ≠ []) : l.foldl (fun returned x => some (appendTo returned (f x))) returned =
      some (returned.getD [] ++ l.map f) := by
  induction l generalizing returned with
  | nil => exact absurd rfl h
  | cons x l ih =>
    rw [List.foldl_cons, appendTo_eq]
    by_cases hl : l = []
    · rw [hl]
      rfl
    · rw [ih _ hl]
      simp

theorem countAfterBranches_success {ρ α : Type} (requests : List ρ) (c : Option (List α)) (r : ρ)
    (x : α) : countAfterBranches requests c r (some x) =
      (some (c.getD [] ++ [x]),
        if (c.getD []).length + 1 = requests.length then [some (c.getD [] ++ [x])] else []) := by
  simp [countAfterBranches, appendTo_eq]

/-- The count that is tested after a failure cannot be the full one. -/
theorem countAfterBranches_failure {ρ α : Type} (requests : List ρ) (c : Option (List α)) (r : ρ)
    (h : (c.getD []).length < requests.length) :
    countAfterBranches requests c r none = (c, [none]) := by
  have : c.map List.length ≠ some requests.length := by
    cases c with
    | none => simp
    | some l => simpa using h.ne
  simp [countAfterBranches, this]

theorem joinsByCount_groups : JoinsByCount getGroupsInCourse where
  success requests c r x := by simp [getGroupsInCourse, appendTo_eq]
  failure _ _ _ _ := rfl

theorem joinsByCount_students : JoinsByCount getStudentsInCourse where
  success := countAfterBranches_success
  failure := countAfterBranches_failure

theorem joinsByCount_teams : JoinsByCount getTeamsInCourse where
  success := countAfterBranches_success
  failure := countAfterBranches_failure

theorem reportsFailures_groups : ReportsFailures getGroupsInCourse := by
  intro requests c r a
  cases a with
  | none => rfl
  | some x =>
    simp only [getGroupsInCourse]
    split <;> simp

/-- The list that is passed on after a failure is not another failure. -/
theorem countAfterBranches_reports {ρ α : Type} (requests : List ρ) (c : Option (List α)) (r : ρ)
    (a : Option α) : (countAfterBranches requests c r a).2.countP Option.isNone =
      if a.isNone then 1 else 0 := by
  cases a with
  | none =>
    cases c with
    | none => simp [countAfterBranches]
    | some l =>
      simp only [countAfterBranches]
      split <;> simp
  | some x =>
    rw [countAfterBranches_success]
    split <;> simp

theorem reportsFailures_students : ReportsFailures getStudentsInCourse :=
  countAfterBranches_reports

theorem reportsFailures_teams : ReportsFailures getTeamsInCourse :=
  countAfterBranches_reports

/-! ## The other two -/

theorem reportsFailures_tasks : ReportsFailures getTasksInProject := by
  intro requests c r a
  cases a <;> simp [getTasksInProject]

theorem reportsFailures_tareas : ReportsFailures getTareasData := by
  intro requests c r a
  cases a with
  | none => rfl
  | some x =>
    simp only [getTareasData]
    split <;> simp

/-- `getTasksInProject` calls back at every reply. -/
theorem getTasksInProject_answeredOnce_iff {d : Download DocumentReference Tarea}
    (hd : getTasksInProject.Sound d) (hf : d.Finished) :
    d.AnsweredOnce ↔ d.requests.length = 1 := by
  have hlen : d.completions.length = d.delivered.countP fun _ => true := by
    rw [hd.completions_eq]
    refine length_answer (fun c p => ?_) _
    obtain ⟨r, a⟩ := p
    cases a <;> rfl
  rw [reportsFailures_tasks.answeredOnce_iff hd, hlen, List.countP_true, hd.finished_iff.mp hf]

/-- `getTareasData` calls back at every failure and at every reply to a request
for the last reference of the list. -/
theorem getTareasData_length_completions {d : Download DocumentReference Tarea}
    (hd : getTareasData.Sound d) {last : DocumentReference}
    (hlast : d.requests.getLast? = some last) :
    d.completions.length = d.delivered.countP fun p => p.2.isNone || p.1 == last := by
  rw [hd.completions_eq]
  refine length_answer (fun c p => ?_) _
  obtain ⟨r, a⟩ := p
  cases a with
  | none => rfl
  | some x =>
    simp only [getTareasData, hlast, Option.some.injEq, Option.isNone_some, Bool.false_or,
      beq_iff_eq, eq_comm (a := last)]
    split <;> rfl

/-- Those with the second property, and those with the first alone. -/
theorem countP_or {α : Type} (p q : α → Bool) (l : List α) :
    l.countP (fun x => p x || q x) = l.countP q + l.countP fun x => p x && !q x := by
  induction l with
  | nil => rfl
  | cons x l ih =>
    simp only [List.countP_cons, ih]
    cases p x <;> cases q x <;> simp <;> omega

/-- So it answers once if the last reference occurs once and no other fails. -/
theorem getTareasData_answeredOnce_iff {d : Download DocumentReference Tarea}
    (hd : getTareasData.Sound d) (hf : d.Finished) :
    d.AnsweredOnce ↔ ∃ last, d.requests.getLast? = some last ∧ d.requests.count last = 1 ∧
      ∀ p ∈ d.delivered, p.2 = none → p.1 = last := by
  rw [reportsFailures_tareas.answeredOnce_iff hd]
  cases hlast : d.requests.getLast? with
  | none =>
    have hnil : d.requests = [] := List.getLast?_eq_none_iff.mp hlast
    have hdel : d.delivered = [] := by
      rw [← List.length_eq_zero_iff, hd.finished_iff.mp hf, hnil, List.length_nil]
    rw [hd.completions_eq, hdel]
    simp
  | some last =>
    simp only [Option.some.injEq, exists_eq_left']
    have hcount : d.requests.count last = d.delivered.countP fun p => p.1 == last := by
      rw [← (hd.delivered_perm hf).count_eq, List.count, List.countP_map]
      rfl
    have hpos : 0 < d.requests.count last :=
      List.count_pos_iff.mpr (List.mem_of_getLast? hlast)
    -- the calls made for the last reference, and those made for other failures
    have hother : (d.delivered.countP fun p => p.2.isNone && !(p.1 == last)) = 0 ↔
        ∀ p ∈ d.delivered, p.2 = none → p.1 = last := by
      simp [List.countP_eq_zero]
    rw [getTareasData_length_completions hd hlast, countP_or, ← hother, ← hcount]
    omega

theorem passesOn_tasks : PassesOn getTasksInProject fun _ _ => True where
  success requests c r x := by simp [getTasksInProject, appendTo_eq]
  failure _ _ _ := rfl

theorem passesOn_tareas :
    PassesOn getTareasData fun tareas tarea => tareas.getLast? = some tarea where
  success requests c r x := by simp [getTareasData, appendTo_eq]
  failure _ _ _ := rfl

/-- `getTasksInProject` hands on complete lists if there is one task, or none has
arrived. -/
theorem getTasksInProject_complete_iff {d : Download DocumentReference Tarea}
    (hd : getTasksInProject.Sound d) :
    (∀ l, some l ∈ d.completions →
      (l.map getTasksInProject.ident).Perm (d.requests.map getTasksInProject.key)) ↔
    d.requests.length = 1 ∨ ∀ p ∈ d.delivered, p.2 = none := by
  rw [passesOn_tasks.complete_iff hd]
  constructor
  · intro h
    rw [or_iff_not_imp_right]
    intro hsome
    obtain ⟨p, hp, hpsome⟩ : ∃ p ∈ d.delivered, p.2.isSome := by
      simpa [Option.isSome_iff_ne_none] using hsome
    obtain ⟨before, after, he⟩ := List.append_of_mem hp
    have hall := (h before p after he hpsome trivial).2
    -- then the first reply is a success, and a list of one task was handed on
    cases hdel : d.delivered with
    | nil => rw [hdel] at hp; cases hp
    | cons first rest =>
      have hfirst := hall first (hdel ▸ List.mem_cons_self)
      exact (h [] first rest hdel hfirst trivial).1.symm
  · rintro (hone | hnone) before p after he hp -
    · have hlen := hd.length_delivered_le
      rw [he, hone, List.length_append, List.length_cons] at hlen
      have hbefore : before = [] := List.length_eq_zero_iff.mp (by omega)
      have hafter : after = [] := List.length_eq_zero_iff.mp (by omega)
      subst hbefore hafter
      exact ⟨hone.symm, by rw [Download.AllSucceeded, he]; simpa using hp⟩
    · rw [hnone p (by simp [he])] at hp
      cases hp

/-- `getTareasData` hands on complete lists if no reply for the last reference is a
success, or the one reply for it is the last of all and all have succeeded. -/
theorem getTareasData_complete_iff {d : Download DocumentReference Tarea}
    (hd : getTareasData.Sound d) {last : DocumentReference}
    (hlast : d.requests.getLast? = some last) :
    (∀ l, some l ∈ d.completions →
      (l.map getTareasData.ident).Perm (d.requests.map getTareasData.key)) ↔
    (∀ p ∈ d.delivered, p.1 = last → p.2 = none) ∨
      d.requests.count last = 1 ∧ d.delivered.length = d.requests.length ∧
        d.delivered.getLast?.map Prod.fst = some last ∧ ∀ p ∈ d.delivered, p.2.isSome := by
  rw [passesOn_tareas.complete_iff hd]
  simp only [hlast, Option.some.injEq]
  have hlen := hd.length_delivered_le
  -- once all replies are in, the last reference is among them as often as in the list
  have hcount : d.delivered.length = d.requests.length →
      d.requests.count last = (d.delivered.map Prod.fst).count last :=
    fun hfull => ((hd.delivered_perm (hd.finished_iff.mpr hfull)).count_eq last).symm
  constructor
  · intro h
    rw [or_iff_not_imp_left]
    intro hsome
    obtain ⟨p, hp, rfl, hpsome⟩ : ∃ p ∈ d.delivered, p.1 = last ∧ p.2.isSome := by
      simpa [Option.isSome_iff_ne_none] using hsome
    obtain ⟨before, after, he⟩ := List.append_of_mem hp
    obtain ⟨hbefore, hall⟩ := h before p after he hpsome rfl
    rw [he, List.length_append, List.length_cons] at hlen
    have hafter : after = [] := List.length_eq_zero_iff.mp (by omega)
    subst hafter
    have hfull : d.delivered.length = d.requests.length := by rw [he]; simpa using hbefore
    -- an earlier reply for the same reference would have been the last one too
    have hfirst : p.1 ∉ before.map Prod.fst := by
      intro hmem
      obtain ⟨p', hp', hfst⟩ := List.mem_map.mp hmem
      obtain ⟨before', after', rfl⟩ := List.append_of_mem hp'
      have := (h before' p' (after' ++ [p]) (by simp [he]) (hall p' (by simp [he])) hfst.symm).1
      simp only [List.length_append, List.length_cons] at hbefore
      omega
    refine ⟨?_, hfull, by simp [he], hall⟩
    rw [hcount hfull, he, List.map_append, List.count_append, List.count_eq_zero.mpr hfirst]
    simp
  · rintro (hnone | ⟨hone, hfull, hend, hall⟩) before p after he hp hpl
    · rw [hnone p (by simp [he]) hpl.symm] at hp
      cases hp
    · refine ⟨?_, hall⟩
      rcases List.eq_nil_or_concat after with rfl | ⟨after, p', rfl⟩
      · rw [← hfull, he]
        simp
      · -- the last reply is another one for the same reference
        rw [he, List.concat_eq_append, ← List.cons_append, ← List.append_assoc,
          List.getLast?_concat] at hend
        have hp' : p'.1 = last := Option.some.inj hend
        rw [hcount hfull, he, List.map_append, List.count_append] at hone
        simp [List.count_append, hpl.symm, hp'] at hone
        omega

/-! ### Tasks that have all arrived -/

section AllSucceeded
variable {d e : Download DocumentReference Tarea} {last : DocumentReference}

/-- A success leads to one call at most, and that hands on a task. -/
theorem getTareasData_newCompletions {k : Nat} {tarea : DocumentReference} {tareax : Tarea}
    (hp : d.transit[k]? = some (tarea, some tareax)) (h : getTareasData.deliver d k = some e) :
    d.newCompletions e = [] ∨ ∃ l, l ≠ [] ∧ d.newCompletions e = [some l] := by
  obtain ⟨p, hp', hnew⟩ := newCompletions_deliver h
  obtain rfl := Option.some.inj (hp.symm.trans hp')
  rw [passesOn_tareas.success] at hnew
  rw [hnew]
  by_cases hlast : d.requests.getLast? = some tarea
  · exact Or.inr ⟨_, by simp, if_pos hlast⟩
  · exact Or.inl (if_neg hlast)

/-- Then there has been one call for each request for the last reference. -/
theorem getTareasData_length_of_allSucceeded (hd : getTareasData.Sound d) (hf : d.Finished)
    (hs : d.AllSucceeded) (hlast : d.requests.getLast? = some last) :
    d.completions.length = d.requests.count last := by
  rw [getTareasData_length_completions hd hlast, ← (hd.delivered_perm hf).count_eq, List.count,
    List.countP_map]
  refine List.countP_congr fun p hp => ?_
  have hsome : p.2.isNone = false := by simpa using hs p hp
  simp [hsome]

/-- The list of a single call is complete if the last reference was answered last. -/
theorem getTareasData_single (hd : getTareasData.Sound d) (hf : d.Finished)
    (hs : d.AllSucceeded) (hlast : d.requests.getLast? = some last) {l : List Tarea}
    (hl : d.completions = [some l]) : l.length ≤ d.requests.length ∧
      (l.length = d.requests.length ↔ l = d.documents) ∧
      (l = d.documents ↔ d.delivered.getLast?.map Prod.fst = some last) := by
  have hmem : some l ∈ d.completions := hl ▸ List.mem_singleton_self _
  have hprefix := passesOn_tareas.prefix_documents hd hmem
  have hperm := hd.documents_perm hf hs
  have hlength : d.documents.length = d.requests.length := by simpa using hperm.length_eq
  have hwhole : l.length = d.requests.length ↔ l = d.documents :=
    ⟨fun h => hprefix.eq_of_length (h.trans hlength.symm), fun h => h ▸ hlength⟩
  refine ⟨hlength ▸ hprefix.length_le, hwhole, ?_⟩
  have hcomplete := getTareasData_complete_iff hd hlast
  rw [hl] at hcomplete
  simp only [List.mem_singleton, Option.some.injEq, forall_eq] at hcomplete
  have hone := getTareasData_length_of_allSucceeded hd hf hs hlast
  rw [hl, List.length_singleton] at hone
  constructor
  · intro h
    rcases hcomplete.mp (h ▸ hperm) with hnone | ⟨-, -, hend, -⟩
    · -- the last reference has been answered, with success
      have hreply : last ∈ d.delivered.map Prod.fst :=
        (hd.delivered_perm hf).symm.subset (List.mem_of_getLast? hlast)
      obtain ⟨p, hp, hfst⟩ := List.mem_map.mp hreply
      have hsome := hs p hp
      simp [hnone p hp hfst] at hsome
    · exact hend
  · intro hend
    have hids := hcomplete.mpr (Or.inr ⟨hone.symm, hd.finished_iff.mp hf, hend, hs⟩)
    exact hwhole.mp (by simpa using hids.length_eq)

end AllSucceeded

/-! ## Every run of overlapping calls -/

section Runs
variable (ι : Type) [DecidableEq ι]

/-- In every run of any number of calls, a call all of whose replies have been
delivered has answered its caller exactly once (with `nil` if a request failed and
with a list otherwise) if and only if its requests and replies meet `C`. -/
def AnswersOnceIff {ρ α : Type} (F : FanOut ρ α)
    (C : (requests : List ρ) → (replies : List (ρ × Option α)) → Prop) : Prop :=
  ∀ (requests : ι → List ρ) (as : List (Event ι α)) (s : ι → Download ρ α),
    (F.system ι).run (start requests) as = some s →
    ∀ i, (s i).Finished → ((s i).AnsweredOnce ↔ C (requests i) (s i).delivered)

theorem answersOnceIff_of_joinsByCount {ρ α : Type} {F : FanOut ρ α} (hF : JoinsByCount F) :
    AnswersOnceIff ι F fun requests replies => requests ≠ [] ∧ failures replies ≤ 1 := by
  intro requests as s h i hf
  obtain ⟨hd, hr⟩ := system_sound h i
  rw [hF.answeredOnce_iff hd hf, hr]

/-- **When the downloads answer once.**  The counting ones do for a nonempty list
with at most one failure; `getTasksInProject` does for a list of one reference;
`getTareasData` does when the last reference occurs once and no other fails. -/
theorem downloads_answersOnceIff :
    AnswersOnceIff ι getGroupsInCourse
      (fun grupos replies => grupos ≠ [] ∧ failures replies ≤ 1) ∧
    AnswersOnceIff ι getStudentsInCourse
      (fun estudiantes replies => estudiantes ≠ [] ∧ failures replies ≤ 1) ∧
    AnswersOnceIff ι getTeamsInCourse
      (fun equipos replies => equipos ≠ [] ∧ failures replies ≤ 1) ∧
    AnswersOnceIff ι getTasksInProject (fun tareas _ => tareas.length = 1) ∧
    AnswersOnceIff ι getTareasData (fun tareas replies =>
      ∃ last, tareas.getLast? = some last ∧ tareas.count last = 1 ∧
        ∀ p ∈ replies, p.2 = none → p.1 = last) := by
  refine ⟨answersOnceIff_of_joinsByCount ι joinsByCount_groups,
    answersOnceIff_of_joinsByCount ι joinsByCount_students,
    answersOnceIff_of_joinsByCount ι joinsByCount_teams, ?_, ?_⟩
  · intro requests as s h i hf
    obtain ⟨hd, hr⟩ := system_sound h i
    rw [getTasksInProject_answeredOnce_iff hd hf, hr]
  · intro requests as s h i hf
    obtain ⟨hd, hr⟩ := system_sound h i
    rw [getTareasData_answeredOnce_iff hd hf, hr]

/-- Two teams, the first of which cannot be downloaded: one answer. -/
theorem downloads_answersOnceIff_two_teams :
    ∃ s, (getTeamsInCourse.system Unit).run
        (start fun _ => [⟨"equipo", "t1"⟩, ⟨"equipo", "t2"⟩])
        [.serve () 1 (some ⟨"t2", "B", [], []⟩), .serve () 0 none, .deliver () 1, .deliver () 0] =
          some s ∧
      (s ()).AnsweredOnce :=
  ⟨_, rfl, ((downloads_answersOnceIff Unit).2.2.1 (fun _ => [⟨"equipo", "t1"⟩, ⟨"equipo", "t2"⟩])
    [.serve () 1 (some ⟨"t2", "B", [], []⟩), .serve () 0 none, .deliver () 1, .deliver () 0]
    _ rfl () ⟨rfl, rfl⟩).mpr ⟨by simp, by decide⟩⟩

/-- A group without teams never hears from `getTeamsInCourse`, and
`getTasksInProject` answers twice for two tasks. -/
theorem downloads_not_answeredOnce :
    (∃ s, (getTeamsInCourse.system Unit).run (start fun _ => []) [] = some s ∧
      (s ()).Finished ∧ ¬ (s ()).AnsweredOnce) ∧
    (∃ s, (getTasksInProject.system Unit).run
        (start fun _ => [⟨"tareas", "t1"⟩, ⟨"tareas", "t2"⟩])
        [.serve () 0 (some ⟨"t1", "", "", ⟨0, 0⟩, ⟨0, 0⟩, "", "", ⟨"estudiante", "a1"⟩⟩),
          .serve () 0 (some ⟨"t2", "", "", ⟨0, 0⟩, ⟨0, 0⟩, "", "", ⟨"estudiante", "a1"⟩⟩),
          .deliver () 1, .deliver () 0] = some s ∧
      (s ()).Finished ∧ ¬ (s ()).AnsweredOnce) := by
  refine ⟨⟨_, rfl, ⟨rfl, rfl⟩, ?_⟩, ⟨_, rfl, ⟨rfl, rfl⟩, ?_⟩⟩
  all_goals
    rintro ⟨c, hc, -⟩
    cases hc

/-- In every run of any number of calls and at every moment of it: a call has been
given a list exactly if it asked for something, all its replies are in and none of
them is a failure; it has been given nothing else then, and the list holds the
documents it asked for, each as often as it was asked for. -/
def DeliversWhole {ρ α : Type} (F : FanOut ρ α) : Prop :=
  ∀ (requests : ι → List ρ) (as : List (Event ι α)) (s : ι → Download ρ α),
    (F.system ι).run (start requests) as = some s → ∀ i,
    ((∃ l, some l ∈ (s i).completions) ↔
      requests i ≠ [] ∧ (s i).Finished ∧ (s i).AllSucceeded) ∧
    ∀ l, some l ∈ (s i).completions → (s i).completions = [some l] ∧ l = (s i).documents ∧
      (l.map F.ident).Perm ((requests i).map F.key)

theorem deliversWhole_of_joinsByCount {ρ α : Type} {F : FanOut ρ α} (hF : JoinsByCount F) :
    DeliversWhole ι F := by
  intro requests as s h i
  obtain ⟨hd, hr⟩ := system_sound h i
  obtain ⟨hiff, honce⟩ := hF.some_mem_completions hd
  rw [← hr]
  refine ⟨hiff, fun l hl => ?_⟩
  exact ⟨(honce l hl).1, (honce l hl).2, hF.perm_of_mem_completions hd hl⟩

/-- **The counting downloads deliver whole lists**: never a part of what was asked
for, never the documents of another call. -/
theorem downloads_deliverWhole :
    DeliversWhole ι getGroupsInCourse ∧ DeliversWhole ι getStudentsInCourse ∧
      DeliversWhole ι getTeamsInCourse :=
  ⟨deliversWhole_of_joinsByCount ι joinsByCount_groups,
    deliversWhole_of_joinsByCount ι joinsByCount_students,
    deliversWhole_of_joinsByCount ι joinsByCount_teams⟩

/-- Two teams that arrive in the other order. -/
theorem downloads_deliverWhole_two_teams :
    ∃ s, (getTeamsInCourse.system Unit).run
        (start fun _ => [⟨"equipo", "t1"⟩, ⟨"equipo", "t2"⟩])
        [.serve () 0 (some ⟨"t1", "A", [], []⟩), .serve () 0 (some ⟨"t2", "B", [], []⟩),
          .deliver () 1, .deliver () 0] = some s ∧
      (s ()).completions = [some [⟨"t2", "B", [], []⟩, ⟨"t1", "A", [], []⟩]] :=
  ⟨_, rfl, (((downloads_deliverWhole Unit).2.2 (fun _ => [⟨"equipo", "t1"⟩, ⟨"equipo", "t2"⟩])
    [.serve () 0 (some ⟨"t1", "A", [], []⟩), .serve () 0 (some ⟨"t2", "B", [], []⟩),
      .deliver () 1, .deliver () 0] _ rfl ()).2 _ (List.mem_singleton_self _)).1⟩

/-- In every run of any number of calls and at every moment of it: a call for a
nonempty list has handed on complete lists only, each holding the documents it asked
for, each as often as it was asked for, if and only if its requests and the replies
delivered so far meet `C`. -/
def DeliversCompleteIff {ρ α : Type} (F : FanOut ρ α)
    (C : (requests : List ρ) → (replies : List (ρ × Option α)) → Prop) : Prop :=
  ∀ (requests : ι → List ρ) (as : List (Event ι α)) (s : ι → Download ρ α),
    (F.system ι).run (start requests) as = some s → ∀ i, requests i ≠ [] →
    ((∀ l, some l ∈ (s i).completions → (l.map F.ident).Perm ((requests i).map F.key)) ↔
      C (requests i) (s i).delivered)

/-- **When the task downloads deliver complete lists.**  `getTasksInProject` does if
there is one task or none has arrived; `getTareasData` does if no request for the
last reference has succeeded, or if that reference occurs once, all requests have
succeeded and its reply arrived last. -/
theorem taskDownloads_completeIff :
    DeliversCompleteIff ι getTasksInProject (fun tareas replies =>
      tareas.length = 1 ∨ ∀ p ∈ replies, p.2 = none) ∧
    DeliversCompleteIff ι getTareasData (fun tareas replies =>
      ∃ last, tareas.getLast? = some last ∧
        ((∀ p ∈ replies, p.1 = last → p.2 = none) ∨
          tareas.count last = 1 ∧ replies.length = tareas.length ∧
            replies.getLast?.map Prod.fst = some last ∧ ∀ p ∈ replies, p.2.isSome)) := by
  constructor
  · intro requests as s h i _
    obtain ⟨hd, hr⟩ := system_sound h i
    rw [← hr]
    exact getTasksInProject_complete_iff hd
  · intro requests as s h i hne
    obtain ⟨hd, hr⟩ := system_sound h i
    rw [← hr] at hne ⊢
    have hlast := List.getLast?_eq_some_getLast hne
    rw [getTareasData_complete_iff hd hlast]
    simp [hlast]

/-- A task without any texts. -/
def blankTask (id : String) : Tarea := ⟨id, "", "", ⟨0, 0⟩, ⟨0, 0⟩, "", "", ⟨"estudiante", "a1"⟩⟩

/-- Two tasks that arrive in order. -/
theorem taskDownloads_complete_in_order :
    ∃ s, (getTareasData.system Unit).run (start fun _ => [⟨"tareas", "t1"⟩, ⟨"tareas", "t2"⟩])
        [.serve () 0 (some (blankTask "t1")), .serve () 0 (some (blankTask "t2")),
          .deliver () 0, .deliver () 0] = some s ∧
      ∀ l, some l ∈ (s ()).completions → (l.map Tarea.id).Perm ["t1", "t2"] :=
  ⟨_, rfl, ((taskDownloads_completeIff Unit).2 (fun _ => [⟨"tareas", "t1"⟩, ⟨"tareas", "t2"⟩])
    [.serve () 0 (some (blankTask "t1")), .serve () 0 (some (blankTask "t2")),
      .deliver () 0, .deliver () 0] _ rfl () (by simp)).mpr
        ⟨⟨"tareas", "t2"⟩, rfl, Or.inr (by decide +kernel)⟩⟩

/-- The second of two tasks overtakes the first: `getTareasData` delivers it alone, as
`getTasksInProject` does with whichever task comes first. -/
theorem taskDownloads_incomplete :
    (∃ s, (getTareasData.system Unit).run (start fun _ => [⟨"tareas", "t1"⟩, ⟨"tareas", "t2"⟩])
        [.serve () 0 (some (blankTask "t1")), .serve () 0 (some (blankTask "t2")),
          .deliver () 1, .deliver () 0] = some s ∧
      some [blankTask "t2"] ∈ (s ()).completions) ∧
    ∃ s, (getTasksInProject.system Unit).run
        (start fun _ => [⟨"tareas", "t1"⟩, ⟨"tareas", "t2"⟩])
        [.serve () 0 (some (blankTask "t1")), .serve () 0 (some (blankTask "t2")),
          .deliver () 0, .deliver () 0] = some s ∧
      some [blankTask "t1"] ∈ (s ()).completions :=
  ⟨⟨_, rfl, by decide +kernel⟩, _, rfl, by decide +kernel⟩

end Runs

end FirebaseController
end Musgravite
