import Musgravite.Library.Reduction
import Musgravite.Library.RequestProgram

/-! # When routines side by side are as good as one after the other

A routine that makes several requests can be interrupted between any two of them.
This matters less than it may seem: a request that *adds* a document says nothing
about the documents that are there, and nobody else can update the new one, so it
could as well have been made at another time.  What cannot be moved is an accepted
update.  A routine that gets at most one update accepted is therefore atomic
(`Pool.run_serial`): whatever the interleaving, the documents in the end, and
the point each routine has reached with its report, are those of a run in which the
routines go one after the other, each without interruption.

The condition that added documents are not updated is one on collections
(`CreatesIn`): the routines add to some of them and update in the others. -/

/-- The documents of a store. -/
abbrev Documents := DocumentReference → Option Fields

namespace Documents
variable (d : Documents) {r q : DocumentReference}

/-- Puts a new document at `r`. -/
def create (r : DocumentReference) (f : Fields) : Option Documents :=
  if (d r).isSome then none else some (Function.update d r (some f))

/-- Changes the document at `r`. -/
def modify (r : DocumentReference) (change : Fields → Fields) : Option Documents :=
  (d r).map fun f => Function.update d r (some (change f))

variable {d}

theorem create_of_eq_none (h : d r = none) (f : Fields) :
    d.create r f = some (Function.update d r (some f)) := by
  simp [create, h]

theorem modify_eq_some {e : Documents} {change : Fields → Fields} :
    d.modify r change = some e ↔
      ∃ f, d r = some f ∧ e = Function.update d r (some (change f)) := by
  rw [modify, Option.map_eq_some_iff]
  simp only [eq_comm]

variable (d)

/-- Which of two new documents comes first makes no difference. -/
theorem create_create (r q : DocumentReference) (f g : Fields) :
    ((d.create r f).bind fun e => create e q g) = (d.create q g).bind fun e => create e r f := by
  by_cases h : r = q
  · subst h
    by_cases hr : (d r).isSome <;> simp [create, hr]
  · by_cases hr : (d r).isSome <;> by_cases hq : (d q).isSome <;>
      simp [create, hr, hq, Function.update_of_ne h, Function.update_of_ne (Ne.symm h),
        Function.update_comm h]

/-- Nor whether a document comes before a change to another one. -/
theorem create_modify (h : r ≠ q) (f : Fields) (change : Fields → Fields) :
    ((d.create r f).bind fun e => modify e q change) =
      (d.modify q change).bind fun e => create e r f := by
  by_cases hr : (d r).isSome <;> cases hq : d q <;>
    simp [create, modify, hr, hq, Function.update_of_ne h, Function.update_of_ne (Ne.symm h),
      Function.update_comm h]

end Documents

namespace Program
variable {β : Type*}

/-- What the answer to the pending request means for the documents.  An identifier
is allotted only where there is no document yet. -/
def effect : Program β → Outcome → Documents → Option Documents
  | addDocument c data _, o, d => if o.accepted then d.create ⟨c, o.id⟩ data else some d
  | updateData r us _, o, d => if o.accepted then d.modify r (·.update us) else some d
  | _, _, _ => none

/-- What the routine goes on with after the answer. -/
def next : Program β → Outcome → Program β
  | addDocument c _ block, o => block (some ⟨c, o.id⟩) (!o.accepted)
  | updateData _ _ block, o => block (!o.accepted)
  | p, _ => p

/-- A routine as an agent: its events are the answers to its requests. -/
def agent (β : Type*) : Agent Documents (Program β) Outcome := ⟨effect, next⟩

/-- The routine adds documents in the collections `C` and updates documents
elsewhere. -/
def CreatesIn (C : String → Prop) : Program β → Prop
  | addDocument c _ block => C c ∧ ∀ ref err, (block ref err).CreatesIn C
  | updateData r _ block => ¬ C r.collection ∧ ∀ err, (block err).CreatesIn C
  | _ => True

/-- The routine makes no updates. -/
def OnlyCreates : Program β → Prop
  | addDocument _ _ block => ∀ ref err, (block ref err).OnlyCreates
  | updateData .. => False
  | _ => True

/-- At most one update of the routine is accepted. -/
def OneUpdate : Program β → Prop
  | addDocument _ _ block => ∀ ref err, (block ref err).OneUpdate
  | updateData _ _ block => (block false).OnlyCreates ∧ (block true).OneUpdate
  | _ => True

/-- The answer accepts an update. -/
def Updates : Program β → Outcome → Prop
  | updateData .., o => o.accepted = true
  | _, _ => False

section Next
variable {p : Program β} {o : Outcome}

theorem CreatesIn.next {C : String → Prop} (h : p.CreatesIn C) : (p.next o).CreatesIn C := by
  cases p with
  | addDocument c data block => exact h.2 _ _
  | updateData r us block => exact h.2 _
  | _ => exact h

theorem OnlyCreates.next (h : p.OnlyCreates) : (p.next o).OnlyCreates := by
  cases p with
  | addDocument c data block => exact h _ _
  | updateData r us block => exact h.elim
  | _ => exact h

theorem OnlyCreates.oneUpdate (h : p.OnlyCreates) : p.OneUpdate := by
  induction p with
  | addDocument c data block ih => exact fun ref err => ih ref err (h ref err)
  | updateData r us block => exact h.elim
  | _ => exact h

theorem OneUpdate.next (h : p.OneUpdate) : (p.next o).OneUpdate := by
  cases p with
  | addDocument c data block => exact h _ _
  | updateData r us block =>
    show (block (!o.accepted)).OneUpdate
    cases o.accepted with
    | false => exact h.2
    | true => exact h.1.oneUpdate
  | _ => exact h

/-- After the update there is none left. -/
theorem OneUpdate.onlyCreates (h : p.OneUpdate) (hu : p.Updates o) : (p.next o).OnlyCreates := by
  cases p with
  | updateData r us block =>
    have ho : o.accepted = true := hu
    show (block (!o.accepted)).OnlyCreates
    rw [ho]
    exact h.1
  | _ => exact hu.elim

theorem OnlyCreates.not_updates (h : p.OnlyCreates) : ¬ p.Updates o := by
  cases p with
  | updateData r us block => exact h.elim
  | _ => exact id

end Next

section Effect
variable {o : Outcome} {c : String} {data : Fields}
  {block : Option DocumentReference → Bool → Program β} {r : DocumentReference}
  {us : List (String × FieldUpdate)} {block' : Bool → Program β}

theorem effect_addDocument (h : o.accepted = true) :
    (addDocument c data block).effect o = fun d => d.create ⟨c, o.id⟩ data :=
  funext fun _ => if_pos h

theorem effect_updateData (h : o.accepted = true) :
    (updateData r us block').effect o = fun d => d.modify r (·.update us) :=
  funext fun _ => if_pos h

theorem effect_addDocument_refused (h : o.accepted = false) :
    (addDocument c data block).effect o = some :=
  funext fun _ => if_neg (by simp [h])

theorem effect_updateData_refused (h : o.accepted = false) :
    (updateData r us block').effect o = some :=
  funext fun _ => if_neg (by simp [h])

end Effect

/-- **An answer that accepts no update commutes with the answers of other routines.** -/
theorem effect_effect {C : String → Prop} {p q : Program β} (hp : p.CreatesIn C)
    (hq : q.CreatesIn C) {o : Outcome} (ho : ¬ p.Updates o) (o' : Outcome) (d : Documents) :
    (p.effect o d).bind (q.effect o') = (q.effect o' d).bind (p.effect o) := by
  have comm_some (f : Documents → Option Documents) : (some d).bind f = (f d).bind some := by
    rw [Option.bind_some, Option.bind_fun_some]
  cases p with
  | report b | trap => cases hr : q.effect o' d <;> simp [effect]
  | updateData r us block =>
    rw [effect_updateData_refused (by simpa [Updates] using ho)]
    exact comm_some _
  | addDocument c data block =>
    by_cases ho : o.accepted
    · rw [effect_addDocument ho]
      cases q with
      | report b | trap => simp [effect]
      | addDocument c' data' block' =>
        by_cases ho' : o'.accepted
        · rw [effect_addDocument ho']
          exact d.create_create ⟨c, o.id⟩ ⟨c', o'.id⟩ data data'
        · rw [effect_addDocument_refused (by simpa using ho')]
          exact (Option.bind_fun_some _).trans rfl
      | updateData r us block' =>
        have hne : (⟨c, o.id⟩ : DocumentReference) ≠ r := by
          rintro rfl
          exact hq.1 hp.1
        by_cases ho' : o'.accepted
        · rw [effect_updateData ho']
          exact d.create_modify hne data (·.update us)
        · rw [effect_updateData_refused (by simpa using ho')]
          exact (Option.bind_fun_some _).trans rfl
    · rw [effect_addDocument_refused (by simpa using ho)]
      exact comm_some _

/-- Routines of which at most one update is accepted are atomic. -/
theorem atomic (C : String → Prop) :
    (agent β).Atomic (fun p => p.CreatesIn C ∧ p.OneUpdate) (fun p o => ¬ p.Updates o)
      OnlyCreates where
  keeps h := ⟨h.1.next, h.2.next⟩
  done_next := OnlyCreates.next
  mover_of_done := OnlyCreates.not_updates
  done_of_not_mover h hu := h.2.onlyCreates (not_not.mp hu)
  commutes hp hq ho d := effect_effect hp.1 hq.1 ho _ d

/-! ## The pool as a system of agents -/

theorem accept_eq_next {p q : Program β} {s t : Store} {id : String}
    (h : p.accept s id = some (t, q)) :
    p.effect ⟨true, id⟩ s.documents = some t.documents ∧ p.next ⟨true, id⟩ = q := by
  cases p with
  | addDocument c data block =>
    obtain ⟨u, hu, he⟩ := Option.map_eq_some_iff.mp h
    obtain ⟨rfl, rfl⟩ := Prod.mk.inj he
    obtain ⟨hid, hfresh, rfl⟩ := Store.addDocument_eq_some.mp hu
    rw [Store.documents_write s hid]
    exact ⟨Documents.create_of_eq_none (Store.documents_eq_none_of_fresh hfresh c) data, rfl⟩
  | updateData r us block =>
    obtain ⟨u, hu, he⟩ := Option.map_eq_some_iff.mp h
    obtain ⟨rfl, rfl⟩ := Prod.mk.inj he
    obtain ⟨f, hf, rfl⟩ := Store.updateData_eq_some.mp hu
    exact ⟨Documents.modify_eq_some.mpr ⟨f, hf, s.documents_write (s.isDocumentID hf) _⟩, rfl⟩
  | _ => cases h

theorem refuse_eq_next {p q : Program β} {id : String} (h : p.refuse id = some q)
    (d : Documents) : p.effect ⟨false, id⟩ d = some d ∧ p.next ⟨false, id⟩ = q := by
  cases p with
  | addDocument c data block | updateData r us block =>
    obtain rfl := Option.some.inj h
    exact ⟨rfl, rfl⟩
  | _ => cases h

end Program

namespace PoolAction
variable {ι : Type*}

/-- The backend's answer, if the action is one. -/
def answer : PoolAction ι → Option (ι × Outcome)
  | accept i id => some (i, ⟨true, id⟩)
  | refuse i id => some (i, ⟨false, id⟩)
  | deliver _ => none

end PoolAction

namespace Pool
variable {ι β : Type*} [DecidableEq ι] {s t : Pool ι β}

/-- The documents, and what each routine is about to do. -/
def view (s : Pool ι β) : Documents × (ι → Program β) :=
  (s.store.documents, fun i => (s.thread i).program)

theorem view_setThread {i : ι} {x : Thread β} {u : Store} :
    ({ s with store := u }.setThread i x).view =
      (u.documents, Function.update s.view.2 i x.program) := by
  refine Prod.ext rfl (funext fun j => ?_)
  by_cases hj : j = i
  · subst hj
    simp [view, setThread]
  · simp [view, setThread, hj]

/-- **The answers of a run of the pool are a run of the agents.** -/
theorem run_answers {as : List (PoolAction ι)} (h : (pool ι β).run s as = some t) :
    ((Program.agent β).system ι).run s.view (as.filterMap PoolAction.answer) = some t.view := by
  induction as generalizing s with
  | nil =>
    obtain rfl := Option.some.inj h
    rfl
  | cons a as ih =>
    obtain ⟨u, hu, h⟩ := (pool ι β).run_cons_eq_some.mp h
    cases step_cases hu with
    | accept i id p q v hp hq ht =>
      subst ht
      obtain ⟨heffect, hnext⟩ := Program.accept_eq_next hq
      have hview : s.view.2 i = p := congrArg Thread.program hp
      refine TransitionSystem.run_cons_eq_some _ |>.mpr ⟨_, ?_, ih h⟩
      refine Agent.step_eq_some.mpr ⟨v.documents, ?_, ?_⟩
      · rw [hview]
        exact heffect
      · rw [view_setThread, hview]
        exact congrArg (fun q => (v.documents, Function.update s.view.2 i q)) hnext
    | refuse i id p q hp hq ht =>
      subst ht
      obtain ⟨heffect, hnext⟩ := Program.refuse_eq_next hq s.store.documents
      have hview : s.view.2 i = p := congrArg Thread.program hp
      refine TransitionSystem.run_cons_eq_some _ |>.mpr ⟨_, ?_, ih h⟩
      refine Agent.step_eq_some.mpr ⟨s.store.documents, ?_, ?_⟩
      · rw [hview]
        exact heffect
      · rw [view_setThread (u := s.store), hview]
        exact congrArg (fun q => (s.store.documents, Function.update s.view.2 i q)) hnext
    | deliver i p hp ht =>
      subst ht
      have hsame : (s.setThread i (.sent p)).view = s.view := by
        rw [view_setThread (u := s.store)]
        refine Prod.ext rfl ?_
        exact Function.update_eq_self_iff.mpr (congrArg Thread.program hp).symm
      rw [← hsame]
      exact ih h

/-- **Routines of which at most one update is accepted run as if one after the other.**
The documents after any interleaving, and where each routine is, are those after a run
in which each routine is answered without interruption, in an order that respects
time. -/
theorem run_serial {C : String → Prop} {program : ι → Program β}
    (hp : ∀ i, (program i).CreatesIn C ∧ (program i).OneUpdate) {s₀ : Store}
    {as : List (PoolAction ι)} (h : (pool ι β).run (start s₀ program) as = some t) :
    ∃ order, Agent.SerialOrder (as.filterMap PoolAction.answer) order ∧
      ((Program.agent β).system ι).run (s₀.documents, program)
        (order.flatMap (Agent.eventsOf (as.filterMap PoolAction.answer))) = some t.view :=
  (Program.atomic C).run_serial hp (run_answers h)

end Pool
