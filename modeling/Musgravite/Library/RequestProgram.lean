import Musgravite.Library.DocumentStore
import Musgravite.Library.TransitionSystem

/-! # Routines that issue write requests in completion-block style

A routine issues one write request, returns, and goes on in the completion block
when the answer comes back; in the end it reports a result to its own caller.
`Program` is the tree of everything it can do: each request node holds the block,
as a function of what the answer tells.  The block of an `addDocument` also sees
the variable in which the routine keeps the reference the call returned; a block
runs only after that call has returned, so the variable is set by then.

Two readings of the same tree are given.  `Program.exec` runs a routine on its
own against a list of backend outcomes.  `pool` runs any number of routines side
by side: each request is *sent*, then accepted or refused by the backend, and the
*answer* travels back before the routine goes on, and between any two of these
moments anything may happen elsewhere.  `exec_runs` ties the two together. -/

/-- A routine in completion-block style with results in `β`. -/
inductive Program (β : Type*)
  /-- The routine calls its own completion block. -/
  | report (result : β)
  /-- The routine traps. -/
  | trap
  | addDocument (collection : String) (data : Fields)
      (block : (ref : Option DocumentReference) → (err : Bool) → Program β)
  | updateData (document : DocumentReference) (updates : List (String × FieldUpdate))
      (block : (err : Bool) → Program β)

/-- What the backend makes of one request: whether it accepts it, and the
identifier allotted if the request adds a document. -/
structure Outcome where
  accepted : Bool
  id : String

namespace Program
variable {β : Type*}

/-- The backend applies the pending request: the new store and what the routine
goes on with.  An update of a missing document cannot be applied. -/
def accept (s : Store) (id : String) : Program β → Option (Store × Program β)
  | addDocument c data block =>
      (s.addDocument c id data).map fun t => (t, block (some ⟨c, id⟩) false)
  | updateData r us block => (s.updateData r us).map fun t => (t, block false)
  | _ => none

/-- The backend answers the pending request with an error. -/
def refuse (id : String) : Program β → Option (Program β)
  | addDocument c _ block => some (block (some ⟨c, id⟩) true)
  | updateData _ _ block => some (block true)
  | _ => none

/-- The next request adds a document. -/
def isCreation : Program β → Bool
  | addDocument .. => true
  | _ => false

/-- Whatever request the backend applies, it writes one document. -/
theorem accept_eq_write {p q : Program β} {s t : Store} {id : String}
    (h : p.accept s id = some (t, q)) : ∃ r f, t = s.write r f := by
  cases p with
  | addDocument c data block =>
    obtain ⟨u, hu, he⟩ := Option.map_eq_some_iff.mp h
    obtain ⟨rfl, -⟩ := Prod.mk.inj he
    exact ⟨_, _, (Store.addDocument_eq_some.mp hu).2.2⟩
  | updateData r us block =>
    obtain ⟨u, hu, he⟩ := Option.map_eq_some_iff.mp h
    obtain ⟨rfl, -⟩ := Prod.mk.inj he
    obtain ⟨f, -, ht⟩ := Store.updateData_eq_some.mp hu
    exact ⟨_, _, ht⟩
  | _ => cases h

/-- Runs the routine alone, one outcome to each request; `none` when it traps or
the outcomes do not suffice. -/
def exec : Program β → List Outcome → Store → Option (Store × β)
  | report b, _, s => some (s, b)
  | trap, _, _ => none
  | addDocument _ _ _, [], _ => none
  | updateData _ _ _, [], _ => none
  | addDocument c data block, o :: os, s =>
      if o.accepted then
        (s.addDocument c o.id data).bind (exec (block (some ⟨c, o.id⟩) false) os)
      else exec (block (some ⟨c, o.id⟩) true) os s
  | updateData r us block, o :: os, s =>
      if o.accepted then
        match s.updateData r us with
        | some t => exec (block false) os t
        -- there is no such document: the backend answers with an error
        | none => exec (block true) os s
      else exec (block true) os s

/-- `q` is what is left of `p` after some answers. -/
inductive Continues : Program β → Program β → Prop
  | refl (p) : Continues p p
  | addDocument {c data block q} (id : String) (err : Bool)
      (h : Continues (block (some ⟨c, id⟩) err) q) : Continues (addDocument c data block) q
  | updateData {r us block q} (err : Bool)
      (h : Continues (block err) q) : Continues (updateData r us block) q

theorem Continues.trans {p q r : Program β} (h : Continues p q) (h' : Continues q r) :
    Continues p r := by
  induction h with
  | refl => exact h'
  | addDocument id err _ ih => exact .addDocument id err (ih h')
  | updateData err _ ih => exact .updateData err (ih h')

theorem Continues.accept {p q : Program β} {s t : Store} {id : String}
    (h : p.accept s id = some (t, q)) : Continues p q := by
  cases p with
  | addDocument c data block =>
    obtain ⟨u, -, he⟩ := Option.map_eq_some_iff.mp h
    obtain ⟨-, rfl⟩ := Prod.mk.inj he
    exact .addDocument id false (.refl _)
  | updateData r us block =>
    obtain ⟨u, -, he⟩ := Option.map_eq_some_iff.mp h
    obtain ⟨-, rfl⟩ := Prod.mk.inj he
    exact .updateData false (.refl _)
  | _ => cases h

theorem Continues.refuse {p q : Program β} {id : String} (h : p.refuse id = some q) :
    Continues p q := by
  cases p with
  | addDocument c data block => exact Option.some.inj h ▸ .addDocument id true (.refl _)
  | updateData r us block => exact Option.some.inj h ▸ .updateData true (.refl _)
  | _ => cases h

end Program

/-- A routine in progress: its request is with the backend, or the answer, which
makes it go on with the given rest, is on its way. -/
inductive Thread (β : Type*)
  | sent (p : Program β)
  | answered (p : Program β)

namespace Thread
variable {β : Type*}

/-- What the routine does next, or will do once the answer arrives. -/
def program : Thread β → Program β
  | sent p => p
  | answered p => p

def accept (s : Store) (id : String) : Thread β → Option (Store × Thread β)
  | sent p => (p.accept s id).map fun u => (u.1, answered u.2)
  | answered _ => none

def refuse (id : String) : Thread β → Option (Thread β)
  | sent p => (p.refuse id).map answered
  | answered _ => none

/-- The answer arrives and the completion block runs. -/
def deliver : Thread β → Option (Thread β)
  | sent _ => none
  | answered p => some (sent p)

theorem accept_eq_some {s t : Store} {id : String} {x y : Thread β} :
    x.accept s id = some (t, y) ↔
      ∃ p q, x = sent p ∧ p.accept s id = some (t, q) ∧ y = answered q := by
  cases x with
  | sent p =>
    constructor
    · intro h
      obtain ⟨⟨u, q⟩, hu, he⟩ := Option.map_eq_some_iff.mp h
      obtain ⟨rfl, rfl⟩ := Prod.mk.inj he
      exact ⟨p, q, rfl, hu, rfl⟩
    · rintro ⟨p', q, he, hq, rfl⟩
      obtain rfl : p = p' := by injection he
      exact Option.map_eq_some_iff.mpr ⟨(t, q), hq, rfl⟩
  | answered p => simp [accept]

theorem refuse_eq_some {id : String} {x y : Thread β} :
    x.refuse id = some y ↔ ∃ p q, x = sent p ∧ p.refuse id = some q ∧ y = answered q := by
  cases x with
  | sent p =>
    constructor
    · intro h
      obtain ⟨q, hq, rfl⟩ := Option.map_eq_some_iff.mp h
      exact ⟨p, q, rfl, hq, rfl⟩
    · rintro ⟨p', q, he, hq, rfl⟩
      obtain rfl : p = p' := by injection he
      exact Option.map_eq_some_iff.mpr ⟨q, hq, rfl⟩
  | answered p => simp [refuse]

theorem deliver_eq_some {x y : Thread β} :
    x.deliver = some y ↔ ∃ p, x = answered p ∧ y = sent p := by
  cases x with
  | sent p => simp [deliver]
  | answered p => simp [deliver, eq_comm]

end Thread

/-! ## Routines side by side -/

/-- A store and the routines that write to it. -/
structure Pool (ι β : Type*) where
  store : Store
  thread : ι → Thread β

/-- One event in the life of routine `i`. -/
inductive PoolAction (ι : Type*)
  | accept (i : ι) (id : String)
  | refuse (i : ι) (id : String)
  | deliver (i : ι)

namespace Pool
variable {ι β : Type*} [DecidableEq ι]

/-- Replaces the state of routine `i`. -/
def setThread (s : Pool ι β) (i : ι) (x : Thread β) : Pool ι β :=
  { s with thread := Function.update s.thread i x }

@[simp] theorem setThread_store (s : Pool ι β) (i : ι) (x : Thread β) :
    (s.setThread i x).store = s.store := rfl

@[simp] theorem setThread_self (s : Pool ι β) (i : ι) (x : Thread β) :
    (s.setThread i x).thread i = x :=
  Function.update_self ..

theorem setThread_of_ne (s : Pool ι β) {i j : ι} (x : Thread β) (h : j ≠ i) :
    (s.setThread i x).thread j = s.thread j :=
  Function.update_of_ne h ..

/-- All routines are about to send their first request. -/
def start (s : Store) (program : ι → Program β) : Pool ι β := ⟨s, fun i => .sent (program i)⟩

def step (s : Pool ι β) : PoolAction ι → Option (Pool ι β)
  | .accept i id =>
      ((s.thread i).accept s.store id).map fun u => { s with store := u.1 }.setThread i u.2
  | .refuse i id => ((s.thread i).refuse id).map (s.setThread i)
  | .deliver i => (s.thread i).deliver.map (s.setThread i)

end Pool

/-- The transition system of a pool of routines. -/
def pool (ι β : Type*) [DecidableEq ι] : TransitionSystem (Pool ι β) (PoolAction ι) := ⟨Pool.step⟩

namespace Pool
variable {ι β : Type*} [DecidableEq ι] {s t : Pool ι β}

/-- **What a step can do**, one case for each kind of event. -/
inductive StepCase (s t : Pool ι β) : PoolAction ι → Prop
  | accept (i : ι) (id : String) (p q : Program β) (u : Store) (hp : s.thread i = .sent p)
      (hq : p.accept s.store id = some (u, q))
      (ht : t = { s with store := u }.setThread i (.answered q)) : StepCase s t (.accept i id)
  | refuse (i : ι) (id : String) (p q : Program β) (hp : s.thread i = .sent p)
      (hq : p.refuse id = some q) (ht : t = s.setThread i (.answered q)) :
      StepCase s t (.refuse i id)
  | deliver (i : ι) (p : Program β) (hp : s.thread i = .answered p)
      (ht : t = s.setThread i (.sent p)) : StepCase s t (.deliver i)

theorem step_cases {a : PoolAction ι} (h : (pool ι β).step s a = some t) : StepCase s t a := by
  cases a with
  | accept i id =>
    obtain ⟨⟨u, y⟩, hu, rfl⟩ := Option.map_eq_some_iff.mp h
    obtain ⟨p, q, hp, hq, rfl⟩ := Thread.accept_eq_some.mp hu
    exact .accept i id p q u hp hq rfl
  | refuse i id =>
    obtain ⟨y, hy, rfl⟩ := Option.map_eq_some_iff.mp h
    obtain ⟨p, q, hp, hq, rfl⟩ := Thread.refuse_eq_some.mp hy
    exact .refuse i id p q hp hq rfl
  | deliver i =>
    obtain ⟨y, hy, rfl⟩ := Option.map_eq_some_iff.mp h
    obtain ⟨p, hp, rfl⟩ := Thread.deliver_eq_some.mp hy
    exact .deliver i p hp rfl

/-- What holds of routine `i` after its step and of the others before it holds of
all routines afterwards. -/
theorem forall_setThread {P : ι → Thread β → Prop} {i : ι} {x : Thread β} (hi : P i x)
    (hothers : ∀ j, j ≠ i → P j (s.thread j)) (j : ι) : P j ((s.setThread i x).thread j) := by
  by_cases hj : j = i
  · subst hj
    rw [setThread_self]
    exact hi
  · rw [setThread_of_ne _ _ hj]
    exact hothers j hj

/-- The store forgets no identifier. -/
theorem step_known {a : PoolAction ι} (h : (pool ι β).step s a = some t) {id : String}
    (hid : id ∈ s.store.known) : id ∈ t.store.known := by
  cases step_cases h with
  | accept i id' p q u hp hq ht =>
    subst ht
    obtain ⟨r, f, rfl⟩ := Program.accept_eq_write hq
    exact (s.store.known_write).mpr (Or.inr (Or.inr hid))
  | refuse i id' p q hp hq ht | deliver i p hp ht =>
    subst ht
    exact hid

/-- A step leaves each routine at some point of what it was about to do. -/
theorem step_thread {a : PoolAction ι} (h : (pool ι β).step s a = some t) (j : ι) :
    (s.thread j).program.Continues (t.thread j).program := by
  obtain ⟨i, x, u, hx, rfl⟩ : ∃ i x u, (s.thread i).program.Continues x.program ∧
      t = { s with store := u }.setThread i x := by
    cases step_cases h with
    | accept i id p q u hp hq ht => exact ⟨i, .answered q, u, by rw [hp]; exact .accept hq, ht⟩
    | refuse i id p q hp hq ht =>
      exact ⟨i, .answered q, s.store, by rw [hp]; exact .refuse hq, ht⟩
    | deliver i p hp ht => exact ⟨i, .sent p, s.store, by rw [hp]; exact .refl _, ht⟩
  exact forall_setThread (P := fun j x => (s.thread j).program.Continues x.program) hx
    (fun j _ => .refl _) j

/-- A step leaves each routine at some point of its own program. -/
theorem step_continues {program : ι → Program β} {a : PoolAction ι}
    (hs : ∀ i, (program i).Continues (s.thread i).program)
    (h : (pool ι β).step s a = some t) (j : ι) : (program j).Continues (t.thread j).program :=
  (hs j).trans (step_thread h j)

/-- A routine that has no request for the backend takes no step. -/
theorem step_settled {a : PoolAction ι} (h : (pool ι β).step s a = some t) {j : ι}
    {p : Program β} (haccept : ∀ u id, p.accept u id = none) (hrefuse : ∀ id, p.refuse id = none)
    (hj : s.thread j = .sent p) : t.thread j = .sent p := by
  cases step_cases h with
  | accept i id p' q u hp hq ht =>
    have hne : j ≠ i := by
      rintro rfl
      obtain rfl : p = p' := by injection hj.symm.trans hp
      cases (haccept s.store id).symm.trans hq
    rw [ht, setThread_of_ne _ _ hne]
    exact hj
  | refuse i id p' q hp hq ht =>
    have hne : j ≠ i := by
      rintro rfl
      obtain rfl : p = p' := by injection hj.symm.trans hp
      cases (hrefuse id).symm.trans hq
    rw [ht, setThread_of_ne _ _ hne]
    exact hj
  | deliver i p' hp ht =>
    have hne : j ≠ i := by
      rintro rfl
      cases hj.symm.trans hp
    rw [ht, setThread_of_ne _ _ hne]
    exact hj

/-- A routine that is about to trap takes no step. -/
theorem step_trap {a : PoolAction ι} (h : (pool ι β).step s a = some t) {j : ι}
    (hj : s.thread j = .sent .trap) : t.thread j = .sent .trap :=
  step_settled h (fun _ _ => rfl) (fun _ => rfl) hj

/-- Nor does one that has reported. -/
theorem step_report {a : PoolAction ι} (h : (pool ι β).step s a = some t) {j : ι} {b : β}
    (hj : s.thread j = .sent (.report b)) : t.thread j = .sent (.report b) :=
  step_settled h (fun _ _ => rfl) (fun _ => rfl) hj

/-- **In every run each routine is at some point of its own program.** -/
theorem run_continues {program : ι → Program β} {s₀ : Store} {as : List (PoolAction ι)}
    (h : (pool ι β).run (start s₀ program) as = some t) (i : ι) :
    (program i).Continues (t.thread i).program :=
  (pool ι β).run_invariant (P := fun t => ∀ i, (program i).Continues (t.thread i).program)
    step_continues (fun _ => .refl _) h i

/-- After the backend has answered routine `i`, the answer is delivered and the
routine goes on from there. -/
theorem reaches_of_answer {i : ι} {a : PoolAction ι} {q : Program β} {x : Thread β} {u v : Store}
    (ha : (pool ι β).step s a = some ({ s with store := v }.setThread i (.answered q)))
    (hrest : (pool ι β).Reaches ({ s with store := v }.setThread i (.sent q))
      ({ { s with store := v }.setThread i (.sent q) with store := u }.setThread i x)) :
    (pool ι β).Reaches s ({ s with store := u }.setThread i x) := by
  have hd : (pool ι β).step ({ s with store := v }.setThread i (.answered q)) (.deliver i) =
      some ({ s with store := v }.setThread i (.sent q)) := by
    simp [pool, step, Thread.deliver, setThread]
  refine (TransitionSystem.Reaches.step _ ha).trans _
    ((TransitionSystem.Reaches.step _ hd).trans _ ?_)
  simpa [setThread] using hrest

/-- A routine that runs alone in the pool does what `exec` says: there is a run
in which only it moves and that ends with the same store and its report. -/
theorem exec_runs {i : ι} {p : Program β} {os : List Outcome} {b : β} {u : Store}
    (h : p.exec os s.store = some (u, b)) (hp : s.thread i = .sent p) :
    (pool ι β).Reaches s ({ s with store := u }.setThread i (.sent (.report b))) := by
  induction p generalizing os s with
  | report b' =>
    obtain ⟨rfl, rfl⟩ := Prod.mk.inj (Option.some.inj h)
    refine ⟨[], congrArg some ?_⟩
    simp only [setThread, ← hp, Function.update_eq_self]
  | trap => cases h
  | addDocument c data block ih =>
    cases os with
    | nil => cases h
    | cons o os =>
      rw [Program.exec] at h
      split at h
      · obtain ⟨v, hv, hrest⟩ := Option.bind_eq_some_iff.mp h
        have ha : (pool ι β).step s (.accept i o.id) = some ({ s with store := v }.setThread i
            (.answered (block (some ⟨c, o.id⟩) false))) := by
          simp [pool, step, hp, Thread.accept, Program.accept, hv]
        exact reaches_of_answer ha (ih _ _ hrest (setThread_self ..))
      · have ha : (pool ι β).step s (.refuse i o.id) =
            some (s.setThread i (.answered (block (some ⟨c, o.id⟩) true))) := by
          simp [pool, step, hp, Thread.refuse, Program.refuse]
        exact reaches_of_answer ha (ih _ _ h (setThread_self ..))
  | updateData r us block ih =>
    cases os with
    | nil => cases h
    | cons o os =>
      have refused : (block true).exec os s.store = some (u, b) →
          (pool ι β).Reaches s ({ s with store := u }.setThread i (.sent (.report b))) := by
        intro hrest
        have ha : (pool ι β).step s (.refuse i o.id) =
            some (s.setThread i (.answered (block true))) := by
          simp [pool, step, hp, Thread.refuse, Program.refuse]
        exact reaches_of_answer ha (ih _ hrest (setThread_self ..))
      rw [Program.exec] at h
      split at h
      · split at h
        · rename_i v hv
          have ha : (pool ι β).step s (.accept i o.id) =
              some ({ s with store := v }.setThread i (.answered (block false))) := by
            simp [pool, step, hp, Thread.accept, Program.accept, hv]
          exact reaches_of_answer ha (ih _ h (setThread_self ..))
        · exact refused h
      · exact refused h

end Pool
