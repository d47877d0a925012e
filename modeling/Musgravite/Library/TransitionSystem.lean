import Mathlib.Data.List.Infix

/-! # Runs of a labelled transition system

A system is given by its step function: `step s a` is the state after action
`a`, or `none` when `a` cannot happen in `s`.  Whatever the environment chooses
(who moves, what is answered, which identifier is handed out) is part of the
action, so a run is a list of actions and evaluates.

The rules that carry the proofs about runs are `run_invariant` (a property that each
step keeps holds wherever a run leads), `run_history` (the same for a property
that also speaks of the run so far), `run_invariant_of_meets` (the same when only
the steps that meet a condition keep it) and `visited_iff_meets` (when a step
keeps the property *exactly* if it meets the condition, a run stays inside the
property exactly if all its steps meet it), with `throughout_iff_meets` for properties
that speak of the run so far. -/

/-- A labelled transition system. -/
structure TransitionSystem (State Action : Type*) where
  step : State → Action → Option State

namespace TransitionSystem
variable {State Action : Type*} (M : TransitionSystem State Action)

/-- The state after a list of actions, `none` when one of them cannot happen. -/
def run : State → List Action → Option State
  | s, [] => some s
  | s, a :: as => (M.step s a).bind fun t => run t as

@[simp] theorem run_nil (s : State) : M.run s [] = some s := rfl

theorem run_cons (s : State) (a : Action) (as : List Action) :
    M.run s (a :: as) = (M.step s a).bind fun t => M.run t as := rfl

theorem run_cons_eq_some {s u : State} {a : Action} {as : List Action} :
    M.run s (a :: as) = some u ↔ ∃ t, M.step s a = some t ∧ M.run t as = some u := by
  rw [run_cons, Option.bind_eq_some_iff]

theorem run_append (s : State) (as bs : List Action) :
    M.run s (as ++ bs) = (M.run s as).bind fun t => M.run t bs := by
  induction as generalizing s with
  | nil => rfl
  | cons a as ih =>
    rw [List.cons_append, run_cons, run_cons, Option.bind_assoc]
    exact congrArg _ (funext fun t => ih t)

/-- `t` can be reached from `s`. -/
def Reaches (s t : State) : Prop := ∃ as, M.run s as = some t

theorem Reaches.trans {s t u : State} (h : M.Reaches s t) (h' : M.Reaches t u) :
    M.Reaches s u := by
  obtain ⟨as, has⟩ := h
  obtain ⟨bs, hbs⟩ := h'
  exact ⟨as ++ bs, by rw [run_append, has]; exact hbs⟩

theorem Reaches.step {s t : State} {a : Action} (h : M.step s a = some t) : M.Reaches s t :=
  ⟨[a], by rw [run_cons, h]; rfl⟩

/-- **The invariant rule.** -/
theorem run_invariant {P : State → Prop}
    (hstep : ∀ {s a t}, P s → M.step s a = some t → P t)
    {s t : State} {as : List Action} (hs : P s) (hr : M.run s as = some t) : P t := by
  induction as generalizing s with
  | nil => exact Option.some.inj hr ▸ hs
  | cons a as ih =>
    obtain ⟨u, hu, hr⟩ := M.run_cons_eq_some.mp hr
    exact ih (hstep hs hu) hr

variable {M} in
theorem Reaches.invariant {P : State → Prop} {s t : State} (h : M.Reaches s t) (hs : P s)
    (hstep : ∀ {s a t}, P s → M.step s a = some t → P t) : P t := by
  obtain ⟨as, has⟩ := h
  exact M.run_invariant hstep hs has

/-! ## What can be observed of a run -/

/-- The observations made along a run, in order. -/
def trace {Observation : Type*} (observe : State → Action → List Observation) :
    State → List Action → List Observation
  | _, [] => []
  | s, a :: as => observe s a ++ match M.step s a with
    | some t => trace observe t as
    | none => []

@[simp] theorem trace_nil {Observation : Type*} (observe : State → Action → List Observation)
    (s : State) : M.trace observe s [] = [] := rfl

theorem trace_cons {Observation : Type*} (observe : State → Action → List Observation)
    {s t : State} {a : Action} (h : M.step s a = some t) (as : List Action) :
    M.trace observe s (a :: as) = observe s a ++ M.trace observe t as := by
  simp only [trace, h]

theorem trace_append {Observation : Type*} (observe : State → Action → List Observation)
    {s t : State} {as : List Action} (h : M.run s as = some t) (bs : List Action) :
    M.trace observe s (as ++ bs) = M.trace observe s as ++ M.trace observe t bs := by
  induction as generalizing s with
  | nil =>
    obtain rfl := Option.some.inj h
    rfl
  | cons a as ih =>
    obtain ⟨u, hu, h⟩ := M.run_cons_eq_some.mp h
    rw [List.cons_append, M.trace_cons _ hu, M.trace_cons _ hu, ih h, List.append_assoc]

theorem trace_snoc {Observation : Type*} (observe : State → Action → List Observation)
    {s t u : State} {as : List Action} {a : Action} (h : M.run s as = some t)
    (ha : M.step t a = some u) :
    M.trace observe s (as ++ [a]) = M.trace observe s as ++ observe t a := by
  rw [M.trace_append observe h, M.trace_cons _ ha, trace_nil, List.append_nil]

/-- An observation of a run is made of one of its actions. -/
theorem exists_of_mem_trace {Observation : Type*} {observe : State → Action → List Observation}
    {s : State} {as : List Action} {o : Observation} (h : o ∈ M.trace observe s as) :
    ∃ a ∈ as, ∃ t, o ∈ observe t a := by
  induction as generalizing s with
  | nil => cases h
  | cons a as ih =>
    rcases List.mem_append.mp h with h | h
    · exact ⟨a, List.mem_cons_self, s, h⟩
    · cases hstep : M.step s a with
      | none => simp [hstep] at h
      | some t =>
        rw [hstep] at h
        obtain ⟨b, hb, ht⟩ := ih h
        exact ⟨b, List.mem_cons_of_mem a hb, ht⟩

/-- **The invariant rule with history**: a property of the run so far and the state
it has reached. -/
theorem run_history {P : List Action → State → Prop} {s t : State} {as : List Action}
    (hs : P [] s)
    (hstep : ∀ {as t a u}, M.run s as = some t → P as t → M.step t a = some u → P (as ++ [a]) u)
    (hr : M.run s as = some t) : P as t := by
  induction as using List.reverseRecOn generalizing t with
  | nil => exact Option.some.inj hr ▸ hs
  | append_singleton as a ih =>
    rw [run_append] at hr
    obtain ⟨u, hu, hr⟩ := Option.bind_eq_some_iff.mp hr
    obtain ⟨v, hv, he⟩ := M.run_cons_eq_some.mp hr
    obtain rfl := Option.some.inj he
    exact hstep hu (ih hu) hv

/-! ## Runs whose steps meet a condition -/

variable (C : State → Action → Prop)

/-- Every action of the run meets `C` in the state in which it is taken. -/
def Meets : State → List Action → Prop
  | _, [] => True
  | s, a :: as => C s a ∧ ∀ t, M.step s a = some t → Meets t as

@[simp] theorem meets_nil (s : State) : M.Meets C s [] := trivial

theorem meets_cons {s t : State} {a : Action} {as : List Action} (h : M.step s a = some t) :
    M.Meets C s (a :: as) ↔ C s a ∧ M.Meets C t as := by
  constructor
  · rintro ⟨ha, hrest⟩
    exact ⟨ha, hrest t h⟩
  · rintro ⟨ha, hrest⟩
    refine ⟨ha, fun u hu => ?_⟩
    obtain rfl : t = u := Option.some.inj (h.symm.trans hu)
    exact hrest

theorem meets_append {s t : State} {as : List Action} (h : M.run s as = some t)
    (bs : List Action) : M.Meets C s (as ++ bs) ↔ M.Meets C s as ∧ M.Meets C t bs := by
  induction as generalizing s with
  | nil =>
    obtain rfl := Option.some.inj h
    simp
  | cons a as ih =>
    obtain ⟨u, hu, h⟩ := M.run_cons_eq_some.mp h
    rw [List.cons_append, M.meets_cons C hu, M.meets_cons C hu, ih h, and_assoc]

/-- Two conditions that agree on the steps from states with `P`, which the steps that
meet the second one keep. -/
theorem meets_congr_of_invariant {D : State → Action → Prop} {P : State → Prop}
    (hkeeps : ∀ {s a t}, P s → D s a → M.step s a = some t → P t)
    (h : ∀ {s a t}, P s → M.step s a = some t → (C s a ↔ D s a))
    {s t : State} {as : List Action} (hs : P s) (hr : M.run s as = some t) :
    M.Meets C s as ↔ M.Meets D s as := by
  induction as generalizing s with
  | nil => exact Iff.rfl
  | cons a as ih =>
    obtain ⟨u, hu, hr⟩ := M.run_cons_eq_some.mp hr
    rw [M.meets_cons C hu, M.meets_cons D hu, h hs hu]
    exact and_congr_right fun ha => ih (hkeeps hs ha hu) hr

/-- Two conditions that agree on the steps a run can take. -/
theorem meets_congr {D : State → Action → Prop}
    (h : ∀ {s a t}, M.step s a = some t → (C s a ↔ D s a)) {s t : State} {as : List Action}
    (hr : M.run s as = some t) : M.Meets C s as ↔ M.Meets D s as :=
  M.meets_congr_of_invariant C (P := fun _ => True) (fun _ _ _ => trivial) (fun _ => h) trivial hr

/-- Actions that meet the condition in every state. -/
theorem meets_of_forall {s : State} {as : List Action} (h : ∀ a ∈ as, ∀ t, C t a) :
    M.Meets C s as := by
  induction as generalizing s with
  | nil => trivial
  | cons a as ih =>
    exact ⟨h a List.mem_cons_self s, fun t _ => ih fun b hb => h b (List.mem_cons_of_mem _ hb)⟩

/-- **The invariant rule under a condition on the steps.** -/
theorem run_invariant_of_meets {P : State → Prop} {C : State → Action → Prop}
    (hstep : ∀ {s a t}, P s → C s a → M.step s a = some t → P t)
    {s t : State} {as : List Action} (hs : P s) (hm : M.Meets C s as)
    (hr : M.run s as = some t) : P t := by
  induction as generalizing s with
  | nil => exact Option.some.inj hr ▸ hs
  | cons a as ih =>
    obtain ⟨u, hu, hr⟩ := M.run_cons_eq_some.mp hr
    obtain ⟨ha, hm⟩ := (M.meets_cons C hu).mp hm
    exact ih (hstep hs ha hu) hm hr

/-- `u` is one of the states the run goes through, its first and last included. -/
def Visits : State → List Action → State → Prop
  | s, [], u => u = s
  | s, a :: as, u => u = s ∨ ∃ t, M.step s a = some t ∧ Visits t as u

theorem visits_start (s : State) (as : List Action) : M.Visits s as s := by
  cases as with
  | nil => rfl
  | cons a as => exact Or.inl rfl

theorem visits_last {s t : State} {as : List Action} (h : M.run s as = some t) :
    M.Visits s as t := by
  induction as generalizing s with
  | nil => exact (Option.some.inj h).symm
  | cons a as ih =>
    obtain ⟨u, hu, h⟩ := M.run_cons_eq_some.mp h
    exact Or.inr ⟨u, hu, ih h⟩

/-- The invariant rule for all states of a run. -/
theorem visits_invariant_of_meets {P : State → Prop} {C : State → Action → Prop}
    (hstep : ∀ {s a t}, P s → C s a → M.step s a = some t → P t)
    {s u : State} {as : List Action} (hs : P s) (hm : M.Meets C s as)
    (hu : M.Visits s as u) : P u := by
  induction as generalizing s with
  | nil => exact hu ▸ hs
  | cons a as ih =>
    rcases hu with rfl | ⟨t, ht, hu⟩
    · exact hs
    · obtain ⟨ha, hm⟩ := (M.meets_cons C ht).mp hm
      exact ih (hstep hs ha ht) hm hu

/-- **Exact conditions.**  If, under an invariant `I`, a step from a state with `P`
ends in `P` exactly when it meets `C`, a run stays in `P` exactly when all its
steps meet `C`. -/
theorem visited_iff_meets {I P : State → Prop} {C : State → Action → Prop}
    (hI : ∀ {s a t}, I s → M.step s a = some t → I t)
    (hstep : ∀ {s a t}, I s → P s → M.step s a = some t → (P t ↔ C s a))
    {s t : State} {as : List Action} (hs : I s) (hP : P s) (hr : M.run s as = some t) :
    (∀ u, M.Visits s as u → P u) ↔ M.Meets C s as := by
  induction as generalizing s with
  | nil =>
    refine ⟨fun _ => trivial, fun _ u hu => ?_⟩
    rw [show u = s from hu]
    exact hP
  | cons a as ih =>
    obtain ⟨v, hv, hr⟩ := M.run_cons_eq_some.mp hr
    rw [M.meets_cons C hv]
    constructor
    · intro hall
      have hPv : P v := hall v (Or.inr ⟨v, hv, M.visits_start v as⟩)
      exact ⟨(hstep hs hP hv).mp hPv,
        (ih (hI hs hv) hPv hr).mp fun u hu => hall u (Or.inr ⟨v, hv, hu⟩)⟩
    · rintro ⟨hC, hm⟩ u (rfl | ⟨w, hw, hu⟩)
      · exact hP
      · obtain rfl : v = w := Option.some.inj (hv.symm.trans hw)
        exact (ih (hI hs hv) ((hstep hs hP hv).mpr hC) hr).mpr hm u hu

/-! ## What a run has done -/

/-- Some action of the run was taken in a state where `Q` held of both. -/
def Took (Q : State → Action → Prop) : State → List Action → Prop
  | _, [] => False
  | s, a :: as => Q s a ∨ ∃ t, M.step s a = some t ∧ Took Q t as

theorem took_cons {Q : State → Action → Prop} {s t : State} {a : Action}
    (h : M.step s a = some t) (as : List Action) :
    M.Took Q s (a :: as) ↔ Q s a ∨ M.Took Q t as := by
  simp only [Took, h, Option.some.injEq, exists_eq_left']

theorem took_append {Q : State → Action → Prop} {s t : State} {as : List Action}
    (h : M.run s as = some t) (bs : List Action) :
    M.Took Q s (as ++ bs) ↔ M.Took Q s as ∨ M.Took Q t bs := by
  induction as generalizing s with
  | nil =>
    obtain rfl := Option.some.inj h
    simp [Took]
  | cons a as ih =>
    obtain ⟨u, hu, h⟩ := M.run_cons_eq_some.mp h
    rw [List.cons_append, M.took_cons hu, M.took_cons hu, ih h, or_assoc]

theorem took_snoc {Q : State → Action → Prop} {s t : State} {as : List Action}
    (h : M.run s as = some t) (a : Action) :
    M.Took Q s (as ++ [a]) ↔ M.Took Q s as ∨ Q t a := by
  simp [M.took_append h, Took]

variable {M} in
theorem Took.exists_mem {Q : State → Action → Prop} {s : State} {as : List Action}
    (h : M.Took Q s as) : ∃ a ∈ as, ∃ t, Q t a := by
  induction as generalizing s with
  | nil => exact h.elim
  | cons a as ih =>
    rcases h with h | ⟨t, -, h⟩
    · exact ⟨a, List.mem_cons_self, s, h⟩
    · obtain ⟨b, hb, h⟩ := ih h
      exact ⟨b, List.mem_cons_of_mem a hb, h⟩

/-- `P` holds of each state of the run, the first and the last included, and the actions
that led to it. -/
def Throughout (P : List Action → State → Prop) (s : State) (as : List Action) : Prop :=
  ∀ before after t, before ++ after = as → M.run s before = some t → P before t

theorem throughout_nil {P : List Action → State → Prop} {s : State} :
    M.Throughout P s [] ↔ P [] s := by
  constructor
  · intro h
    exact h [] [] s rfl rfl
  · intro h before after t hbefore hrun
    obtain ⟨rfl, -⟩ := List.append_eq_nil_iff.mp hbefore
    exact Option.some.inj hrun ▸ h

theorem throughout_snoc {P : List Action → State → Prop} {s t u : State} {as : List Action}
    {a : Action} (h : M.run s as = some t) (ha : M.step t a = some u) :
    M.Throughout P s (as ++ [a]) ↔ M.Throughout P s as ∧ P (as ++ [a]) u := by
  have hlast : M.run s (as ++ [a]) = some u := by
    rw [run_append, h]
    exact M.run_cons_eq_some.mpr ⟨u, ha, rfl⟩
  constructor
  · intro hP
    refine ⟨fun before after v hbefore => hP before (after ++ [a]) v ?_, hP _ [] u (by simp) hlast⟩
    rw [← List.append_assoc, hbefore]
  · rintro ⟨hP, hu⟩ before after v hbefore hv
    rcases List.eq_nil_or_concat after with rfl | ⟨after, b, rfl⟩
    · obtain rfl : before = as ++ [a] := by simpa using hbefore
      obtain rfl : v = u := Option.some.inj (hv.symm.trans hlast)
      exact hu
    · rw [List.concat_eq_append, ← List.append_assoc] at hbefore
      exact hP before after v (List.append_inj' hbefore rfl).1 hv

/-- **Exact conditions, with history.**  If the steps that meet `C` keep an invariant that
implies `P`, and no other step ends in `P`, then `P` holds throughout a run exactly when
all its steps meet `C`. -/
theorem throughout_iff_meets {I P : List Action → State → Prop} {C : State → Action → Prop}
    (hP : ∀ {as t}, I as t → P as t) {s : State} (hs : I [] s)
    (hkeeps : ∀ {as t a u}, M.run s as = some t → I as t → C t a → M.step t a = some u →
      I (as ++ [a]) u)
    (hbreaks : ∀ {as t a u}, M.run s as = some t → I as t → M.step t a = some u →
      P (as ++ [a]) u → C t a)
    {as : List Action} {t : State} (hr : M.run s as = some t) :
    M.Throughout P s as ↔ M.Meets C s as := by
  suffices hboth : (M.Throughout P s as ↔ M.Meets C s as) ∧ (M.Meets C s as → I as t) from hboth.1
  induction as using List.reverseRecOn generalizing t with
  | nil =>
    obtain rfl := Option.some.inj hr
    exact ⟨M.throughout_nil.trans ⟨fun _ => trivial, fun _ => hP hs⟩, fun _ => hs⟩
  | append_singleton as a ih =>
    rw [run_append] at hr
    obtain ⟨v, hv, hr⟩ := Option.bind_eq_some_iff.mp hr
    obtain ⟨u, hu, he⟩ := M.run_cons_eq_some.mp hr
    obtain rfl := Option.some.inj he
    obtain ⟨hiff, hI⟩ := ih hv
    rw [M.throughout_snoc hv hu, M.meets_append C hv, M.meets_cons C hu, hiff]
    constructor
    · constructor
      · rintro ⟨hm, hu'⟩
        exact ⟨hm, hbreaks hv (hI hm) hu hu', trivial⟩
      · rintro ⟨hm, ha, -⟩
        exact ⟨hm, hP (hkeeps hv (hI hm) ha hu)⟩
    · rintro ⟨hm, ha, -⟩
      exact hkeeps hv (hI hm) ha hu

end TransitionSystem
