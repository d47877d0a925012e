import Mathlib.Data.List.Perm.Basic
import Musgravite.Library.TransitionSystem

/-! # Routines that call back

A routine takes steps, and in some of them it calls the completion block of its caller.
`called` lists the values it has called it with.

The block may call a second routine: `nest A B combine` is `A` with a block that keeps the
value it is given and calls `B`, with a block that combines what it is given with the kept
value and hands it on.  Every call that `A` makes starts a call of `B`, and all of these
are in progress side by side.

`nest_run` is the rule for all interleavings: each part is where steps of its own have led
it, and the values handed on are those of the calls of `B`, each combined with the value
that the call was started with (`Nested.Sound`).  So the nested routine calls once if `A`
does and the call of `B` does (`Nested.Sound.called_single`), and `n * m` times if `A` has
called `n` times and each call of `B` `m` times (`Nested.Sound.length_called`). -/

/-- A routine, and the calls of its caller's completion block that it has made. -/
structure Routine (State Action Value : Type*) extends TransitionSystem State Action where
  start : State
  called : State → List Value
  called_start : called start = []
  called_step : ∀ {s a t}, step s a = some t → called s <+: called t

namespace Routine
variable {S₁ A₁ V₁ S₂ A₂ V₂ W : Type*}

/-- The calls made from `s` to `t`. -/
def newCalls (R : Routine S₁ A₁ V₁) (s t : S₁) : List V₁ := (R.called t).drop (R.called s).length

theorem called_append_newCalls (R : Routine S₁ A₁ V₁) {s t : S₁} {a : A₁}
    (h : R.step s a = some t) : R.called s ++ R.newCalls s t = R.called t :=
  List.prefix_iff_eq_append.mp (R.called_step h)

/-- A routine whose completion block calls another one: the calls of the other one, each
with the value it was started with, and what has been handed on. -/
structure Nested (S₁ V₁ S₂ W : Type*) where
  outer : S₁
  inner : List (V₁ × S₂)
  called : List W

namespace Nested

inductive Action (A₁ A₂ : Type*)
  | outer (a : A₁)
  | inner (n : Nat) (a : A₂)

/-- The action meets the condition on the actions of its part. -/
def Action.Meets (C₁ : A₁ → Prop) (C₂ : A₂ → Prop) : Action A₁ A₂ → Prop
  | .outer a => C₁ a
  | .inner _ a => C₂ a

/-- The action is due in its part. -/
def Due (D₁ : S₁ → A₁ → Prop) (D₂ : S₂ → A₂ → Prop) (s : Nested S₁ V₁ S₂ W) :
    Action A₁ A₂ → Prop
  | .outer a => D₁ s.outer a
  | .inner n a => ∃ p, s.inner[n]? = some p ∧ D₂ p.2 a

end Nested

variable (A : Routine S₁ A₁ V₁) (B : Routine S₂ A₂ V₂) (combine : V₁ → V₂ → W)

/-- A step of one of the parts. -/
def stepNested (s : Nested S₁ V₁ S₂ W) : Nested.Action A₁ A₂ → Option (Nested S₁ V₁ S₂ W)
  | .outer a => (A.step s.outer a).map fun t => { s with
      outer := t
      inner := s.inner ++ (A.newCalls s.outer t).map fun v => (v, B.start) }
  | .inner n a => s.inner[n]?.bind fun p => (B.step p.2 a).map fun u => { s with
      inner := s.inner.set n (p.1, u)
      called := s.called ++ (B.newCalls p.2 u).map (combine p.1) }

/-- `A { x in B { y in completionBlock(combine x y) } }`. -/
def nest : Routine (Nested S₁ V₁ S₂ W) (Nested.Action A₁ A₂) W where
  step := stepNested A B combine
  start := ⟨A.start, [], []⟩
  called := Nested.called
  called_start := rfl
  called_step := by
    intro s a t h
    cases a with
    | outer a =>
      obtain ⟨u, -, rfl⟩ := Option.map_eq_some_iff.mp h
      exact List.prefix_rfl
    | inner n a =>
      obtain ⟨p, -, h⟩ := Option.bind_eq_some_iff.mp h
      obtain ⟨u, -, rfl⟩ := Option.map_eq_some_iff.mp h
      exact List.prefix_append ..

/-! ## What has been handed on -/

namespace Nested

/-- The calls of `B` are those that `A` has started, and what has been handed on comes from
them. -/
structure Sound (s : Nested S₁ V₁ S₂ W) : Prop where
  started : s.inner.map Prod.fst = A.called s.outer
  handedOn : s.called.Perm (s.inner.flatMap fun p => (B.called p.2).map (combine p.1))

variable {A B combine} {s t : Nested S₁ V₁ S₂ W}

/-- One more value from one of the lists that a `flatMap` puts together. -/
theorem flatMap_set_perm {α β : Type*} {f : α → List β} {l : List α} {n : Nat} {x y : α}
    {new : List β} (hx : l[n]? = some x) (hf : f y = f x ++ new) :
    ((l.set n y).flatMap f).Perm (l.flatMap f ++ new) := by
  obtain ⟨hn, rfl⟩ := List.getElem?_eq_some_iff.mp hx
  have hl : l = l.take n ++ l[n] :: l.drop (n + 1) := by simp
  rw [List.set_eq_take_append_cons_drop, if_pos hn]
  nth_rewrite 3 [hl]
  simp only [List.flatMap_append, List.flatMap_cons, hf, List.append_assoc]
  exact List.Perm.append_left _ (List.Perm.append_left _ List.perm_append_comm)

theorem sound_start : Sound A B combine (nest A B combine).start where
  started := A.called_start.symm
  handedOn := List.Perm.refl _

theorem Sound.step_outer (hs : Sound A B combine s) {a : A₁} {u : S₁}
    (h : A.step s.outer a = some u) : Sound A B combine { s with
      outer := u
      inner := s.inner ++ (A.newCalls s.outer u).map fun v => (v, B.start) } := by
  refine ⟨?_, ?_⟩
  · rw [List.map_append, hs.started, List.map_map, ← A.called_append_newCalls h]
    exact congrArg _ (List.map_id _)
  · -- the calls that have just been started have handed on nothing
    have hnew : ((A.newCalls s.outer u).map fun v => (v, B.start)).flatMap
        (fun p => (B.called p.2).map (combine p.1)) = [] := by
      simp [List.flatMap_map, B.called_start]
    rw [List.flatMap_append, hnew, List.append_nil]
    exact hs.handedOn

theorem Sound.step_inner (hs : Sound A B combine s) {n : Nat} {p : V₁ × S₂} {a : A₂} {u : S₂}
    (hp : s.inner[n]? = some p) (h : B.step p.2 a = some u) : Sound A B combine { s with
      inner := s.inner.set n (p.1, u)
      called := s.called ++ (B.newCalls p.2 u).map (combine p.1) } := by
  refine ⟨?_, ?_⟩
  · obtain ⟨hn, rfl⟩ := List.getElem?_eq_some_iff.mp hp
    have hn' : n < (s.inner.map Prod.fst).length := by simpa using hn
    have hsame := List.set_getElem_self hn'
    rw [List.getElem_map] at hsame
    rw [List.map_set, hsame, hs.started]
  · refine (hs.handedOn.append_right _).trans (flatMap_set_perm hp ?_).symm
    rw [← List.map_append, B.called_append_newCalls h]

/-- **The rule for nested routines**: what the steps of each part keep holds of that part in
every run, and the parts fit together. -/
theorem nest_run {P : S₁ → Prop} {Q : S₂ → Prop} {C₁ : A₁ → Prop} {C₂ : A₂ → Prop}
    (hP : P A.start) (hQ : Q B.start)
    (hA : ∀ {s a t}, P s → C₁ a → A.step s a = some t → P t)
    (hB : ∀ {s a t}, Q s → C₂ a → B.step s a = some t → Q t)
    {as : List (Action A₁ A₂)} (hmeets : ∀ a ∈ as, a.Meets C₁ C₂)
    (hrun : (nest A B combine).run (nest A B combine).start as = some s) :
    Sound A B combine s ∧ P s.outer ∧ ∀ p ∈ s.inner, Q p.2 := by
  refine (nest A B combine).run_invariant_of_meets (C := fun _ a => a.Meets C₁ C₂)
    (P := fun s => Sound A B combine s ∧ P s.outer ∧ ∀ p ∈ s.inner, Q p.2) ?_
    ⟨sound_start, hP, fun _ hp => (nomatch hp)⟩
    (TransitionSystem.meets_of_forall _ _ fun a ha _ => hmeets a ha) hrun
  rintro s a t ⟨hs, hPs, hQs⟩ hC hstep
  cases a with
  | outer a =>
    obtain ⟨u, hu, rfl⟩ := Option.map_eq_some_iff.mp hstep
    refine ⟨hs.step_outer hu, hA hPs hC hu, fun p hp => ?_⟩
    rcases List.mem_append.mp hp with hp | hp
    · exact hQs p hp
    · obtain ⟨v, -, rfl⟩ := List.mem_map.mp hp
      exact hQ
  | inner n a =>
    obtain ⟨p, hp, hstep⟩ := Option.bind_eq_some_iff.mp hstep
    obtain ⟨u, hu, rfl⟩ := Option.map_eq_some_iff.mp hstep
    refine ⟨hs.step_inner hp hu, hPs, fun q hq => ?_⟩
    rcases List.mem_or_eq_of_mem_set hq with hq | rfl
    · exact hQs q hq
    · exact hB (hQs p (List.mem_of_getElem? hp)) hC hu

/-- What is due in a part can happen. -/
theorem step_isSome {C₁ : A₁ → Prop} {C₂ : A₂ → Prop} {D₁ : S₁ → A₁ → Prop}
    {D₂ : S₂ → A₂ → Prop} (hA : ∀ a, C₁ a → D₁ s.outer a → (A.step s.outer a).isSome)
    (hB : ∀ p ∈ s.inner, ∀ a, C₂ a → D₂ p.2 a → (B.step p.2 a).isSome) {a : Action A₁ A₂}
    (hmeets : a.Meets C₁ C₂) (hdue : s.Due D₁ D₂ a) : ((nest A B combine).step s a).isSome := by
  cases a with
  | outer a =>
    obtain ⟨t, ht⟩ := Option.isSome_iff_exists.mp (hA a hmeets hdue)
    exact Option.isSome_iff_exists.mpr ⟨_, Option.map_eq_some_iff.mpr ⟨t, ht, rfl⟩⟩
  | inner n a =>
    obtain ⟨p, hp, hdue⟩ := hdue
    obtain ⟨u, hu⟩ := Option.isSome_iff_exists.mp
      (hB p (List.mem_of_getElem? hp) a hmeets hdue)
    exact Option.isSome_iff_exists.mpr ⟨_, Option.bind_eq_some_iff.mpr
      ⟨p, hp, Option.map_eq_some_iff.mpr ⟨u, hu, rfl⟩⟩⟩

/-- Calls multiply. -/
theorem Sound.length_called (hs : Sound A B combine s) {m : Nat}
    (hm : ∀ p ∈ s.inner, (B.called p.2).length = m) :
    s.called.length = (A.called s.outer).length * m := by
  rw [hs.handedOn.length_eq, List.length_flatMap, ← hs.started, List.length_map]
  have hconst : (s.inner.map fun p => ((B.called p.2).map (combine p.1)).length) =
      List.replicate s.inner.length m := by
    rw [List.map_eq_replicate_iff]
    intro p hp
    rw [List.length_map, hm p hp]
  rw [hconst, List.sum_replicate_nat]

/-- One call of the outer routine, and one of the call that it starts. -/
theorem Sound.called_single (hs : Sound A B combine s) {v : V₁} (hv : A.called s.outer = [v]) :
    ∃ u, s.inner = [(v, u)] ∧ s.called.Perm ((B.called u).map (combine v)) := by
  have hstarted := hs.started.trans hv
  obtain ⟨⟨v', u⟩, hinner, rfl⟩ := List.map_eq_singleton_iff.mp hstarted
  refine ⟨u, hinner, ?_⟩
  simpa [hinner] using hs.handedOn

end Nested
end Routine
