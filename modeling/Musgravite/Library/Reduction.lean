import Mathlib.Data.List.Nodup
import Mathlib.Logic.Function.Basic
import Musgravite.Library.TransitionSystem

/-! # Agents whose events can be collected into blocks

An agent has a state of its own and shares another with the rest; an event of
the agent acts on the shared state, or is not possible there, and moves the agent
on to its next state, which depends on nothing but the agent.  `system` lets any number of
agents take their events in any order.

An event is a *mover* when it makes no difference whether it happens before or
after an event of somebody else.  If each agent takes at most one event that is
no mover (`Atomic`), then every run can be rearranged, without any change to where
it leads, into one in which each agent takes all its events without interruption
(`Atomic.run_serial`): the movers before the agent's one other event are put off
until that event, and those after it are brought forward to it.  The rearrangement
also respects time (`SerialOrder`): an agent whose events all came before all
those of another one still comes before it. -/

/-- What the events of an agent do, to the shared state and to its own. -/
structure Agent (Shared Own Event : Type*) where
  effect : Own → Event → Shared → Option Shared
  next : Own → Event → Own

namespace Agent
variable {Shared Own Event ι : Type*} [DecidableEq ι]

/-- Any number of agents side by side. -/
def system (ι : Type*) [DecidableEq ι] (A : Agent Shared Own Event) :
    TransitionSystem (Shared × (ι → Own)) (ι × Event) :=
  ⟨fun s a => (A.effect (s.2 a.1) a.2 s.1).map fun d =>
    (d, Function.update s.2 a.1 (A.next (s.2 a.1) a.2))⟩

/-- The events of agent `i` in a run. -/
def eventsOf (as : List (ι × Event)) (i : ι) : List (ι × Event) := as.filter (·.1 = i)

section EventsOf
variable {as : List (ι × Event)} {a : ι × Event} {i : ι}

theorem eventsOf_snoc_self : eventsOf (as ++ [a]) a.1 = eventsOf as a.1 ++ [a] := by
  simp [eventsOf]

theorem eventsOf_snoc_of_ne (h : i ≠ a.1) : eventsOf (as ++ [a]) i = eventsOf as i := by
  simp [eventsOf, h.symm]

theorem mem_eventsOf {b : ι × Event} : b ∈ eventsOf as i ↔ b ∈ as ∧ b.1 = i := by
  simp [eventsOf]

theorem eventsOf_eq_nil_iff : eventsOf as i = [] ↔ ∀ b ∈ as, b.1 ≠ i := by
  simp [eventsOf]

theorem flatMap_eventsOf_snoc {order : List ι} (h : a.1 ∉ order) :
    order.flatMap (eventsOf (as ++ [a])) = order.flatMap (eventsOf as) := by
  simp only [List.flatMap]
  congr 1
  refine List.map_congr_left fun k hk => eventsOf_snoc_of_ne ?_
  rintro rfl
  exact h hk

/-- The block of agents contains the events of those agents. -/
theorem ne_of_mem_flatMap_eventsOf {order : List ι} (h : i ∉ order) :
    ∀ b ∈ order.flatMap (eventsOf as), b.1 ≠ i := by
  rintro b hb rfl
  obtain ⟨k, hk, hb⟩ := List.mem_flatMap.mp hb
  exact h ((mem_eventsOf.mp hb).2 ▸ hk)

theorem eventsOf_flatMap {order : List ι} (h : i ∉ order) :
    eventsOf (order.flatMap (eventsOf as)) i = [] :=
  eventsOf_eq_nil_iff.mpr (ne_of_mem_flatMap_eventsOf h)

theorem eventsOf_eventsOf : eventsOf (eventsOf as i) i = eventsOf as i := by
  simp [eventsOf]

theorem eventsOf_append (bs : List (ι × Event)) :
    eventsOf (as ++ bs) i = eventsOf as i ++ eventsOf bs i :=
  List.filter_append ..

theorem filter_ne_eq_self {order : List ι} (h : i ∉ order) :
    order.filter (· ≠ i) = order :=
  List.filter_eq_self.mpr fun _ hk => decide_eq_true fun he => h (he ▸ hk)

end EventsOf

/-! ## Orders of agents that respect time -/

/-- An order of the agents that took part in a run, in which agents whose events
do not overlap keep their places. -/
structure SerialOrder (as : List (ι × Event)) (order : List ι) : Prop where
  nodup : order.Nodup
  mem_iff : ∀ i, i ∈ order ↔ eventsOf as i ≠ []
  realTime : ∀ before after, before ++ after = as → ∀ i ∈ order, ∀ j ∈ order,
    eventsOf after i = [] → eventsOf before j = [] → [i, j].Sublist order

namespace SerialOrder
variable {as : List (ι × Event)} {order : List ι} {a : ι × Event}

theorem nil : SerialOrder ([] : List (ι × Event)) [] where
  nodup := List.nodup_nil
  mem_iff i := by simp [eventsOf]
  realTime := by simp

/-- One more event of an agent that has its place already. -/
theorem keep (h : SerialOrder as order) (ha : a.1 ∈ order) : SerialOrder (as ++ [a]) order where
  nodup := h.nodup
  mem_iff i := by
    by_cases hi : i = a.1
    · subst hi
      simp [eventsOf_snoc_self, ha]
    · rw [eventsOf_snoc_of_ne hi, h.mem_iff]
  realTime before after hsplit i hi j hj hafter hbefore := by
    rcases List.eq_nil_or_concat after with rfl | ⟨after, b, rfl⟩
    · rw [List.append_nil] at hsplit
      subst hsplit
      have hj' := (h.mem_iff j).mp hj
      rw [eventsOf, List.filter_append] at hbefore
      exact absurd (List.append_eq_nil_iff.mp hbefore).1 hj'
    · rw [List.concat_eq_append, ← List.append_assoc] at hsplit
      obtain ⟨rfl, -⟩ := List.append_inj' hsplit rfl
      rw [List.concat_eq_append, eventsOf, List.filter_append] at hafter
      exact h.realTime before after rfl i hi j hj (List.append_eq_nil_iff.mp hafter).1 hbefore

/-- The agent of the next event goes to the end. -/
theorem toEnd (h : SerialOrder as order) :
    SerialOrder (as ++ [a]) (order.filter (· ≠ a.1) ++ [a.1]) where
  nodup := by
    refine (h.nodup.filter _).append (List.nodup_singleton _) fun k hk hk' => ?_
    simp_all
  mem_iff i := by
    by_cases hi : i = a.1
    · subst hi
      simp [eventsOf_snoc_self]
    · rw [eventsOf_snoc_of_ne hi, ← h.mem_iff]
      simp [hi]
  realTime before after hsplit i hi j hj hafter hbefore := by
    rcases List.eq_nil_or_concat after with rfl | ⟨after, b, rfl⟩
    · rw [List.append_nil] at hsplit
      subst hsplit
      exfalso
      by_cases hja : j = a.1
      · subst hja
        simp [eventsOf_snoc_self] at hbefore
      · rw [eventsOf_snoc_of_ne hja] at hbefore
        exact (h.mem_iff j).mp (by simpa [hja] using hj) hbefore
    · rw [List.concat_eq_append, ← List.append_assoc] at hsplit
      obtain ⟨rfl, hb⟩ := List.append_inj' hsplit rfl
      obtain rfl := List.singleton_inj.mp hb
      rw [List.concat_eq_append, eventsOf, List.filter_append] at hafter
      obtain ⟨hafter, hib⟩ := List.append_eq_nil_iff.mp hafter
      have hia : i ≠ b.1 := by
        rintro rfl
        simp at hib
      have hio : i ∈ order := by simpa [hia] using hi
      by_cases hja : j = b.1
      · subst hja
        exact (List.singleton_sublist.mpr (by simp [hio, hia])).append (.refl [b.1])
      · have hsub := (h.realTime before after rfl i hio j (by simpa [hja] using hj) hafter
          hbefore).filter (· ≠ b.1)
        rw [List.filter_eq_self.mpr (by simp [hia, hja])] at hsub
        exact hsub.trans (List.sublist_append_left _ _)

end SerialOrder

/-! ## Agents that are atomic -/

/-- Under the invariant `I` on its own state, each agent takes at most one event
that is no mover: after that it is `Done`, and `Done` agents take movers only. -/
structure Atomic (A : Agent Shared Own Event) (I : Own → Prop) (Mover : Own → Event → Prop)
    (Done : Own → Prop) : Prop where
  keeps : ∀ {o e}, I o → I (A.next o e)
  done_next : ∀ {o e}, Done o → Done (A.next o e)
  mover_of_done : ∀ {o e}, Done o → Mover o e
  done_of_not_mover : ∀ {o e}, I o → ¬ Mover o e → Done (A.next o e)
  commutes : ∀ {o o' e e'}, I o → I o' → Mover o e → ∀ d,
    (A.effect o e d).bind (A.effect o' e') = (A.effect o' e' d).bind (A.effect o e)

/-- Every one of the events is a mover when its turn comes. -/
def Moves (A : Agent Shared Own Event) (Mover : Own → Event → Prop) : Own → List (ι × Event) → Prop
  | _, [] => True
  | o, a :: as => Mover o a.2 ∧ Moves A Mover (A.next o a.2) as

section Runs
variable {A : Agent Shared Own Event} {s t : Shared × (ι → Own)} {as : List (ι × Event)}

theorem step_eq_some {a : ι × Event} : (A.system ι).step s a = some t ↔
    ∃ d, A.effect (s.2 a.1) a.2 s.1 = some d ∧
      (d, Function.update s.2 a.1 (A.next (s.2 a.1) a.2)) = t :=
  Option.map_eq_some_iff

/-- A step of another agent leaves an agent where it is. -/
theorem step_own_of_ne {a : ι × Event} (h : (A.system ι).step s a = some t) {i : ι}
    (hi : i ≠ a.1) : t.2 i = s.2 i := by
  obtain ⟨d, -, rfl⟩ := step_eq_some.mp h
  exact Function.update_of_ne hi ..

theorem step_own_self {a : ι × Event} (h : (A.system ι).step s a = some t) :
    t.2 a.1 = A.next (s.2 a.1) a.2 := by
  obtain ⟨d, -, rfl⟩ := step_eq_some.mp h
  exact Function.update_self ..

/-- **Where an agent is depends on its own events only.** -/
theorem run_own (h : (A.system ι).run s as = some t) (i : ι) :
    t.2 i = (eventsOf as i).foldl (fun o a => A.next o a.2) (s.2 i) := by
  induction as generalizing s with
  | nil =>
    obtain rfl := Option.some.inj h
    rfl
  | cons a as ih =>
    obtain ⟨u, hu, h⟩ := (A.system ι).run_cons_eq_some.mp h
    rw [ih h]
    by_cases hi : a.1 = i
    · subst hi
      simp [eventsOf, step_own_self hu]
    · simp [eventsOf, hi, step_own_of_ne hu (Ne.symm hi)]

/-- Two events of different agents, one after the other. -/
theorem run_pair {a b : ι × Event} (h : a.1 ≠ b.1) :
    (A.system ι).run s [a, b] =
      ((A.effect (s.2 a.1) a.2 s.1).bind (A.effect (s.2 b.1) b.2)).map fun d =>
        (d, Function.update (Function.update s.2 a.1 (A.next (s.2 a.1) a.2)) b.1
          (A.next (s.2 b.1) b.2)) := by
  cases hx : A.effect (s.2 a.1) a.2 s.1 with
  | none => simp [TransitionSystem.run, system, hx]
  | some d =>
    cases hy : A.effect (s.2 b.1) b.2 d <;>
      simp [TransitionSystem.run, system, hx, hy, Function.update_of_ne h.symm]

end Runs

namespace Atomic
variable {A : Agent Shared Own Event} {I : Own → Prop} {Mover : Own → Event → Prop}
  {Done : Own → Prop} {s t : Shared × (ι → Own)} {as bs : List (ι × Event)} {a : ι × Event}

theorem step_keeps (hA : A.Atomic I Mover Done) (hs : ∀ i, I (s.2 i))
    (h : (A.system ι).step s a = some t) (i : ι) : I (t.2 i) := by
  by_cases hi : i = a.1
  · subst hi
    rw [step_own_self h]
    exact hA.keeps (hs a.1)
  · rw [step_own_of_ne h hi]
    exact hs i

theorem run_keeps (hA : A.Atomic I Mover Done) (hs : ∀ i, I (s.2 i))
    (h : (A.system ι).run s as = some t) : ∀ i, I (t.2 i) :=
  (A.system ι).run_invariant (P := fun t => ∀ i, I (t.2 i)) (fun hs h => hA.step_keeps hs h) hs h

omit [DecidableEq ι] in
/-- An agent that is not done yet has taken movers only. -/
theorem moves_of_not_done (hA : A.Atomic I Mover Done) {o : Own} (ho : I o)
    (h : ¬ Done (as.foldl (fun o a => A.next o a.2) o)) : A.Moves Mover o as := by
  have stays : ∀ (bs : List (ι × Event)) {o : Own}, Done o →
      Done (bs.foldl (fun o a => A.next o a.2) o) := by
    intro bs
    induction bs with
    | nil => exact id
    | cons b bs ih => exact fun ho => ih (hA.done_next ho)
  induction as generalizing o with
  | nil => trivial
  | cons a as ih =>
    refine ⟨?_, ih (hA.keeps ho) h⟩
    by_contra hm
    exact h (stays as (hA.done_of_not_mover ho hm))

/-- A mover changes places with the next event. -/
theorem swap (hA : A.Atomic I Mover Done) (hs : ∀ i, I (s.2 i)) {b : ι × Event} (hab : a.1 ≠ b.1)
    (hm : Mover (s.2 a.1) a.2) :
    (A.system ι).run s [a, b] = (A.system ι).run s [b, a] := by
  rw [run_pair hab, run_pair hab.symm, hA.commutes (hs a.1) (hs b.1) hm, Function.update_comm hab]

/-- A mover changes places with the events of others that follow it. -/
theorem swap_block (hA : A.Atomic I Mover Done) (hs : ∀ i, I (s.2 i)) (hm : Mover (s.2 a.1) a.2)
    (hbs : ∀ b ∈ bs, b.1 ≠ a.1) :
    (A.system ι).run s (a :: bs) = (A.system ι).run s (bs ++ [a]) := by
  induction bs generalizing s with
  | nil => rfl
  | cons b bs ih =>
    have hb : b.1 ≠ a.1 := hbs b List.mem_cons_self
    calc (A.system ι).run s (a :: b :: bs)
        = ((A.system ι).run s [b, a]).bind fun t => (A.system ι).run t bs := by
          rw [← hA.swap hs hb.symm hm, ← TransitionSystem.run_append]
          rfl
      _ = ((A.system ι).step s b).bind fun t => (A.system ι).run t (a :: bs) := by
          rw [← TransitionSystem.run_append]
          rfl
      _ = ((A.system ι).step s b).bind fun t => (A.system ι).run t (bs ++ [a]) := by
          refine Option.bind_congr fun t ht => ?_
          refine ih (hA.step_keeps hs ht) ?_ fun c hc => hbs c (List.mem_cons_of_mem b hc)
          rw [step_own_of_ne ht hb.symm]
          exact hm
      _ = (A.system ι).run s (b :: bs ++ [a]) := rfl

/-- A block of movers changes places with the events of others that follow it. -/
theorem swap_blocks (hA : A.Atomic I Mover Done) (hs : ∀ i, I (s.2 i)) {i : ι}
    (hm : A.Moves Mover (s.2 i) as) (has : ∀ a ∈ as, a.1 = i) (hbs : ∀ b ∈ bs, b.1 ≠ i) :
    (A.system ι).run s (as ++ bs) = (A.system ι).run s (bs ++ as) := by
  induction as generalizing s with
  | nil => rw [List.nil_append, List.append_nil]
  | cons a as ih =>
    obtain rfl : a.1 = i := has a List.mem_cons_self
    obtain ⟨ha, hrest⟩ := hm
    calc (A.system ι).run s (a :: as ++ bs)
        = ((A.system ι).step s a).bind fun t => (A.system ι).run t (as ++ bs) := rfl
      _ = ((A.system ι).step s a).bind fun t => (A.system ι).run t (bs ++ as) := by
          refine Option.bind_congr fun t ht => ?_
          refine ih (hA.step_keeps hs ht) ?_ fun c hc => has c (List.mem_cons_of_mem a hc)
          rw [step_own_self ht]
          exact hrest
      _ = (A.system ι).run s (a :: bs ++ as) := rfl
      _ = (A.system ι).run s (bs ++ [a] ++ as) := by
          rw [TransitionSystem.run_append, TransitionSystem.run_append, hA.swap_block hs ha hbs]
      _ = (A.system ι).run s (bs ++ a :: as) := by rw [List.append_assoc, List.singleton_append]

/-- **Reduction.**  Every run of atomic agents leads where some run leads in which
each of them takes its events without interruption, in an order that respects
time. -/
theorem run_serial (hA : A.Atomic I Mover Done) (hs : ∀ i, I (s.2 i))
    (h : (A.system ι).run s as = some t) :
    ∃ order, SerialOrder as order ∧
      (A.system ι).run s (order.flatMap (eventsOf as)) = some t := by
  induction as using List.reverseRecOn generalizing t with
  | nil => exact ⟨[], .nil, h⟩
  | append_singleton as a ih =>
    rw [TransitionSystem.run_append] at h
    obtain ⟨u, hu, ha⟩ := Option.bind_eq_some_iff.mp h
    obtain ⟨order, horder, hrun⟩ := ih hu
    by_cases hmem : a.1 ∈ order
    · obtain ⟨before, after, rfl⟩ := List.append_of_mem hmem
      obtain ⟨hbefore, hafter⟩ : a.1 ∉ before ∧ a.1 ∉ after := by
        simpa using (List.nodup_cons.mp (List.nodup_middle.mp horder.nodup)).1
      have hothers : ∀ b ∈ after.flatMap (eventsOf as), b.1 ≠ a.1 :=
        ne_of_mem_flatMap_eventsOf hafter
      simp only [List.flatMap_append, List.flatMap_cons] at hrun
      by_cases hm : Mover (u.2 a.1) a.2
      -- the event is brought forward over the blocks that follow those of its agent
      · refine ⟨_, horder.keep hmem, ?_⟩
        rw [← List.append_assoc, TransitionSystem.run_append] at hrun
        obtain ⟨v, hv, hu'⟩ := Option.bind_eq_some_iff.mp hrun
        have hsame : u.2 a.1 = v.2 a.1 := by
          rw [run_own hu', eventsOf_flatMap hafter]
          rfl
        have hlast : (A.system ι).run v (a :: after.flatMap (eventsOf as)) = some t := by
          rw [hA.swap_block (hA.run_keeps hs hv) (hsame ▸ hm) hothers,
            TransitionSystem.run_append, hu']
          exact ha
        simp only [List.flatMap_append, List.flatMap_cons, flatMap_eventsOf_snoc hbefore,
          flatMap_eventsOf_snoc hafter, eventsOf_snoc_self]
        rw [List.append_assoc, ← List.append_assoc, TransitionSystem.run_append, hv]
        exact hlast
      -- the earlier events of the agent are put off until this one
      · refine ⟨_, horder.toEnd, ?_⟩
        have hnot : a.1 ∉ before ++ after := by simp [hbefore, hafter]
        have hfilter : (before ++ a.1 :: after).filter (· ≠ a.1) = before ++ after := by
          rw [List.filter_append, List.filter_cons_of_neg (by simp), filter_ne_eq_self hbefore,
            filter_ne_eq_self hafter]
        rw [TransitionSystem.run_append] at hrun
        obtain ⟨v, hv, hu'⟩ := Option.bind_eq_some_iff.mp hrun
        have hmoves : A.Moves Mover (v.2 a.1) (eventsOf as a.1) := by
          refine hA.moves_of_not_done (hA.run_keeps hs hv a.1) fun hdone => hm ?_
          refine hA.mover_of_done ?_
          rw [run_own hu', eventsOf_append, eventsOf_flatMap hafter, eventsOf_eventsOf,
            List.append_nil]
          exact hdone
        rw [hA.swap_blocks (hA.run_keeps hs hv) hmoves (fun b hb => (mem_eventsOf.mp hb).2)
          hothers] at hu'
        rw [hfilter, List.flatMap_append, flatMap_eventsOf_snoc hnot, List.flatMap_append,
          List.flatMap_singleton, eventsOf_snoc_self, List.append_assoc,
          ← List.append_assoc _ _ [a], TransitionSystem.run_append, hv, Option.bind_some,
          TransitionSystem.run_append, hu']
        exact ha
    · refine ⟨_, horder.toEnd, ?_⟩
      have hnil : eventsOf as a.1 = [] := by
        by_contra hne
        exact hmem ((horder.mem_iff a.1).mpr hne)
      rw [filter_ne_eq_self hmem, List.flatMap_append, flatMap_eventsOf_snoc hmem,
        List.flatMap_singleton, eventsOf_snoc_self, hnil, TransitionSystem.run_append, hrun]
      exact ha

end Atomic

end Agent
