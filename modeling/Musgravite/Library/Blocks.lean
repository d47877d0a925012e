import Mathlib.Data.List.Dedup
import Mathlib.Data.List.Nodup
import Mathlib.Data.List.Count

/-! # Lists made of blocks

`expand w` writes each entry `(x, n)` of `w` as a block of `n` copies of `x`.
`recount l s` goes through `s` and writes, for each element, as many copies as `l`
holds.  Two nested loops that build one list along one order and a second list by
looking elements of another order up in the first produce exactly this pair.

`recount_prefix_iff` says when the second list is the beginning of the first: each
element has one block and the orders agree. -/
namespace List
variable {α : Type*}

/-- A block of `n` copies of `x` for each entry `(x, n)`. -/
def expand (w : List (α × Nat)) : List α := w.flatMap fun p => replicate p.2 p.1

@[simp] theorem expand_cons (p : α × Nat) (w : List (α × Nat)) :
    expand (p :: w) = replicate p.2 p.1 ++ expand w := flatMap_cons

theorem map_expand {β : Type*} (f : α → β) (w : List (α × Nat)) :
    (expand w).map f = expand (w.map fun p => (f p.1, p.2)) := by
  rw [expand, expand, map_flatMap, flatMap_map]
  simp only [map_replicate]

/-- Entries without copies can be left out. -/
theorem expand_filter (k : α → Nat) (l : List α) :
    expand ((l.filter fun x => 0 < k x).map fun x => (x, k x)) =
      expand (l.map fun x => (x, k x)) := by
  induction l with
  | nil => rfl
  | cons x l ih =>
    rw [filter_cons, map_cons, expand_cons, ← ih]
    by_cases h : 0 < k x
    · rw [if_pos (by simpa using h), map_cons, expand_cons]
    · rw [if_neg (by simpa using h), Nat.eq_zero_of_not_pos h]
      rfl

variable [DecidableEq α]

/-- The elements of `s`, each as often as `l` holds it. -/
def recount (l s : List α) : List α := s.flatMap fun x => replicate (l.count x) x

theorem recount_eq_expand (l s : List α) :
    recount l s = expand (s.map fun x => (x, l.count x)) := by
  rw [recount, expand, flatMap_map]

/-! ### What occurs, and how often -/

section Expand
omit [DecidableEq α]

theorem mem_expand {w : List (α × Nat)} (hw : ∀ p ∈ w, 0 < p.2) {x : α} :
    x ∈ expand w ↔ x ∈ w.map Prod.fst := by
  simp only [expand, mem_flatMap, mem_replicate, mem_map]
  constructor
  · rintro ⟨p, hp, -, rfl⟩
    exact ⟨p, hp, rfl⟩
  · rintro ⟨p, hp, rfl⟩
    exact ⟨p, hp, Nat.ne_of_gt (hw p hp), rfl⟩

end Expand

theorem count_expand_of_mem {w : List (α × Nat)} (hnodup : (w.map Prod.fst).Nodup)
    {p : α × Nat} (hp : p ∈ w) : (expand w).count p.1 = p.2 := by
  induction w with
  | nil => cases hp
  | cons q w ih =>
    rw [map_cons, nodup_cons] at hnodup
    rw [expand_cons, count_append]
    have hrest : q.1 ∉ expand w := by
      intro h
      obtain ⟨r, hr, hq⟩ := mem_flatMap.mp h
      rw [eq_of_mem_replicate hq] at hnodup
      exact hnodup.1 (mem_map_of_mem hr)
    rcases mem_cons.mp hp with rfl | hp
    · rw [count_replicate_self, count_eq_zero_of_not_mem hrest, Nat.add_zero]
    · have hne : p.1 ≠ q.1 := by
        intro he
        rw [← he] at hnodup
        exact hnodup.1 (mem_map_of_mem hp)
      rw [ih hnodup.2 hp, count_replicate, if_neg (by simpa using hne.symm), Nat.zero_add]

theorem count_expand_map (k : α → Nat) (l : List α) (x : α) :
    (expand (l.map fun y => (y, k y))).count x = l.count x * k x := by
  induction l with
  | nil => simp [expand]
  | cons y l ih =>
    rw [map_cons, expand_cons, count_append, count_replicate, ih, count_cons]
    by_cases h : y = x
    · subst h
      simp [Nat.succ_mul, Nat.add_comm]
    · simp [h]

omit [DecidableEq α] in
/-- Blocks of one copy or none. -/
theorem expand_ite (p : α → Prop) [DecidablePred p] (l : List α) :
    expand (l.map fun x => (x, if p x then 1 else 0)) = l.filter p := by
  induction l with
  | nil => rfl
  | cons x l ih =>
    rw [map_cons, expand_cons, ih]
    by_cases h : p x <;> simp [h]

theorem dedup_expand {w : List (α × Nat)} (hw : ∀ p ∈ w, 0 < p.2)
    (hnodup : (w.map Prod.fst).Nodup) : (expand w).dedup = w.map Prod.fst := by
  induction w with
  | nil => rfl
  | cons p w ih =>
    have hw' : ∀ q ∈ w, 0 < q.2 := fun q hq => hw q (mem_cons_of_mem _ hq)
    rw [map_cons, nodup_cons] at hnodup
    rw [expand_cons, Disjoint.dedup_append, replicate_dedup (Nat.ne_of_gt (hw p mem_cons_self)),
      ih hw' hnodup.2]
    · rfl
    · intro x hx hx'
      rw [eq_of_mem_replicate hx, mem_expand hw'] at hx'
      exact hnodup.1 hx'

theorem recount_cons (l : List α) (x : α) (s : List α) :
    recount l (x :: s) = replicate (l.count x) x ++ recount l s := flatMap_cons

theorem count_recount (l s : List α) (x : α) : (recount l s).count x = s.count x * l.count x := by
  rw [recount_eq_expand, count_expand_map]

/-- Elements that `l` does not hold leave no trace. -/
theorem recount_filter (l s : List α) : recount l (s.filter (· ∈ l)) = recount l s := by
  induction s with
  | nil => rfl
  | cons y s ih =>
    rw [recount_cons, filter_cons]
    by_cases h : y ∈ l
    · rw [if_pos (by simpa using h), recount_cons, ih]
    · rw [if_neg (by simpa using h), ih, count_eq_zero_of_not_mem h]
      rfl

/-! ### When the lists agree -/

/-- A recounted list whose elements all have blocks, one element at a time. -/
theorem recount_expand {w : List (α × Nat)} (hnodup : (w.map Prod.fst).Nodup) :
    recount (expand w) (w.map Prod.fst) = expand w := by
  rw [recount_eq_expand, map_map]
  refine congrArg expand ?_
  calc w.map ((fun x => (x, (expand w).count x)) ∘ Prod.fst)
      = w.map id := map_congr_left fun p hp => by
        simp [count_expand_of_mem hnodup hp]
    _ = w := map_id w

/-- If the recounted list begins the list of blocks, nothing with a block is
recounted twice. -/
theorem count_le_one_of_recount_prefix {w : List (α × Nat)} (hw : ∀ p ∈ w, 0 < p.2) {s : List α}
    (h : recount (expand w) s <+: expand w) {x : α} (hx : x ∈ w.map Prod.fst) : s.count x ≤ 1 := by
  have hpos : 0 < (expand w).count x := count_pos_iff.mpr ((mem_expand hw).mpr hx)
  have hcount := h.sublist.count_le x
  rw [count_recount] at hcount
  exact Nat.le_of_mul_le_mul_right (by rwa [Nat.one_mul]) hpos

/-- What has a block and is recounted once comes as often as in the blocks. -/
theorem recount_perm_expand {w : List (α × Nat)} (hw : ∀ p ∈ w, 0 < p.2) {s : List α}
    (hs : ∀ x ∈ w.map Prod.fst, s.count x = 1) : (recount (expand w) s).Perm (expand w) := by
  refine perm_iff_count.mpr fun x => ?_
  rw [count_recount]
  by_cases hx : x ∈ w.map Prod.fst
  · rw [hs x hx, Nat.one_mul]
  · rw [count_eq_zero_of_not_mem (fun hmem => hx ((mem_expand hw).mp hmem)), Nat.mul_zero]

theorem filter_mem_expand {w : List (α × Nat)} (hw : ∀ p ∈ w, 0 < p.2) (s : List α) :
    s.filter (· ∈ expand w) = s.filter (· ∈ w.map Prod.fst) :=
  filter_congr fun x _ => by simp only [mem_expand hw]

/-- A recounted list in which nothing is recounted twice, without the repetitions. -/
theorem dedup_recount {w : List (α × Nat)} (hw : ∀ p ∈ w, 0 < p.2) {s : List α}
    (hs : (s.filter (· ∈ w.map Prod.fst)).Nodup) :
    (recount (expand w) s).dedup = s.filter (· ∈ w.map Prod.fst) := by
  have hpos : ∀ p ∈ (s.filter (· ∈ w.map Prod.fst)).map fun x => (x, (expand w).count x),
      0 < p.2 := by
    intro p hp
    obtain ⟨x, hx, rfl⟩ := mem_map.mp hp
    exact count_pos_iff.mpr ((mem_expand hw).mpr (by simpa using (mem_filter.mp hx).2))
  have hfst : ((s.filter (· ∈ w.map Prod.fst)).map fun x => (x, (expand w).count x)).map
      Prod.fst = s.filter (· ∈ w.map Prod.fst) := by
    rw [map_map]
    exact map_id _
  rw [← recount_filter, filter_mem_expand hw, recount_eq_expand, dedup_expand hpos (by rwa [hfst]),
    hfst]

/-- **When the recounted list begins the list of blocks**: no element has two
blocks, and among the elements of `s` those with a block come once each and in the
order of the blocks. -/
theorem recount_prefix_iff {w : List (α × Nat)} (hw : ∀ p ∈ w, 0 < p.2) {s : List α}
    (hs : ∀ x, (w.map Prod.fst).count x ≤ s.count x) :
    recount (expand w) s <+: expand w ↔
      (w.map Prod.fst).Nodup ∧ s.filter (· ∈ w.map Prod.fst) = w.map Prod.fst := by
  constructor
  · intro h
    have hle : ∀ x ∈ w.map Prod.fst, s.count x ≤ 1 := fun x hx =>
      count_le_one_of_recount_prefix hw h hx
    have hone : ∀ x ∈ w.map Prod.fst, s.count x = 1 := fun x hx =>
      Nat.le_antisymm (hle x hx) (Nat.le_trans (count_pos_iff.mpr hx) (hs x))
    have hnodup : (w.map Prod.fst).Nodup := by
      refine nodup_iff_count_le_one.mpr fun x => ?_
      by_cases hx : x ∈ w.map Prod.fst
      · exact Nat.le_trans (hs x) (hle x hx)
      · rw [count_eq_zero_of_not_mem hx]
        exact Nat.zero_le 1
    have hnodup' : (s.filter (· ∈ w.map Prod.fst)).Nodup := by
      refine nodup_iff_count_le_one.mpr fun x => ?_
      by_cases hx : x ∈ w.map Prod.fst
      · exact Nat.le_trans (filter_sublist.count_le x) (hle x hx)
      · rw [count_eq_zero_of_not_mem (fun hmem => hx (by simpa using (mem_filter.mp hmem).2))]
        exact Nat.zero_le 1
    -- the two lists have the same length, so the beginning is all of it
    have heq : recount (expand w) s = expand w :=
      h.eq_of_length (recount_perm_expand hw hone).length_eq
    refine ⟨hnodup, ?_⟩
    calc s.filter (· ∈ w.map Prod.fst)
        = (recount (expand w) s).dedup := (dedup_recount hw hnodup').symm
      _ = (expand w).dedup := by rw [heq]
      _ = w.map Prod.fst := dedup_expand hw hnodup
  · rintro ⟨hnodup, horder⟩
    have heq : recount (expand w) s = expand w := by
      rw [← recount_filter, filter_mem_expand hw, horder, recount_expand hnodup]
    exact heq.symm ▸ prefix_rfl

end List
