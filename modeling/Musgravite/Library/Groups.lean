import Mathlib.Data.List.Induction
import Mathlib.Data.List.Nodup

/-! # Lists cut into groups

A list is cut into groups by a key: the keys are collected in order of first
occurrence, and each key selects its group.  A loop that appends a key unless it has
it already collects `eraseDups` (`foldl_append_unless_contains`), whose order is that
of first occurrence (`pairwise_eraseDups`).  `flatMap_filter_perm` says that the
groups hold the list, each element as often as the list does. -/
namespace List
variable {α κ : Type*}

section Keys
variable [DecidableEq κ]

theorem eraseDups_concat (l : List κ) (k : κ) :
    (l ++ [k]).eraseDups = if k ∈ l then l.eraseDups else l.eraseDups ++ [k] := by
  rw [eraseDups_append]
  by_cases h : k ∈ l <;> simp [removeAll, eraseDups_cons, h]

/-- The loop that collects the keys it does not have yet. -/
theorem foldl_append_unless_contains (key : α → κ) (l : List α) :
    l.foldl (fun keys a => if !keys.contains (key a) then keys ++ [key a] else keys) [] =
      (l.map key).eraseDups := by
  induction l using List.reverseRecOn with
  | nil => rfl
  | append_singleton l a ih =>
    rw [foldl_append, ih, foldl_cons, foldl_nil, map_append, map_singleton, eraseDups_concat]
    by_cases h : key a ∈ l.map key
    · rw [if_pos h, if_neg (by simpa using h)]
    · rw [if_neg h, if_pos (by simpa using h)]

/-- **The order of first occurrence.** -/
theorem pairwise_eraseDups (l : List κ) :
    l.eraseDups.Pairwise fun k k' => l.idxOf k < l.idxOf k' := by
  induction l using List.reverseRecOn with
  | nil => exact Pairwise.nil
  | append_singleton l k ih =>
    -- what has occurred keeps its place
    have hold : l.eraseDups.Pairwise fun x y => (l ++ [k]).idxOf x < (l ++ [k]).idxOf y := by
      refine ih.imp_of_mem fun hx hy hlt => ?_
      rw [idxOf_append_of_mem (mem_eraseDups.mp hx), idxOf_append_of_mem (mem_eraseDups.mp hy)]
      exact hlt
    rw [eraseDups_concat]
    split
    · exact hold
    · rename_i hk
      refine pairwise_append.mpr ⟨hold, pairwise_singleton _ _, fun x hx y hy => ?_⟩
      obtain rfl := mem_singleton.mp hy
      have hx := mem_eraseDups.mp hx
      rw [idxOf_append_of_mem hx, idxOf_append_of_notMem hk]
      have := idxOf_lt_length_iff.mpr hx
      omega

theorem nodup_eraseDups (l : List κ) : l.eraseDups.Nodup :=
  (pairwise_eraseDups l).imp fun hlt he => by
    subst he
    exact absurd hlt (Nat.lt_irrefl _)

end Keys

section Groups
variable [BEq κ] [LawfulBEq κ] (key : α → κ)

/-- **The groups hold the list**, for any keys that each occur once and are all there. -/
theorem flatMap_filter_perm {keys : List κ} (hkeys : keys.Nodup) {l : List α}
    (hl : ∀ a ∈ l, key a ∈ keys) :
    (keys.flatMap fun k => l.filter fun a => key a == k).Perm l := by
  induction keys generalizing l with
  | nil =>
    obtain rfl : l = [] := eq_nil_iff_forall_not_mem.mpr fun a ha => nomatch hl a ha
    rfl
  | cons k keys ih =>
    obtain ⟨hk, hkeys⟩ := nodup_cons.mp hkeys
    have hrest : ∀ a ∈ l.filter (fun a => !(key a == k)), key a ∈ keys := by
      intro a ha
      obtain ⟨ha, hne⟩ := mem_filter.mp ha
      exact (mem_cons.mp (hl a ha)).resolve_left (by simpa using hne)
    -- the later groups do not see the first one
    have hgroups : ∀ k' ∈ keys, (l.filter fun a => key a == k') =
        (l.filter fun a => !(key a == k)).filter fun a => key a == k' := by
      intro k' hk'
      have hne : k' ≠ k := by
        rintro rfl
        exact hk hk'
      rw [filter_filter]
      refine filter_congr fun a _ => ?_
      by_cases ha : key a = k' <;> simp [ha, hne]
    rw [flatMap_cons, flatMap_congr hgroups]
    exact ((ih hkeys hrest).append_left _).trans (filter_append_perm _ l)

/-- An element is in the group of its key and in no other. -/
theorem mem_filter_key_iff {l : List α} {a : α} {k : κ} :
    (a ∈ l.filter fun a => key a == k) ↔ a ∈ l ∧ k = key a := by
  rw [mem_filter, beq_iff_eq, eq_comm]

end Groups

end List
