import Mathlib.Data.List.Infix

/-! # Splitting a list at a separator, and joining it again

Lean has `List.splitOn` and `List.intercalate` and shows that each undoes the other.
What is added here is what the parts look like: none of them contains the
separator, all of them come from the list, and joining goes part by part. -/
namespace List
variable {α : Type*} [DecidableEq α] {a : α}

/-- What is between two separators contains none. -/
theorem notMem_of_mem_splitOn {xs l : List α} (h : l ∈ xs.splitOn a) : a ∉ l := by
  induction xs generalizing l with
  | nil =>
    rw [splitOn_nil, mem_singleton] at h
    simp [h]
  | cons x xs ih =>
    rw [splitOn_cons_eq_if_modifyHead] at h
    split at h
    · rcases mem_cons.mp h with rfl | h
      · exact not_mem_nil
      · exact ih h
    · rename_i hx
      obtain ⟨hd, tl, htl⟩ := exists_cons_of_ne_nil (splitOn_ne_nil a xs)
      rw [htl] at h ih
      rcases mem_cons.mp h with rfl | h
      · simp only [mem_cons, not_or]
        exact ⟨fun he => hx (by simp [he]), ih mem_cons_self⟩
      · exact ih (mem_cons_of_mem _ h)

/-- What is between two separators was there before. -/
theorem mem_of_mem_splitOn {xs l : List α} {x : α} (h : l ∈ xs.splitOn a) (hx : x ∈ l) :
    x ∈ xs := by
  have hjoin : [a].intercalate (xs.splitOn a) = xs := intercalate_splitOn a
  rw [← hjoin]
  generalize xs.splitOn a = ls at h
  induction ls with
  | nil => cases h
  | cons k ls ih =>
    cases ls with
    | nil =>
      obtain rfl := mem_singleton.mp h
      rwa [intercalate_singleton]
    | cons m ls =>
      rw [intercalate_cons_cons]
      rcases mem_cons.mp h with rfl | h
      · simp [hx]
      · simp [ih h]

omit [DecidableEq α] in
theorem intercalate_append (a : α) {xs ys : List (List α)} (hx : xs ≠ []) (hy : ys ≠ []) :
    [a].intercalate (xs ++ ys) = [a].intercalate xs ++ a :: [a].intercalate ys := by
  obtain ⟨y, ys, rfl⟩ := exists_cons_of_ne_nil hy
  induction xs with
  | nil => exact absurd rfl hx
  | cons x xs ih =>
    cases xs with
    | nil => simp [intercalate_cons_cons]
    | cons x' xs =>
      have hrest := ih (cons_ne_nil _ _)
      rw [cons_append] at hrest
      rw [cons_append, cons_append, intercalate_cons_cons, hrest,
        intercalate_cons_cons]
      simp

end List
