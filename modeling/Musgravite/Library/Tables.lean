import Mathlib.Data.List.Lex
import Mathlib.Data.List.Sort
import Mathlib.Order.Basic

/-! # Tables in the order of their keys

A table holds its rows in the order of their keys, at most one row for a key; the order
is a field of the structure.  Looking a key up, putting a row and erasing one do not depend
on the order (`get_put`, `get_erase`, and `ext`: a table is what its lookups say).

An iterator is the list of the rows from its position on.  `seek` moves it to the first
row whose key is not before the one sought, and `scan` goes on from there for as long as the
keys have some prefix.  On keys in order both are filters (`seek_eq_filter`, `scan_eq_filter`). -/

namespace List
variable {α : Type*} {r : α → α → Prop} {p : α → Bool}

/-- On a list in order, what comes before the first element without `p` is all that has `p`,
if `p` is closed downwards. -/
theorem Pairwise.takeWhile_eq_filter {l : List α} (hl : l.Pairwise r)
    (hp : ∀ a ∈ l, ∀ b ∈ l, r a b → p b → p a) : l.takeWhile p = l.filter p := by
  induction hl with
  | nil => rfl
  | @cons a l ha _ ih =>
    by_cases h : p a
    · rw [takeWhile_cons_of_pos h, filter_cons_of_pos h,
        ih fun b hb c hc => hp b (mem_cons_of_mem a hb) c (mem_cons_of_mem a hc)]
    · have hnone : l.filter p = [] := by
        refine filter_eq_nil_iff.mpr fun b hb hpb => h ?_
        exact hp a mem_cons_self b (mem_cons_of_mem a hb) (ha b hb) hpb
      rw [takeWhile_cons_of_neg h, filter_cons_of_neg h, hnone]

theorem Pairwise.dropWhile_eq_filter {l : List α} (hl : l.Pairwise r)
    (hp : ∀ a ∈ l, ∀ b ∈ l, r a b → p b → p a) : l.dropWhile p = l.filter fun a => !p a := by
  induction hl with
  | nil => rfl
  | @cons a l ha _ ih =>
    by_cases h : p a
    · rw [dropWhile_cons_of_pos h, filter_cons_of_neg (by simpa using h),
        ih fun b hb c hc => hp b (mem_cons_of_mem a hb) c (mem_cons_of_mem a hc)]
    · have hall : l.filter (fun a => !p a) = l := by
        refine filter_eq_self.mpr fun b hb => ?_
        rw [Bool.not_eq_true']
        exact Bool.eq_false_iff.mpr fun hpb =>
          h (hp a mem_cons_self b (mem_cons_of_mem a hb) (ha b hb) hpb)
      rw [dropWhile_cons_of_neg h, filter_cons_of_pos (by simpa using h), hall]

/-- Lists in order have beginnings in order. -/
theorem take_le_take_left {β : Type*} [LinearOrder β] {l m : List β} (h : l ≤ m) (n : ℕ) :
    l.take n ≤ m.take n := by
  rw [← not_lt] at h ⊢
  induction n generalizing l m with
  | zero => simp
  | succ n ih =>
    match l, m with
    | [], m => simp
    | a :: l, [] => exact absurd h (by simp)
    | a :: l, b :: m =>
      rw [take_succ_cons, take_succ_cons, cons_lt_cons_iff]
      rw [cons_lt_cons_iff] at h
      rintro (hba | ⟨rfl, hml⟩)
      · exact h (Or.inl hba)
      · exact ih (fun hlt => h (Or.inr ⟨rfl, hlt⟩)) hml

end List

/-- Rows in the order of their keys, at most one for each key. -/
structure Table (κ α : Type*) [LT κ] where
  rows : List (κ × α)
  sorted : rows.Pairwise fun row row' => row.1 < row'.1

namespace Table
variable {κ α : Type*} [LinearOrder κ]

/-- The rows with another one put in its place, instead of the row with the same key. -/
def putRow (k : κ) (a : α) : List (κ × α) → List (κ × α)
  | [] => [(k, a)]
  | row :: rows =>
    if k < row.1 then (k, a) :: row :: rows
    else if row.1 < k then row :: putRow k a rows
    else (k, a) :: rows

theorem mem_putRow {k : κ} {a : α} {rows : List (κ × α)}
    (h : rows.Pairwise fun row row' => row.1 < row'.1) {row : κ × α} :
    row ∈ putRow k a rows ↔ row = (k, a) ∨ row ∈ rows ∧ row.1 ≠ k := by
  induction h with
  | nil => simp [putRow]
  | @cons first rows hfirst _ ih =>
    rw [putRow]
    split
    · rename_i hlt
      have hne : ∀ row ∈ first :: rows, row.1 ≠ k := by
        intro row hrow
        rcases List.mem_cons.mp hrow with rfl | hrow
        · exact hlt.ne'
        · exact (hlt.trans (hfirst row hrow)).ne'
      rw [List.mem_cons]
      exact or_congr_right ⟨fun hrow => ⟨hrow, hne row hrow⟩, And.left⟩
    · split
      · rename_i hlt
        rw [List.mem_cons, ih, List.mem_cons]
        constructor
        · rintro (rfl | hrow | ⟨hrow, hne⟩)
          · exact Or.inr ⟨Or.inl rfl, hlt.ne⟩
          · exact Or.inl hrow
          · exact Or.inr ⟨Or.inr hrow, hne⟩
        · rintro (hrow | ⟨rfl | hrow, hne⟩)
          · exact Or.inr (Or.inl hrow)
          · exact Or.inl rfl
          · exact Or.inr (Or.inr ⟨hrow, hne⟩)
      · rename_i hle hge
        obtain rfl : first.1 = k := le_antisymm (not_lt.mp hle) (not_lt.mp hge)
        rw [List.mem_cons, List.mem_cons]
        constructor
        · rintro (hrow | hrow)
          · exact Or.inl hrow
          · exact Or.inr ⟨Or.inr hrow, (hfirst row hrow).ne'⟩
        · rintro (hrow | ⟨rfl | hrow, hne⟩)
          · exact Or.inl hrow
          · exact absurd rfl hne
          · exact Or.inr hrow

theorem sorted_putRow (k : κ) (a : α) {rows : List (κ × α)}
    (h : rows.Pairwise fun row row' => row.1 < row'.1) :
    (putRow k a rows).Pairwise fun row row' => row.1 < row'.1 := by
  induction h with
  | nil => simp [putRow]
  | @cons first rows hfirst hrows ih =>
    rw [putRow]
    split
    · rename_i hlt
      refine List.pairwise_cons.mpr ⟨fun row hrow => ?_, List.pairwise_cons.mpr ⟨hfirst, hrows⟩⟩
      rcases List.mem_cons.mp hrow with rfl | hrow
      · exact hlt
      · exact hlt.trans (hfirst row hrow)
    · split
      · rename_i hlt
        refine List.pairwise_cons.mpr ⟨fun row hrow => ?_, ih⟩
        rcases (mem_putRow hrows).mp hrow with rfl | ⟨hrow, -⟩
        · exact hlt
        · exact hfirst row hrow
      · rename_i hle hge
        obtain rfl : first.1 = k := le_antisymm (not_lt.mp hle) (not_lt.mp hge)
        exact List.pairwise_cons.mpr ⟨hfirst, hrows⟩

/-- The table without rows. -/
def empty : Table κ α := ⟨[], List.Pairwise.nil⟩

instance : Inhabited (Table κ α) := ⟨empty⟩

/-- What the row with key `k` holds. -/
def get (t : Table κ α) (k : κ) : Option α := (t.rows.find? fun row => row.1 = k).map Prod.snd

/-- Puts a row, in the place of the one with the same key. -/
def put (t : Table κ α) (k : κ) (a : α) : Table κ α :=
  ⟨putRow k a t.rows, sorted_putRow k a t.sorted⟩

/-- Erases the row with key `k`. -/
def erase (t : Table κ α) (k : κ) : Table κ α :=
  ⟨t.rows.filter fun row => row.1 ≠ k, t.sorted.filter _⟩

variable {t u : Table κ α} {k l : κ} {a b : α}

theorem key_injective {row row' : κ × α} (h : row ∈ t.rows) (h' : row' ∈ t.rows)
    (hk : row.1 = row'.1) : row = row' := by
  have hnodup : (t.rows.map Prod.fst).Nodup := List.pairwise_map.mpr (t.sorted.imp ne_of_lt)
  exact List.inj_on_of_nodup_map hnodup h h' hk

theorem get_eq_some : t.get k = some a ↔ (k, a) ∈ t.rows := by
  rw [get, Option.map_eq_some_iff]
  constructor
  · rintro ⟨row, hrow, rfl⟩
    obtain rfl : row.1 = k := by simpa using List.find?_some hrow
    exact List.mem_of_find?_eq_some hrow
  · intro h
    cases hfind : t.rows.find? fun row => row.1 = k with
    | none =>
      have hnot := List.find?_eq_none.mp hfind _ h
      simp at hnot
    | some row =>
      have hk : row.1 = k := by simpa using List.find?_some hfind
      exact ⟨row, rfl, congrArg Prod.snd (key_injective (List.mem_of_find?_eq_some hfind) h hk)⟩

theorem get_eq_none : t.get k = none ↔ ∀ row ∈ t.rows, row.1 ≠ k := by
  rw [Option.eq_none_iff_forall_ne_some]
  constructor
  · rintro h row hrow rfl
    exact h row.2 (get_eq_some.mpr hrow)
  · exact fun h a ha => h _ (get_eq_some.mp ha) rfl

/-- **A table is what its lookups say.** -/
theorem ext (h : ∀ k, t.get k = u.get k) : t = u := by
  obtain ⟨rows, hrows⟩ := t
  obtain ⟨rows', hrows'⟩ := u
  congr 1
  have : Std.Irrefl fun row row' : κ × α => row.1 < row'.1 := ⟨fun row => lt_irrefl row.1⟩
  refine hrows.eq_of_mem_iff hrows' fun row => ?_
  have hiff := (congrArg (· = some row.2) (h row.1)).to_iff
  exact get_eq_some.symm.trans (hiff.trans get_eq_some)

instance [DecidableEq α] : DecidableEq (Table κ α) := fun t u =>
  decidable_of_iff (t.rows = u.rows)
    ⟨fun h => ext fun k => by rw [get, get, h], congrArg rows⟩

@[simp] theorem get_empty (k : κ) : (empty : Table κ α).get k = none := rfl

theorem mem_rows_put {row : κ × α} :
    row ∈ (t.put k a).rows ↔ row = (k, a) ∨ row ∈ t.rows ∧ row.1 ≠ k :=
  mem_putRow t.sorted

theorem mem_rows_erase {row : κ × α} : row ∈ (t.erase k).rows ↔ row ∈ t.rows ∧ row.1 ≠ k := by
  simp [erase]

theorem get_put : (t.put k a).get l = if l = k then some a else t.get l := by
  refine Option.ext fun b => ?_
  rw [get_eq_some, mem_rows_put]
  split
  · rename_i h
    subst h
    simp [eq_comm]
  · rename_i h
    simp [h, get_eq_some]

@[simp] theorem get_put_self (t : Table κ α) (k : κ) (a : α) : (t.put k a).get k = some a := by
  rw [get_put, if_pos rfl]

theorem get_put_of_ne (t : Table κ α) (a : α) (h : l ≠ k) : (t.put k a).get l = t.get l := by
  rw [get_put, if_neg h]

theorem get_erase : (t.erase k).get l = if l = k then none else t.get l := by
  refine Option.ext fun b => ?_
  rw [get_eq_some, mem_rows_erase]
  split
  · rename_i h
    simp [h]
  · rename_i h
    simp [h, get_eq_some]

theorem erase_of_get_eq_none (h : t.get k = none) : t.erase k = t := by
  refine ext fun l => ?_
  rw [get_erase]
  split
  · rename_i hl
    rw [hl, h]
  · rfl

/-- Rows that are put into a table one after the other, each with its own key. -/
theorem get_foldl_put {rows : List (κ × α)} (h : rows.Pairwise fun row row' => row.1 < row'.1)
    (t : Table κ α) (k : κ) (a : α) :
    (rows.foldl (fun t row => t.put row.1 row.2) t).get k = some a ↔
      (k, a) ∈ rows ∨ (∀ row ∈ rows, row.1 ≠ k) ∧ t.get k = some a := by
  induction h generalizing t with
  | nil => simp
  | @cons first rows hfirst _ ih =>
    rw [List.foldl_cons, ih, get_put, List.mem_cons, List.forall_mem_cons]
    by_cases hk : k = first.1
    · subst hk
      have hnot : (first.1, a) ∉ rows := fun hmem => (hfirst _ hmem).false
      have hnone : ∀ row ∈ rows, row.1 ≠ first.1 := fun row hrow => (hfirst row hrow).ne'
      constructor
      · rintro (hmem | ⟨-, ha⟩)
        · exact absurd hmem hnot
        · rw [if_pos rfl] at ha
          exact Or.inl (Or.inl (Prod.ext rfl (Option.some.inj ha).symm))
      · rintro ((ha | hmem) | ⟨⟨hne, -⟩, -⟩)
        · exact Or.inr ⟨hnone, (if_pos rfl).trans (congrArg (some ·.2) ha.symm)⟩
        · exact absurd hmem hnot
        · exact absurd rfl hne
    · rw [if_neg hk]
      have hne : (k, a) ≠ first := fun he => hk (congrArg Prod.fst he)
      simp only [hne, false_or, Ne.symm hk, ne_eq, not_false_iff, true_and]

/-- Rows that are put into a table, where what is put is a function of the key. -/
theorem get_foldl_put_keys (f : κ → α) (ks : List κ) (t : Table κ α) (k : κ) :
    (k ∈ ks → (ks.foldl (fun t k => t.put k (f k)) t).get k = some (f k)) ∧
      (k ∉ ks → (ks.foldl (fun t k => t.put k (f k)) t).get k = t.get k) := by
  induction ks generalizing t with
  | nil => exact ⟨fun h => absurd h List.not_mem_nil, fun _ => rfl⟩
  | cons l ks ih =>
    obtain ⟨hmem, hnot⟩ := ih (t.put l (f l))
    rw [List.foldl_cons, List.mem_cons, not_or]
    refine ⟨fun h => ?_, fun h => (hnot h.2).trans (get_put_of_ne t (f l) h.1)⟩
    by_cases hk : k ∈ ks
    · exact hmem hk
    · obtain rfl : k = l := h.resolve_right hk
      exact (hnot hk).trans (get_put_self t k (f k))

/-- The rows that do not have a property, erased one after the other. -/
theorem get_foldl_erase (p : κ → α → Bool) (t : Table κ α) (k : κ) :
    (t.rows.foldl (fun u row => if p row.1 row.2 then u else u.erase row.1) t).get k =
      (t.get k).filter (p k) := by
  have hfold : ∀ (rows : List (κ × α)) (u : Table κ α),
      (rows.foldl (fun u row => if p row.1 row.2 then u else u.erase row.1) u).get k =
        if rows.any fun row => row.1 = k && !p row.1 row.2 then none else u.get k := by
    intro rows
    induction rows with
    | nil => exact fun u => rfl
    | cons row rows ih =>
      intro u
      rw [List.foldl_cons, ih, List.any_cons]
      by_cases hp : p row.1 row.2 = true
      · simp only [hp, if_true, Bool.not_true, Bool.and_false, Bool.false_or]
      · rw [Bool.not_eq_true] at hp
        rw [hp, if_neg Bool.false_ne_true, get_erase]
        by_cases hk : row.1 = k
        · simp [hk]
        · rw [if_neg (Ne.symm hk), decide_eq_false hk, Bool.false_and, Bool.false_or]
  have hany : (t.rows.any fun row => row.1 = k && !p row.1 row.2) =
      (t.get k).any fun a => !p k a := by
    rw [Bool.eq_iff_iff, List.any_eq_true, Option.any_eq_true]
    constructor
    · rintro ⟨⟨l, a⟩, hrow, hp⟩
      obtain ⟨hl, hpa⟩ := Bool.and_eq_true_iff.mp hp
      obtain rfl : l = k := of_decide_eq_true hl
      exact ⟨a, get_eq_some.mpr hrow, hpa⟩
    · rintro ⟨a, ha, hp⟩
      exact ⟨(k, a), get_eq_some.mp ha, by simpa using hp⟩
  rw [hfold, hany]
  cases t.get k with
  | none => rfl
  | some a =>
    rw [Option.any_some]
    cases hp : p k a with
    | true => exact (Option.filter_some_pos hp).symm
    | false => exact (Option.filter_some_neg hp).symm

/-! ### The keys of a table

A set is a table whose rows hold nothing. -/

def keys (t : Table κ α) : List κ := t.rows.map Prod.fst

theorem mem_keys : k ∈ t.keys ↔ ∃ a, t.get k = some a := by
  simp only [keys, List.mem_map, get_eq_some]
  constructor
  · rintro ⟨row, hrow, rfl⟩
    exact ⟨row.2, hrow⟩
  · rintro ⟨a, h⟩
    exact ⟨_, h, rfl⟩

theorem pairwise_keys (t : Table κ α) : t.keys.Pairwise (· < ·) := List.pairwise_map.mpr t.sorted

@[simp] theorem mem_keys_put : l ∈ (t.put k a).keys ↔ l = k ∨ l ∈ t.keys := by
  rw [mem_keys, mem_keys, get_put]
  by_cases h : l = k <;> simp [h]

@[simp] theorem not_mem_keys_empty (k : κ) : k ∉ (empty : Table κ α).keys := List.not_mem_nil

theorem mem_keys_foldl_put {ks : List κ} {s : Table κ Unit} :
    k ∈ (ks.foldl (fun s k => s.put k ()) s).keys ↔ k ∈ s.keys ∨ k ∈ ks := by
  induction ks generalizing s with
  | nil => simp
  | cons l ks ih =>
    rw [List.foldl_cons, ih, mem_keys_put, List.mem_cons]
    tauto

@[simp] theorem mem_keys_erase : l ∈ (t.erase k).keys ↔ l ∈ t.keys ∧ l ≠ k := by
  rw [mem_keys, mem_keys, get_erase]
  by_cases h : l = k <;> simp [h]

theorem mem_keys_foldl_erase {ks : List κ} {s : Table κ α} :
    k ∈ (ks.foldl (fun s k => s.erase k) s).keys ↔ k ∈ s.keys ∧ k ∉ ks := by
  induction ks generalizing s with
  | nil => simp
  | cons l ks ih =>
    rw [List.foldl_cons, ih, mem_keys_erase, List.mem_cons, not_or, and_assoc]

theorem mem_keys_unit {s : Table κ Unit} : k ∈ s.keys ↔ s.get k = some () := by
  rw [mem_keys]
  exact ⟨fun ⟨_, h⟩ => h, fun h => ⟨(), h⟩⟩

/-- Keys in order with the same members are the keys of the table. -/
theorem eq_keys {ks : List κ} (hsorted : ks.Pairwise (· < ·)) (h : ∀ k, k ∈ ks ↔ k ∈ t.keys) :
    ks = t.keys :=
  hsorted.eq_of_mem_iff t.pairwise_keys h

/-! ### Iterators -/

/-- The rows from the first one on whose key is not before the one sought. -/
def seek (t : Table κ α) (before : κ → Bool) : List (κ × α) :=
  t.rows.dropWhile fun row => before row.1

theorem seek_sorted (t : Table κ α) (before : κ → Bool) :
    (t.seek before).Pairwise fun row row' => row.1 < row'.1 :=
  t.sorted.sublist (List.dropWhile_suffix _).sublist

/-- If keys in order have prefixes in order, the keys with a prefix before `b` come first. -/
theorem before_of_lt {β : Type*} [LinearOrder β] {keyPrefix : κ → β}
    (h : ∀ k l, k < l → keyPrefix k ≤ keyPrefix l) (b : β) (k l : κ) (hlt : k < l)
    (hl : decide (keyPrefix l < b)) : decide (keyPrefix k < b) :=
  decide_eq_true ((h k l hlt).trans_lt (of_decide_eq_true hl))

theorem key_before_of_lt (m k l : κ) : k < l → decide (l < m) → decide (k < m) :=
  before_of_lt (fun _ _ => le_of_lt) m k l

theorem seek_eq_filter {before : κ → Bool} (h : ∀ k l, k < l → before l → before k) :
    t.seek before = t.rows.filter fun row => !before row.1 :=
  t.sorted.dropWhile_eq_filter fun _ _ _ _ hlt => h _ _ hlt

theorem mem_seek {before : κ → Bool} (h : ∀ k l, k < l → before l → before k) {row : κ × α} :
    row ∈ t.seek before ↔ row ∈ t.rows ∧ before row.1 = false := by
  rw [seek_eq_filter h, List.mem_filter, Bool.not_eq_true']

/-- The row of a key is where a search for that key stops. -/
theorem seek_of_get_eq_some (h : t.get k = some a) :
    ∃ rows, (t.seek fun l => l < k) = (k, a) :: rows := by
  have hlower := key_before_of_lt k
  have hmem : (k, a) ∈ t.seek fun l => l < k :=
    (mem_seek hlower).mpr ⟨get_eq_some.mp h, decide_eq_false (lt_irrefl k)⟩
  cases hseek : t.seek fun l => l < k with
  | nil => exact absurd (hseek ▸ hmem) List.not_mem_nil
  | cons first rows =>
    have hsorted := hseek ▸ t.seek_sorted fun l => l < k
    rw [hseek] at hmem
    rcases List.mem_cons.mp hmem with rfl | hmem
    · exact ⟨rows, rfl⟩
    · -- a row before that of `k` would not have been passed over
      have hfirst : first ∈ t.seek fun l => l < k := hseek ▸ List.mem_cons_self
      exact absurd ((List.pairwise_cons.mp hsorted).1 _ hmem)
        (of_decide_eq_false ((mem_seek hlower).mp hfirst).2)

theorem get_of_seek_eq_cons {row : κ × α} {rows : List (κ × α)}
    (h : (t.seek fun l => l < k) = row :: rows) (hk : row.1 = k) : t.get k = some row.2 := by
  have hmem : row ∈ t.seek fun l => l < k := h ▸ List.mem_cons_self
  subst hk
  exact get_eq_some.mpr (List.IsSuffix.subset (List.dropWhile_suffix _) hmem)

/-- The rows from the first one on whose key does not have its prefix before `b`, for as long as
the prefix is `b`. -/
def scan {β : Type*} [LinearOrder β] (t : Table κ α) (keyPrefix : κ → β) (b : β) : List (κ × α) :=
  (t.seek fun k => keyPrefix k < b).takeWhile fun row => keyPrefix row.1 = b

/-- **A scan finds all rows with the prefix**, if keys in order have prefixes in order. -/
theorem scan_eq_filter {β : Type*} [LinearOrder β] {keyPrefix : κ → β}
    (h : ∀ k l, k < l → keyPrefix k ≤ keyPrefix l) (t : Table κ α) (b : β) :
    t.scan keyPrefix b = t.rows.filter fun row => keyPrefix row.1 = b := by
  rw [scan, seek_eq_filter (before_of_lt h b), (t.sorted.filter _).takeWhile_eq_filter,
    List.filter_filter]
  · refine List.filter_congr fun row _ => ?_
    by_cases hrow : keyPrefix row.1 = b <;> simp [hrow]
  · intro row hrow row' _ hlt hrow'
    have hle : keyPrefix row.1 ≤ b := of_decide_eq_true hrow' ▸ h _ _ hlt
    have hge : b ≤ keyPrefix row.1 := by simpa using (List.mem_filter.mp hrow).2
    exact decide_eq_true (le_antisymm hle hge)

end Table
