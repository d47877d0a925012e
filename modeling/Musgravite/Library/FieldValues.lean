import Mathlib.Algebra.Group.Int.Defs
import Mathlib.Algebra.Group.Nat.Defs
import Mathlib.Data.List.AList
import Mathlib.Data.List.Count
import Mathlib.Data.List.Infix

/-! # Values of a schemaless document store

A document is a finite map from field names to values; a value is a scalar, a
reference to another document, an array or a nested map.  Nothing types a field:
the reader casts what it finds, and a forced cast of the wrong kind of value
traps.  The casts are therefore partial functions here, `none` being the trap.

The second half is the arithmetic of array updates: `arrayUnion` adds at the end
each element that is not there yet, `arrayRemove` drops every occurrence, and
both take a missing or non-array field for the empty array.  The store compares numbers by
what they are, so an integer is there already if a double equal to it is; among elements
that are no numbers, or are all written in one way (`OneForm`), this is equality. -/

/-- A document's location: the collection it belongs to and its identifier. -/
structure DocumentReference where
  collection : String
  documentID : String
deriving DecidableEq, Repr

/-- A text that can be the identifier of a document: one segment of a path. -/
def IsDocumentID (id : String) : Prop := id.toList ≠ [] ∧ '/' ∉ id.toList

instance (id : String) : Decidable (IsDocumentID id) := inferInstanceAs (Decidable (_ ∧ _))

/-- A point in time, as stored. -/
structure Timestamp where
  seconds : Int
  nanoseconds : Nat
deriving DecidableEq, Repr

/-- A stored floating-point number, as its IEEE 754 bits. -/
structure Double where
  bits : BitVec 64
deriving DecidableEq, Repr

/-- The double is no number. -/
def Double.isNaN (d : Double) : Bool :=
  d.bits.toNat / 2 ^ 52 % 2 ^ 11 = 2047 && d.bits.toNat % 2 ^ 52 ≠ 0

def Double.canonicalNaN : Double := ⟨0x7ff8000000000000#64⟩

/-- There is one NaN for all. -/
def Double.canonical (d : Double) : Double := if d.isNaN then canonicalNaN else d

theorem Double.canonical_eq_iff {d : Double} :
    d.canonical = d ↔ (d.isNaN → d = canonicalNaN) := by
  unfold canonical
  split
  · rename_i h
    exact ⟨fun heq _ => heq.symm, fun heq => (heq h).symm⟩
  · rename_i h
    exact iff_of_true rfl fun hnan => absurd hnan h

/-- A latitude or a longitude: a finite number.  Places are compared by their numbers, so a
zero has no sign here. -/
structure Coordinate where
  value : Double
  finite : value.bits.toNat / 2 ^ 52 % 2 ^ 11 ≠ 2047
  unsigned : value.bits ≠ 0x8000000000000000#64
deriving DecidableEq

/-- The 64-bit integer a double is exactly equal to, if there is one. -/
def Double.exactInt (d : Double) : Option Int :=
  let exponent := d.bits.toNat / 2 ^ 52 % 2 ^ 11
  let fraction := d.bits.toNat % 2 ^ 52
  let mantissa := if exponent = 0 then fraction else fraction + 2 ^ 52
  -- the value is `mantissa * 2 ^ (scale - 1075)`
  let scale := max exponent 1
  let magnitude : Option Nat :=
    if exponent = 2047 then none
    else if 1075 ≤ scale then some (mantissa * 2 ^ (scale - 1075))
    else if mantissa % 2 ^ (1075 - scale) = 0 then some (mantissa / 2 ^ (1075 - scale))
    else none
  (magnitude.map fun m => if d.bits.msb then -(m : Int) else m).filter
    fun v => decide (-2 ^ 63 ≤ v ∧ v < 2 ^ 63)

/-- The value of a field.  The entries of a map stand in the order of their names. -/
inductive FieldValue
  | null
  | boolean (b : Bool)
  | integer (i : Int)
  | double (d : Double)
  | timestamp (t : Timestamp)
  | string (s : String)
  | bytes (b : List UInt8)
  | reference (r : DocumentReference)
  | geoPoint (latitude longitude : Coordinate)
  | array (vs : List FieldValue)
  | map (kvs : List (String × FieldValue))

namespace FieldValue

/-! ### Equality of values is decidable -/

mutual

def beq : FieldValue → FieldValue → Bool
  | null, null => true
  | boolean a, boolean b => a == b
  | integer a, integer b => a == b
  | double a, double b => a == b
  | timestamp a, timestamp b => a == b
  | string a, string b => a == b
  | bytes a, bytes b => a == b
  | reference a, reference b => a == b
  | geoPoint a c, geoPoint b d => a == b && c == d
  | array as, array bs => beqArray as bs
  | map as, map bs => beqMap as bs
  | _, _ => false

def beqArray : List FieldValue → List FieldValue → Bool
  | [], [] => true
  | a :: as, b :: bs => beq a b && beqArray as bs
  | _, _ => false

def beqMap : List (String × FieldValue) → List (String × FieldValue) → Bool
  | [], [] => true
  | (k, a) :: as, (l, b) :: bs => k == l && beq a b && beqMap as bs
  | _, _ => false

end

mutual

theorem beq_iff : ∀ a b : FieldValue, beq a b = true ↔ a = b
  | a, b => by
    cases a <;> cases b <;> simp [beq]
    case array.array as bs => exact beqArray_iff as bs
    case map.map as bs => exact beqMap_iff as bs

theorem beqArray_iff : ∀ as bs : List FieldValue, beqArray as bs = true ↔ as = bs
  | [], [] => by simp [beqArray]
  | [], _ :: _ => by simp [beqArray]
  | _ :: _, [] => by simp [beqArray]
  | a :: as, b :: bs => by simp [beqArray, beq_iff a b, beqArray_iff as bs]

theorem beqMap_iff : ∀ as bs : List (String × FieldValue), beqMap as bs = true ↔ as = bs
  | [], [] => by simp [beqMap]
  | [], _ :: _ => by simp [beqMap]
  | _ :: _, [] => by simp [beqMap]
  | (k, a) :: as, (l, b) :: bs => by simp [beqMap, beq_iff a b, beqMap_iff as bs]

end

instance : DecidableEq FieldValue := fun a b => decidable_of_iff _ (beq_iff a b)

/-! ### The identifiers a value mentions -/

mutual

/-- The identifiers of all documents the value refers to. -/
def ids : FieldValue → List String
  | reference r => [r.documentID]
  | array vs => idsArray vs
  | map kvs => idsMap kvs
  | _ => []

def idsArray : List FieldValue → List String
  | [] => []
  | v :: vs => ids v ++ idsArray vs

def idsMap : List (String × FieldValue) → List String
  | [] => []
  | (_, v) :: kvs => ids v ++ idsMap kvs

end

/-! ### Forced casts -/

/-- `as! String`. -/
def asString : FieldValue → Option String
  | string s => some s
  | _ => none

/-- `as! Int`.  Booleans and doubles come out of the store as numbers too, and a
number casts to `Int` when it is exactly one. -/
def asInt : FieldValue → Option Int
  | integer i => some i
  | boolean b => some (if b then 1 else 0)
  | double d => d.exactInt
  | _ => none

/-- `as! Timestamp`. -/
def asTimestamp : FieldValue → Option Timestamp
  | timestamp t => some t
  | _ => none

/-- `as! DocumentReference`. -/
def asReference : FieldValue → Option DocumentReference
  | reference r => some r
  | _ => none

/-- `as! [T]`: every element is cast. -/
def asArray {α : Type*} (cast : FieldValue → Option α) : FieldValue → Option (List α)
  | array vs => vs.mapM cast
  | _ => none

/-- `as! [String]`. -/
def asStrings : FieldValue → Option (List String) := asArray asString

/-- `as! [DocumentReference]`. -/
def asReferences : FieldValue → Option (List DocumentReference) := asArray asReference

/-- The array of the given references. -/
def references (rs : List DocumentReference) : FieldValue := array (rs.map reference)

theorem reference_injective : Function.Injective reference := fun _ _ h => by injection h

theorem asReference_eq_some {v : FieldValue} {r : DocumentReference} :
    v.asReference = some r ↔ v = reference r := by
  cases v <;> simp [asReference]

theorem mapM_asReference_eq_some {vs : List FieldValue} {rs : List DocumentReference} :
    vs.mapM asReference = some rs ↔ vs = rs.map reference := by
  induction vs generalizing rs with
  | nil => cases rs <;> simp
  | cons v vs ih =>
    cases rs with
    | nil => simp [Option.bind_eq_some_iff]
    | cons r rs => simp [Option.bind_eq_some_iff, asReference_eq_some, ih]

/-- **The cast to a list of references accepts exactly the arrays of references.** -/
theorem asReferences_eq_some {v : FieldValue} {rs : List DocumentReference} :
    v.asReferences = some rs ↔ v = references rs := by
  cases v with
  | array vs => simp [asReferences, asArray, references, mapM_asReference_eq_some]
  | _ => simp [asReferences, asArray, references]

@[simp] theorem asReferences_references (rs : List DocumentReference) :
    (references rs).asReferences = some rs :=
  asReferences_eq_some.mpr rfl

theorem mem_ids_array {vs : List FieldValue} {v : FieldValue} (hv : v ∈ vs) {id : String}
    (hid : id ∈ v.ids) : id ∈ (array vs).ids := by
  suffices h : id ∈ idsArray vs by simpa [ids] using h
  induction vs with
  | nil => cases hv
  | cons w vs ih =>
    rcases List.mem_cons.mp hv with rfl | hv
    · exact List.mem_append_left _ hid
    · exact List.mem_append_right _ (ih hv)

/-! ### Equal numbers -/

mutual

/-- The value with each number in one form: an integer where it is one. -/
def canonical : FieldValue → FieldValue
  | double d => (d.exactInt.map integer).getD (double d.canonical)
  | array vs => array (canonicalArray vs)
  | map kvs => map (canonicalMap kvs)
  | v => v

def canonicalArray : List FieldValue → List FieldValue
  | [] => []
  | v :: vs => canonical v :: canonicalArray vs

def canonicalMap : List (String × FieldValue) → List (String × FieldValue)
  | [] => []
  | (k, v) :: kvs => (k, canonical v) :: canonicalMap kvs

end

/-- A text or a reference is written in one way only. -/
theorem eq_of_canonical_eq {v w : FieldValue}
    (hw : (∃ s, w = string s) ∨ ∃ r, w = reference r) (h : v.canonical = w.canonical) : v = w := by
  have hsame : w.canonical = w := by
    rcases hw with ⟨s, rfl⟩ | ⟨r, rfl⟩ <;> rfl
  rw [hsame] at h
  cases v with
  | double d =>
    rw [canonical] at h
    rcases hw with ⟨s, rfl⟩ | ⟨r, rfl⟩ <;> cases hd : d.exactInt <;> simp [hd] at h
  | array vs => rcases hw with ⟨s, rfl⟩ | ⟨r, rfl⟩ <;> simp [canonical] at h
  | map kvs => rcases hw with ⟨s, rfl⟩ | ⟨r, rfl⟩ <;> simp [canonical] at h
  | _ => exact h

/-- Elements of `ys` that the store takes for elements of `xs` or `ys` are these elements. -/
def OneForm (xs ys : List FieldValue) : Prop :=
  ∀ y ∈ ys, ∀ x, x ∈ xs ∨ x ∈ ys → x.canonical = y.canonical → x = y

theorem oneForm_of_forall {xs ys : List FieldValue}
    (h : ∀ y ∈ ys, (∃ s, y = string s) ∨ ∃ r, y = reference r) : OneForm xs ys :=
  fun y hy _ _ heq => eq_of_canonical_eq (h y hy) heq

/-! ### Array updates -/

/-- The elements of an array field; a field that is missing or holds something
else has none. -/
def elements : Option FieldValue → List FieldValue
  | some (array vs) => vs
  | _ => []

@[simp] theorem elements_references (rs : List DocumentReference) :
    elements (some (references rs)) = rs.map reference := rfl

end FieldValue

/-- Adds at the end the elements of `ys` that `xs` does not hold yet. -/
def List.appendMissing {α : Type*} [DecidableEq α] (xs ys : List α) : List α :=
  ys.foldl (fun acc y => if y ∈ acc then acc else acc ++ [y]) xs

/-- The same where elements with one value of `f` count as equal. -/
def List.appendMissingBy {α β : Type*} [DecidableEq β] (f : α → β) (xs ys : List α) : List α :=
  ys.foldl (fun acc y => if f y ∈ acc.map f then acc else acc ++ [y]) xs

namespace List
variable {α β : Type*} [DecidableEq α] [DecidableEq β]

theorem appendMissing_cons (xs : List α) (y : α) (ys : List α) :
    xs.appendMissing (y :: ys) = (if y ∈ xs then xs else xs ++ [y]).appendMissing ys := rfl

theorem appendMissing_singleton_of_notMem {xs : List α} {y : α} (h : y ∉ xs) :
    xs.appendMissing [y] = xs ++ [y] := by
  simp [appendMissing, h]

theorem appendMissing_singleton_of_mem {xs : List α} {y : α} (h : y ∈ xs) :
    xs.appendMissing [y] = xs := by
  simp [appendMissing, h]

theorem mem_appendMissing_singleton_iff {xs : List α} {x y : α} :
    x ∈ xs.appendMissing [y] ↔ x ∈ xs ∨ x = y := by
  by_cases h : y ∈ xs
  · rw [appendMissing_singleton_of_mem h]
    exact ⟨Or.inl, fun hx => hx.elim id fun he => he ▸ h⟩
  · rw [appendMissing_singleton_of_notMem h, mem_append, mem_singleton]

theorem appendMissing_map {f : α → β} (hf : Function.Injective f) (xs ys : List α) :
    (xs.map f).appendMissing (ys.map f) = (xs.appendMissing ys).map f := by
  induction ys generalizing xs with
  | nil => rfl
  | cons y ys ih =>
    rw [map_cons, appendMissing_cons, appendMissing_cons, ← ih]
    simp only [mem_map_of_injective hf]
    split
    · rfl
    · rw [map_append, map_singleton]

theorem appendMissing_of_forall_mem {xs ys : List α} (h : ∀ y ∈ ys, y ∈ xs) :
    xs.appendMissing ys = xs := by
  induction ys with
  | nil => rfl
  | cons y ys ih =>
    rw [appendMissing_cons, if_pos (h y mem_cons_self)]
    exact ih fun z hz => h z (mem_cons_of_mem y hz)

theorem mem_appendMissing {xs ys : List α} {x : α} :
    x ∈ xs.appendMissing ys ↔ x ∈ xs ∨ x ∈ ys := by
  induction ys generalizing xs with
  | nil => simp [appendMissing]
  | cons y ys ih =>
    rw [appendMissing_cons, ih, mem_cons]
    split
    · rename_i hy
      constructor
      · exact Or.imp_right Or.inr
      · rintro (hx | rfl | hx)
        · exact Or.inl hx
        · exact Or.inl hy
        · exact Or.inr hx
    · rw [mem_append, mem_singleton, or_assoc]

/-- Two notions of equality that agree on the elements in question. -/
theorem appendMissingBy_eq {f : α → β} {xs ys : List α}
    (h : ∀ y ∈ ys, ∀ x, x ∈ xs ∨ x ∈ ys → f x = f y → x = y) :
    xs.appendMissingBy f ys = xs.appendMissing ys := by
  induction ys generalizing xs with
  | nil => rfl
  | cons y ys ih =>
    have hmem : f y ∈ xs.map f ↔ y ∈ xs := by
      refine ⟨fun hy => ?_, mem_map_of_mem⟩
      obtain ⟨x, hx, heq⟩ := mem_map.mp hy
      exact h y mem_cons_self x (Or.inl hx) heq ▸ hx
    rw [appendMissing_cons, ← ih]
    · simp only [appendMissingBy, foldl_cons, hmem]
    · intro z hz x hx
      refine h z (mem_cons_of_mem y hz) x ?_
      rcases hx with hx | hx
      · split at hx
        · exact Or.inl hx
        · rcases mem_append.mp hx with hx | hx
          · exact Or.inl hx
          · exact Or.inr (mem_singleton.mp hx ▸ mem_cons_self)
      · exact Or.inr (mem_cons_of_mem y hx)

theorem filter_notMem_map_eq {f : α → β} {xs ys : List α}
    (h : ∀ y ∈ ys, ∀ x ∈ xs, f x = f y → x = y) :
    xs.filter (fun x => f x ∉ ys.map f) = xs.filter (· ∉ ys) := by
  refine filter_congr fun x hx => decide_eq_decide.mpr (not_congr ?_)
  refine ⟨fun hy => ?_, mem_map_of_mem⟩
  obtain ⟨y, hy, heq⟩ := mem_map.mp hy
  exact h y hy x hx heq.symm ▸ hy

/-- What is there already is not added again. -/
theorem appendMissing_appendMissing (xs ys : List α) :
    (xs.appendMissing ys).appendMissing ys = xs.appendMissing ys :=
  appendMissing_of_forall_mem fun _ hy => mem_appendMissing.mpr (Or.inr hy)

theorem filter_erase_of_neg {p : α → Bool} {x : α} (h : ¬ p x) (xs : List α) :
    (xs.erase x).filter p = xs.filter p := by
  induction xs with
  | nil => rfl
  | cons y xs ih =>
    by_cases hy : y = x
    · rw [hy, erase_cons_head, filter_cons_of_neg h]
    · rw [erase_cons_tail (by simpa using hy), filter_cons, filter_cons, ih]

theorem filter_notMem_diff {p : α → Bool} {ys : List α} (h : ∀ y ∈ ys, ¬ p y) (xs : List α) :
    (xs.diff ys).filter p = xs.filter p := by
  induction ys generalizing xs with
  | nil => rfl
  | cons y ys ih =>
    rw [diff_cons, ih fun z hz => h z (mem_cons_of_mem y hz),
      filter_erase_of_neg (h y mem_cons_self)]

/-- **One occurrence or all of them.**  Taking away one occurrence of each element of a
list drops all elements of that list exactly if none occurs more often than it is listed. -/
theorem diff_eq_filter_iff {xs ys : List α} :
    xs.diff ys = xs.filter (· ∉ ys) ↔ ∀ y ∈ ys, xs.count y ≤ ys.count y := by
  constructor
  · intro h y hy
    have hzero : (xs.diff ys).count y = 0 := by
      rw [h]
      exact count_eq_zero.mpr fun hmem => by simp [hy] at hmem
    rw [count_diff] at hzero
    exact Nat.sub_eq_zero_iff_le.mp hzero
  · intro h
    have hnot : ∀ y ∈ ys, ¬ decide (y ∉ ys) := by simp
    rw [← filter_notMem_diff hnot xs]
    refine (filter_eq_self.mpr fun z hz => ?_).symm
    have hpos := count_pos_iff.mpr hz
    rw [count_diff] at hpos
    refine decide_eq_true fun hzy => ?_
    rw [Nat.sub_eq_zero_of_le (h z hzy)] at hpos
    exact lt_irrefl 0 hpos

/-- **Once or twice.**  Taking away one occurrence of each element a second time changes nothing
exactly if none occurred more often than it is listed. -/
theorem diff_diff_eq_diff_iff {xs ys : List α} :
    (xs.diff ys).diff ys = xs.diff ys ↔ ∀ y ∈ ys, xs.count y ≤ ys.count y := by
  constructor
  · intro h y hy
    have hcount := congrArg (count y) h
    rw [count_diff, count_diff] at hcount
    have hpos := count_pos_iff.mpr hy
    omega
  · intro h
    have hzero : ∀ y ∈ ys, (xs.diff ys).count y ≤ ys.count y := fun y hy => by
      rw [count_diff, Nat.sub_eq_zero_of_le (h y hy)]
      exact Nat.zero_le _
    rw [diff_eq_filter_iff.mpr hzero, diff_eq_filter_iff.mpr h, filter_filter]
    simp only [Bool.and_self]

end List

/-- How an update changes one field, by values as the store keeps them. -/
inductive FieldUpdate
  | set (v : FieldValue)
  | arrayUnion (vs : List FieldValue)
  | arrayRemove (vs : List FieldValue)

namespace FieldUpdate
open FieldValue

/-- The new value of a field, from its previous one. -/
def apply (previous : Option FieldValue) : FieldUpdate → FieldValue
  | set v => v
  | arrayUnion vs => array ((elements previous).appendMissingBy canonical vs)
  | arrayRemove vs => array ((elements previous).filter fun v => v.canonical ∉ vs.map canonical)

/-- The elements that are listed and those that are there are all written in one way. -/
def OneForm (previous : Option FieldValue) : FieldUpdate → Prop
  | set _ => True
  | arrayUnion vs => FieldValue.OneForm (elements previous) vs
  | arrayRemove vs => FieldValue.OneForm (elements previous) vs

theorem apply_arrayUnion {previous : Option FieldValue} {vs : List FieldValue}
    (h : (arrayUnion vs).OneForm previous) :
    (arrayUnion vs).apply previous = array ((elements previous).appendMissing vs) :=
  congrArg array (List.appendMissingBy_eq h)

theorem apply_arrayRemove {previous : Option FieldValue} {vs : List FieldValue}
    (h : (arrayRemove vs).OneForm previous) :
    (arrayRemove vs).apply previous = array ((elements previous).filter (· ∉ vs)) :=
  congrArg array (List.filter_notMem_map_eq fun y hy x hx => h y hy x (Or.inl hx))

/-- The union of a list of references with references is again one. -/
theorem apply_arrayUnion_references (rs new : List DocumentReference) :
    (arrayUnion (new.map reference)).apply (some (references rs)) =
      references (rs.appendMissing new) := by
  rw [apply_arrayUnion (oneForm_of_forall ?_), elements_references,
    List.appendMissing_map reference_injective]
  · rfl
  · exact List.forall_mem_map.mpr fun r _ => Or.inr ⟨r, rfl⟩

end FieldUpdate

/-- The fields of a document. -/
abbrev Fields := AList fun _ : String => FieldValue

namespace Fields

/-- The dictionary with the given entries, the first one winning. -/
def ofList (kvs : List (String × FieldValue)) : Fields :=
  kvs.foldr (fun kv f => f.insert kv.1 kv.2) ∅

@[simp] theorem lookup_ofList_nil (k : String) : (ofList []).lookup k = none := rfl

@[simp] theorem lookup_ofList_cons (k l : String) (v : FieldValue)
    (kvs : List (String × FieldValue)) :
    (ofList ((l, v) :: kvs)).lookup k = if k = l then some v else (ofList kvs).lookup k := by
  by_cases h : k = l
  · subst h
    simp [ofList]
  · simp [ofList, h]

/-- The identifiers of all documents the fields refer to. -/
def ids (f : Fields) : List String := f.entries.flatMap fun e => e.2.ids

theorem mem_ids_of_lookup {f : Fields} {k : String} {v : FieldValue} (h : f.lookup k = some v)
    {id : String} (hid : id ∈ v.ids) : id ∈ f.ids :=
  List.mem_flatMap.mpr ⟨⟨k, v⟩, AList.mem_lookup_iff.mp h, hid⟩

/-- Applies a list of field updates. -/
def update (f : Fields) (updates : List (String × FieldUpdate)) : Fields :=
  updates.foldl (fun f u => f.insert u.1 (u.2.apply (f.lookup u.1))) f

@[simp] theorem lookup_update_singleton_self (f : Fields) (k : String) (u : FieldUpdate) :
    (f.update [(k, u)]).lookup k = some (u.apply (f.lookup k)) := by
  simp [update]

theorem lookup_update_singleton_of_ne (f : Fields) {k l : String} (u : FieldUpdate) (h : l ≠ k) :
    (f.update [(k, u)]).lookup l = f.lookup l := by
  simp [update, h]

theorem lookup_update_of_notMem {k : String} {updates : List (String × FieldUpdate)}
    (h : k ∉ updates.map Prod.fst) (f : Fields) : (f.update updates).lookup k = f.lookup k := by
  induction updates generalizing f with
  | nil => rfl
  | cons u updates ih =>
    rw [List.map_cons, List.mem_cons, not_or] at h
    refine (ih h.2 _).trans ?_
    rw [AList.lookup_insert_ne h.1]

theorem lookup_update_of_mem {k : String} {u : FieldUpdate} {updates : List (String × FieldUpdate)}
    (hnodup : (updates.map Prod.fst).Nodup) (h : (k, u) ∈ updates) (f : Fields) :
    (f.update updates).lookup k = some (u.apply (f.lookup k)) := by
  induction updates generalizing f with
  | nil => cases h
  | cons first updates ih =>
    rw [List.map_cons, List.nodup_cons] at hnodup
    rcases List.mem_cons.mp h with rfl | h
    · refine (lookup_update_of_notMem hnodup.1 _).trans ?_
      rw [AList.lookup_insert]
    · have hne : k ≠ first.1 := by
        rintro rfl
        exact hnodup.1 (List.mem_map.mpr ⟨_, h, rfl⟩)
      refine (ih hnodup.2 h _).trans ?_
      rw [AList.lookup_insert_ne hne]

end Fields
