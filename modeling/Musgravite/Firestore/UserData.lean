import Mathlib.Data.Option.Basic
import Musgravite.Library.FieldValues

/-! # What the SDK makes of a value handed to it

`FSTUserDataConverter` turns the dictionary that an app writes into the fields of a
document.  It raises an exception for an array directly inside another, for a number that is
no 64-bit integer and for a key kept for the store itself; it cuts a `Timestamp` down to
whole microseconds, and all NaNs become one.  Everything else goes into the document as it
was given, and `parseData_eq_iff` says which values do. -/
namespace Musgravite.Firestore
open FieldValue

/-- `TimestampInternal::Truncate`. -/
def truncate (t : Timestamp) : Timestamp := ⟨t.seconds, t.nanoseconds / 1000 * 1000⟩

/-- `ValidatePathSegment`: names that begin and end with two underscores are reserved. -/
def isReservedSegment (segment : String) : Bool :=
  ['_', '_'].isPrefixOf segment.toList && ['_', '_'].isSuffixOf segment.toList

def parseScalarValue : FieldValue → Option FieldValue
  | integer i => if -2 ^ 63 ≤ i ∧ i < 2 ^ 63 then some (integer i) else none
  -- `FieldValue::FromDouble`
  | double d => some (double d.canonical)
  | timestamp t => some (timestamp (truncate t))
  | v => some v

mutual

/-- `none` is the exception raised.  `write` is unset for the elements that a sentinel lists;
`arrayElement` is set for the elements of an array, and no longer for what a dictionary among
them holds. -/
def parseData (write arrayElement : Bool) : FieldValue → Option FieldValue
  | map kvs => (parseDictionary write kvs).map map
  | array vs => if arrayElement then none else (parseArray write vs).map array
  | v => parseScalarValue v

def parseDictionary (write : Bool) :
    List (String × FieldValue) → Option (List (String × FieldValue))
  | [] => some []
  | (key, value) :: dict => do
      guard (!(write && isReservedSegment key))
      let parsedValue ← parseData write false value
      let result ← parseDictionary write dict
      return (key, parsedValue) :: result

def parseArray (write : Bool) : List FieldValue → Option (List FieldValue)
  | [] => some []
  | entry :: entries => do
      let parsedEntry ← parseData write true entry
      let result ← parseArray write entries
      return parsedEntry :: result

end

def parseArrayTransformElements (elements : List FieldValue) : Option (List FieldValue) :=
  elements.mapM (parseData false true)

/-- A value that an update gives a field, or the elements of its sentinel. -/
def parseUpdate : FieldUpdate → Option FieldUpdate
  | .set value => (parseData true false value).map .set
  | .arrayUnion elements => (parseArrayTransformElements elements).map .arrayUnion
  | .arrayRemove elements => (parseArrayTransformElements elements).map .arrayRemove

/-- The values of an update as they are stored. -/
def parseValues (updates : List (String × FieldUpdate)) : Option (List (String × FieldUpdate)) :=
  updates.mapM fun u => (parseUpdate u.2).map fun value => (u.1, value)

theorem forall₂_of_parseValues {updates values : List (String × FieldUpdate)}
    (h : parseValues updates = some values) :
    List.Forall₂ (fun u v => v.1 = u.1 ∧ parseUpdate u.2 = some v.2) updates values := by
  induction updates generalizing values with
  | nil =>
    obtain rfl := Option.some.inj h
    exact .nil
  | cons u updates ih =>
    rw [parseValues, List.mapM_cons] at h
    obtain ⟨v, hv, h⟩ := Option.bind_eq_some_iff.mp h
    obtain ⟨rest, hrest, h⟩ := Option.bind_eq_some_iff.mp h
    obtain rfl := Option.some.inj h
    obtain ⟨value, hvalue, rfl⟩ := Option.map_eq_some_iff.mp hv
    exact .cons ⟨rfl, hvalue⟩ (ih hrest)

theorem map_fst_of_parseValues {updates values : List (String × FieldUpdate)}
    (h : parseValues updates = some values) : values.map Prod.fst = updates.map Prod.fst := by
  have hall := forall₂_of_parseValues h
  clear h
  induction hall with
  | nil => rfl
  | cons hu _ ih => rw [List.map_cons, List.map_cons, hu.1, ih]

mutual

/-- The value says nothing that the store does not keep: its points in time are whole
microseconds, and its NaNs are the canonical one. -/
def Exact : FieldValue → Prop
  | timestamp t => t.nanoseconds % 1000 = 0
  | double d => d.isNaN → d = .canonicalNaN
  | array vs => ExactArray vs
  | map kvs => ExactMap kvs
  | _ => True

def ExactArray : List FieldValue → Prop
  | [] => True
  | v :: vs => Exact v ∧ ExactArray vs

def ExactMap : List (String × FieldValue) → Prop
  | [] => True
  | (_, v) :: kvs => Exact v ∧ ExactMap kvs

end

theorem truncate_eq_iff {t : Timestamp} : truncate t = t ↔ t.nanoseconds % 1000 = 0 := by
  obtain ⟨seconds, nanoseconds⟩ := t
  simp only [truncate, Timestamp.mk.injEq, true_and]
  omega

theorem parseScalarValue_eq_iff {v w : FieldValue} (h : parseScalarValue v = some w)
    (harray : ∀ vs, v ≠ array vs) (hmap : ∀ kvs, v ≠ map kvs) : w = v ↔ Exact v := by
  cases v with
  | integer i =>
    simp only [parseScalarValue, Option.ite_none_right_eq_some, Option.some.injEq] at h
    exact iff_of_true h.2.symm trivial
  | double d =>
    obtain rfl := Option.some.inj h
    rw [double.injEq, Double.canonical_eq_iff, Exact]
  | timestamp t =>
    obtain rfl := Option.some.inj h
    rw [timestamp.injEq, truncate_eq_iff, Exact]
  | array vs => exact absurd rfl (harray vs)
  | map kvs => exact absurd rfl (hmap kvs)
  | _ =>
    obtain rfl := Option.some.inj h
    exact iff_of_true rfl trivial

mutual

/-- **What comes back as it was given**, of all that can be stored. -/
theorem parseData_eq_iff {write arrayElement : Bool} :
    ∀ {v w : FieldValue}, parseData write arrayElement v = some w → (w = v ↔ Exact v)
  | map kvs, w, h => by
    rw [parseData] at h
    obtain ⟨result, hresult, rfl⟩ := Option.map_eq_some_iff.mp h
    rw [map.injEq, parseDictionary_eq_iff hresult, Exact]
  | array vs, w, h => by
    rw [parseData] at h
    split at h
    · cases h
    · obtain ⟨result, hresult, rfl⟩ := Option.map_eq_some_iff.mp h
      rw [array.injEq, parseArray_eq_iff hresult, Exact]
  | null, w, h | boolean _, w, h | integer _, w, h | double _, w, h | timestamp _, w, h
  | string _, w, h | bytes _, w, h | reference _, w, h | geoPoint _ _, w, h =>
    parseScalarValue_eq_iff h nofun nofun

theorem parseDictionary_eq_iff {write : Bool} : ∀ {kvs result : List (String × FieldValue)},
    parseDictionary write kvs = some result → (result = kvs ↔ ExactMap kvs)
  | [], result, h => by
    rw [parseDictionary] at h
    obtain rfl := Option.some.inj h
    exact iff_of_true rfl trivial
  | (key, value) :: dict, result, h => by
    rw [parseDictionary] at h
    obtain ⟨-, -, h⟩ := Option.bind_eq_some_iff.mp h
    obtain ⟨parsedValue, hvalue, h⟩ := Option.bind_eq_some_iff.mp h
    obtain ⟨rest, hrest, h⟩ := Option.bind_eq_some_iff.mp h
    obtain rfl := Option.some.inj h
    rw [List.cons.injEq, Prod.mk.injEq, and_iff_right rfl, parseData_eq_iff hvalue,
      parseDictionary_eq_iff hrest, ExactMap]

theorem parseArray_eq_iff {write : Bool} : ∀ {vs result : List FieldValue},
    parseArray write vs = some result → (result = vs ↔ ExactArray vs)
  | [], result, h => by
    rw [parseArray] at h
    obtain rfl := Option.some.inj h
    exact iff_of_true rfl trivial
  | entry :: entries, result, h => by
    rw [parseArray] at h
    obtain ⟨parsedEntry, hentry, h⟩ := Option.bind_eq_some_iff.mp h
    obtain ⟨rest, hrest, h⟩ := Option.bind_eq_some_iff.mp h
    obtain rfl := Option.some.inj h
    rw [List.cons.injEq, parseData_eq_iff hentry, parseArray_eq_iff hrest, ExactArray]

end

end Musgravite.Firestore
