import Mathlib.Data.List.Infix
import Mathlib.Data.List.Lex
import Mathlib.Data.String.Basic
import Musgravite.Library.FieldValues
import Musgravite.Library.Tables

/-! # Objects and the fields inside them

The data of a document is an object: a map from names to values, some of which are maps
again.  A field path leads through maps to one value.  `get`, `set` and `delete` are the
operations of `ObjectValue` along a path.  What `set` and `delete` do to the value at the same
path is said once here (`getAt_setAt_self`, `getAt_deleteAt_self`), and what they do to the
value at another one neither of which leads through the other (`getAt_setAt_of_apart`,
`getAt_deleteAt_of_apart`). -/
namespace Musgravite.Firestore

/-- The names of the fields on the way to a value, at least one. -/
structure FieldPath where
  first : String
  rest : List String
deriving DecidableEq

namespace FieldPath

def segments (p : FieldPath) : List String := p.first :: p.rest

theorem segments_injective : Function.Injective segments := by
  rintro ⟨first, rest⟩ ⟨first', rest'⟩ h
  obtain ⟨rfl, rfl⟩ := List.cons.inj h
  rfl

instance : LinearOrder FieldPath := LinearOrder.lift' segments segments_injective

/-- Neither path leads through the value at the other. -/
def Apart (p q : FieldPath) : Prop := ¬ p.segments <+: q.segments ∧ ¬ q.segments <+: p.segments

instance (p q : FieldPath) : Decidable (p.Apart q) := inferInstanceAs (Decidable (_ ∧ _))

theorem Apart.symm {p q : FieldPath} (h : p.Apart q) : q.Apart p := And.symm h

end FieldPath

/-- The data of a document. -/
abbrev ObjectValue := Table String FieldValue

namespace ObjectValue

/-- The object with the given entries; of two with the same name the last one counts. -/
def ofEntries (kvs : List (String × FieldValue)) : ObjectValue :=
  kvs.foldl (fun o kv => o.put kv.1 kv.2) Table.empty

def asFieldValue (o : ObjectValue) : FieldValue := .map o.rows

/-- The object that the value is, if it is one. -/
def ofFieldValue : FieldValue → Option ObjectValue
  | .map kvs => some (ofEntries kvs)
  | _ => none

/-- The object in the field `name`, if the field holds one. -/
def child (o : ObjectValue) (name : String) : Option ObjectValue := (o.get name).bind ofFieldValue

def getField (o : ObjectValue) (name : String) : List String → Option FieldValue
  | [] => o.get name
  | next :: rest => (o.child name).bind fun c => c.getField next rest

/-- What is no object on the way is replaced by one. -/
def setField (o : ObjectValue) (name : String) (v : FieldValue) : List String → ObjectValue
  | [] => o.put name v
  | next :: rest => o.put name (asFieldValue (((o.child name).getD .empty).setField next v rest))

/-- What is no object on the way does not hold the field, so nothing changes. -/
def deleteField (o : ObjectValue) (name : String) : List String → ObjectValue
  | [] => o.erase name
  | next :: rest =>
    match o.child name with
    | some c => o.put name (asFieldValue (c.deleteField next rest))
    | none => o

/-- `Get`. -/
def getAt (o : ObjectValue) (p : FieldPath) : Option FieldValue := o.getField p.first p.rest

/-- `Set`. -/
def setAt (o : ObjectValue) (p : FieldPath) (v : FieldValue) : ObjectValue :=
  o.setField p.first v p.rest

/-- `Delete`. -/
def deleteAt (o : ObjectValue) (p : FieldPath) : ObjectValue := o.deleteField p.first p.rest

variable {o : ObjectValue} {name : String} {v : FieldValue}

@[simp] theorem getAt_field (o : ObjectValue) (name : String) : o.getAt ⟨name, []⟩ = o.get name :=
  rfl

@[simp] theorem setAt_field (o : ObjectValue) (name : String) (v : FieldValue) :
    o.setAt ⟨name, []⟩ v = o.put name v := rfl

/-! ### Objects as values -/

/-- Reading an object back from its value. -/
@[simp] theorem ofEntries_rows (o : ObjectValue) : ofEntries o.rows = o := by
  refine Table.ext fun k => Option.ext fun v => ?_
  rw [ofEntries, Table.get_foldl_put o.sorted, ← Table.get_eq_some]
  simp

@[simp] theorem ofFieldValue_asFieldValue (o : ObjectValue) :
    ofFieldValue o.asFieldValue = some o := congrArg some (ofEntries_rows o)

@[simp] theorem child_put_self (o c : ObjectValue) (name : String) :
    child (o.put name c.asFieldValue) name = some c := by
  simp [child]

theorem child_put_of_ne (o : ObjectValue) {name other : String} (v : FieldValue)
    (h : other ≠ name) : child (o.put name v) other = o.child other := by
  rw [child, Table.get_put_of_ne _ _ h, child]

@[simp] theorem getField_empty (name : String) (rest : List String) :
    getField .empty name rest = none := by
  cases rest <;> rfl

theorem getField_cons_getD (o : ObjectValue) (name next : String) (rest : List String) :
    ((o.child name).getD .empty).getField next rest = o.getField name (next :: rest) := by
  rw [getField]
  cases o.child name with
  | none => exact getField_empty next rest
  | some c => rfl

/-! ### What `set` and `delete` do -/

theorem getField_setField_self (o : ObjectValue) (name : String) (rest : List String)
    (v : FieldValue) : (o.setField name v rest).getField name rest = some v := by
  induction rest generalizing o name with
  | nil => exact Table.get_put_self o name v
  | cons next rest ih =>
    rw [setField, getField, child_put_self]
    exact ih _ next

/-- **What was set is there.** -/
@[simp] theorem getAt_setAt_self (o : ObjectValue) (p : FieldPath) (v : FieldValue) :
    (o.setAt p v).getAt p = some v :=
  getField_setField_self o p.first p.rest v

theorem getField_deleteField_self (o : ObjectValue) (name : String) (rest : List String) :
    (o.deleteField name rest).getField name rest = none := by
  induction rest generalizing o name with
  | nil => exact Table.get_erase.trans (if_pos rfl)
  | cons next rest ih =>
    rw [deleteField]
    cases h : o.child name with
    | none => rw [getField, h, Option.bind_none]
    | some c =>
      rw [getField, child_put_self]
      exact ih c next

/-- **What was deleted is gone.** -/
@[simp] theorem getAt_deleteAt_self (o : ObjectValue) (p : FieldPath) :
    (o.deleteAt p).getAt p = none :=
  getField_deleteField_self o p.first p.rest

/-- A change below the field `name` leaves the other fields as they are. -/
theorem getField_put_of_ne (o : ObjectValue) {name other : String} (v : FieldValue)
    (rest : List String) (h : other ≠ name) :
    getField (o.put name v) other rest = o.getField other rest := by
  cases rest with
  | nil => exact Table.get_put_of_ne _ _ h
  | cons next rest => rw [getField, getField, child_put_of_ne o v h]

theorem getField_setField_of_apart {name other : String} {rest more : List String}
    (h : FieldPath.Apart ⟨name, rest⟩ ⟨other, more⟩) (o : ObjectValue) (v : FieldValue) :
    (o.setField name v rest).getField other more = o.getField other more := by
  induction rest generalizing o name other more with
  | nil =>
    have hne : other ≠ name := by
      rintro rfl
      exact h.1 (List.cons_prefix_cons.mpr ⟨rfl, List.nil_prefix⟩)
    exact getField_put_of_ne o v more hne
  | cons next rest ih =>
    by_cases hname : other = name
    · subst hname
      cases more with
      | nil => exact absurd (List.cons_prefix_cons.mpr ⟨rfl, List.nil_prefix⟩) h.2
      | cons next' more =>
        have happart : FieldPath.Apart ⟨next, rest⟩ ⟨next', more⟩ :=
          ⟨fun hp => h.1 (List.cons_prefix_cons.mpr ⟨rfl, hp⟩),
            fun hp => h.2 (List.cons_prefix_cons.mpr ⟨rfl, hp⟩)⟩
        rw [setField, getField, child_put_self]
        exact (ih happart _).trans (getField_cons_getD o other next' more)
    · exact getField_put_of_ne o _ more hname

/-- **Setting a field leaves the others alone.** -/
theorem getAt_setAt_of_apart {p q : FieldPath} (h : p.Apart q) (o : ObjectValue)
    (v : FieldValue) : (o.setAt p v).getAt q = o.getAt q :=
  getField_setField_of_apart h o v

theorem getField_deleteField_of_apart {name other : String} {rest more : List String}
    (h : FieldPath.Apart ⟨name, rest⟩ ⟨other, more⟩) (o : ObjectValue) :
    (o.deleteField name rest).getField other more = o.getField other more := by
  induction rest generalizing o name other more with
  | nil =>
    have hne : other ≠ name := by
      rintro rfl
      exact h.1 (List.cons_prefix_cons.mpr ⟨rfl, List.nil_prefix⟩)
    cases more with
    | nil => exact Table.get_erase.trans (if_neg hne)
    | cons next more =>
      rw [deleteField, getField, getField, child, Table.get_erase, if_neg hne, child]
  | cons next rest ih =>
    rw [deleteField]
    cases hchild : o.child name with
    | none => rfl
    | some c =>
      by_cases hname : other = name
      · subst hname
        cases more with
        | nil => exact absurd (List.cons_prefix_cons.mpr ⟨rfl, List.nil_prefix⟩) h.2
        | cons next' more =>
          have happart : FieldPath.Apart ⟨next, rest⟩ ⟨next', more⟩ :=
            ⟨fun hp => h.1 (List.cons_prefix_cons.mpr ⟨rfl, hp⟩),
              fun hp => h.2 (List.cons_prefix_cons.mpr ⟨rfl, hp⟩)⟩
          rw [getField, getField, child_put_self, hchild]
          exact ih happart c
      · exact getField_put_of_ne o _ more hname

/-- **Deleting a field leaves the others alone.** -/
theorem getAt_deleteAt_of_apart {p q : FieldPath} (h : p.Apart q) (o : ObjectValue) :
    (o.deleteAt p).getAt q = o.getAt q :=
  getField_deleteField_of_apart h o

end ObjectValue

end Musgravite.Firestore
