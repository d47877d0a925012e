import Musgravite.Firestore.FieldPaths
import Musgravite.Library.FieldValues

/-! # Resource paths of the Firestore client

A resource path names a collection or, if it has an even number of segments, a
document.  Its text form has slashes between the segments, and tolerates one at either
end.  The app writes `collection(c).document(id)` throughout, where `c` is one of its
collections and `id` comes from a reference, from the text a user typed or from a
stored string.

`document_eq_iff` says to which document that leads, and `documentReference` is that document
as the rest of the model refers to it. -/
namespace Musgravite.Firestore

namespace ResourcePath

/-- `none` where an assertion fails. -/
def fromString (path : Text) : Option (List Text) :=
  if ['/', '/'] <:+: path then none
  else some ((path.splitOn '/').filter fun segment => !segment.isEmpty)

def canonicalString (path : List Text) : Text := ['/'].intercalate path

/-- `collection(_:)`: a collection has an odd number of segments. -/
def collectionWithPath (path : Text) : Option (List Text) :=
  (fromString path).filter fun segments => segments.length % 2 = 1

/-- `document(_:)` of a collection: a document has an even number of segments. -/
def documentWithPath (collection : List Text) (path : Text) : Option (List Text) :=
  ((fromString path).map (collection ++ ·)).filter fun segments => segments.length % 2 = 0

/-- `collection(_:).document(_:)`, as all methods of the app write it. -/
def document (collection documentID : Text) : Option (List Text) :=
  (collectionWithPath collection).bind (documentWithPath · documentID)

/-- A segment of a resource path. -/
def IsSegment (segment : Text) : Prop := segment ≠ [] ∧ '/' ∉ segment

instance (segment : Text) : Decidable (IsSegment segment) := inferInstanceAs (Decidable (_ ∧ _))

/-- Two slashes in a row are an empty part that is neither the first nor the last. -/
theorem infix_iff {text : Text} : ['/', '/'] <:+: text ↔
    ∃ before after, before ≠ [] ∧ after ≠ [] ∧ text.splitOn '/' = before ++ [] :: after := by
  constructor
  · rintro ⟨before, after, rfl⟩
    refine ⟨before.splitOn '/', after.splitOn '/', List.splitOn_ne_nil _ _,
      List.splitOn_ne_nil _ _, ?_⟩
    rw [List.append_assoc, List.cons_append, List.splitOn_append_cons_self]
    rfl
  · rintro ⟨before, after, hbefore, hafter, hsplit⟩
    obtain ⟨b, bs, rfl⟩ := List.exists_cons_of_ne_nil hafter
    have hjoin : ['/'].intercalate (text.splitOn '/') = text := List.intercalate_splitOn '/'
    rw [← hjoin, hsplit, List.intercalate_append '/' hbefore (List.cons_ne_nil _ _),
      List.intercalate_cons_cons]
    exact ⟨['/'].intercalate before, ['/'].intercalate (b :: bs), by simp⟩

theorem fromString_eq_some {text : Text} {path : List Text} (h : fromString text = some path) :
    ¬ ['/', '/'] <:+: text ∧ path = (text.splitOn '/').filter fun segment => !segment.isEmpty := by
  unfold fromString at h
  split at h
  · cases h
  · exact ⟨‹_›, (Option.some.inj h).symm⟩

/-- What is accepted is well formed. -/
theorem isSegment_of_fromString {text : Text} {path : List Text} (h : fromString text = some path) :
    ∀ segment ∈ path, IsSegment segment := by
  obtain ⟨-, rfl⟩ := fromString_eq_some h
  intro segment hs
  obtain ⟨hmem, hne⟩ := List.mem_filter.mp hs
  exact ⟨by simpa using hne, List.notMem_of_mem_splitOn hmem⟩

/-- **A path of segments is read back as it was printed.** -/
theorem fromString_canonicalString {path : List Text} (h : ∀ segment ∈ path, IsSegment segment) :
    fromString (canonicalString path) = some path := by
  by_cases hpath : path = []
  · subst hpath
    rfl
  · have hsplit : (canonicalString path).splitOn '/' = path :=
      List.splitOn_intercalate '/' (fun segment hs => (h segment hs).2) hpath
    have hempty : ¬ ['/', '/'] <:+: canonicalString path := by
      rw [infix_iff, hsplit]
      rintro ⟨before, after, -, -, rfl⟩
      exact (h [] (by simp)).1 rfl
    rw [fromString, if_neg hempty, hsplit, List.filter_eq_self.mpr]
    exact fun segment hs => by simpa using (h segment hs).1

theorem fromString_singleton {segment : Text} (h : IsSegment segment) :
    fromString segment = some [segment] := by
  have : fromString (canonicalString [segment]) = some [segment] :=
    fromString_canonicalString (by simpa using h)
  rwa [canonicalString, List.intercalate_singleton] at this

/-! ### Identifiers of documents -/

/-- The texts that name the segment: with a slash before it, after it, or both. -/
def spellings (segment : Text) : List Text :=
  [segment, '/' :: segment, segment ++ ['/'], '/' :: segment ++ ['/']]

theorem splitOn_slash_cons (text : Text) : ('/' :: text).splitOn '/' = [] :: text.splitOn '/' := by
  rw [List.splitOn_cons_eq_if_modifyHead]
  rfl

theorem splitOn_snoc_slash (text : Text) :
    (text ++ ['/']).splitOn '/' = text.splitOn '/' ++ [[]] :=
  List.splitOn_append_cons_self text []

/-- The parts of a text that names the segment. -/
theorem splitOn_of_mem_spellings {segment text : Text} (h : IsSegment segment)
    (htext : text ∈ spellings segment) :
    text.splitOn '/' ∈ [[segment], [[], segment], [segment, []], [[], segment, []]] := by
  have hone : segment.splitOn '/' = [segment] := List.splitOn_eq_singleton h.2
  simp only [spellings, List.mem_cons, List.not_mem_nil, or_false] at htext
  rcases htext with rfl | rfl | rfl | rfl
  · simp [hone]
  · simp [splitOn_slash_cons, hone]
  · simp [splitOn_snoc_slash, hone]
  · rw [splitOn_snoc_slash, splitOn_slash_cons, hone]
    simp

theorem fromString_eq_singleton_iff {text segment : Text} (h : IsSegment segment) :
    fromString text = some [segment] ↔ text ∈ spellings segment := by
  constructor
  · intro htext
    obtain ⟨hempty, hfilter⟩ := fromString_eq_some htext
    obtain ⟨before, after, hsplit, hbefore, -, hafter⟩ := List.filter_eq_cons_iff.mp hfilter.symm
    have hbefore : ∀ part ∈ before, part = [] := by simpa using hbefore
    have hafter : ∀ part ∈ after, part = [] := by simpa using hafter
    rw [infix_iff, hsplit] at hempty
    -- an empty part has nothing beyond it, for else there would be two slashes in a row
    have hbefore : before = [] ∨ before = [[]] := by
      rcases before with - | ⟨b, - | ⟨b', before⟩⟩
      · exact Or.inl rfl
      · exact Or.inr (by rw [hbefore b (by simp)])
      · obtain rfl := hbefore b' (by simp)
        exact absurd ⟨[b], before ++ segment :: after, by simp, by simp, rfl⟩ hempty
    have hafter : after = [] ∨ after = [[]] := by
      rcases after with - | ⟨b, - | ⟨b', after⟩⟩
      · exact Or.inl rfl
      · exact Or.inr (by rw [hafter b (by simp)])
      · obtain rfl := hafter b (by simp)
        exact absurd ⟨before ++ [segment], b' :: after, by simp, by simp, by simp⟩ hempty
    have hjoin : ['/'].intercalate (text.splitOn '/') = text := List.intercalate_splitOn '/'
    rw [hsplit] at hjoin
    rcases hbefore with rfl | rfl <;> rcases hafter with rfl | rfl <;>
      simp [← hjoin, spellings, List.intercalate_cons_cons]
  · intro htext
    have hsplit := splitOn_of_mem_spellings h htext
    have hempty : ¬ ['/', '/'] <:+: text := by
      rw [infix_iff]
      rintro ⟨before, after, hbefore, hafter, he⟩
      rw [he] at hsplit
      obtain ⟨b, bs, rfl⟩ := List.exists_cons_of_ne_nil hbefore
      obtain ⟨c, cs, rfl⟩ := List.exists_cons_of_ne_nil hafter
      rcases bs with - | ⟨b', bs⟩
      · simp only [List.mem_cons, List.not_mem_nil, or_false] at hsplit
        simp at hsplit
        exact h.1 hsplit.2.1
      · have hlength := congrArg List.length (by simpa using hsplit : _ ∧ _ ∧ _).2.2
        simp at hlength
        omega
    rw [fromString, if_neg hempty]
    have hne : segment.isEmpty = false := by simpa using h.1
    simp only [List.mem_cons, List.not_mem_nil, or_false] at hsplit
    rcases hsplit with hs | hs | hs | hs <;> simp [hs, hne]

theorem collectionWithPath_eq {c : Text} (hc : IsSegment c) : collectionWithPath c = some [c] := by
  rw [collectionWithPath, fromString_singleton hc]
  rfl

/-- Where an identifier leads: as many segments down as it has parts, if that is an odd
number of them. -/
theorem document_eq_some_iff {c : Text} (hc : IsSegment c) {id : Text} {path : List Text} :
    document c id = some path ↔
      ∃ parts, fromString id = some parts ∧ parts.length % 2 = 1 ∧ path = c :: parts := by
  rw [document, collectionWithPath_eq hc, Option.bind_some, documentWithPath,
    Option.filter_eq_some_iff, Option.map_eq_some_iff]
  constructor
  · rintro ⟨⟨parts, hparts, rfl⟩, hlength⟩
    have hlength : (parts.length + 1) % 2 = 0 := by simpa using hlength
    exact ⟨parts, hparts, by omega, rfl⟩
  · rintro ⟨parts, hparts, hlength, rfl⟩
    refine ⟨⟨parts, hparts, rfl⟩, ?_⟩
    simp only [List.length_cons, decide_eq_true_eq]
    omega

end ResourcePath

/-- The path of a document as the rest of the model refers to it. -/
def path (r : DocumentReference) : List Text := [r.collection.toList, r.documentID.toList]

open ResourcePath in
/-- **Which identifiers lead to which documents.**  In a collection whose name is a segment,
`document(_:)` leads to the document with the identifier `other` exactly for the identifier
itself and for the same with a slash before it, after it or both; so an identifier
without slashes leads to its own document and to no other.  It fails exactly if the identifier
has two slashes in a row or an even number of parts, in particular if it is empty. -/
theorem document_eq_iff (collection : String) (h : IsSegment collection.toList) (id : String) :
    (∀ other : String, IsSegment other.toList →
      (document collection.toList id.toList = some (path ⟨collection, other⟩) ↔
        id.toList ∈ spellings other.toList)) ∧
    (document collection.toList id.toList = some (path ⟨collection, id⟩) ↔
      IsSegment id.toList) ∧
    (document collection.toList id.toList = none ↔
      ['/', '/'] <:+: id.toList ∨
        ((id.toList.splitOn '/').filter fun part => !part.isEmpty).length % 2 = 0) := by
  refine ⟨fun other hother => ?_, ?_, ?_⟩
  · rw [document_eq_some_iff h, ← fromString_eq_singleton_iff hother]
    constructor
    · rintro ⟨parts, hparts, -, he⟩
      obtain rfl : parts = [other.toList] := (List.cons.inj he).2.symm
      exact hparts
    · exact fun hparts => ⟨_, hparts, rfl, rfl⟩
  · rw [document_eq_some_iff h]
    constructor
    · rintro ⟨parts, hparts, -, he⟩
      obtain rfl : parts = [id.toList] := (List.cons.inj he).2.symm
      exact isSegment_of_fromString hparts _ List.mem_cons_self
    · exact fun hid => ⟨_, fromString_singleton hid, rfl, rfl⟩
  · rw [Option.eq_none_iff_forall_ne_some]
    by_cases hempty : ['/', '/'] <:+: id.toList
    · refine iff_of_true (fun path hpath => ?_) (Or.inl hempty)
      obtain ⟨parts, hparts, -, -⟩ := (document_eq_some_iff h).mp hpath
      exact (fromString_eq_some hparts).1 hempty
    · simp only [hempty, false_or]
      constructor
      · intro hnone
        by_contra hodd
        exact hnone _ ((document_eq_some_iff h).mpr
          ⟨_, if_neg hempty, Nat.mod_two_ne_zero.mp hodd, rfl⟩)
      · intro heven path hpath
        obtain ⟨parts, hparts, hodd, -⟩ := (document_eq_some_iff h).mp hpath
        obtain ⟨-, rfl⟩ := fromString_eq_some hparts
        exact absurd (hodd.symm.trans heven) (by decide)

/-- With a slash at its end the identifier of a course still names that course. -/
theorem document_eq_iff_course :
    ResourcePath.document "curso".toList "fisica/".toList =
      some (path ⟨"curso", "fisica"⟩) :=
  ((document_eq_iff "curso" (by simp [ResourcePath.IsSegment]) "fisica/").1 "fisica"
    (by simp [ResourcePath.IsSegment])).mpr (by simp [ResourcePath.spellings])

/-! ### The document that a method of the app means -/

section
open ResourcePath
variable {c id : String} {r : DocumentReference}

/-- The document at a path, in the collection that the rest of the path names. -/
def reference (path : List Text) : DocumentReference :=
  ⟨String.ofList (canonicalString path.dropLast), String.ofList (path.getLast?.getD [])⟩

/-- `collection(_:).document(_:)`; `none` where the app stops. -/
def documentReference (collection documentID : String) : Option DocumentReference :=
  (document collection.toList documentID.toList).map reference

theorem reference_append_singleton (collection : List Text) (documentID : Text) :
    reference (collection ++ [documentID]) =
      ⟨String.ofList (canonicalString collection), String.ofList documentID⟩ := by
  simp [reference]

theorem reference_path (r : DocumentReference) : reference (path r) = r := by
  show reference ([r.collection.toList] ++ [r.documentID.toList]) = r
  rw [reference_append_singleton, canonicalString, List.intercalate_singleton, String.ofList_toList,
    String.ofList_toList]

/-- An identifier leads to its own document. -/
theorem documentReference_of_isDocumentID (hc : IsSegment c.toList) (hid : IsDocumentID id) :
    documentReference c id = some ⟨c, id⟩ := by
  rw [documentReference, ((document_eq_iff c hc id).2.1).mpr hid, Option.map_some, reference_path]

theorem documentReference_eq_some (hc : IsSegment c.toList) (h : documentReference c id = some r) :
    ∃ parts, fromString id.toList = some parts ∧ parts ≠ [] ∧
      r = reference (c.toList :: parts) := by
  obtain ⟨path, hpath, rfl⟩ := Option.map_eq_some_iff.mp h
  obtain ⟨parts, hparts, hodd, rfl⟩ := (document_eq_some_iff hc).mp hpath
  refine ⟨parts, hparts, ?_, rfl⟩
  rintro rfl
  cases hodd

/-- Whatever text leads to a document leads to one with an identifier, in the collection or
further down. -/
theorem isDocumentID_of_documentReference (hc : IsSegment c.toList)
    (h : documentReference c id = some r) :
    IsDocumentID r.documentID ∧ c.toList <+: r.collection.toList := by
  obtain ⟨parts, hparts, hne, rfl⟩ := documentReference_eq_some hc h
  obtain ⟨init, last, rfl⟩ := List.eq_nil_or_concat parts |>.resolve_left hne
  have hlast : IsSegment last := isSegment_of_fromString hparts last (by simp)
  have hpath : c.toList :: init.concat last = (c.toList :: init) ++ [last] := by simp
  rw [hpath, reference_append_singleton]
  refine ⟨?_, ?_⟩
  · rwa [IsDocumentID, String.toList_ofList]
  · rw [String.toList_ofList, canonicalString]
    cases init with
    | nil => rw [List.intercalate_singleton]
    | cons i init =>
      rw [List.intercalate_cons_cons, List.append_assoc]
      exact List.prefix_append _ _

end

end Musgravite.Firestore
