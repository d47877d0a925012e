import Musgravite.Library.Splitting

/-! # Field paths of the Firestore client

A field path names a field inside a document: it is a list of segments.  Its text
form has dots between the segments and quotes a segment that is no plain
identifier.  The client prints a field path whenever it sends or stores an update
(`CanonicalString`) and reads it back with a scanner (`FromServerFormat`); the keys of
an update are taken apart at their dots (`FromDotSeparatedString`).

`fieldPaths_round_trip` says which paths survive. -/
namespace Musgravite.Firestore

/-- The characters of a `std::string`. -/
abbrev Text := List Char

namespace FieldPath

def isLetter (c : Char) : Bool :=
  c == '_' || ('a' ≤ c && c ≤ 'z') || ('A' ≤ c && c ≤ 'Z')

/-- The segment needs no quotes. -/
def isValidIdentifier : Text → Bool
  | [] => false
  | first :: rest => isLetter first && rest.all fun c => isLetter c || ('0' ≤ c && c ≤ '9')

/-- The replacements of backslashes and backticks. -/
def escapeChar (c : Char) : Text :=
  if c = '\\' then ['\\', '\\'] else if c = '`' then ['\\', '`'] else [c]

def escapedSegment (segment : Text) : Text :=
  let escaped := segment.flatMap escapeChar
  if isValidIdentifier escaped then escaped else '`' :: escaped ++ ['`']

def canonicalString (path : List Text) : Text := ['.'].intercalate (path.map escapedSegment)

/-- The characters that `FromDotSeparatedString` does not accept. -/
def reserved : Text := ['~', '*', '/', '[', ']']

/-- `none` where an exception is thrown. -/
def fromDotSeparatedString (path : Text) : Option (List Text) :=
  if path.any (· ∈ reserved) then none
  else if (path.splitOn '.').any List.isEmpty then none
  else some (path.splitOn '.')

/-- `finish_segment`: an empty segment fails an assertion. -/
def finishSegment (segment : Text) (segments : List Text) : Option (List Text) :=
  if segment.isEmpty then none else some (segments ++ [segment])

/-- What follows the loop. -/
def finish (insideBackticks : Bool) (segment : Text) (segments : List Text) :
    Option (List Text) :=
  (finishSegment segment segments).bind fun segments =>
    if insideBackticks then none else some segments

/-- The loop of `FromServerFormat`. -/
def scan : Text → Bool → Text → List Text → Option (List Text)
  | [], insideBackticks, segment, segments => finish insideBackticks segment segments
  | c :: rest, insideBackticks, segment, segments =>
      -- for strings with embedded nulls: the first one ends the path
      if c = '\x00' then finish insideBackticks segment segments
      else if c = '.' then
        if insideBackticks then scan rest insideBackticks (segment ++ [c]) segments
        else (finishSegment segment segments).bind fun segments =>
          scan rest insideBackticks [] segments
      else if c = '`' then scan rest (!insideBackticks) segment segments
      else if c = '\\' then
        match rest with
        | [] => none
        | escaped :: rest => scan rest insideBackticks (segment ++ [escaped]) segments
      else scan rest insideBackticks (segment ++ [c]) segments

/-- `none` where an assertion fails. -/
def fromServerFormat (path : Text) : Option (List Text) := scan path false [] []

/-! ### What the printer writes -/

/-- A segment that can be printed and read back. -/
def Readable (segment : Text) : Prop := segment ≠ [] ∧ '\x00' ∉ segment

instance (segment : Text) : Decidable (Readable segment) := inferInstanceAs (Decidable (_ ∧ _))

theorem escapeChar_of_ne {c : Char} (h : c ≠ '\\') (h' : c ≠ '`') : escapeChar c = [c] := by
  rw [escapeChar, if_neg h, if_neg h']

theorem flatMap_escapeChar_eq {segment : Text} (h : '\\' ∉ segment.flatMap escapeChar) :
    segment.flatMap escapeChar = segment := by
  have hone : ∀ c ∈ segment, escapeChar c = [c] := by
    intro c hc
    refine escapeChar_of_ne ?_ ?_ <;>
    · rintro rfl
      exact h (List.mem_flatMap.mpr ⟨_, hc, by simp [escapeChar]⟩)
  induction segment with
  | nil => rfl
  | cons c segment ih =>
    rw [List.flatMap_cons, hone c List.mem_cons_self,
      ih (fun hm => h (by simp [hm])) fun d hd => hone d (List.mem_cons_of_mem c hd)]
    rfl

/-- The character means nothing to the scanner. -/
def Plain (c : Char) : Prop := c ≠ '\x00' ∧ c ≠ '.' ∧ c ≠ '`' ∧ c ≠ '\\'

theorem plain_of_isLetter {c : Char} (h : isLetter c || ('0' ≤ c && c ≤ '9')) : Plain c := by
  refine ⟨?_, ?_, ?_, ?_⟩ <;> · rintro rfl; revert h; decide

theorem plain_of_isValidIdentifier {segment : Text} (h : isValidIdentifier segment) :
    segment ≠ [] ∧ ∀ c ∈ segment, Plain c := by
  cases segment with
  | nil => cases h
  | cons first rest =>
    simp only [isValidIdentifier, Bool.and_eq_true, List.all_eq_true] at h
    refine ⟨List.cons_ne_nil _ _, fun c hc => plain_of_isLetter ?_⟩
    rcases List.mem_cons.mp hc with rfl | hc
    · simp [h.1]
    · exact h.2 c hc

/-! ### What the scanner makes of it -/

theorem finish_true (segment : Text) (segments : List Text) :
    finish true segment segments = none := by
  unfold finish finishSegment
  split <;> rfl

theorem finish_false_of_ne_nil {segment : Text} (h : segment ≠ []) (segments : List Text) :
    finish false segment segments = some (segments ++ [segment]) := by
  simp [finish, finishSegment, h]

section Scan
variable (rest : Text) (insideBackticks : Bool) (segment : Text) (segments : List Text)

theorem scan_null : scan ('\x00' :: rest) insideBackticks segment segments =
    finish insideBackticks segment segments := by
  rw [scan.eq_def]
  simp

theorem scan_backtick : scan ('`' :: rest) insideBackticks segment segments =
    scan rest (!insideBackticks) segment segments := by
  rw [scan.eq_def]
  simp

theorem scan_dot : scan ('.' :: rest) false segment segments =
    (finishSegment segment segments).bind fun segments => scan rest false [] segments := by
  rw [scan.eq_def]
  simp

end Scan

theorem scan_plain {segment : Text} (h : ∀ c ∈ segment, Plain c) (rest : Text)
    (insideBackticks : Bool) (before : Text) (segments : List Text) :
    scan (segment ++ rest) insideBackticks before segments =
      scan rest insideBackticks (before ++ segment) segments := by
  induction segment generalizing before with
  | nil => rw [List.nil_append, List.append_nil]
  | cons c segment ih =>
    obtain ⟨h1, h2, h3, h4⟩ := h c List.mem_cons_self
    rw [List.cons_append, scan.eq_def]
    simp only [if_neg h1, if_neg h2, if_neg h3, if_neg h4]
    rw [ih (fun d hd => h d (List.mem_cons_of_mem c hd)), List.append_assoc]
    rfl

/-- Inside backticks an escaped character is read as itself. -/
theorem scan_escapeChar {c : Char} (h : c ≠ '\x00') (rest before : Text) (segments : List Text) :
    scan (escapeChar c ++ rest) true before segments =
      scan rest true (before ++ [c]) segments := by
  by_cases h1 : c = '\\'
  · subst h1
    rfl
  · by_cases h2 : c = '`'
    · subst h2
      rfl
    · rw [escapeChar_of_ne h1 h2, List.singleton_append, scan.eq_def]
      simp [h, h1, h2]

theorem scan_escaped {segment : Text} (h : '\x00' ∉ segment) (rest before : Text)
    (segments : List Text) :
    scan (segment.flatMap escapeChar ++ rest) true before segments =
      scan rest true (before ++ segment) segments := by
  induction segment generalizing before with
  | nil => rw [List.flatMap_nil, List.nil_append, List.append_nil]
  | cons c segment ih =>
    obtain ⟨hc, hsegment⟩ := List.ne_and_not_mem_of_not_mem_cons h
    rw [List.flatMap_cons, List.append_assoc, scan_escapeChar hc.symm, ih hsegment,
      List.append_assoc, List.singleton_append]

/-- A null ends the path inside the backticks, which fails an assertion. -/
theorem scan_escaped_of_null {segment : Text} (h : '\x00' ∈ segment) (rest before : Text)
    (segments : List Text) :
    scan (segment.flatMap escapeChar ++ rest) true before segments = none := by
  induction segment generalizing before with
  | nil => cases h
  | cons c segment ih =>
    rw [List.flatMap_cons, List.append_assoc]
    by_cases hc : c = '\x00'
    · subst hc
      exact (scan_null ..).trans (finish_true before segments)
    · rw [scan_escapeChar hc]
      exact ih ((List.mem_cons.mp h).resolve_left (Ne.symm hc)) _

/-- **One printed segment**, followed by the end or a dot. -/
theorem scan_escapedSegment (segment : Text) {rest : Text}
    (hrest : rest = [] ∨ ∃ more, rest = '.' :: more) (segments : List Text) :
    scan (escapedSegment segment ++ rest) false [] segments =
      if Readable segment then scan rest false segment segments else none := by
  unfold escapedSegment
  by_cases hid : isValidIdentifier (segment.flatMap escapeChar)
  · obtain ⟨hne, hplain⟩ := plain_of_isValidIdentifier hid
    have hsame : segment.flatMap escapeChar = segment :=
      flatMap_escapeChar_eq fun hm => (hplain _ hm).2.2.2 rfl
    rw [hsame] at hid hne hplain
    simp only [hsame, hid, if_true]
    rw [if_pos ⟨hne, fun hm => (hplain _ hm).1 rfl⟩, scan_plain hplain]
    rfl
  · simp only [if_neg hid]
    have hopen : scan ('`' :: segment.flatMap escapeChar ++ ['`'] ++ rest) false [] segments =
        scan (segment.flatMap escapeChar ++ '`' :: rest) true [] segments := by
      rw [List.append_assoc, List.cons_append, scan_backtick]
      rfl
    rw [hopen]
    by_cases hnull : '\x00' ∈ segment
    · rw [if_neg fun h => h.2 hnull, scan_escaped_of_null hnull]
    · rw [scan_escaped hnull, scan_backtick, List.nil_append, Bool.not_true]
      by_cases hne : segment = []
      · rw [if_neg fun h => h.1 hne, hne]
        rcases hrest with rfl | ⟨more, rfl⟩
        · rfl
        · exact scan_dot ..
      · rw [if_pos ⟨hne, hnull⟩]

theorem scan_canonicalString {path : List Text} (hpath : path ≠ []) (segments : List Text) :
    scan (canonicalString path) false [] segments =
      if ∀ segment ∈ path, Readable segment then some (segments ++ path) else none := by
  induction path generalizing segments with
  | nil => exact absurd rfl hpath
  | cons segment path ih =>
    cases path with
    | nil =>
      have h := scan_escapedSegment segment (Or.inl rfl) segments
      rw [List.append_nil] at h
      simp only [canonicalString, List.map_cons, List.map_nil, List.intercalate_singleton, h,
        List.mem_singleton, forall_eq]
      split
      · exact finish_false_of_ne_nil (by assumption : Readable segment).1 segments
      · rfl
    | cons next path =>
      have hsplit : canonicalString (segment :: next :: path) =
          escapedSegment segment ++ '.' :: canonicalString (next :: path) := by
        simp [canonicalString, List.intercalate_cons_cons]
      rw [hsplit, scan_escapedSegment segment (Or.inr ⟨_, rfl⟩)]
      by_cases hsegment : Readable segment
      · have hdot : scan ('.' :: canonicalString (next :: path)) false segment segments =
            scan (canonicalString (next :: path)) false [] (segments ++ [segment]) := by
          simp [scan_dot, finishSegment, hsegment.1]
        rw [if_pos hsegment, hdot, ih (List.cons_ne_nil _ _)]
        simp [hsegment]
      · rw [if_neg hsegment, if_neg]
        exact fun h => hsegment (h segment List.mem_cons_self)

/-- **Reading back what was printed.**  A field path is read back as it was if it has a segment
and no segment is empty or has a null character in it; otherwise an assertion fails. -/
theorem fromServerFormat_canonicalString (path : List Text) :
    fromServerFormat (canonicalString path) =
      if path ≠ [] ∧ ∀ segment ∈ path, Readable segment then some path else none := by
  by_cases hpath : path = []
  · subst hpath
    rfl
  · rw [fromServerFormat, scan_canonicalString hpath]
    simp [hpath]

/-! ### What the scanner accepts -/

theorem finish_eq_some {insideBackticks : Bool} {segment : Text} {segments path : List Text}
    (h : finish insideBackticks segment segments = some path) :
    segment ≠ [] ∧ path = segments ++ [segment] := by
  cases insideBackticks with
  | true => rw [finish_true] at h; cases h
  | false =>
    by_cases hs : segment = []
    · simp [finish, finishSegment, hs] at h
    · rw [finish_false_of_ne_nil hs] at h
      exact ⟨hs, (Option.some.inj h).symm⟩

/-- Every segment that is accepted is readable, if there is no null to be seen. -/
theorem scan_readable {text : Text} {insideBackticks : Bool} {segment : Text}
    {segments path : List Text} (h : scan text insideBackticks segment segments = some path)
    (htext : '\x00' ∉ text) (hsegment : '\x00' ∉ segment)
    (hsegments : ∀ s ∈ segments, Readable s) : path ≠ [] ∧ ∀ s ∈ path, Readable s := by
  have last {segment : Text} {segments : List Text} (hne : segment ≠ [])
      (hnull : '\x00' ∉ segment) (hsegments : ∀ s ∈ segments, Readable s) :
      ∀ s ∈ segments ++ [segment], Readable s := by
    intro s hs
    rcases List.mem_append.mp hs with hs | hs
    · exact hsegments s hs
    · exact List.mem_singleton.mp hs ▸ ⟨hne, hnull⟩
  have snoc {segment : Text} {c : Char} (hnull : '\x00' ∉ segment) (hc : '\x00' ≠ c) :
      '\x00' ∉ segment ++ [c] := by
    simp [hnull, hc]
  fun_induction scan text insideBackticks segment segments with
  | case1 insideBackticks segment segments | case2 insideBackticks segment segments =>
    obtain ⟨hne, rfl⟩ := finish_eq_some h
    exact ⟨by simp, last hne hsegment hsegments⟩
  | case3 rest segment segments _ ih | case8 c rest insideBackticks segment segments _ _ _ _ ih =>
    simp only [List.mem_cons, not_or] at htext
    exact ih h htext.2 (snoc hsegment htext.1) hsegments
  | case4 rest insideBackticks segment segments _ _ ih =>
    obtain ⟨segments', hfinish, h⟩ := Option.bind_eq_some_iff.mp h
    refine ih segments' h (fun hm => htext (List.mem_cons_of_mem _ hm)) List.not_mem_nil ?_
    unfold finishSegment at hfinish
    split at hfinish
    · cases hfinish
    · obtain rfl := Option.some.inj hfinish
      exact last (by simpa using ‹¬ segment.isEmpty = true›) hsegment hsegments
  | case5 rest insideBackticks segment segments _ _ ih =>
    exact ih h (fun hm => htext (List.mem_cons_of_mem _ hm)) hsegment hsegments
  | case6 => cases h
  | case7 insideBackticks segment segments c rest _ _ _ ih =>
    simp only [List.mem_cons, not_or] at htext
    exact ih h htext.2.2 (snoc hsegment htext.2.1) hsegments

theorem fromServerFormat_readable {text : Text} {path : List Text}
    (h : fromServerFormat text = some path) (htext : '\x00' ∉ text) :
    path ≠ [] ∧ ∀ segment ∈ path, Readable segment :=
  scan_readable h htext List.not_mem_nil (by simp)

theorem fromDotSeparatedString_eq_some {text : Text} {path : List Text} :
    fromDotSeparatedString text = some path ↔
      (∀ c ∈ text, c ∉ reserved) ∧ path = text.splitOn '.' ∧ ∀ segment ∈ path, segment ≠ [] := by
  unfold fromDotSeparatedString
  by_cases hreserved : text.any (· ∈ reserved)
  · rw [if_pos hreserved]
    obtain ⟨c, hc, hc'⟩ := List.any_eq_true.mp hreserved
    exact iff_of_false (by simp) fun h => h.1 c hc (of_decide_eq_true hc')
  · have hfree : ∀ c ∈ text, c ∉ reserved := by simpa using hreserved
    rw [if_neg hreserved]
    by_cases hempty : (text.splitOn '.').any List.isEmpty
    · rw [if_pos hempty]
      obtain ⟨segment, hs, hs'⟩ := List.any_eq_true.mp hempty
      refine iff_of_false (by simp) ?_
      rintro ⟨-, rfl, hne⟩
      exact hne segment hs (List.isEmpty_iff.mp hs')
    · have hne : ∀ segment ∈ text.splitOn '.', segment ≠ [] := by
        intro segment hs he
        exact hempty (List.any_eq_true.mpr ⟨segment, hs, by simp [he]⟩)
      rw [if_neg hempty, Option.some.injEq]
      constructor
      · rintro rfl
        exact ⟨hfree, rfl, hne⟩
      · rintro ⟨-, rfl, -⟩
        rfl

/-- **Field paths survive the way to the server and back.**  A path that was printed is read
back as it was exactly if it has a segment and none of them is empty or has a null in it.
So is every path that was read from a text without nulls, and every key of an update,
whose segments are the parts of the key between the dots. -/
theorem fieldPaths_round_trip :
    (∀ path : List Text, fromServerFormat (canonicalString path) = some path ↔
      path ≠ [] ∧ ∀ segment ∈ path, Readable segment) ∧
    (∀ (text : Text) (path : List Text), '\x00' ∉ text → fromServerFormat text = some path →
      fromServerFormat (canonicalString path) = some path) ∧
    (∀ (text : Text) (path : List Text), '\x00' ∉ text → fromDotSeparatedString text = some path →
      fromServerFormat (canonicalString path) = some path ∧ ['.'].intercalate path = text) := by
  have hiff (path : List Text) : fromServerFormat (canonicalString path) = some path ↔
      path ≠ [] ∧ ∀ segment ∈ path, Readable segment := by
    rw [fromServerFormat_canonicalString]
    split <;> simp_all
  refine ⟨hiff, fun text path htext h => (hiff path).mpr (fromServerFormat_readable h htext), ?_⟩
  intro text path htext h
  obtain ⟨-, rfl, hne⟩ := fromDotSeparatedString_eq_some.mp h
  refine ⟨(hiff _).mpr ⟨List.splitOn_ne_nil _ _, fun segment hs => ⟨hne segment hs, ?_⟩⟩,
    List.intercalate_splitOn '.'⟩
  exact fun hnull => htext (List.mem_of_mem_splitOn hs hnull)

/-- The key of an update of a nested field. -/
theorem fieldPaths_round_trip_nested :
    fromServerFormat (canonicalString ["alumno".toList, "1er apellido".toList]) =
      some ["alumno".toList, "1er apellido".toList] :=
  (fieldPaths_round_trip.2.2 "alumno.1er apellido".toList _ (by simp) (by rfl)).1

end FieldPath

end Musgravite.Firestore
