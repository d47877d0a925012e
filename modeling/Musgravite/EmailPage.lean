import Musgravite.Library.Patterns
import Musgravite.Onboarding

/-! # The email page

`isInputValid` looks for two patterns in the text, one for each domain, and accepts the
text if exactly one of them occurs.  They are searched for, not matched against the whole
text, and the dots in them stand for any letter.

`isInputValid_address_iff` says for which texts this accepts the institutional addresses
and nothing else. -/
namespace Musgravite
open Pattern

namespace NSRegularExpression

/-- What `.` does not stand for. -/
def isLineTerminator (c : Char) : Bool :=
  c ∈ ['\n', '\x0b', '\x0c', '\r', '\u0085', '\u2028', '\u2029']

/-- `.` -/
def anyCharacter : Piece Char := { accepts := fun c => !isLineTerminator c }

/-- Characters with a meaning of their own in a pattern. -/
def isSyntax (c : Char) : Bool :=
  c ∈ ['*', '?', '+', '[', ']', '(', ')', '\x7b', '\x7d', '^', '$', '|', '\\', '.']

variable (isWordCharacter : Char → Bool)

/-- Reads what the two patterns are made of: letters, `.`, `[\w]` and `+`.  The pieces read
before come last first. -/
def pieces : List (Piece Char) → List Char → Option (List (Piece Char))
  | done, [] => some done.reverse
  | p :: done, '+' :: cs =>
      if p.repeated then none else pieces ({ p with repeated := true } :: done) cs
  | done, '[' :: '\\' :: 'w' :: ']' :: cs => pieces ({ accepts := isWordCharacter } :: done) cs
  | done, '.' :: cs => pieces (anyCharacter :: done) cs
  | done, c :: cs => if isSyntax c then none else pieces (letter c :: done) cs

/-- `NSRegularExpression(pattern:options:)`. -/
def ofPattern (pattern : String) : Option (List (Piece Char)) :=
  pieces isWordCharacter [] pattern.toList

end NSRegularExpression

variable (isWordCharacter : Char → Bool)

/-- `text.matchesRegex(regex:)`: there is a match somewhere. -/
def matchesRegex (text regex : String) : Bool :=
  match NSRegularExpression.ofPattern isWordCharacter regex with
  | none => false
  | some regex => occursIn regex text.toList

namespace TextFieldBulletinPage

def isInputValid (text : Option String) : Bool :=
  match text with
  | none => false
  | some text =>
      if text.isEmpty || !(matchesRegex isWordCharacter text "[\\w]+@itesm.mx" !=
          matchesRegex isWordCharacter text "[\\w]+@tec.mx") then false
      else true

/-! ## Which texts are accepted -/

/-- The text is an institutional address: word characters, and one of the two domains. -/
def IsInstitutional (text : String) : Prop :=
  ∃ name : List Char, name ≠ [] ∧ (∀ c ∈ name, isWordCharacter c = true) ∧
    (text.toList = name ++ "@itesm.mx".toList ∨ text.toList = name ++ "@tec.mx".toList)

/-- Somewhere in the text a word character is followed by `@`, the word `domain`, any
character and `mx`. -/
def Mentions (domain text : String) : Prop :=
  ∃ w c, isWordCharacter w = true ∧ NSRegularExpression.isLineTerminator c = false ∧
    w :: '@' :: (domain.toList ++ c :: "mx".toList) <:+: text.toList

/-- The pattern `[\w]+@domain.mx`. -/
def addressPattern (domain : String) : List (Piece Char) :=
  { accepts := isWordCharacter, repeated := true } ::
    (('@' :: domain.toList).map letter ++
      NSRegularExpression.anyCharacter :: "mx".toList.map letter)

theorem ofPattern_itesm : NSRegularExpression.ofPattern isWordCharacter "[\\w]+@itesm.mx" =
    some (addressPattern isWordCharacter "itesm") := rfl

theorem ofPattern_tec : NSRegularExpression.ofPattern isWordCharacter "[\\w]+@tec.mx" =
    some (addressPattern isWordCharacter "tec") := rfl

variable {isWordCharacter} {domain text : String}

/-- What follows the word characters in a match. -/
theorem mem_language_addressPattern {v : List Char} :
    v ∈ language (('@' :: domain.toList).map letter ++
      NSRegularExpression.anyCharacter :: "mx".toList.map letter) ↔
        ∃ c, NSRegularExpression.isLineTerminator c = false ∧
          v = '@' :: (domain.toList ++ c :: "mx".toList) := by
  constructor
  · intro h
    obtain ⟨front, hfront, back, hback, rfl⟩ := mem_language_append.mp h
    obtain rfl := mem_language_letters.mp hfront
    obtain ⟨any, hany, last, hlast, rfl⟩ := mem_language_cons.mp hback
    obtain ⟨c, rfl, hc⟩ := (mem_language_single rfl).mp hany
    obtain rfl := mem_language_letters.mp hlast
    exact ⟨c, by simpa [NSRegularExpression.anyCharacter] using hc, rfl⟩
  · rintro ⟨c, hc, rfl⟩
    refine mem_language_append.mpr ⟨'@' :: domain.toList, mem_language_letters.mpr rfl,
      c :: "mx".toList, cons_mem_language.mpr ⟨?_, Or.inl (mem_language_letters.mpr rfl)⟩, rfl⟩
    simp [NSRegularExpression.anyCharacter, hc]

theorem occursIn_addressPattern :
    occursIn (addressPattern isWordCharacter domain) text.toList = true ↔
      Mentions isWordCharacter domain text := by
  rw [addressPattern, occursIn_repeated]
  constructor
  · rintro ⟨w, v, hw, hv, hinside⟩
    obtain ⟨c, hc, rfl⟩ := mem_language_addressPattern.mp hv
    exact ⟨w, c, hw, hc, hinside⟩
  · rintro ⟨w, c, hw, hc, hinside⟩
    exact ⟨w, _, hw, mem_language_addressPattern.mpr ⟨c, hc, rfl⟩, hinside⟩

theorem not_mentions_empty : ¬ Mentions isWordCharacter domain "" := by
  rintro ⟨w, c, -, -, hinside⟩
  cases List.infix_nil.mp hinside

theorem matchesRegex_itesm : matchesRegex isWordCharacter text "[\\w]+@itesm.mx" = true ↔
    Mentions isWordCharacter "itesm" text := by
  rw [matchesRegex, ofPattern_itesm]
  exact occursIn_addressPattern

theorem matchesRegex_tec : matchesRegex isWordCharacter text "[\\w]+@tec.mx" = true ↔
    Mentions isWordCharacter "tec" text := by
  rw [matchesRegex, ofPattern_tec]
  exact occursIn_addressPattern

theorem isInputValid_some : isInputValid isWordCharacter (some text) =
    (text ≠ "" && (matchesRegex isWordCharacter text "[\\w]+@itesm.mx" !=
      matchesRegex isWordCharacter text "[\\w]+@tec.mx")) := by
  simp only [isInputValid]
  by_cases hempty : text = ""
  · simp [hempty]
  · rw [show text.isEmpty = false by simpa using hempty]
    cases matchesRegex isWordCharacter text "[\\w]+@itesm.mx" <;>
      cases matchesRegex isWordCharacter text "[\\w]+@tec.mx" <;> simp [hempty]

/-- **What the page accepts**: the texts in which one of the two patterns occurs, and the
other does not. -/
theorem isInputValid_iff : isInputValid isWordCharacter (some text) = true ↔
    ¬ (Mentions isWordCharacter "itesm" text ↔ Mentions isWordCharacter "tec" text) := by
  have hone : (matchesRegex isWordCharacter text "[\\w]+@itesm.mx" !=
      matchesRegex isWordCharacter text "[\\w]+@tec.mx") = true ↔
      ¬ (Mentions isWordCharacter "itesm" text ↔ Mentions isWordCharacter "tec" text) := by
    rw [bne_iff_ne, Ne, Bool.eq_iff_iff, matchesRegex_itesm, matchesRegex_tec]
  rw [isInputValid_some, Bool.and_eq_true, decide_eq_true_iff, hone]
  refine and_iff_right_of_imp fun h hempty => h ?_
  simp only [hempty, not_mentions_empty]

/-- In an address the patterns can only occur at its one `@`. -/
theorem mentions_address (domain : String) (hat : isWordCharacter '@' = false)
    {name rest : List Char} (hne : name ≠ []) (hname : ∀ c ∈ name, isWordCharacter c = true)
    (hrest : '@' ∉ rest) (htext : text.toList = name ++ '@' :: rest) :
    Mentions isWordCharacter domain text ↔
      ∃ c, NSRegularExpression.isLineTerminator c = false ∧
        domain.toList ++ c :: "mx".toList <+: rest := by
  have hnot : '@' ∉ name := by
    intro h
    rw [hname _ h] at hat
    cases hat
  constructor
  · rintro ⟨w, c, hw, hc, before, after, hinside⟩
    refine ⟨c, hc, after, ?_⟩
    have hsplit : name ++ '@' :: rest =
        (before ++ [w]) ++ '@' :: ((domain.toList ++ c :: "mx".toList) ++ after) := by
      rw [← htext, ← hinside]
      simp
    exact ((List.append_cons_inj_of_notMem hnot hrest).mp hsplit).2.2.symm
  · rintro ⟨c, hc, after, rfl⟩
    refine ⟨name.getLast hne, c, hname _ (List.getLast_mem hne), hc, name.dropLast, after, ?_⟩
    rw [htext]
    nth_rewrite 3 [← List.dropLast_concat_getLast hne]
    simp

/-- An address mentions its own domain only. -/
theorem IsInstitutional.mentions (hat : isWordCharacter '@' = false)
    (h : IsInstitutional isWordCharacter text) :
    ¬ (Mentions isWordCharacter "itesm" text ↔ Mentions isWordCharacter "tec" text) := by
  obtain ⟨name, hne, hname, htext | htext⟩ := h
  · have hrest : '@' ∉ "itesm.mx".toList := by decide
    have hmentions := fun domain => mentions_address domain hat hne hname hrest htext
    rw [hmentions, hmentions]
    intro h
    obtain ⟨c, -, hfront⟩ := h.mp ⟨'.', rfl, List.prefix_rfl⟩
    cases (List.cons_prefix_cons.mp hfront).1
  · have hrest : '@' ∉ "tec.mx".toList := by decide
    have hmentions := fun domain => mentions_address domain hat hne hname hrest htext
    rw [hmentions, hmentions]
    intro h
    obtain ⟨c, -, hfront⟩ := h.mpr ⟨'.', rfl, List.prefix_rfl⟩
    cases (List.cons_prefix_cons.mp hfront).1

/-- **When the page accepts the institutional addresses and nothing else**: exactly for the
addresses, and for the texts in which both patterns occur or none. -/
theorem isInputValid_address_iff (isWordCharacter : Char → Bool) (text : String)
    (hat : isWordCharacter '@' = false) :
    (isInputValid isWordCharacter (some text) = true ↔ IsInstitutional isWordCharacter text) ↔
      (IsInstitutional isWordCharacter text ∨
        (Mentions isWordCharacter "itesm" text ↔ Mentions isWordCharacter "tec" text)) := by
  rw [isInputValid_iff]
  have haddress : IsInstitutional isWordCharacter text →
      ¬ (Mentions isWordCharacter "itesm" text ↔ Mentions isWordCharacter "tec" text) :=
    IsInstitutional.mentions hat
  tauto

/-- ASCII word characters. -/
def isWord (c : Char) : Bool := c.isAlphanum || c == '_'

theorem isInputValid_address_tec : isInputValid isWord (some "a1@tec.mx") = true ↔
    IsInstitutional isWord "a1@tec.mx" :=
  (isInputValid_address_iff isWord "a1@tec.mx" rfl).mpr
    (Or.inl ⟨['a', '1'], List.cons_ne_nil _ _, by simp [isWord], Or.inr rfl⟩)

/-- Another domain, text around the address and another character for the dot pass; an
address followed by one of the other domain does not. -/
theorem isInputValid_other_domain :
    isInputValid isWord (some "a1@tec.mx.example.com") = true ∧
      isInputValid isWord (some "to a1@itesm.mx") = true ∧
      isInputValid isWord (some "a1@itesm-mx") = true ∧
      isInputValid isWord (some "a1@tec.mx, a1@itesm.mx") = false ∧
      ¬ IsInstitutional isWord "a1@tec.mx.example.com" := by
  refine ⟨by decide, by decide, by decide, by decide, ?_⟩
  rintro ⟨name, -, -, htext | htext⟩
  · simpa using congrArg List.getLast? htext
  · simpa using congrArg List.getLast? htext

end TextFieldBulletinPage

/-- The onboarding bulletin asks about the text in the same way. -/
theorem Onboarding.isEmailValid_eq (text : String) :
    Onboarding.isEmailValid (matchesRegex isWordCharacter) text =
      TextFieldBulletinPage.isInputValid isWordCharacter (some text) :=
  TextFieldBulletinPage.isInputValid_some.symm

end Musgravite
