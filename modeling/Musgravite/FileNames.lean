import Musgravite.LabDetail

/-! # Names of files

The cells for videos and documents show a file by its name and its extension, which
`extractAndBreakFilenameInComponents` takes from the path of its URL: the first two of the
parts between dots.

`extract_eq_some_iff` says what that gives in terms of the name, and `same_pair_iff` which
names it does not tell apart.  `filenames_split_iff` says for which files nothing is lost:
exactly for those whose name has one dot. -/
namespace Musgravite
open SchoolSearchVM

/-! ## The first two parts -/

/-- Up to its second dot, or its end, the name is `name.ext`. -/
def BeginsWith (fileName name ext : List Char) : Prop :=
  '.' ∉ name ∧ '.' ∉ ext ∧
    (fileName = name ++ '.' :: ext ∨ ∃ rest, fileName = name ++ '.' :: (ext ++ '.' :: rest))

variable {path path₁ path₂ name ext : String} {fileName : List Char}

theorem exists_beginsWith (h : '.' ∈ fileName) : ∃ name ext, BeginsWith fileName name ext := by
  obtain ⟨name, tail, rfl, hname⟩ := List.eq_append_cons_of_mem h
  by_cases htail : '.' ∈ tail
  · obtain ⟨ext, rest, rfl, hext⟩ := List.eq_append_cons_of_mem htail
    exact ⟨name, ext, hname, hext, Or.inr ⟨rest, rfl⟩⟩
  · exact ⟨name, tail, hname, htail, Or.inl rfl⟩

theorem BeginsWith.mem {name ext : List Char} (h : BeginsWith fileName name ext) :
    '.' ∈ fileName := by
  obtain ⟨-, -, rfl | ⟨rest, rfl⟩⟩ := h
  · simp
  · simp

/-- The parts of such a name. -/
theorem BeginsWith.splitOn {name ext : List Char} (h : BeginsWith fileName name ext) :
    ∃ rest, fileName.splitOn '.' = name :: ext :: rest := by
  obtain ⟨hname, hext, rfl | ⟨rest, rfl⟩⟩ := h
  · exact ⟨[], by rw [List.splitOn_append_cons_self_of_not_mem hname,
      List.splitOn_eq_singleton hext]⟩
  · exact ⟨rest.splitOn '.', by rw [List.splitOn_append_cons_self_of_not_mem hname,
      List.splitOn_append_cons_self_of_not_mem hext]⟩

theorem BeginsWith.extract {name ext : List Char}
    (h : BeginsWith (lastComponent path).toList name ext) :
    extractAndBreakFilenameInComponents path = some (String.ofList name, String.ofList ext) := by
  obtain ⟨rest, hparts⟩ := h.splitOn
  have hcomponents : components (lastComponent path) '.' =
      String.ofList name :: String.ofList ext :: rest.map String.ofList := by
    rw [components, hparts]
    rfl
  simp [extractAndBreakFilenameInComponents, getLast?_components, hcomponents]

/-- **What the name and the extension are.** -/
theorem extract_eq_some_iff : extractAndBreakFilenameInComponents path = some (name, ext) ↔
    BeginsWith (lastComponent path).toList name.toList ext.toList := by
  constructor
  · intro h
    obtain ⟨name', ext', hbegins⟩ := exists_beginsWith
      ((extractAndBreak_isSome_iff path).mp (by rw [h]; rfl))
    obtain ⟨rfl, rfl⟩ := Prod.mk.inj (Option.some.inj (hbegins.extract.symm.trans h))
    simpa using hbegins
  · intro h
    simpa using h.extract

/-- **Names that are not told apart**: those that agree up to the second dot. -/
theorem same_pair_iff :
    (∃ pair, extractAndBreakFilenameInComponents path₁ = some pair ∧
      extractAndBreakFilenameInComponents path₂ = some pair) ↔
    ∃ name ext, BeginsWith (lastComponent path₁).toList name ext ∧
      BeginsWith (lastComponent path₂).toList name ext := by
  constructor
  · rintro ⟨⟨name, ext⟩, h₁, h₂⟩
    exact ⟨name.toList, ext.toList, extract_eq_some_iff.mp h₁, extract_eq_some_iff.mp h₂⟩
  · rintro ⟨name, ext, h₁, h₂⟩
    exact ⟨_, h₁.extract, h₂.extract⟩

/-! ## Names with one dot -/

/-- A name with one dot is what it begins with. -/
theorem BeginsWith.eq_of_count {name ext : List Char} (h : BeginsWith fileName name ext)
    (hcount : fileName.count '.' = 1) : fileName = name ++ '.' :: ext := by
  obtain ⟨hname, hext, rfl | ⟨rest, rfl⟩⟩ := h
  · rfl
  · simp only [List.count_append, List.count_cons_self] at hcount
    omega

theorem count_eq_one {name ext : List Char} (hname : '.' ∉ name) (hext : '.' ∉ ext) :
    (name ++ '.' :: ext).count '.' = 1 := by
  rw [List.count_append, List.count_cons_self, List.count_eq_zero.mpr hname,
    List.count_eq_zero.mpr hext]

/-- A file name comes apart without loss: at its last dot, or not at all if it has none. -/
def SplitsWithoutLoss (fileName : String) (parts : Option (String × String)) : Prop :=
  ∃ name ext, parts = some (name, ext) ∧
    if '.' ∈ fileName.toList then '.' ∉ ext.toList ∧ name ++ "." ++ ext = fileName
    else name = fileName ∧ ext = ""

theorem splitsWithoutLoss_iff :
    SplitsWithoutLoss (lastComponent path) (extractAndBreakFilenameInComponents path) ↔
      (lastComponent path).toList.count '.' = 1 := by
  constructor
  · rintro ⟨name, ext, hparts, hsplit⟩
    have hbegins := extract_eq_some_iff.mp hparts
    rw [if_pos hbegins.mem] at hsplit
    obtain ⟨hext, hjoin⟩ := hsplit
    rw [← hjoin, String.toList_append, String.toList_append, List.append_assoc]
    exact count_eq_one hbegins.1 hext
  · intro hcount
    have hdot : '.' ∈ (lastComponent path).toList := List.count_pos_iff.mp (by omega)
    obtain ⟨name, ext, hbegins⟩ := exists_beginsWith hdot
    refine ⟨String.ofList name, String.ofList ext, hbegins.extract, ?_⟩
    rw [if_pos hdot]
    refine ⟨by simpa using hbegins.2.1, String.toList_inj.mp ?_⟩
    rw [hbegins.eq_of_count hcount]
    simp

/-- Names with one dot are told apart. -/
theorem eq_of_same_pair {pair : String × String}
    (h₁ : extractAndBreakFilenameInComponents path₁ = some pair)
    (h₂ : extractAndBreakFilenameInComponents path₂ = some pair)
    (hcount₁ : (lastComponent path₁).toList.count '.' = 1)
    (hcount₂ : (lastComponent path₂).toList.count '.' = 1) :
    lastComponent path₁ = lastComponent path₂ := by
  obtain ⟨name, ext, hbegins₁, hbegins₂⟩ := same_pair_iff.mp ⟨pair, h₁, h₂⟩
  exact String.toList_inj.mp
    ((hbegins₁.eq_of_count hcount₁).trans (hbegins₂.eq_of_count hcount₂).symm)

/-! ## The files of a classroom -/

section Files
variable {URL : Type} (urls : URLs URL)

/-- The text is a URL, and its path ends in a name. -/
def Named (uri : String) : Prop :=
  ∃ url, urls.url uri = some url ∧ lastComponent (urls.path url) ≠ ""

/-- The files are shown by their names and extensions, and nothing is lost. -/
structure FilenamesSplit (uris : List String) : Prop where
  split : ∀ uri ∈ uris, ∀ url ∈ urls.url uri, SplitsWithoutLoss (lastComponent (urls.path url))
    (extractAndBreakFilenameInComponents (urls.path url))
  video : ∀ item < uris.length, ((Cell.video (some uris)).cellForItemAt urls item).isSome
  document : ∀ item < uris.length, ((Cell.resources (some uris)).cellForItemAt urls item).isSome
  /-- Two names with the same name and extension differ in a dot at the end at most. -/
  distinct : ∀ uri₁ ∈ uris, ∀ uri₂ ∈ uris, ∀ url₁ ∈ urls.url uri₁, ∀ url₂ ∈ urls.url uri₂,
    ∀ pair, extractAndBreakFilenameInComponents (urls.path url₁) = some pair →
      extractAndBreakFilenameInComponents (urls.path url₂) = some pair →
        lastComponent (urls.path url₁) = lastComponent (urls.path url₂) ∨
          lastComponent (urls.path url₁) = lastComponent (urls.path url₂) ++ "." ∨
          lastComponent (urls.path url₂) = lastComponent (urls.path url₁) ++ "."

end Files

/-- **Which files are shown without loss**: those whose name has exactly one dot. -/
theorem filenames_split_iff {URL : Type} (urls : URLs URL) (uris : List String)
    (hnamed : ∀ uri ∈ uris, Named urls uri) :
    FilenamesSplit urls uris ↔ ∀ uri ∈ uris, ∀ url ∈ urls.url uri,
      (lastComponent (urls.path url)).toList.count '.' = 1 := by
  constructor
  · intro h uri huri url hurl
    exact splitsWithoutLoss_iff.mp (h.split uri huri url hurl)
  · intro h
    have hshown : ∀ (f : String → Medium) item, item < uris.length →
        (uris[item]?.bind fun uri => (Cell.title urls uri).map fun _ => f uri).isSome := by
      intro f item hitem
      have hmem := List.getElem_mem hitem
      obtain ⟨url, hurl, -⟩ := hnamed _ hmem
      have hdot : '.' ∈ (lastComponent (urls.path url)).toList :=
        List.count_pos_iff.mp (by rw [h _ hmem url hurl]; exact Nat.one_pos)
      have htitle := title_isSome_iff.mpr ⟨url, hurl, hdot⟩
      simpa [List.getElem?_eq_getElem hitem] using htitle
    refine ⟨fun uri huri url hurl => splitsWithoutLoss_iff.mpr (h uri huri url hurl),
      hshown .video, hshown .document, ?_⟩
    intro uri₁ huri₁ uri₂ huri₂ url₁ hurl₁ url₂ hurl₂ pair h₁ h₂
    exact Or.inl (eq_of_same_pair h₁ h₂ (h uri₁ huri₁ url₁ hurl₁) (h uri₂ huri₂ url₂ hurl₂))

theorem filenames_split_sample :
    FilenamesSplit httpsURLs ["https://a/docs/plano.pdf", "https://a/docs/plano.docx"] := by
  refine (filenames_split_iff httpsURLs _ fun uri huri => ?_).mpr fun uri huri url hurl => ?_
  · simp only [List.mem_cons, List.not_mem_nil, or_false] at huri
    rcases huri with rfl | rfl
    · exact ⟨_, rfl, by decide +kernel⟩
    · exact ⟨_, rfl, by decide +kernel⟩
  · simp only [List.mem_cons, List.not_mem_nil, or_false] at huri
    rcases huri with rfl | rfl
    · obtain rfl := Option.some.inj hurl
      decide +kernel
    · obtain rfl := Option.some.inj hurl
      decide +kernel

/-- A name without a dot traps; of a name with two dots the end is lost, and with it the
difference to another name. -/
theorem filenames_not_split :
    extractAndBreakFilenameInComponents "/docs/plano" = none ∧
      extractAndBreakFilenameInComponents "/docs/plano.v2.pdf" = some ("plano", "v2") ∧
      extractAndBreakFilenameInComponents "/docs/plano.v2.docx" = some ("plano", "v2") ∧
      ¬ FilenamesSplit httpsURLs ["https://a/docs/plano.v2.pdf"] ∧
      ¬ FilenamesSplit httpsURLs ["https://a/docs/plano"] := by
  refine ⟨by decide, by decide, by decide, fun h => ?_, fun h => ?_⟩
  · obtain ⟨name, ext, hparts, hsplit⟩ := h.split _ List.mem_cons_self _ rfl
    obtain ⟨rfl, rfl⟩ := Prod.mk.inj (Option.some.inj (hparts.symm.trans
      (show _ = some ("plano", "v2") by decide +kernel)))
    revert hsplit
    decide +kernel
  · exact absurd (h.video 0 Nat.one_pos) (by decide +kernel)

end Musgravite
