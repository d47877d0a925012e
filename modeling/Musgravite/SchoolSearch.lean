import Musgravite.Models
import Musgravite.Library.Groups
import Musgravite.Library.TransitionSystem

/-! # The classroom search screen

`SchoolSearchViewController` keeps six fields that depend on one another.  A
download replaces `salones` and recomputes the table of the selected floor and the
floor cards; a tap on a card recomputes that table; a change of the search text
recomputes the table of matches.  `SchoolSearch.ShowsRequest` says what they should
agree on: while searching, the table of matches is that of the last text; otherwise
the selected floor is one of the cards, and the cards and the table are those of the
downloaded classrooms.

`floorCards_partition` says that the tables of the floor cards hold the downloaded
classrooms, each in one of them.  `showsRequest_throughout_iff` gives the exact
condition on the steps of a run under which the fields agree throughout. -/
namespace Musgravite

/-! ## `SchoolSearchVM` -/

namespace SchoolSearchVM

/-- Swift's division of integers rounds towards zero. -/
def getFloorNumber (salon : Salon) : Int := salon.numero.tdiv 100

def getFloors (salones : List Salon) : List Int :=
  salones.foldl (fun floors salon =>
    let floor := getFloorNumber salon
    if !floors.contains floor then floors ++ [floor] else floors) []

theorem getFloors_eq_eraseDups (salones : List Salon) :
    getFloors salones = (salones.map getFloorNumber).eraseDups :=
  List.foldl_append_unless_contains getFloorNumber salones

/-- The floors are those of the classrooms. -/
theorem mem_getFloors {salones : List Salon} {floor : Int} :
    floor ∈ getFloors salones ↔ ∃ salon ∈ salones, getFloorNumber salon = floor := by
  rw [getFloors_eq_eraseDups, List.mem_eraseDups, List.mem_map]

end SchoolSearchVM

open SchoolSearchVM

/-! ## The screen -/

/-- The two operations on strings that the search uses, `lowercased()` and
`contains(_:)`. -/
structure StringSearch where
  lowercased : String → String
  contains : String → String → Bool

/-- The classroom is one that a search for `text` looks for. -/
def StringSearch.matching (str : StringSearch) (text : String) (salon : Salon) : Bool :=
  str.contains (str.lowercased salon.nombre) (str.lowercased text)

/-- A `SchoolSearchViewController`, with the text it was last asked for and the
number of downloads in progress. -/
structure SchoolSearch where
  searchActive : Bool := false
  filteredSalones : Option (List Salon) := none
  salones : List Salon := []
  salonests : List Salon := []
  pisos : List Int := [1]
  selectedFloor : Int := 1
  searchText : String := ""
  downloads : Nat := 0

namespace SchoolSearch

def filterClassrooms (self : SchoolSearch) : SchoolSearch :=
  { self with salonests := self.salones.filter fun salon =>
      getFloorNumber salon == self.selectedFloor }

/-- The table after a tap on the card of a floor. -/
def classroomsOn (self : SchoolSearch) (floor : Int) : List Salon :=
  { self with selectedFloor := floor }.filterClassrooms.salonests

def viewWillAppear (self : SchoolSearch) : SchoolSearch :=
  { self with downloads := self.downloads + 1 }

/-- The completion block of `getClassroomData`; `fatalError` on `nil`. -/
def classroomsDownloaded (self : SchoolSearch) (salones : Option (List Salon)) :
    Option SchoolSearch :=
  salones.map fun salones =>
    let self := { self with salones := salones }.filterClassrooms
    { self with pisos := getFloors salones }

def updateSearchResults (str : StringSearch) (self : SchoolSearch) (text : Option String) :
    SchoolSearch :=
  let self := { self with searchText := text.getD "" }
  if self.searchText.isEmpty then
    { self with searchActive := false, filteredSalones := some [] }
  else
    { self with
      filteredSalones := some (self.salones.filter (str.matching self.searchText))
      searchActive := true }

/-- A tap on the card of a floor. -/
def didSelectItemAt (self : SchoolSearch) (item : Nat) : Option SchoolSearch :=
  self.pisos[item]?.map fun piso => { self with selectedFloor := piso }.filterClassrooms

/-- The rows of the table; `filteredSalones!` traps on `nil`. -/
def rows (self : SchoolSearch) : Option (List Salon) :=
  if self.searchActive then self.filteredSalones else some self.salonests

/-- What can happen on the screen. -/
inductive Event
  | viewWillAppear
  /-- One of the downloads in progress is answered. -/
  | downloaded (salones : Option (List Salon))
  | updateSearchResults (text : Option String)
  | didSelectItemAt (item : Nat)

/-- The screen after an event, `none` if it cannot happen or stops the app. -/
def step (str : StringSearch) (self : SchoolSearch) : Event → Option SchoolSearch
  | .viewWillAppear => some self.viewWillAppear
  | .downloaded salones =>
      if self.downloads = 0 then none
      else { self with downloads := self.downloads - 1 }.classroomsDownloaded salones
  | .updateSearchResults text => some (self.updateSearchResults str text)
  | .didSelectItemAt item => self.didSelectItemAt item

end SchoolSearch

/-- The search screen. -/
def schoolSearch (str : StringSearch) : TransitionSystem SchoolSearch SchoolSearch.Event :=
  ⟨SchoolSearch.step str⟩

/-- **The floor cards partition the classrooms.**  Each floor has one card, in order of
first occurrence; the tables of the cards together hold the classrooms, each as often as
it was downloaded and in one table; and each table keeps their order and is not empty. -/
theorem floorCards_partition (self : SchoolSearch) :
    (getFloors self.salones).Nodup ∧
    (getFloors self.salones).Pairwise (fun floor later =>
      (self.salones.map getFloorNumber).idxOf floor <
        (self.salones.map getFloorNumber).idxOf later) ∧
    (∀ floor, floor ∈ getFloors self.salones ↔
      ∃ salon ∈ self.salones, getFloorNumber salon = floor) ∧
    ((getFloors self.salones).flatMap self.classroomsOn).Perm self.salones ∧
    (∀ salon ∈ self.salones,
      ∃! floor, floor ∈ getFloors self.salones ∧ salon ∈ self.classroomsOn floor) ∧
    ∀ floor ∈ getFloors self.salones,
      (self.classroomsOn floor).Sublist self.salones ∧ self.classroomsOn floor ≠ [] := by
  have hnodup : (getFloors self.salones).Nodup := by
    rw [getFloors_eq_eraseDups]
    exact List.nodup_eraseDups _
  have hfloor : ∀ salon ∈ self.salones, getFloorNumber salon ∈ getFloors self.salones :=
    fun salon hsalon => mem_getFloors.mpr ⟨salon, hsalon, rfl⟩
  refine ⟨hnodup, ?_, fun _ => mem_getFloors, List.flatMap_filter_perm getFloorNumber hnodup hfloor,
    fun salon hsalon => ?_, fun floor hmem => ⟨List.filter_sublist, ?_⟩⟩
  · rw [getFloors_eq_eraseDups]
    exact List.pairwise_eraseDups _
  · refine ⟨getFloorNumber salon, ⟨hfloor salon hsalon, ?_⟩, ?_⟩
    · exact (List.mem_filter_key_iff getFloorNumber).mpr ⟨hsalon, rfl⟩
    · rintro floor ⟨-, hon⟩
      exact ((List.mem_filter_key_iff getFloorNumber).mp hon).2
  · obtain ⟨salon, hsalon, hnumber⟩ := mem_getFloors.mp hmem
    exact List.ne_nil_of_mem
      ((List.mem_filter_key_iff getFloorNumber).mpr ⟨hsalon, hnumber.symm⟩)

namespace SchoolSearch
variable {str : StringSearch} {s t : SchoolSearch}

/-! ## What an event does -/

/-- The cases of a step. -/
inductive StepCase (str : StringSearch) (s : SchoolSearch) : Event → SchoolSearch → Prop
  | viewWillAppear : StepCase str s .viewWillAppear { s with downloads := s.downloads + 1 }
  | downloaded (salones : List Salon) : StepCase str s (.downloaded (some salones))
      { s with
        downloads := s.downloads - 1
        salones := salones
        salonests := salones.filter fun salon => getFloorNumber salon == s.selectedFloor
        pisos := getFloors salones }
  | endSearch (text : Option String) (h : text.getD "" = "") :
      StepCase str s (.updateSearchResults text)
        { s with searchText := "", searchActive := false, filteredSalones := some [] }
  | search (text : String) (h : text ≠ "") : StepCase str s (.updateSearchResults (some text))
      { s with
        searchText := text
        searchActive := true
        filteredSalones := some (s.salones.filter (str.matching text)) }
  | didSelectItemAt (item : Nat) (piso : Int) (h : s.pisos[item]? = some piso) :
      StepCase str s (.didSelectItemAt item)
        { s with
          selectedFloor := piso
          salonests := s.salones.filter fun salon => getFloorNumber salon == piso }

theorem step_cases {a : Event} (h : (schoolSearch str).step s a = some t) :
    StepCase str s a t := by
  cases a with
  | viewWillAppear =>
    obtain rfl := Option.some.inj h
    exact .viewWillAppear
  | downloaded salones =>
    simp only [schoolSearch, step] at h
    split at h
    · cases h
    · obtain ⟨l, rfl, rfl⟩ := Option.map_eq_some_iff.mp h
      exact .downloaded l
  | updateSearchResults text =>
    obtain rfl := Option.some.inj h
    by_cases htext : text.getD "" = ""
    · simp only [updateSearchResults, htext]
      exact .endSearch text htext
    · cases text with
      | none => exact absurd rfl htext
      | some text =>
        have hne : text.isEmpty = false := by simpa using htext
        simp only [updateSearchResults, Option.getD_some, hne, Bool.false_eq_true, if_false]
        exact .search text htext
  | didSelectItemAt item =>
    obtain ⟨piso, hpiso, rfl⟩ := Option.map_eq_some_iff.mp h
    exact .didSelectItemAt item piso hpiso

/-- What holds whatever happens: the table of the selected floor is up to date, and
the cards are, once there are classrooms. -/
structure Sound (s : SchoolSearch) : Prop where
  salonests : s.salonests = s.salones.filter fun salon => getFloorNumber salon == s.selectedFloor
  pisos : s.salones ≠ [] → s.pisos = getFloors s.salones

theorem sound_start : Sound {} where
  salonests := rfl
  pisos h := absurd rfl h

theorem Sound.step {a : Event} (hs : Sound s) (h : (schoolSearch str).step s a = some t) :
    Sound t := by
  cases step_cases h with
  | viewWillAppear => exact ⟨hs.salonests, hs.pisos⟩
  | downloaded salones => exact ⟨rfl, fun _ => rfl⟩
  | endSearch text htext => exact ⟨hs.salonests, hs.pisos⟩
  | search text htext => exact ⟨hs.salonests, hs.pisos⟩
  | didSelectItemAt item piso hpiso => exact ⟨rfl, hs.pisos⟩

/-! ## Showing what was asked for -/

/-- The screen shows what was asked for. -/
structure ShowsRequest (str : StringSearch) (s : SchoolSearch) : Prop where
  searching : s.searchActive = true →
    s.filteredSalones = some (s.salones.filter (str.matching s.searchText))
  browsing : s.searchActive = false → s.salones ≠ [] →
    s.selectedFloor ∈ s.pisos ∧ s.pisos = getFloors s.salones ∧
      s.salonests = s.salones.filter fun salon => getFloorNumber salon == s.selectedFloor

/-- Then the table is empty only if no classroom meets the request. -/
theorem ShowsRequest.rows_nil (h : ShowsRequest str s) (hrows : s.rows = some []) :
    if s.searchActive then ∀ salon ∈ s.salones, str.matching s.searchText salon = false
    else s.salones = [] := by
  unfold rows at hrows
  cases hactive : s.searchActive with
  | true =>
    rw [hactive, if_pos rfl, h.searching hactive] at hrows
    simpa using hrows
  | false =>
    rw [hactive] at hrows
    simp only [Bool.false_eq_true, if_false] at hrows ⊢
    by_contra hne
    obtain ⟨hfloor, hpisos, hsalonests⟩ := h.browsing hactive hne
    rw [hpisos, mem_getFloors] at hfloor
    obtain ⟨salon, hsalon, hnumber⟩ := hfloor
    have hmem : salon ∈ s.salonests := by
      rw [hsalonests]
      exact List.mem_filter.mpr ⟨hsalon, by simpa using hnumber⟩
    rw [Option.some.inj hrows] at hmem
    cases hmem

/-- Some of the classrooms, if there are any, is on the floor. -/
def OnFloor (salones : List Salon) (floor : Int) : Prop :=
  salones ≠ [] → ∃ salon ∈ salones, getFloorNumber salon = floor

/-- For a sound screen there are two things left to ask for. -/
theorem Sound.showsRequest_iff (hs : Sound s) :
    ShowsRequest str s ↔
      (s.searchActive = true →
        s.filteredSalones = some (s.salones.filter (str.matching s.searchText))) ∧
      (s.searchActive = false → OnFloor s.salones s.selectedFloor) := by
  constructor
  · rintro ⟨hsearching, hbrowsing⟩
    refine ⟨hsearching, fun hactive hne => ?_⟩
    rw [← mem_getFloors, ← hs.pisos hne]
    exact (hbrowsing hactive hne).1
  · rintro ⟨hsearching, hfloor⟩
    refine ⟨hsearching, fun hactive hne => ⟨?_, hs.pisos hne, hs.salonests⟩⟩
    rw [hs.pisos hne, mem_getFloors]
    exact hfloor hactive hne

/-- The condition on a step: a download that lands during a search has the same
matches as the classrooms before, one that lands otherwise has a classroom on the
selected floor, if it has any, and so have the classrooms when a search ends. -/
def KeepsRequest (str : StringSearch) (s : SchoolSearch) : Event → Prop
  | .downloaded salones => ∀ l ∈ salones,
      if s.searchActive then
        l.filter (str.matching s.searchText) = s.salones.filter (str.matching s.searchText)
      else OnFloor l s.selectedFloor
  | .updateSearchResults text => text.getD "" = "" → OnFloor s.salones s.selectedFloor
  | _ => True

/-- **One step keeps the screen right exactly if it meets the condition.** -/
theorem showsRequest_step {a : Event} (hs : Sound s) (h : ShowsRequest str s)
    (hstep : (schoolSearch str).step s a = some t) : ShowsRequest str t ↔ KeepsRequest str s a := by
  rw [(hs.step hstep).showsRequest_iff]
  obtain ⟨hsearching, hfloor⟩ := hs.showsRequest_iff.mp h
  cases step_cases hstep with
  | viewWillAppear => exact iff_of_true ⟨hsearching, hfloor⟩ trivial
  | downloaded salones =>
    cases hactive : s.searchActive with
    | true => simp [KeepsRequest, hactive, hsearching hactive, eq_comm]
    | false => simp [KeepsRequest, hactive]
  | endSearch text htext => simp [KeepsRequest, htext]
  | search text htext => simp [KeepsRequest, htext]
  | didSelectItemAt item piso hpiso =>
    refine iff_of_true ⟨hsearching, fun _ hne => ?_⟩ trivial
    -- the cards are those of the classrooms
    rw [← mem_getFloors, ← hs.pisos hne]
    exact List.mem_of_getElem? hpiso

end SchoolSearch

/-- **When the search screen shows what was asked for**: in all states of a run
exactly if all its steps meet `KeepsRequest`; the table is then empty only if no
downloaded classroom meets the request. -/
theorem showsRequest_throughout_iff (str : StringSearch) (s : SchoolSearch)
    (as : List SchoolSearch.Event) (hrun : (schoolSearch str).run {} as = some s) :
    ((∀ u, (schoolSearch str).Visits {} as u → SchoolSearch.ShowsRequest str u) ↔
      (schoolSearch str).Meets (SchoolSearch.KeepsRequest str) {} as) ∧
    ∀ u, SchoolSearch.ShowsRequest str u → u.rows = some [] →
      if u.searchActive then ∀ salon ∈ u.salones, str.matching u.searchText salon = false
      else u.salones = [] := by
  refine ⟨?_, fun u hu => hu.rows_nil⟩
  refine (schoolSearch str).visited_iff_meets (I := SchoolSearch.Sound)
    (fun hs h => hs.step h) (fun hs h hstep => SchoolSearch.showsRequest_step hs h hstep)
    SchoolSearch.sound_start ?_ hrun
  exact SchoolSearch.sound_start.showsRequest_iff.mpr ⟨by simp, fun _ h => absurd rfl h⟩

/-- Searching with the operations on ASCII strings. -/
def asciiSearch : StringSearch where
  lowercased s := String.ofList (s.toList.map Char.toLower)
  contains s t := decide (t.toList <:+: s.toList)

/-- A classroom with the given name and number. -/
def sampleRoom (nombre : String) (numero : Int) : Salon := .make "s1" nombre [] "A" numero 2 []

/-- A room on the first floor is downloaded, and searched for in other letters. -/
theorem showsRequest_throughout_sample :
    ∃ s, (schoolSearch asciiSearch).run {} [.viewWillAppear,
        .downloaded (some [sampleRoom "Taller" 101]), .updateSearchResults (some "TALL"),
        .updateSearchResults none, .didSelectItemAt 0] = some s ∧
      ∀ u, (schoolSearch asciiSearch).Visits {} [.viewWillAppear,
        .downloaded (some [sampleRoom "Taller" 101]), .updateSearchResults (some "TALL"),
        .updateSearchResults none, .didSelectItemAt 0] u →
          SchoolSearch.ShowsRequest asciiSearch u := by
  refine ⟨_, rfl, ((showsRequest_throughout_iff asciiSearch _ [.viewWillAppear,
    .downloaded (some [sampleRoom "Taller" 101]), .updateSearchResults (some "TALL"),
    .updateSearchResults none, .didSelectItemAt 0] rfl).1).mpr ?_⟩
  have hfloor : SchoolSearch.OnFloor [sampleRoom "Taller" 101] 1 :=
    fun _ => ⟨_, List.mem_singleton_self _, by decide⟩
  refine ((schoolSearch asciiSearch).meets_cons _ rfl).mpr ⟨trivial, ?_⟩
  refine ((schoolSearch asciiSearch).meets_cons _ rfl).mpr ⟨?_, ?_⟩
  · rintro l ⟨⟩
    exact hfloor
  · refine ((schoolSearch asciiSearch).meets_cons _ rfl).mpr ⟨fun h => absurd h (by decide), ?_⟩
    refine ((schoolSearch asciiSearch).meets_cons _ rfl).mpr ⟨fun _ => hfloor, ?_⟩
    exact ((schoolSearch asciiSearch).meets_cons _ rfl).mpr ⟨trivial, trivial⟩

/-- All classrooms are on the second floor: the screen offers that floor, has selected
another one, and its table is empty. -/
theorem selectedFloor_not_shown :
    ∃ s, (schoolSearch asciiSearch).run {} [.viewWillAppear,
        .downloaded (some [sampleRoom "Taller" 201])] = some s ∧
      s.searchActive = false ∧ s.salones ≠ [] ∧ s.pisos = [2] ∧ s.selectedFloor = 1 ∧
      s.rows = some [] ∧ ¬ SchoolSearch.ShowsRequest asciiSearch s := by
  refine ⟨_, rfl, rfl, List.cons_ne_nil _ _, rfl, rfl, rfl, fun h => ?_⟩
  exact absurd (h.browsing rfl (List.cons_ne_nil _ _)).1 (by decide)

end Musgravite
