import Musgravite.SchoolSearch

/-! # The table of the search screen

The table keeps what it was told at its last `reloadData`: a number of rows and the
cell of each row.  `SchoolSearchViewController` answers its questions from
`salonests` or, during a search, from `filteredSalones`, and a tap on a row opens the
classroom at that index in the array of that moment.  So the screen and its table must
not drift apart: a handler that changes the array, or which of the two it is, has to
reload the table before it returns.

`opens_displayed` says that they all do: no question of the table traps, and a tap
opens the classroom whose name and building its row shows. -/
namespace Musgravite
open SchoolSearchVM

/-- A `RoomsTableViewCell`. -/
structure RoomCell where
  labname : String
  buildingname : String
deriving DecidableEq

/-- The cell that shows a classroom. -/
def RoomCell.showing (salon : Salon) : RoomCell where
  labname := salon.nombre
  buildingname := salon.edificio ++ "-" ++ toString salon.numero

namespace SchoolSearch

/-- `none` if `filteredSalones!` traps. -/
def numberOfRowsInSection (self : SchoolSearch) : Option Nat :=
  if self.searchActive then self.filteredSalones.map List.length
  else some self.salonests.length

/-- `none` if `filteredSalones!` or the index traps. -/
def cellForRowAt (self : SchoolSearch) (row : Nat) : Option RoomCell :=
  if !self.searchActive then self.salonests[row]?.map RoomCell.showing
  else (self.filteredSalones.bind fun filteredSalones => filteredSalones[row]?).map
    RoomCell.showing

end SchoolSearch

/-- A table view, as far as it remembers what it was told. -/
structure RoomTable where
  numberOfRows : Nat := 0
  cells : List RoomCell := []
  indexPathForSelectedRow : Option Nat := none

/-- The search screen with its table. -/
structure SearchScreen where
  search : SchoolSearch := {}
  tableView : RoomTable := {}

namespace SearchScreen

/-- The table asks for the number of rows and for each cell anew; its selection goes. -/
def reloadData (self : SearchScreen) : Option SearchScreen := do
  let numberOfRows ← self.search.numberOfRowsInSection
  let cells ← (List.range numberOfRows).mapM self.search.cellForRowAt
  return { self with tableView := { numberOfRows, cells } }

def filterClassrooms (self : SearchScreen) : Option SearchScreen :=
  { self with search := self.search.filterClassrooms }.reloadData

/-- The completion block of `getClassroomData`; `fatalError` on `nil`. -/
def classroomsDownloaded (self : SearchScreen) (salones : Option (List Salon)) :
    Option SearchScreen := do
  let salones ← salones
  let self ← { self with search := { self.search with salones } }.filterClassrooms
  let self ← self.reloadData
  return { self with search := { self.search with pisos := getFloors salones } }

def updateSearchResults (str : StringSearch) (self : SearchScreen) (text : Option String) :
    Option SearchScreen :=
  { self with search := self.search.updateSearchResults str text }.reloadData

/-- A tap on the card of a floor. -/
def didSelectItemAt (self : SearchScreen) (item : Nat) : Option SearchScreen := do
  let selectedFloor ← self.search.pisos[item]?
  { self with search := { self.search with selectedFloor } }.filterClassrooms

/-- A tap on a row selects it before the segue is prepared. -/
def selectRow (self : SearchScreen) (row : Nat) : SearchScreen :=
  { self with tableView := { self.tableView with indexPathForSelectedRow := some row } }

/-- `prepare(for:sender:)`, the segue to the page of a classroom: `none` if it traps, and
otherwise what the page's `selectedClassroom` is set to, if it is. -/
def prepare (self : SearchScreen) : Option (Option Salon) :=
  match self.tableView.indexPathForSelectedRow with
  | none => some none
  | some selectedPath =>
      if self.search.searchActive then
        (self.search.filteredSalones.bind fun filteredSalones =>
          filteredSalones[selectedPath]?).map some
      else self.search.salonests[selectedPath]?.map some

inductive Event
  | search (e : SchoolSearch.Event)
  /-- A row is scrolled into view. -/
  | cellForRowAt (row : Nat)
  | didSelectRowAt (row : Nat)

/-- The screen after an event, `none` if it cannot happen or stops the app. -/
def step (str : StringSearch) (self : SearchScreen) : Event → Option SearchScreen
  | .search .viewWillAppear => some { self with search := self.search.viewWillAppear }
  | .search (.downloaded salones) =>
      if self.search.downloads = 0 then none
      else { self with search := { self.search with
        downloads := self.search.downloads - 1 } }.classroomsDownloaded salones
  | .search (.updateSearchResults text) => self.updateSearchResults str text
  | .search (.didSelectItemAt item) => self.didSelectItemAt item
  | .cellForRowAt row => do
      guard (row < self.tableView.numberOfRows)
      let cell ← self.search.cellForRowAt row
      return { self with tableView := { self.tableView with
        cells := self.tableView.cells.set row cell } }
  | .didSelectRowAt row => do
      guard (row < self.tableView.numberOfRows)
      let self := self.selectRow row
      let _ ← self.prepare
      return self

end SearchScreen

/-- The search screen with its table, step by step. -/
def searchScreen (str : StringSearch) : TransitionSystem SearchScreen SearchScreen.Event :=
  ⟨SearchScreen.step str⟩

/-! ## What the table asks for -/

namespace SchoolSearch
variable {s : SchoolSearch} {salones : List Salon}

theorem numberOfRowsInSection_of_rows (h : s.rows = some salones) :
    s.numberOfRowsInSection = some salones.length := by
  unfold rows at h
  unfold numberOfRowsInSection
  split at h
  · simp [*]
  · obtain rfl := Option.some.inj h
    simp [*]

theorem cellForRowAt_of_rows (h : s.rows = some salones) (row : Nat) :
    s.cellForRowAt row = salones[row]?.map RoomCell.showing := by
  unfold rows at h
  unfold cellForRowAt
  split at h
  · simp [*]
  · obtain rfl := Option.some.inj h
    simp [*]

end SchoolSearch

/-- What a list says of each of its indices. -/
theorem mapM_range_getElem? {α β : Type} (l : List α) (f : α → β) :
    ((List.range l.length).mapM fun i => l[i]?.map f) = some (l.map f) := by
  induction l with
  | nil => rfl
  | cons x l ih =>
    rw [List.length_cons, List.range_succ_eq_map, List.mapM_cons, List.mapM_map]
    have hrest : ((fun i => (x :: l)[i]?.map f) ∘ Nat.succ) = fun i => l[i]?.map f := rfl
    rw [hrest, ih]
    rfl

namespace SearchScreen
variable {str : StringSearch} {s t : SearchScreen}

/-- The table shows the array behind it. -/
structure Fresh (s : SearchScreen) (salones : List Salon) : Prop where
  rows : s.search.rows = some salones
  numberOfRows : s.tableView.numberOfRows = salones.length
  cells : s.tableView.cells = salones.map RoomCell.showing

/-- **A reload does not trap, and leaves a table that shows the array behind it.** -/
theorem reloadData_fresh {salones : List Salon} (h : s.search.rows = some salones) :
    ∃ t, s.reloadData = some t ∧ t.search = s.search ∧ t.Fresh salones := by
  refine ⟨{ s with tableView := ⟨salones.length, salones.map RoomCell.showing, none⟩ }, ?_, rfl,
    h, rfl, rfl⟩
  have hcells := mapM_range_getElem? salones RoomCell.showing
  rw [← funext (SchoolSearch.cellForRowAt_of_rows h)] at hcells
  simp [reloadData, SchoolSearch.numberOfRowsInSection_of_rows h, hcells]

/-- `filteredSalones!` does not trap. -/
theorem Fresh.isSome_rows {salones : List Salon} (h : s.Fresh salones) (search : SchoolSearch)
    (hactive : search.searchActive = s.search.searchActive)
    (hfiltered : search.filteredSalones = s.search.filteredSalones) :
    ∃ salones, search.rows = some salones := by
  have hrows := h.rows
  unfold SchoolSearch.rows at hrows ⊢
  rw [hactive, hfiltered]
  split at hrows
  · exact ⟨salones, by simp [*]⟩
  · exact ⟨search.salonests, by simp [*]⟩

theorem updateSearchResults_rows (str : StringSearch) (search : SchoolSearch)
    (text : Option String) :
    ∃ salones, (search.updateSearchResults str text).rows = some salones := by
  unfold SchoolSearch.updateSearchResults
  by_cases h : (text.getD "").isEmpty <;> simp [SchoolSearch.rows, h]

/-- **Whatever happens on the screen, its table follows**: what `SchoolSearch` can do the
screen does with it, and the table shows the array behind it afterwards. -/
theorem Fresh.search {salones : List Salon} (hs : s.Fresh salones) {e : SchoolSearch.Event}
    {search : SchoolSearch} (h : s.search.step str e = some search) :
    ∃ t salones', (searchScreen str).step s (.search e) = some t ∧ t.search = search ∧
      t.Fresh salones' := by
  cases e with
  | viewWillAppear =>
    obtain rfl := Option.some.inj h
    exact ⟨_, salones, rfl, rfl, hs.rows, hs.numberOfRows, hs.cells⟩
  | downloaded reply =>
    simp only [SchoolSearch.step] at h
    split at h
    · cases h
    · rename_i hdownloads
      obtain ⟨l, rfl, rfl⟩ := Option.map_eq_some_iff.mp h
      -- the table is reloaded twice, the cards after that
      obtain ⟨salones', hrows⟩ := hs.isSome_rows
        (SchoolSearch.filterClassrooms { s.search with
          downloads := s.search.downloads - 1, salones := l }) rfl rfl
      obtain ⟨t, ht, hsearch, hfresh⟩ := reloadData_fresh (s := { s with
        search := SchoolSearch.filterClassrooms { s.search with
          downloads := s.search.downloads - 1, salones := l } }) hrows
      obtain ⟨u, hu, husearch, hufresh⟩ := reloadData_fresh hfresh.rows
      refine ⟨{ u with search := { u.search with pisos := getFloors l } }, salones', ?_, ?_,
        hufresh.rows, hufresh.numberOfRows, hufresh.cells⟩
      · simp [searchScreen, step, hdownloads, classroomsDownloaded, filterClassrooms, ht, hu]
      · rw [husearch, hsearch]
  | updateSearchResults text =>
    obtain rfl := Option.some.inj h
    obtain ⟨salones', hrows⟩ := updateSearchResults_rows str s.search text
    obtain ⟨t, ht, hsearch, hfresh⟩ := reloadData_fresh
      (s := { s with search := s.search.updateSearchResults str text }) hrows
    exact ⟨t, salones', ht, hsearch, hfresh⟩
  | didSelectItemAt item =>
    obtain ⟨piso, hpiso, rfl⟩ := Option.map_eq_some_iff.mp h
    obtain ⟨salones', hrows⟩ := hs.isSome_rows
      (SchoolSearch.filterClassrooms { s.search with selectedFloor := piso }) rfl rfl
    obtain ⟨t, ht, hsearch, hfresh⟩ := reloadData_fresh (s := { s with
      search := SchoolSearch.filterClassrooms { s.search with selectedFloor := piso } }) hrows
    refine ⟨t, salones', ?_, hsearch, hfresh⟩
    simp [searchScreen, step, didSelectItemAt, hpiso, filterClassrooms, ht]

theorem Fresh.getElem {salones : List Salon} (hs : s.Fresh salones) {row : Nat}
    (hrow : row < s.tableView.numberOfRows) : ∃ salon, salones[row]? = some salon :=
  ⟨_, List.getElem?_eq_getElem (hs.numberOfRows ▸ hrow)⟩

/-- A tap opens the classroom in the array behind the table. -/
theorem Fresh.prepare {salones : List Salon} (hs : s.Fresh salones) (row : Nat) :
    (s.selectRow row).prepare = salones[row]?.map some := by
  have hrows := hs.rows
  unfold SchoolSearch.rows at hrows
  simp only [SearchScreen.prepare, selectRow]
  split at hrows
  · simp [*]
  · obtain rfl := Option.some.inj hrows
    simp [*]

theorem search_of_step {e : SchoolSearch.Event}
    (h : (searchScreen str).step s (.search e) = some t) :
    ∃ search, s.search.step str e = some search := by
  cases e with
  | viewWillAppear => exact ⟨_, rfl⟩
  | downloaded reply =>
    simp only [searchScreen, SearchScreen.step] at h
    split at h
    · cases h
    · rename_i hdownloads
      obtain ⟨l, rfl, -⟩ := Option.bind_eq_some_iff.mp h
      exact ⟨_, if_neg hdownloads⟩
  | updateSearchResults text => exact ⟨_, rfl⟩
  | didSelectItemAt item =>
    obtain ⟨piso, hpiso, -⟩ := Option.bind_eq_some_iff.mp h
    exact ⟨_, by rw [SchoolSearch.step, SchoolSearch.didSelectItemAt, hpiso]; rfl⟩

theorem Fresh.step {salones : List Salon} (hs : s.Fresh salones) {e : Event}
    (h : (searchScreen str).step s e = some t) : ∃ salones', t.Fresh salones' := by
  cases e with
  | search e =>
    obtain ⟨search, hsearch⟩ := search_of_step h
    obtain ⟨u, salones', hu, -, hfresh⟩ := hs.search hsearch
    obtain rfl := Option.some.inj (h.symm.trans hu)
    exact ⟨salones', hfresh⟩
  | cellForRowAt row =>
    obtain ⟨_, -, h⟩ := Option.bind_eq_some_iff.mp h
    obtain ⟨cell, hcell, h⟩ := Option.bind_eq_some_iff.mp h
    obtain rfl := Option.some.inj h
    refine ⟨salones, hs.rows, hs.numberOfRows, ?_⟩
    -- the cell is what it was
    rw [SchoolSearch.cellForRowAt_of_rows hs.rows, ← List.getElem?_map, ← hs.cells] at hcell
    obtain ⟨hrow, rfl⟩ := List.getElem?_eq_some_iff.mp hcell
    exact (List.set_getElem_self hrow).trans hs.cells
  | didSelectRowAt row =>
    obtain ⟨_, -, h⟩ := Option.bind_eq_some_iff.mp h
    obtain ⟨_, -, h⟩ := Option.bind_eq_some_iff.mp h
    obtain rfl := Option.some.inj h
    exact ⟨salones, hs.rows, hs.numberOfRows, hs.cells⟩

theorem fresh_of_run {es : List Event} (h : (searchScreen str).run {} es = some s) :
    ∃ salones, s.Fresh salones :=
  (searchScreen str).run_invariant (P := fun s => ∃ salones, s.Fresh salones)
    (fun hs hstep => hs.choose_spec.step hstep) ⟨[], rfl, rfl, rfl⟩ h

end SearchScreen

/-- **The classroom opened is the classroom displayed.**  In every state of a run, for
every row that the table has: asking for its cell and preparing the segue after a tap on
it do not trap, and the classroom handed over is one whose name and building are the two
labels of the row.  And no handler traps on its way to a reload: what can happen to the
fields of the screen can happen to the screen with its table. -/
theorem opens_displayed (str : StringSearch) (es : List SearchScreen.Event) (s : SearchScreen)
    (hrun : (searchScreen str).run {} es = some s) :
    (∀ row < s.tableView.numberOfRows, ∃ salon cell,
      s.search.cellForRowAt row = some cell ∧ s.tableView.cells[row]? = some cell ∧
      cell.labname = salon.nombre ∧
      cell.buildingname = salon.edificio ++ "-" ++ toString salon.numero ∧
      (s.selectRow row).prepare = some (some salon)) ∧
    ∀ e search, s.search.step str e = some search →
      ∃ t, (searchScreen str).step s (.search e) = some t ∧ t.search = search := by
  obtain ⟨salones, hs⟩ := SearchScreen.fresh_of_run hrun
  refine ⟨fun row hrow => ?_, fun e search h => ?_⟩
  · obtain ⟨salon, hsalon⟩ := hs.getElem hrow
    refine ⟨salon, .showing salon, ?_, ?_, rfl, rfl, ?_⟩
    · rw [SchoolSearch.cellForRowAt_of_rows hs.rows, hsalon, Option.map_some]
    · rw [hs.cells, List.getElem?_map, hsalon, Option.map_some]
    · rw [hs.prepare, hsalon, Option.map_some]
  · obtain ⟨t, -, ht, hsearch, -⟩ := hs.search h
    exact ⟨t, ht, hsearch⟩

/-- A search among the rooms of two floors, and a tap on the row it leaves. -/
theorem opens_displayed_found :
    ∃ s, (searchScreen asciiSearch).run {} [.search .viewWillAppear,
        .search (.downloaded (some [sampleRoom "Taller" 101, sampleRoom "Redes" 202])),
        .search (.updateSearchResults (some "red")), .didSelectRowAt 0] = some s ∧
      s.tableView.numberOfRows = 1 ∧
      s.tableView.cells[0]? = some ⟨"Redes", "A-202"⟩ ∧
      (s.selectRow 0).prepare = some (some (sampleRoom "Redes" 202)) := by
  refine ⟨_, rfl, rfl, ?_⟩
  obtain ⟨salon, ⟨labname, buildingname⟩, -, hcell, hname, hbuilding, hprepare⟩ :=
    (opens_displayed asciiSearch [.search .viewWillAppear,
      .search (.downloaded (some [sampleRoom "Taller" 101, sampleRoom "Redes" 202])),
      .search (.updateSearchResults (some "red")), .didSelectRowAt 0] _ rfl).1 0 Nat.one_pos
  have hsalon : some (some (sampleRoom "Redes" 202)) = some (some salon) := hprepare
  obtain rfl := Option.some.inj (Option.some.inj hsalon)
  obtain rfl : labname = "Redes" := hname
  obtain rfl : buildingname = "A-202" := hbuilding
  exact ⟨hcell, hprepare⟩

end Musgravite
