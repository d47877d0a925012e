import Mathlib.Data.List.Basic

/-! # Bulletins

`BLTNItemManager` shows one item at a time and works like a navigation controller: a
stack of items above the root item.  Items are objects, so they live in a heap and are
named by their index; what an item stands for is a parameter.

The manager never makes an item and never changes what one stands for
(`outline_push` and the lemmas beside it).  It sets `manager` on the item it shows and
clears it on the one it hides; that the item shown is the only one that has its manager
is the invariant `Tidy`. -/
namespace Musgravite

/-- A `BLTNItem`. -/
structure BLTNItem (κ : Type) where
  content : κ
  next : Option Nat := none
  /-- Whether the weak reference `manager` is set. -/
  manager : Bool := false

structure BLTNItemManager (κ : Type) where
  /-- All items made so far. -/
  items : List (BLTNItem κ)
  rootItem : Nat
  currentItem : Nat
  previousItem : Option Nat := none
  /-- The items above the root item, the one on top last. -/
  itemsStack : List Nat := []
  isPrepared : Bool := false
  /-- The card is being animated off the screen. -/
  dismissing : Bool := false

namespace BLTNItemManager
variable {κ : Type}

/-- `BLTNItemManager(rootItem:)` with an item that is made for it. -/
def withRoot (content : κ) : BLTNItemManager κ :=
  { items := [{ content }], rootItem := 0, currentItem := 0 }

def modifyItem (self : BLTNItemManager κ) (i : Nat) (f : BLTNItem κ → BLTNItem κ) :
    BLTNItemManager κ :=
  { self with items := self.items.modify i f }

/-- A new item, and its name. -/
def create (self : BLTNItemManager κ) (content : κ) (next : Option Nat) :
    BLTNItemManager κ × Nat :=
  ({ self with items := self.items ++ [{ content, next }] }, self.items.length)

/-- `item.next = next`. -/
def setNext (self : BLTNItemManager κ) (item next : Nat) : BLTNItemManager κ :=
  self.modifyItem item fun item => { item with next := some next }

/-- Whether `item.manager?` goes on. -/
def hasManager (self : BLTNItemManager κ) (item : Nat) : Bool :=
  (self.items[item]?.map BLTNItem.manager).getD false

/-- What the current item stands for. -/
def currentContent (self : BLTNItemManager κ) : Option κ :=
  self.items[self.currentItem]?.map BLTNItem.content

def refreshCurrentItemInterface (self : BLTNItemManager κ) : BLTNItemManager κ :=
  let self := match self.previousItem with
    | some previousItem => self.modifyItem previousItem fun item => { item with manager := false }
    | none => self
  { self.modifyItem self.currentItem fun item => { item with manager := true } with
    previousItem := none }

/-- `showBulletin(above:)`, with `prepare()`. -/
def showBulletin (self : BLTNItemManager κ) : BLTNItemManager κ :=
  { self with isPrepared := true }.refreshCurrentItemInterface

/-- `none` if the bulletin is not prepared, as in the other operations. -/
def push (self : BLTNItemManager κ) (item : Nat) : Option (BLTNItemManager κ) :=
  if self.isPrepared then
    some { self with
      previousItem := some self.currentItem
      itemsStack := self.itemsStack ++ [item]
      currentItem := item }.refreshCurrentItemInterface
  else none

def popToRootItem (self : BLTNItemManager κ) : Option (BLTNItemManager κ) :=
  if !self.isPrepared then none
  else if self.currentItem = self.rootItem then some self
  else some { self with
    previousItem := some self.currentItem
    currentItem := self.rootItem
    itemsStack := [] }.refreshCurrentItemInterface

def popItem (self : BLTNItemManager κ) : Option (BLTNItemManager κ) :=
  if !self.isPrepared then none
  else match self.itemsStack.getLast? with
    | none => self.popToRootItem
    | some previousItem =>
        let self := { self with
          itemsStack := self.itemsStack.dropLast
          previousItem := some previousItem }
        match self.itemsStack.getLast? with
        | none => self.popToRootItem
        | some currentItem => some { self with currentItem }.refreshCurrentItemInterface

/-- `none` also if the current item has no `next`. -/
def displayNextItem (self : BLTNItemManager κ) : Option (BLTNItemManager κ) := do
  let item ← self.items[self.currentItem]?
  let next ← item.next
  self.push next

def dismissBulletin (self : BLTNItemManager κ) : Option (BLTNItemManager κ) :=
  if self.isPrepared then
    some { self.modifyItem self.currentItem fun item => { item with manager := false } with
      isPrepared := false
      dismissing := true }
  else none

/-- `onDismiss` of the current item comes before. -/
def completeDismissal (self : BLTNItemManager κ) : BLTNItemManager κ :=
  { self with currentItem := self.rootItem, itemsStack := [], dismissing := false }

/-! ## The items stay what they are -/

def contents (self : BLTNItemManager κ) : List κ := self.items.map BLTNItem.content

/-- What the items stand for and what follows them. -/
def outline (self : BLTNItemManager κ) : List (κ × Option Nat) :=
  self.items.map fun item => (item.content, item.next)

variable {self m : BLTNItemManager κ}

theorem contents_eq_map_outline : self.contents = self.outline.map Prod.fst := by
  simp [contents, outline]

theorem contents_of_outline (h : m.outline = self.outline) : m.contents = self.contents := by
  rw [contents_eq_map_outline, h, contents_eq_map_outline]

theorem length_of_outline (h : m.outline = self.outline) : m.items.length = self.items.length := by
  simpa [outline] using congrArg List.length h

theorem currentContent_mem {content : κ} (h : self.currentContent = some content) :
    content ∈ self.contents := by
  obtain ⟨item, hitem, rfl⟩ := Option.map_eq_some_iff.mp h
  exact List.mem_map_of_mem (List.mem_of_getElem? hitem)

/-- A change that a property of the items does not see. -/
theorem map_modifyItem {β : Type} {g : BLTNItem κ → β} {i : Nat} {f : BLTNItem κ → BLTNItem κ}
    (hf : ∀ item, g (f item) = g item) : (self.modifyItem i f).items.map g = self.items.map g := by
  refine List.ext_getElem? fun j => ?_
  simp only [modifyItem, List.getElem?_map, List.getElem?_modify]
  cases self.items[j]? with
  | none => rfl
  | some item => by_cases hij : i = j <;> simp [hij, hf]

theorem outline_manager (i : Nat) (manager : Bool) :
    (self.modifyItem i fun item => { item with manager }).outline = self.outline :=
  map_modifyItem fun _ => rfl

@[simp] theorem contents_setNext (item next : Nat) :
    (self.setNext item next).contents = self.contents :=
  map_modifyItem fun _ => rfl

theorem getElem?_contents (i : Nat) : self.contents[i]? = self.items[i]?.map BLTNItem.content :=
  List.getElem?_map ..

/-- What the current item stands for, among the contents. -/
theorem currentContent_eq (self : BLTNItemManager κ) :
    self.currentContent = self.contents[self.currentItem]? :=
  (getElem?_contents _).symm

theorem mem_outline_setNext {item next : Nat} {p : κ × Option Nat}
    (h : p ∈ (self.setNext item next).outline) :
    p ∈ self.outline ∨ self.contents[item]? = some p.1 ∧ p.2 = some next := by
  obtain ⟨changed, hchanged, rfl⟩ := List.mem_map.mp h
  obtain ⟨j, hj⟩ := List.mem_iff_getElem?.mp hchanged
  simp only [setNext, modifyItem, List.getElem?_modify] at hj
  obtain ⟨old, hold, rfl⟩ := Option.map_eq_some_iff.mp hj
  by_cases hj : item = j
  · exact Or.inr ⟨by simp [getElem?_contents, hj, hold], by simp [hj]⟩
  · have hmem : (old.content, old.next) ∈ self.outline :=
      List.mem_map_of_mem (f := fun item => (item.content, item.next)) (List.mem_of_getElem? hold)
    exact Or.inl (by simpa [hj] using hmem)

theorem outline_create (content : κ) (next : Option Nat) :
    (self.create content next).1.outline = self.outline ++ [(content, next)] := by
  simp [create, outline]

@[simp] theorem contents_create (content : κ) (next : Option Nat) :
    (self.create content next).1.contents = self.contents ++ [content] := by
  simp [create, contents]

@[simp] theorem outline_refresh :
    self.refreshCurrentItemInterface.outline = self.outline := by
  unfold refreshCurrentItemInterface
  cases self.previousItem with
  | none => exact outline_manager _ true
  | some previousItem =>
    refine (outline_manager _ true).trans ?_
    exact outline_manager _ false

@[simp] theorem length_refresh :
    self.refreshCurrentItemInterface.items.length = self.items.length :=
  length_of_outline outline_refresh

@[simp] theorem rootItem_refresh :
    self.refreshCurrentItemInterface.rootItem = self.rootItem := by
  unfold refreshCurrentItemInterface
  cases self.previousItem <;> rfl

@[simp] theorem currentItem_refresh :
    self.refreshCurrentItemInterface.currentItem = self.currentItem := by
  unfold refreshCurrentItemInterface
  cases self.previousItem <;> rfl

@[simp] theorem itemsStack_refresh :
    self.refreshCurrentItemInterface.itemsStack = self.itemsStack := by
  unfold refreshCurrentItemInterface
  cases self.previousItem <;> rfl

@[simp] theorem isPrepared_refresh :
    self.refreshCurrentItemInterface.isPrepared = self.isPrepared := by
  unfold refreshCurrentItemInterface
  cases self.previousItem <;> rfl

@[simp] theorem dismissing_refresh :
    self.refreshCurrentItemInterface.dismissing = self.dismissing := by
  unfold refreshCurrentItemInterface
  cases self.previousItem <;> rfl

theorem outline_push {item : Nat} (h : self.push item = some m) : m.outline = self.outline := by
  unfold push at h
  split at h
  · obtain rfl := Option.some.inj h
    exact outline_refresh
  · cases h

theorem outline_popToRootItem (h : self.popToRootItem = some m) :
    m.outline = self.outline := by
  unfold popToRootItem at h
  split at h
  · cases h
  · split at h
    · rw [Option.some.inj h]
    · obtain rfl := Option.some.inj h
      exact outline_refresh

theorem outline_popItem (h : self.popItem = some m) : m.outline = self.outline := by
  unfold popItem at h
  split at h
  · cases h
  · split at h
    · exact outline_popToRootItem h
    · simp only at h
      split at h
      · rw [outline_popToRootItem h]
        rfl
      · obtain rfl := Option.some.inj h
        exact outline_refresh

theorem outline_displayNextItem (h : self.displayNextItem = some m) :
    m.outline = self.outline := by
  obtain ⟨item, -, h⟩ := Option.bind_eq_some_iff.mp h
  obtain ⟨next, -, h⟩ := Option.bind_eq_some_iff.mp h
  exact outline_push h

theorem outline_dismissBulletin (h : self.dismissBulletin = some m) :
    m.outline = self.outline := by
  unfold dismissBulletin at h
  split at h
  · obtain rfl := Option.some.inj h
    exact outline_manager _ false
  · cases h

/-! ## The manager of an item -/

/-- The bulletin in order: the current item is the top of the stack, or the root item,
and while the bulletin is prepared it is the only item that has its manager.  No item
leads back to the root item. -/
structure Tidy (m : BLTNItemManager κ) : Prop where
  root_lt : m.rootItem < m.items.length
  stack : ∀ i ∈ m.itemsStack, i < m.items.length ∧ i ≠ m.rootItem
  next : ∀ p ∈ m.outline, ∀ i, p.2 = some i → i < m.items.length ∧ i ≠ m.rootItem
  currentItem : m.currentItem = m.itemsStack.getLast?.getD m.rootItem
  previousItem : m.previousItem = none
  manager : ∀ i, m.hasManager i = true ↔ m.isPrepared = true ∧ i = m.currentItem
  prepared : m.isPrepared = true → m.dismissing = false

theorem hasManager_modifyItem (i j : Nat) (f : BLTNItem κ → BLTNItem κ) :
    (self.modifyItem i f).hasManager j =
      ((self.items[j]?.map fun item => if i = j then f item else item).map
        BLTNItem.manager).getD false := by
  simp only [hasManager, modifyItem, List.getElem?_modify]
  cases self.items[j]? with
  | none => rfl
  | some item => by_cases hij : i = j <;> simp [hij]

theorem hasManager_set {i : Nat} (hi : i < self.items.length) (j : Nat) :
    (self.modifyItem i fun item => { item with manager := true }).hasManager j = true ↔
      j = i ∨ self.hasManager j = true := by
  rw [hasManager_modifyItem]
  by_cases hij : i = j
  · subst hij
    simp [List.getElem?_eq_getElem hi]
  · simp [hasManager, hij, Ne.symm hij]

theorem hasManager_clear (i j : Nat) :
    (self.modifyItem i fun item => { item with manager := false }).hasManager j = true ↔
      j ≠ i ∧ self.hasManager j = true := by
  rw [hasManager_modifyItem]
  by_cases hij : i = j
  · subst hij
    cases self.items[i]? <;> simp
  · simp [hasManager, hij, Ne.symm hij]

@[simp] theorem hasManager_setNext (item next i : Nat) :
    (self.setNext item next).hasManager i = self.hasManager i := by
  rw [setNext, hasManager_modifyItem, hasManager]
  cases self.items[i]? with
  | none => rfl
  | some item => split <;> rfl

@[simp] theorem hasManager_create (content : κ) (next : Option Nat) (i : Nat) :
    (self.create content next).1.hasManager i = self.hasManager i := by
  simp only [hasManager, create, List.getElem?_append]
  split
  · rfl
  · -- the new item has no manager, and nothing was there
    rename_i hi
    rw [List.getElem?_eq_none (Nat.le_of_not_lt hi)]
    cases i - self.items.length <;> simp

/-- If only the item to be shown and the one to be hidden have their manager, then the
one shown is the only one afterwards. -/
theorem hasManager_refresh (hcurrent : self.currentItem < self.items.length)
    (h : ∀ i, self.hasManager i = true → i = self.currentItem ∨ self.previousItem = some i)
    (i : Nat) : self.refreshCurrentItemInterface.hasManager i = true ↔ i = self.currentItem := by
  unfold refreshCurrentItemInterface
  cases hprevious : self.previousItem with
  | none =>
    refine (hasManager_set hcurrent i).trans ⟨?_, Or.inl⟩
    rintro (hi | hi)
    · exact hi
    · simpa [hprevious] using h i hi
  | some previousItem =>
    refine (hasManager_set (i := self.currentItem) (by simpa [modifyItem] using hcurrent) i).trans
      ⟨?_, Or.inl⟩
    rintro (hi | hi)
    · exact hi
    · obtain ⟨hne, hi⟩ := (hasManager_clear _ _).mp hi
      have := h i hi
      rw [hprevious, Option.some.injEq] at this
      exact this.resolve_right hne.symm

theorem tidy_refresh (root_lt : self.rootItem < self.items.length)
    (stack : ∀ i ∈ self.itemsStack, i < self.items.length ∧ i ≠ self.rootItem)
    (next : ∀ p ∈ self.outline, ∀ i, p.2 = some i → i < self.items.length ∧ i ≠ self.rootItem)
    (currentItem : self.currentItem = self.itemsStack.getLast?.getD self.rootItem)
    (prepared : self.isPrepared = true) (dismissing : self.dismissing = false)
    (manager : ∀ i, self.hasManager i = true → i = self.currentItem ∨ self.previousItem = some i) :
    Tidy self.refreshCurrentItemInterface := by
  have hcurrent : self.currentItem < self.items.length := by
    rw [currentItem]
    cases hlast : self.itemsStack.getLast? with
    | none => exact root_lt
    | some i => exact (stack i (List.mem_of_getLast? hlast)).1
  refine ⟨by simpa using root_lt, by simpa using stack, ?_, by simpa using currentItem, rfl, ?_,
    fun _ => by simpa using dismissing⟩
  · simpa using next
  · intro i
    rw [hasManager_refresh hcurrent manager]
    simp [prepared]

theorem Tidy.push (h : self.Tidy) {item : Nat} (hitem : item < self.items.length)
    (hroot : item ≠ self.rootItem) (hm : self.push item = some m) : m.Tidy := by
  unfold BLTNItemManager.push at hm
  split at hm
  · rename_i hprepared
    obtain rfl := Option.some.inj hm
    refine tidy_refresh h.root_lt ?_ h.next (by simp) hprepared (h.prepared hprepared)
      fun i hi => ?_
    · intro i hi
      rcases List.mem_append.mp hi with hi | hi
      · exact h.stack i hi
      · obtain rfl := List.mem_singleton.mp hi
        exact ⟨hitem, hroot⟩
    · exact Or.inr (congrArg some ((h.manager i).mp hi).2.symm)
  · cases hm

theorem Tidy.displayNextItem (h : self.Tidy) (hm : self.displayNextItem = some m) : m.Tidy := by
  obtain ⟨item, hitem, hm⟩ := Option.bind_eq_some_iff.mp hm
  obtain ⟨next, hnext, hm⟩ := Option.bind_eq_some_iff.mp hm
  obtain ⟨hlt, hroot⟩ :=
    h.next _ (List.mem_map_of_mem (List.mem_of_getElem? hitem)) next hnext
  exact h.push hlt hroot hm

theorem Tidy.popItem (h : self.Tidy) (hm : self.popItem = some m) : m.Tidy := by
  unfold BLTNItemManager.popItem at hm
  split at hm
  · cases hm
  rename_i hprepared
  have hprepared : self.isPrepared = true := by simpa using hprepared
  split at hm
  · -- the root item is shown already
    rename_i hlast
    have hcurrent : self.currentItem = self.rootItem := by rw [h.currentItem, hlast]; rfl
    simp only [popToRootItem, hprepared, hcurrent] at hm
    exact Option.some.inj hm ▸ h
  · rename_i previousItem hlast
    have hcurrent : self.currentItem = previousItem := by rw [h.currentItem, hlast]; rfl
    have hne : previousItem ≠ self.rootItem := (h.stack _ (List.mem_of_getLast? hlast)).2
    simp only at hm
    split at hm
    · simp only [popToRootItem, hprepared, hcurrent, hne] at hm
      obtain rfl := Option.some.inj hm
      refine tidy_refresh h.root_lt (fun _ hi => nomatch hi) h.next rfl rfl
        (h.prepared hprepared) fun i hi => ?_
      exact Or.inr (congrArg some (((h.manager i).mp hi).2.trans hcurrent).symm)
    · rename_i currentItem hbelow
      obtain rfl := Option.some.inj hm
      refine tidy_refresh h.root_lt (fun i hi => h.stack i (List.dropLast_subset _ hi)) h.next
        ?_ hprepared (h.prepared hprepared) fun i hi => ?_
      · simp [hbelow]
      · exact Or.inr (congrArg some (((h.manager i).mp hi).2.trans hcurrent).symm)

theorem Tidy.dismissBulletin (h : self.Tidy) (hm : self.dismissBulletin = some m) : m.Tidy := by
  unfold BLTNItemManager.dismissBulletin at hm
  split at hm
  · obtain rfl := Option.some.inj hm
    have houtline : (self.modifyItem self.currentItem fun item =>
        { item with manager := false }).outline = self.outline := outline_manager _ false
    have hlength := length_of_outline houtline
    refine ⟨hlength ▸ h.root_lt, fun i hi => hlength ▸ h.stack i hi, fun p hp => ?_, h.currentItem,
      h.previousItem, fun i => ?_, fun h => nomatch h⟩
    · exact hlength ▸ h.next p (houtline ▸ hp)
    · refine (hasManager_clear self.currentItem i).trans ?_
      rw [h.manager i]
      simp
      tauto
  · cases hm

theorem Tidy.completeDismissal (h : self.Tidy) (hprepared : self.isPrepared = false) :
    self.completeDismissal.Tidy := by
  refine ⟨h.root_lt, fun _ hi => (nomatch hi), h.next, rfl, h.previousItem, fun i => ?_,
    fun _ => rfl⟩
  have := h.manager i
  simp only [hprepared, Bool.false_eq_true, false_and] at this
  simpa [BLTNItemManager.completeDismissal, hasManager, hprepared] using this

/-- A new item: the bulletin does not show it yet. -/
theorem Tidy.create (h : self.Tidy) (content : κ) {next : Option Nat}
    (hnext : ∀ i, next = some i → i < self.items.length ∧ i ≠ self.rootItem) :
    (self.create content next).1.Tidy := by
  have hlt : ∀ {i}, i < self.items.length → i < (self.create content next).1.items.length := by
    intro i hi
    simp only [BLTNItemManager.create, List.length_append, List.length_singleton]
    omega
  refine ⟨hlt h.root_lt, fun i hi => (h.stack i hi).imp_left hlt, fun p hp i hi => ?_,
    h.currentItem, h.previousItem, fun i => ?_, h.prepared⟩
  · rw [outline_create, List.mem_append, List.mem_singleton] at hp
    rcases hp with hp | rfl
    · exact (h.next p hp i hi).imp_left hlt
    · exact (hnext i hi).imp_left hlt
  · rw [hasManager_create]
    exact h.manager i

theorem Tidy.setNext (h : self.Tidy) (item : Nat) {next : Nat} (hlt : next < self.items.length)
    (hroot : next ≠ self.rootItem) : (self.setNext item next).Tidy := by
  have hlength : (self.setNext item next).items.length = self.items.length := by
    simp [BLTNItemManager.setNext, modifyItem]
  refine ⟨hlength ▸ h.root_lt, fun i hi => hlength ▸ h.stack i hi, fun p hp i hi => ?_,
    h.currentItem, h.previousItem, fun i => ?_, h.prepared⟩
  · rw [hlength]
    rcases mem_outline_setNext hp with hp | ⟨-, hp⟩
    · exact h.next p hp i hi
    · obtain rfl := Option.some.inj (hp.symm.trans hi)
      exact ⟨hlt, hroot⟩
  · rw [hasManager_setNext]
    exact h.manager i

theorem tidy_showBulletin (content : κ) : (withRoot content).showBulletin.Tidy := by
  refine tidy_refresh Nat.zero_lt_one (fun _ hi => nomatch hi) (fun p hp i hi => ?_) rfl rfl
    rfl fun i hi => ?_
  · simp [withRoot, outline] at hp
    simp [hp] at hi
  · cases i <;> simp [withRoot, hasManager] at hi ⊢

/-! ## The items in view -/

/-- The items that are shown or that can be gone back to. -/
def shownItems (self : BLTNItemManager κ) : List Nat := self.rootItem :: self.itemsStack

theorem Tidy.currentItem_mem (h : self.Tidy) : self.currentItem ∈ self.shownItems := by
  rw [h.currentItem, shownItems]
  cases hlast : self.itemsStack.getLast? with
  | none => exact List.mem_cons_self
  | some i => exact List.mem_cons_of_mem _ (List.mem_of_getLast? hlast)

theorem Tidy.lt_of_mem_shownItems (h : self.Tidy) {i : Nat} (hi : i ∈ self.shownItems) :
    i < self.items.length := by
  rcases List.mem_cons.mp hi with rfl | hi
  · exact h.root_lt
  · exact (h.stack i hi).1

@[simp] theorem shownItems_refresh :
    self.refreshCurrentItemInterface.shownItems = self.shownItems := by
  simp [shownItems]

theorem push_spec {item : Nat} (h : self.push item = some m) :
    m.shownItems = self.shownItems ++ [item] ∧ m.currentItem = item := by
  unfold push at h
  split at h
  · obtain rfl := Option.some.inj h
    simp [shownItems]
  · cases h

theorem shownItems_popToRootItem (h : self.popToRootItem = some m) :
    m.shownItems ⊆ self.shownItems := by
  unfold popToRootItem at h
  split at h
  · cases h
  · split at h
    · rw [Option.some.inj h]
      exact List.Subset.refl _
    · obtain rfl := Option.some.inj h
      simp [shownItems]

theorem shownItems_popItem (h : self.popItem = some m) : m.shownItems ⊆ self.shownItems := by
  have hbelow : self.rootItem :: self.itemsStack.dropLast ⊆ self.shownItems :=
    List.cons_subset_cons _ (List.dropLast_subset _)
  unfold popItem at h
  split at h
  · cases h
  · split at h
    · exact shownItems_popToRootItem h
    · simp only at h
      split at h
      · exact List.Subset.trans (shownItems_popToRootItem h) hbelow
      · obtain rfl := Option.some.inj h
        rw [shownItems_refresh]
        exact hbelow

theorem shownItems_dismissBulletin (h : self.dismissBulletin = some m) :
    m.shownItems = self.shownItems := by
  unfold dismissBulletin at h
  split at h
  · obtain rfl := Option.some.inj h
    rfl
  · cases h

theorem shownItems_completeDismissal : self.completeDismissal.shownItems ⊆ self.shownItems := by
  simp [completeDismissal, shownItems]

/-! ## When an operation traps -/

theorem Tidy.currentItem_lt (h : self.Tidy) : self.currentItem < self.items.length :=
  h.lt_of_mem_shownItems h.currentItem_mem

theorem isSome_push (h : self.isPrepared = true) (item : Nat) : (self.push item).isSome := by
  simp [push, h]

theorem isSome_dismissBulletin (h : self.isPrepared = true) : self.dismissBulletin.isSome := by
  simp [dismissBulletin, h]

theorem isSome_popToRootItem (h : self.isPrepared = true) : self.popToRootItem.isSome := by
  unfold popToRootItem
  split
  · simp_all
  · split <;> rfl

theorem isSome_popItem (h : self.isPrepared = true) : self.popItem.isSome := by
  unfold popItem
  split
  · simp_all
  · split
    · exact isSome_popToRootItem h
    · simp only
      split
      · exact isSome_popToRootItem h
      · rfl

theorem isSome_displayNextItem (h : self.isPrepared = true) {item : BLTNItem κ}
    (hitem : self.items[self.currentItem]? = some item) (hnext : item.next.isSome) :
    self.displayNextItem.isSome := by
  obtain ⟨next, hnext⟩ := Option.isSome_iff_exists.mp hnext
  simp [displayNextItem, hitem, hnext, isSome_push h]

end BLTNItemManager

end Musgravite
