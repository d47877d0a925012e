import Musgravite.Downloads
import Musgravite.Library.Callbacks

/-! # The task menu

`getMenuElements` and `getStatsElements` download the student and then the student's tasks,
and make an item of each task.  They hand the items on whenever `getTareasData` hands on
tasks, and add to the same list each time.  `getAllMenuElements` calls the second in the
completion block of the first.

`taskMenu_lists_iff` says when the menu lists every task once per section with the days that
remain. -/
namespace Musgravite
open FirebaseController
namespace ProjectMenuVM

/-- A call of `getMenuElements` or `getStatsElements`. -/
structure ElementsCall where
  /-- The call of `getTareasData`, once the student is there. -/
  download : Option (Download DocumentReference Tarea) := none
  menuElements : Option (List MenuItem) := none
  /-- The calls of the completion block. -/
  completions : List (List MenuItem) := []

inductive ElementsCall.Event
  /-- The reply to `getStudentData` arrives. -/
  | studentDownloaded (answered : Bool)
  /-- The backend serves the `k`-th of the open requests for tasks. -/
  | serveTarea (k : Nat) (answered : Bool)
  /-- The `k`-th of the replies on their way arrives. -/
  | deliverTarea (k : Nat)

variable (calendar : Calendar) (store : Store) (signedUser : String)

/-- The item of a task. -/
def item (type : MenuItem.ContentType) (tarea : Tarea) : MenuItem where
  image := "blueprint"
  title := tarea.nombre
  itemDescription := s!"{tarea.daysLeft calendar} days left"
  destinationSegue := "HomeProject"
  type := type

namespace ElementsCall

/-- The block given to `getTareasData`, `none` if it traps. -/
def tareasDownloaded (type : MenuItem.ContentType) (self : ElementsCall)
    (tareas : Option (List Tarea)) : Option ElementsCall := do
  let tareas ← tareas
  let menuElements := tareas.foldl
    (fun menuElements tarea => some (appendTo menuElements (item calendar type tarea)))
    self.menuElements
  let elements ← menuElements
  return { self with menuElements, completions := self.completions ++ [elements] }

/-- The block given to `getStudentData`, `none` if it traps. -/
def studentDownloaded (self : ElementsCall) (estudiante : Option Estudiante) :
    Option ElementsCall := do
  let estudiante ← estudiante
  return { self with download := some (.start estudiante.tareas) }

/-- The call after an event, `none` if it cannot happen or stops the app. -/
def step (type : MenuItem.ContentType) (self : ElementsCall) : Event → Option ElementsCall
  | .studentDownloaded answered =>
      if self.download.isSome then none
      else do
        let replies ← getStudentDataByID store answered signedUser
        replies.foldlM studentDownloaded self
  | .serveTarea k answered => do
      let download ← self.download
      -- `getTareasData` sends the request of `getTareaData` for each task
      let download ← getTareasData.serveWith (getTareaData store answered) download k
      return { self with download := some download }
  | .deliverTarea k => do
      let download ← self.download
      let later ← getTareasData.deliver download k
      (download.newCompletions later).foldlM (tareasDownloaded calendar type)
        { self with download := some later }

theorem tareasDownloaded_some (type : MenuItem.ContentType) (self : ElementsCall)
    {tareas : List Tarea} (h : tareas ≠ []) : tareasDownloaded calendar type self (some tareas) =
      some { self with
        menuElements := some (self.menuElements.getD [] ++ tareas.map (item calendar type))
        completions := self.completions ++
          [self.menuElements.getD [] ++ tareas.map (item calendar type)] } := by
  simp [tareasDownloaded, foldl_appendTo _ self.menuElements h]

/-- The block calls the completion block, if it does not trap. -/
theorem completions_prefix_tareasDownloaded {type : MenuItem.ContentType} {s t : ElementsCall}
    {tareas : Option (List Tarea)} (h : tareasDownloaded calendar type s tareas = some t) :
    s.completions <+: t.completions := by
  obtain ⟨_, -, h⟩ := Option.bind_eq_some_iff.mp h
  obtain ⟨elements, -, h⟩ := Option.bind_eq_some_iff.mp h
  obtain rfl := Option.some.inj h
  exact List.prefix_append ..

theorem completions_prefix_step {type : MenuItem.ContentType} {s t : ElementsCall} {e : Event}
    (h : step calendar store signedUser type s e = some t) : s.completions <+: t.completions := by
  cases e with
  | studentDownloaded answered =>
    obtain ⟨-, h⟩ := Option.ite_none_left_eq_some.mp h
    obtain ⟨replies, -, h⟩ := Option.bind_eq_some_iff.mp h
    refine FanOut.foldlM_invariant (P := fun t => s.completions <+: t.completions) ?_
      List.prefix_rfl h
    intro reply _ t u ht hu
    obtain ⟨estudiante, -, hu⟩ := Option.bind_eq_some_iff.mp hu
    obtain rfl := Option.some.inj hu
    exact ht
  | serveTarea k answered =>
    obtain ⟨d, -, h⟩ := Option.bind_eq_some_iff.mp h
    obtain ⟨later, -, h⟩ := Option.bind_eq_some_iff.mp h
    obtain rfl := Option.some.inj h
    exact List.prefix_rfl
  | deliverTarea k =>
    obtain ⟨d, -, h⟩ := Option.bind_eq_some_iff.mp h
    obtain ⟨later, -, h⟩ := Option.bind_eq_some_iff.mp h
    exact FanOut.foldlM_invariant (P := fun t => s.completions <+: t.completions)
      (fun tareas _ t u ht hu => ht.trans (completions_prefix_tareasDownloaded calendar hu))
      List.prefix_rfl h

end ElementsCall

/-- The calls of `getMenuElements` and `getStatsElements`, which differ in the type of their
items. -/
def elementsRoutine (type : MenuItem.ContentType) :
    Routine ElementsCall ElementsCall.Event (List MenuItem) where
  step := ElementsCall.step calendar store signedUser type
  start := {}
  called := ElementsCall.completions
  called_start := rfl
  called_step := ElementsCall.completions_prefix_step calendar store signedUser

def getMenuElements : Routine ElementsCall ElementsCall.Event (List MenuItem) :=
  elementsRoutine calendar store signedUser .vertical

def getStatsElements : Routine ElementsCall ElementsCall.Event (List MenuItem) :=
  elementsRoutine calendar store signedUser .horizontal

/-- A call of `getAllMenuElements`. -/
abbrev AllElementsCall : Type :=
  Routine.Nested ElementsCall (List MenuItem) ElementsCall (List MenuItem)

abbrev AllElementsCall.Event : Type :=
  Routine.Nested.Action ElementsCall.Event ElementsCall.Event

def getAllMenuElements : Routine AllElementsCall AllElementsCall.Event (List MenuItem) :=
  (getMenuElements calendar store signedUser).nest (getStatsElements calendar store signedUser)
    fun menuelems statelems => menuelems ++ statelems

/-! ## A call, reply by reply -/

/-- The student's document and those of the tasks are there: all requests can succeed. -/
structure HasTasks (estudiante : Estudiante) (tareas : List Tarea) : Prop where
  student : getStudentDataByID store true signedUser = some [some estudiante]
  tasks : estudiante.tareas.map (getTareaData store true) = tareas.map fun t => some [some t]

/-- The reply to the request for a task that is stored. -/
def Stored (tarea : DocumentReference) (reply : Option Tarea) : Prop :=
  ∃ tareax, reply = some tareax ∧ getTareaData store true tarea = some [some tareax]

theorem stored_of_getTareaData {tarea : DocumentReference} {reply : Option Tarea}
    (h : getTareaData store true tarea = some [reply]) : Stored store tarea reply := by
  obtain ⟨tareax, -, he⟩ := Option.map_eq_some_iff.mp h
  obtain rfl : some tareax = reply := by simpa using he
  exact ⟨tareax, rfl, h⟩

/-- What a call hands on that is given these lists of tasks, one after the other: at each
list the items of all lists so far. -/
def handedOn (type : MenuItem.ContentType) (lists : List (List Tarea)) : List (List MenuItem) :=
  lists.inits.tail.map fun soFar => soFar.flatten.map (item calendar type)

theorem handedOn_snoc (type : MenuItem.ContentType) (lists : List (List Tarea)) (l : List Tarea) :
    handedOn calendar type (lists ++ [l]) = handedOn calendar type lists ++
      [lists.flatten.map (item calendar type) ++ l.map (item calendar type)] := by
  have htail : (lists ++ [l]).inits.tail = lists.inits.tail ++ [lists ++ [l]] := by
    cases lists <;> simp
  simp only [handedOn, htail, List.map_append, List.map_singleton, List.flatten_append,
    List.flatten_singleton]

variable {store signedUser} in
theorem HasTasks.stored {estudiante : Estudiante} {tareas : List Tarea}
    (h : HasTasks store signedUser estudiante tareas) :
    ∀ tarea ∈ estudiante.tareas, ∃ reply, Stored store tarea reply := by
  intro tarea htarea
  have hmem : getTareaData store true tarea ∈ tareas.map fun t => some [some t] :=
    h.tasks ▸ List.mem_map_of_mem htarea
  obtain ⟨t, -, ht⟩ := List.mem_map.mp hmem
  exact ⟨some t, t, rfl, ht.symm⟩

namespace ElementsCall

/-- The request of the event, if it is the reply to one, succeeds. -/
def Event.Succeeds : Event → Prop
  | .studentDownloaded answered => answered = true
  | .serveTarea _ answered => answered = true
  | .deliverTarea _ => True

/-- What the event answers or delivers is there. -/
def Due (self : ElementsCall) : Event → Prop
  | .studentDownloaded _ => self.download = none
  | .serveTarea k _ => ∃ d, self.download = some d ∧ k < d.unserved.length
  | .deliverTarea k => ∃ d, self.download = some d ∧ k < d.transit.length

/-- The tasks are being downloaded. -/
structure Downloading (type : MenuItem.ContentType) (tareas : List DocumentReference)
    (d : Download DocumentReference Tarea) (lists : List (List Tarea)) (call : ElementsCall) :
    Prop where
  download : call.download = some d
  sound : getTareasData.Sound d
  requests : d.requests = tareas
  replied : FanOut.Replied (Stored store) d
  passedOn : d.completions = lists.map some
  menuElements : call.menuElements.getD [] = lists.flatten.map (item calendar type)
  completions : call.completions = handedOn calendar type lists

/-- Either the student is being downloaded, or the tasks are. -/
def Sound (type : MenuItem.ContentType) (tareas : List DocumentReference) (self : ElementsCall) :
    Prop :=
  self = {} ∨ ∃ d lists, Downloading calendar store type tareas d lists self

variable {calendar store signedUser}
variable {type : MenuItem.ContentType} {self t : ElementsCall} {e : Event}
variable {estudiante : Estudiante} {tareas : List Tarea}

theorem due_of_step (h : step calendar store signedUser type self e = some t) : self.Due e := by
  cases e with
  | studentDownloaded answered =>
    obtain ⟨hnone, -⟩ := Option.ite_none_left_eq_some.mp h
    simpa [Due] using hnone
  | serveTarea k answered =>
    obtain ⟨d, hd, h⟩ := Option.bind_eq_some_iff.mp h
    obtain ⟨later, hlater, -⟩ := Option.bind_eq_some_iff.mp h
    obtain ⟨r, a, hr, -, -⟩ := FanOut.serveWith_eq_some hlater
    exact ⟨d, hd, (List.getElem?_eq_some_iff.mp hr).1⟩
  | deliverTarea k =>
    obtain ⟨d, hd, h⟩ := Option.bind_eq_some_iff.mp h
    obtain ⟨later, hlater, -⟩ := Option.bind_eq_some_iff.mp h
    obtain ⟨p, hp, -⟩ := Option.map_eq_some_iff.mp hlater
    exact ⟨d, hd, (List.getElem?_eq_some_iff.mp hp).1⟩

section Steps
variable {refs : List DocumentReference} {d : Download DocumentReference Tarea}
  {lists : List (List Tarea)} (h : Downloading calendar store type refs d lists self)
include h

/-- A request for a task that is stored is served. -/
theorem Downloading.serveTarea (hstored : ∀ r ∈ refs, ∃ a, Stored store r a) {k : Nat}
    (hk : k < d.unserved.length) : ∃ t d', step calendar store signedUser type self
      (.serveTarea k true) = some t ∧ Downloading calendar store type refs d' lists t := by
  have hr : d.unserved[k]? = some d.unserved[k] := List.getElem?_eq_getElem hk
  have hmem : d.unserved[k] ∈ refs := by
    rw [← h.requests]
    refine h.sound.accounted.subset ?_
    simp [List.getElem_mem hk]
  obtain ⟨-, tareax, -, hreply⟩ := hstored _ hmem
  have hserve : (getTareasData.serveWith (getTareaData store true) d k).isSome :=
    getTareasData_serveWith_iff.mpr ⟨_, hr, by simp [hreply]⟩
  obtain ⟨later, hlater⟩ := Option.isSome_iff_exists.mp hserve
  obtain ⟨-, a, -, -, hstep⟩ := FanOut.serveWith_eq_some hlater
  have hcompletions : later.completions = d.completions := FanOut.completions_serve hstep
  refine ⟨{ self with download := some later }, later, ?_, rfl, h.sound.serve hstep,
    (FanOut.requests_serve hstep).trans h.requests,
    h.replied.serveWith (fun _ _ => stored_of_getTareaData store) hlater,
    hcompletions.trans h.passedOn, h.menuElements, h.completions⟩
  simp [step, h.download, hlater]

/-- A task arrives, and items are made if it is the one that was asked for last. -/
theorem Downloading.deliverTarea {k : Nat} (hk : k < d.transit.length) :
    ∃ t d' lists', step calendar store signedUser type self (.deliverTarea k) = some t ∧
      Downloading calendar store type refs d' lists' t := by
  have hp : d.transit[k]? = some d.transit[k] := List.getElem?_eq_getElem hk
  obtain ⟨tareax, hreply, -⟩ := h.replied d.transit[k] (by simp [List.getElem_mem hk])
  obtain ⟨later, hlater⟩ : ∃ later, getTareasData.deliver d k = some later :=
    ⟨_, Option.map_eq_some_iff.mpr ⟨_, hp, rfl⟩⟩
  have hnew := FanOut.completions_deliver hlater
  have hnext : ∀ t lists', t.download = some later → later.completions = lists'.map some →
      t.menuElements.getD [] = lists'.flatten.map (item calendar type) →
      t.completions = handedOn calendar type lists' →
      Downloading calendar store type refs later lists' t :=
    fun t lists' hdownload hpassed hmenu hcompletions => ⟨hdownload, h.sound.deliver hlater,
      (FanOut.requests_deliver hlater).trans h.requests, h.replied.deliver hlater, hpassed, hmenu,
      hcompletions⟩
  rcases getTareasData_newCompletions (hp.trans (congrArg some (Prod.ext rfl hreply))) hlater
    with hnone | ⟨l, hl, hone⟩
  · -- not the last reference: the tasks are kept
    rw [hnone, List.append_nil] at hnew
    refine ⟨{ self with download := some later }, later, lists, ?_,
      hnext _ _ rfl (hnew.trans h.passedOn) h.menuElements h.completions⟩
    simp [step, h.download, hlater, hnone]
  · -- the last reference: items are made of what has arrived
    rw [hone, h.passedOn] at hnew
    have hblock := tareasDownloaded_some calendar type { self with download := some later } hl
    have hmenu : self.menuElements.getD [] ++ l.map (item calendar type) =
        (lists ++ [l]).flatten.map (item calendar type) := by simp [h.menuElements]
    refine ⟨{
        download := some later
        menuElements := some (self.menuElements.getD [] ++ l.map (item calendar type))
        completions := self.completions ++
          [self.menuElements.getD [] ++ l.map (item calendar type)] },
      later, lists ++ [l], ?_, hnext _ _ rfl (hnew.trans (by simp)) hmenu ?_⟩
    · simpa [step, h.download, hlater, hone] using hblock
    · rw [handedOn_snoc, ← h.menuElements, ← h.completions]

end Steps

theorem Sound.downloading {refs : List DocumentReference} {d : Download DocumentReference Tarea}
    (h : Sound calendar store type refs self) (hd : self.download = some d) :
    ∃ lists, Downloading calendar store type refs d lists self := by
  rcases h with rfl | ⟨d', lists, h⟩
  · cases hd
  · obtain rfl := Option.some.inj (hd.symm.trans h.download)
    exact ⟨lists, h⟩

/-- What is due and succeeds can happen, and it keeps the call in order. -/
theorem Sound.step (h : Sound calendar store type estudiante.tareas self)
    (hstore : HasTasks store signedUser estudiante tareas) (hsucceeds : e.Succeeds)
    (hdue : self.Due e) : ∃ t, step calendar store signedUser type self e = some t ∧
      Sound calendar store type estudiante.tareas t := by
  cases e with
  | studentDownloaded answered =>
    obtain rfl : answered = true := hsucceeds
    rcases h with rfl | ⟨d, lists, h⟩
    · refine ⟨{ download := some (.start estudiante.tareas) }, ?_, Or.inr ⟨_, [], rfl,
        getTareasData.sound_start _, rfl, FanOut.replied_start _, rfl, rfl, rfl⟩⟩
      simp [ElementsCall.step, hstore.student, studentDownloaded]
    · cases h.download.symm.trans hdue
  | serveTarea k answered =>
    obtain rfl : answered = true := hsucceeds
    obtain ⟨d, hd, hk⟩ := hdue
    obtain ⟨lists, h⟩ := h.downloading hd
    obtain ⟨t, later, ht, hlater⟩ := h.serveTarea hstore.stored hk
    exact ⟨t, ht, Or.inr ⟨later, lists, hlater⟩⟩
  | deliverTarea k =>
    obtain ⟨d, hd, hk⟩ := hdue
    obtain ⟨lists, h⟩ := h.downloading hd
    obtain ⟨t, later, lists', ht, hlater⟩ := h.deliverTarea hk
    exact ⟨t, ht, Or.inr ⟨later, lists', hlater⟩⟩

/-- Nothing is due to a call if all its replies have been delivered. -/
theorem not_due_iff : (∀ e, ¬ self.Due e) ↔ ∃ d, self.download = some d ∧ d.Finished := by
  constructor
  · intro hdue
    obtain ⟨d, hd⟩ := Option.ne_none_iff_exists'.mp (hdue (.studentDownloaded true))
    refine ⟨d, hd, List.eq_nil_iff_length_eq_zero.mpr ?_, List.eq_nil_iff_length_eq_zero.mpr ?_⟩
    · by_contra hlen
      exact hdue (.serveTarea 0 true) ⟨d, hd, Nat.pos_of_ne_zero hlen⟩
    · by_contra hlen
      exact hdue (.deliverTarea 0) ⟨d, hd, Nat.pos_of_ne_zero hlen⟩
  · rintro ⟨d, hd, hunserved, htransit⟩ e
    cases e <;> simp [Due, hd, hunserved, htransit]

/-! ## A call that has all tasks -/

/-- The reply for the reference arrives last. -/
def ArrivesLast (last : DocumentReference) (self : ElementsCall) : Prop :=
  ∀ d ∈ self.download, d.delivered.getLast?.map Prod.fst = some last

section Finished
variable {d : Download DocumentReference Tarea} {lists : List (List Tarea)}
  (h : Downloading calendar store type estudiante.tareas d lists self)
  (hstore : HasTasks store signedUser estudiante tareas) (hf : d.Finished)
include h

theorem Downloading.allSucceeded : d.AllSucceeded :=
  h.replied.allSucceeded fun _ _ ⟨_, hreply, _⟩ => hreply ▸ rfl

theorem Downloading.length_completions : self.completions.length = d.completions.length := by
  simp [h.completions, h.passedOn, handedOn]

theorem Downloading.completions_nil (hnil : estudiante.tareas = []) : self.completions = [] := by
  rw [← List.length_eq_zero_iff, h.length_completions, h.sound.completions_eq]
  have hle := h.sound.length_delivered_le
  rw [h.requests, hnil] at hle
  rw [List.eq_nil_of_length_eq_zero (Nat.le_zero.mp hle)]
  rfl

include hf

theorem Downloading.length_completions_of_last {last : DocumentReference}
    (hlast : estudiante.tareas.getLast? = some last) :
    self.completions.length = estudiante.tareas.count last := by
  rw [h.length_completions, getTareasData_length_of_allSucceeded h.sound hf h.allSucceeded
    (h.requests ▸ hlast), h.requests]

include hstore

theorem Downloading.documents_perm : d.documents.Perm tareas := by
  refine h.replied.documents_perm (f := getTareaData store true) (g := fun t => some [some t])
    (fun t t' he => by simpa using he) ?_ h.sound hf (h.requests ▸ hstore.tasks)
  rintro r _ ⟨t, rfl, ht⟩
  exact ⟨t, rfl, ht⟩

/-- The one list of items that is handed on, if the last reference occurs once. -/
theorem Downloading.single {last : DocumentReference}
    (hlast : estudiante.tareas.getLast? = some last) (hone : estudiante.tareas.count last = 1) :
    ∃ l : List Tarea, self.completions = [l.map (item calendar type)] ∧
      l.length ≤ tareas.length ∧ (l.length = tareas.length ↔ self.ArrivesLast last) ∧
      (self.ArrivesLast last → l.Perm tareas) := by
  have hlength : tareas.length = d.requests.length := by
    simpa [h.requests] using (congrArg List.length hstore.tasks).symm
  have hcount : lists.length = 1 := by
    have hcalls := getTareasData_length_of_allSucceeded h.sound hf h.allSucceeded
      (h.requests ▸ hlast)
    rwa [h.passedOn, List.length_map, h.requests, hone] at hcalls
  obtain ⟨l, rfl⟩ := List.length_eq_one_iff.mp hcount
  obtain ⟨hle, hwhole, hend⟩ := getTareasData_single h.sound hf h.allSucceeded
    (h.requests ▸ hlast) h.passedOn
  have harrives : self.ArrivesLast last ↔ d.delivered.getLast?.map Prod.fst = some last := by
    simp [ArrivesLast, h.download]
  refine ⟨l, by simp [h.completions, handedOn], hlength ▸ hle, ?_, fun harrived => ?_⟩
  · rw [hlength, hwhole, hend, harrives]
  · rw [hend.mpr (harrives.mp harrived)]
    exact h.documents_perm hstore hf

end Finished

end ElementsCall

/-! ## Both calls together -/

/-- What the menu should hand on for the tasks: an item for each of them in the vertical
half, and one in the horizontal half; each says how many days there are from today to the
end of its task. -/
structure ListsTasks (today : Date) (tareas : List Tarea) (elements : List MenuItem) : Prop where
  length : elements.length = 2 * tareas.length
  vertical : ∀ element ∈ elements.take tareas.length, element.type = .vertical
  horizontal : ∀ element ∈ elements.drop tareas.length, element.type = .horizontal
  menu : (elements.take tareas.length).Perm (tareas.map (item calendar .vertical))
  stats : (elements.drop tareas.length).Perm (tareas.map (item calendar .horizontal))
  daysLeft : ∀ type, ∀ tarea ∈ tareas, (item calendar type tarea).itemDescription =
    s!"{calendar.dayNumber tarea.fechaFin - calendar.dayNumber today} days left"

namespace AllElementsCall

/-- The requests of the event succeed. -/
def Event.Succeeds : Event → Prop :=
  Routine.Nested.Action.Meets ElementsCall.Event.Succeeds ElementsCall.Event.Succeeds

/-- What the event answers or delivers is there. -/
def Due (self : AllElementsCall) : Event → Prop :=
  Routine.Nested.Due ElementsCall.Due ElementsCall.Due self

/-- All replies have been delivered. -/
def Finished (self : AllElementsCall) : Prop := ∀ e, ¬ self.Due e

/-- In each of the downloads of the tasks the reply for the reference arrives last. -/
def ArrivesLast (last : DocumentReference) (self : AllElementsCall) : Prop :=
  self.outer.ArrivesLast last ∧ ∀ p ∈ self.inner, p.2.ArrivesLast last

end AllElementsCall

variable {calendar store signedUser}

theorem natRepr_injective : Function.Injective Nat.repr := by
  intro m n h
  have hdigits := congrArg (fun text => Nat.ofDigitChars 10 text.toList 0) h
  simpa [Nat.toList_repr] using hdigits

/-- The text of a number says which number it is. -/
theorem intRepr_injective : Function.Injective Int.repr := by
  have hminus (m n : Nat) : m.repr ≠ "-" ++ n.repr := by
    intro h
    have hmem : '-' ∈ m.repr.toList := by
      rw [h]
      simp
    rw [Nat.toList_repr] at hmem
    have hdigit := Nat.isDigit_of_mem_toDigits (by decide) (by decide) hmem
    exact absurd hdigit (by decide)
  intro j k h
  rw [Int.repr_eq_if, Int.repr_eq_if] at h
  split at h <;> split at h
  · have hnat := natRepr_injective h
    omega
  · exact absurd h (hminus _ _)
  · exact absurd h.symm (hminus _ _)
  · have hnat := natRepr_injective (String.append_right_inj _ |>.mp h)
    omega

/-- An item says the days that remain if its task starts today. -/
theorem item_says_iff {type : MenuItem.ContentType} {tarea : Tarea} {today : Date} :
    (item calendar type tarea).itemDescription =
        s!"{calendar.dayNumber tarea.fechaFin - calendar.dayNumber today} days left" ↔
      calendar.dayNumber tarea.fechaInicio = calendar.dayNumber today := by
  have hinj : ∀ j k : Int, s!"{j} days left" = s!"{k} days left" ↔ j = k := fun j k =>
    ⟨fun h => intRepr_injective ((String.append_left_inj _).mp h), fun h => h ▸ rfl⟩
  rw [item, hinj, Tarea.daysLeft_eq]
  omega

theorem ListsTasks.of_perm {today : Date} {tareas l₁ l₂ : List Tarea} (h₁ : l₁.Perm tareas)
    (h₂ : l₂.Perm tareas)
    (htoday : ∀ tarea ∈ tareas, calendar.dayNumber tarea.fechaInicio = calendar.dayNumber today) :
    ListsTasks calendar today tareas
      (l₁.map (item calendar .vertical) ++ l₂.map (item calendar .horizontal)) := by
  have htake : (l₁.map (item calendar .vertical) ++ l₂.map (item calendar .horizontal)).take
      tareas.length = l₁.map (item calendar .vertical) :=
    List.take_left' (by rw [List.length_map, h₁.length_eq])
  have hdrop : (l₁.map (item calendar .vertical) ++ l₂.map (item calendar .horizontal)).drop
      tareas.length = l₂.map (item calendar .horizontal) :=
    List.drop_left' (by rw [List.length_map, h₁.length_eq])
  refine ⟨?_, ?_, ?_, ?_, ?_, fun type tarea htarea => item_says_iff.mpr (htoday tarea htarea)⟩
  · simp only [List.length_append, List.length_map, h₁.length_eq, h₂.length_eq]
    omega
  · rw [htake]
    simp [item]
  · rw [hdrop]
    simp [item]
  · rw [htake]
    exact h₁.map _
  · rw [hdrop]
    exact h₂.map _

namespace AllElementsCall
variable {estudiante : Estudiante} {tareas : List Tarea} {es : List Event} {s : AllElementsCall}

variable (calendar store signedUser) in
/-- All calls are in order, and what is handed on comes from them. -/
structure InOrder (estudiante : Estudiante) (s : AllElementsCall) : Prop where
  sound : Routine.Nested.Sound (getMenuElements calendar store signedUser)
    (getStatsElements calendar store signedUser)
    (fun menuelems statelems => menuelems ++ statelems) s
  menu : ElementsCall.Sound calendar store .vertical estudiante.tareas s.outer
  stats : ∀ p ∈ s.inner, ElementsCall.Sound calendar store .horizontal estudiante.tareas p.2

theorem inOrder_of_run (hstore : HasTasks store signedUser estudiante tareas)
    (hsucceeds : ∀ e ∈ es, Event.Succeeds e)
    (hrun : (getAllMenuElements calendar store signedUser).run
      (getAllMenuElements calendar store signedUser).start es = some s) :
    InOrder calendar store signedUser estudiante s := by
  have hstep : ∀ {type : MenuItem.ContentType} {self : ElementsCall} {e : ElementsCall.Event}
      {t : ElementsCall}, ElementsCall.Sound calendar store type estudiante.tareas self →
      e.Succeeds → (elementsRoutine calendar store signedUser type).step self e = some t →
      ElementsCall.Sound calendar store type estudiante.tareas t := by
    intro type self e t hself he ht
    obtain ⟨t', ht', hsound⟩ := hself.step hstore he (ElementsCall.due_of_step ht)
    obtain rfl := Option.some.inj (ht.symm.trans ht')
    exact hsound
  obtain ⟨hsound, hmenu, hstats⟩ := Routine.Nested.nest_run
    (P := ElementsCall.Sound calendar store .vertical estudiante.tareas)
    (Q := ElementsCall.Sound calendar store .horizontal estudiante.tareas)
    (Or.inl rfl) (Or.inl rfl) hstep hstep hsucceeds hrun
  exact ⟨hsound, hmenu, hstats⟩

/-- What is due and succeeds does not stop the app. -/
theorem InOrder.step_isSome (h : InOrder calendar store signedUser estudiante s)
    (hstore : HasTasks store signedUser estudiante tareas) {e : Event} (he : Event.Succeeds e)
    (hdue : s.Due e) : ((getAllMenuElements calendar store signedUser).step s e).isSome := by
  have hstep : ∀ {type : MenuItem.ContentType} {self : ElementsCall},
      ElementsCall.Sound calendar store type estudiante.tareas self → ∀ e, e.Succeeds →
      self.Due e → ((elementsRoutine calendar store signedUser type).step self e).isSome := by
    intro type self hself e he hdue
    obtain ⟨t, ht, -⟩ := hself.step hstore he hdue
    exact Option.isSome_iff_exists.mpr ⟨t, ht⟩
  exact Routine.Nested.step_isSome (hstep h.menu) (fun p hp => hstep (h.stats p hp)) he hdue

theorem finished_iff : s.Finished ↔
    (∃ d, s.outer.download = some d ∧ d.Finished) ∧
      ∀ p ∈ s.inner, ∃ d, p.2.download = some d ∧ d.Finished := by
  rw [← ElementsCall.not_due_iff]
  constructor
  · intro hf
    refine ⟨fun e he => hf (.outer e) he, fun p hp => ElementsCall.not_due_iff.mp fun e he => ?_⟩
    obtain ⟨n, hn⟩ := List.mem_iff_getElem?.mp hp
    exact hf (.inner n e) ⟨p, hn, he⟩
  · rintro ⟨houter, hinner⟩ e hdue
    cases e with
    | outer e => exact houter e hdue
    | inner n e =>
      obtain ⟨p, hn, he⟩ := hdue
      exact ElementsCall.not_due_iff.mpr (hinner p (List.mem_of_getElem? hn)) e he

/-- Once all replies are in, each call has all tasks. -/
theorem InOrder.finished (h : InOrder calendar store signedUser estudiante s) (hf : s.Finished) :
    (∃ d lists, d.Finished ∧
      ElementsCall.Downloading calendar store .vertical estudiante.tareas d lists s.outer) ∧
    ∀ p ∈ s.inner, ∃ d lists, d.Finished ∧
      ElementsCall.Downloading calendar store .horizontal estudiante.tareas d lists p.2 := by
  obtain ⟨⟨d, hd, hfd⟩, hinner⟩ := finished_iff.mp hf
  obtain ⟨lists, hdownloading⟩ := h.menu.downloading hd
  refine ⟨⟨d, lists, hfd, hdownloading⟩, fun p hp => ?_⟩
  obtain ⟨d', hd', hfd'⟩ := hinner p hp
  obtain ⟨lists', hdownloading'⟩ := (h.stats p hp).downloading hd'
  exact ⟨d', lists', hfd', hdownloading'⟩

/-- Once all replies are in, the completion block has been called as often as the square of
the number of references to the last task. -/
theorem InOrder.length_called (h : InOrder calendar store signedUser estudiante s)
    (hf : s.Finished) {last : DocumentReference}
    (hlast : estudiante.tareas.getLast? = some last) :
    s.called.length = estudiante.tareas.count last * estudiante.tareas.count last := by
  obtain ⟨⟨d, lists, hd, hmenu⟩, hstats⟩ := h.finished hf
  have hcalls := h.sound.length_called (m := estudiante.tareas.count last) fun p hp => by
    obtain ⟨d, lists, hd, hp⟩ := hstats p hp
    exact hp.length_completions_of_last hd hlast
  rw [hcalls]
  exact congrArg (· * _) (hmenu.length_completions_of_last hd hlast)

/-- Without tasks it has not been called. -/
theorem InOrder.called_nil (h : InOrder calendar store signedUser estudiante s)
    (hf : s.Finished) (hnil : estudiante.tareas = []) : s.called = [] := by
  obtain ⟨⟨d, lists, -, hmenu⟩, hstats⟩ := h.finished hf
  have hcalls := h.sound.length_called (m := 0) fun p hp => by
    obtain ⟨d, lists, -, hp⟩ := hstats p hp
    exact congrArg List.length (hp.completions_nil hnil)
  exact List.eq_nil_of_length_eq_zero hcalls

/-- What is handed on if the last task is referred to once. -/
theorem InOrder.called_single (h : InOrder calendar store signedUser estudiante s)
    (hstore : HasTasks store signedUser estudiante tareas) (hf : s.Finished)
    {last : DocumentReference} (hlast : estudiante.tareas.getLast? = some last)
    (hone : estudiante.tareas.count last = 1) : ∃ l₁ l₂ : List Tarea,
      s.called = [l₁.map (item calendar .vertical) ++ l₂.map (item calendar .horizontal)] ∧
      l₁.length ≤ tareas.length ∧ l₂.length ≤ tareas.length ∧
      (l₁.length = tareas.length ∧ l₂.length = tareas.length ↔ s.ArrivesLast last) ∧
      (s.ArrivesLast last → l₁.Perm tareas ∧ l₂.Perm tareas) := by
  obtain ⟨⟨d, lists, hd, hmenu⟩, hstats⟩ := h.finished hf
  obtain ⟨l₁, hcalled₁, hle₁, harrives₁, hperm₁⟩ := hmenu.single hstore hd hlast hone
  obtain ⟨stats, hinner, hcalled⟩ := h.sound.called_single hcalled₁
  obtain ⟨d', lists', hd', hstats⟩ := hstats _ (hinner ▸ List.mem_singleton_self _)
  obtain ⟨l₂, hcalled₂, hle₂, harrives₂, hperm₂⟩ := hstats.single hstore hd' hlast hone
  have harrives : s.ArrivesLast last ↔ s.outer.ArrivesLast last ∧ stats.ArrivesLast last := by
    simp [ArrivesLast, hinner]
  refine ⟨l₁, l₂, ?_, hle₁, hle₂, ?_, fun harrived => ?_⟩
  · refine List.perm_singleton.mp (hcalled.trans ?_)
    rw [show (getStatsElements calendar store signedUser).called stats = _ from hcalled₂]
    exact List.Perm.refl _
  · rw [harrives, harrives₁, harrives₂]
  · obtain ⟨h₁, h₂⟩ := harrives.mp harrived
    exact ⟨hperm₁ h₁, hperm₂ h₂⟩

end AllElementsCall
end ProjectMenuVM

open ProjectMenuVM

/-- **When the task menu lists every task once per section with the days that remain.**  In
every run in which all requests succeed, nothing that is due stops the app; and once all
replies are in, the completion block has been called once and with the right items exactly if
there are tasks, the last one is referred to once, its reply has arrived last in both
downloads, and all tasks start today. -/
theorem taskMenu_lists_iff (calendar : Calendar) (today : Date) (store : Store)
    (signedUser : String) (estudiante : Estudiante) (tareas : List Tarea)
    (hstore : HasTasks store signedUser estudiante tareas) (es : List AllElementsCall.Event)
    (hsucceeds : ∀ e ∈ es, AllElementsCall.Event.Succeeds e) (s : AllElementsCall)
    (hrun : (getAllMenuElements calendar store signedUser).run
      (getAllMenuElements calendar store signedUser).start es = some s) :
    (∀ e, AllElementsCall.Event.Succeeds e → s.Due e →
      ((getAllMenuElements calendar store signedUser).step s e).isSome) ∧
    (s.Finished →
      ((∃ elements, s.called = [elements] ∧ ListsTasks calendar today tareas elements) ↔
        ∃ last, estudiante.tareas.getLast? = some last ∧ estudiante.tareas.count last = 1 ∧
          s.ArrivesLast last ∧
          ∀ tarea ∈ tareas, calendar.dayNumber tarea.fechaInicio = calendar.dayNumber today)) := by
  have h := AllElementsCall.inOrder_of_run hstore hsucceeds hrun
  refine ⟨fun e he hdue => h.step_isSome hstore he hdue, fun hf => ⟨?_, ?_⟩⟩
  · rintro ⟨elements, hcalled, hlists⟩
    cases hlast : estudiante.tareas.getLast? with
    | none =>
      have hnil := h.called_nil hf (List.getLast?_eq_none_iff.mp hlast)
      exact absurd (hcalled.symm.trans hnil) (List.cons_ne_nil _ _)
    | some last =>
      have hone : estudiante.tareas.count last = 1 := by
        have hsquare := h.length_called hf hlast
        rw [hcalled, List.length_singleton] at hsquare
        exact Nat.eq_one_of_mul_eq_one_right hsquare.symm
      obtain ⟨l₁, l₂, hsingle, hle₁, hle₂, harrives, -⟩ :=
        h.called_single hstore hf hlast hone
      obtain rfl := List.singleton_inj.mp (hcalled.symm.trans hsingle)
      have hlength := hlists.length
      simp only [List.length_append, List.length_map] at hlength
      exact ⟨last, rfl, hone, harrives.mp (by omega), fun tarea htarea =>
        item_says_iff.mp (hlists.daysLeft .vertical tarea htarea)⟩
  · rintro ⟨last, hlast, hone, harrives, htoday⟩
    obtain ⟨l₁, l₂, hcalled, -, -, -, hperm⟩ := h.called_single hstore hf hlast hone
    exact ⟨_, hcalled, .of_perm (hperm harrives).1 (hperm harrives).2 htoday⟩

/-- A task from one date to another. -/
def taskDocument (fechaInicio fechaFin : Timestamp) : Fields := Fields.ofList [
  ("nombre", .string "Maqueta"), ("descripcion", .string ""),
  ("fechaInicio", .timestamp fechaInicio), ("fechaFin", .timestamp fechaFin),
  ("fase", .string "1"), ("status", .string "abierta"),
  ("responsable", .reference ⟨"estudiante", "a1@tec.mx"⟩)]

/-- A student with these tasks; one task is from day 0 to day 2, the other from day 0 to
day 1, six hours behind UTC. -/
def menuStore (tareas : List DocumentReference) : Store :=
  ((Store.empty.write ⟨"estudiante", "a1@tec.mx"⟩ (Fields.ofList [
    ("mail", .string "a1@tec.mx"), ("nombre", .string "A"), ("apellidos", .string "B"),
    ("matricula", .string "A01"), ("equipos", .references []), ("proyectos", .references []),
    ("grupos", .references []), ("tareas", .references tareas), ("cursos", .references [])])).write
    ⟨"tareas", "t1"⟩ (taskDocument ⟨64800, 0⟩ ⟨237600, 0⟩)).write
    ⟨"tareas", "t2"⟩ (taskDocument ⟨30000, 0⟩ ⟨151200, 0⟩)

def menuTask (id : String) (fechaInicio fechaFin : Date) : Tarea :=
  ⟨id, "Maqueta", "", fechaInicio, fechaFin, "1", "abierta", ⟨"estudiante", "a1@tec.mx"⟩⟩

/-- Two tasks are downloaded, and the reply for the `k`-th comes first. -/
def twoTasks (k : Nat) : List ElementsCall.Event :=
  [.studentDownloaded true, .serveTarea 0 true, .serveTarea 0 true, .deliverTarea k,
    .deliverTarea 0]

/-- Two tasks that start today, and that arrive in order. -/
theorem taskMenu_lists_two :
    ∃ s, (getAllMenuElements (.ofOffset (-21600)) (menuStore [⟨"tareas", "t1"⟩, ⟨"tareas", "t2"⟩])
        "a1@tec.mx").run
        (getAllMenuElements (.ofOffset (-21600))
          (menuStore [⟨"tareas", "t1"⟩, ⟨"tareas", "t2"⟩]) "a1@tec.mx").start
        ((twoTasks 0).map .outer ++ (twoTasks 0).map (.inner 0)) = some s ∧
      ∃ elements, s.called = [elements] ∧ ListsTasks (.ofOffset (-21600)) ⟨64800, 0⟩
        [menuTask "t1" ⟨64800, 0⟩ ⟨237600, 0⟩, menuTask "t2" ⟨30000, 0⟩ ⟨151200, 0⟩] elements := by
  refine ⟨_, rfl, ((taskMenu_lists_iff (.ofOffset (-21600)) ⟨64800, 0⟩
    (menuStore [⟨"tareas", "t1"⟩, ⟨"tareas", "t2"⟩]) "a1@tec.mx"
    ⟨"a1@tec.mx", "a1@tec.mx", "A", "B", "A01", [], [], [],
      [⟨"tareas", "t1"⟩, ⟨"tareas", "t2"⟩], []⟩
    [menuTask "t1" ⟨64800, 0⟩ ⟨237600, 0⟩, menuTask "t2" ⟨30000, 0⟩ ⟨151200, 0⟩] ⟨rfl, rfl⟩
    ((twoTasks 0).map .outer ++ (twoTasks 0).map (.inner 0)) ?_ _ rfl).2 ?_).mpr
    ⟨⟨"tareas", "t2"⟩, rfl, by decide, ?_, ?_⟩⟩
  · simp [twoTasks, AllElementsCall.Event.Succeeds, Routine.Nested.Action.Meets,
      ElementsCall.Event.Succeeds]
  · exact AllElementsCall.finished_iff.mpr
      ⟨⟨_, rfl, rfl, rfl⟩, fun p hp => List.mem_singleton.mp hp ▸ ⟨_, rfl, rfl, rfl⟩⟩
  · exact ⟨fun d hd => Option.some.inj hd ▸ rfl,
      fun p hp => List.mem_singleton.mp hp ▸ fun d hd => Option.some.inj hd ▸ rfl⟩
  · intro tarea htarea
    simp only [List.mem_cons, List.not_mem_nil, or_false] at htarea
    rcases htarea with rfl | rfl <;> decide

/-- After the events all replies are in, and the menu has not been handed on as it should. -/
def MenuWrong (today : Date) (refs : List DocumentReference) (tareas : List Tarea)
    (es : List AllElementsCall.Event) : Prop :=
  ∃ s, (getAllMenuElements (.ofOffset (-21600)) (menuStore refs) "a1@tec.mx").run
      (getAllMenuElements (.ofOffset (-21600)) (menuStore refs) "a1@tec.mx").start es = some s ∧
    s.Finished ∧
    ¬ ∃ elements, s.called = [elements] ∧
      ListsTasks (.ofOffset (-21600)) today tareas elements

/-- Without tasks nothing is handed on; on the day after, the items say what they said on the
first day; the second task overtakes the first, which is left out; a task that is referred to
twice makes the menu come four times. -/
theorem taskMenu_wrong :
    MenuWrong ⟨64800, 0⟩ [] [] [.outer (.studentDownloaded true)] ∧
    MenuWrong ⟨151200, 0⟩ [⟨"tareas", "t1"⟩, ⟨"tareas", "t2"⟩]
      [menuTask "t1" ⟨64800, 0⟩ ⟨237600, 0⟩, menuTask "t2" ⟨30000, 0⟩ ⟨151200, 0⟩]
      ((twoTasks 0).map .outer ++ (twoTasks 0).map (.inner 0)) ∧
    MenuWrong ⟨64800, 0⟩ [⟨"tareas", "t1"⟩, ⟨"tareas", "t2"⟩]
      [menuTask "t1" ⟨64800, 0⟩ ⟨237600, 0⟩, menuTask "t2" ⟨30000, 0⟩ ⟨151200, 0⟩]
      ((twoTasks 1).map .outer ++ (twoTasks 0).map (.inner 0)) ∧
    MenuWrong ⟨64800, 0⟩ [⟨"tareas", "t1"⟩, ⟨"tareas", "t1"⟩]
      [menuTask "t1" ⟨64800, 0⟩ ⟨237600, 0⟩, menuTask "t1" ⟨64800, 0⟩ ⟨237600, 0⟩]
      ((twoTasks 0).map .outer ++ (twoTasks 0).map (.inner 0) ++ (twoTasks 0).map (.inner 1)) := by
  refine ⟨⟨_, rfl, ?_, ?_⟩, ⟨_, rfl, ?_, ?_⟩, ⟨_, rfl, ?_, ?_⟩, ⟨_, rfl, ?_, ?_⟩⟩
  · exact AllElementsCall.finished_iff.mpr ⟨⟨_, rfl, rfl, rfl⟩, fun p hp => nomatch hp⟩
  · rintro ⟨elements, hcalled, -⟩
    cases hcalled
  · exact AllElementsCall.finished_iff.mpr
      ⟨⟨_, rfl, rfl, rfl⟩, fun p hp => List.mem_singleton.mp hp ▸ ⟨_, rfl, rfl, rfl⟩⟩
  · rintro ⟨elements, -, hlists⟩
    exact absurd (item_says_iff.mp (hlists.daysLeft .vertical _ List.mem_cons_self)) (by decide)
  · exact AllElementsCall.finished_iff.mpr
      ⟨⟨_, rfl, rfl, rfl⟩, fun p hp => List.mem_singleton.mp hp ▸ ⟨_, rfl, rfl, rfl⟩⟩
  · rintro ⟨elements, hcalled, hlists⟩
    have hlength : 3 = elements.length :=
      List.singleton_inj.mp (congrArg (List.map List.length) hcalled)
    exact absurd (hlength.trans hlists.length) (by decide)
  · refine AllElementsCall.finished_iff.mpr ⟨⟨_, rfl, rfl, rfl⟩, fun p hp => ?_⟩
    rcases List.mem_pair.mp hp with rfl | rfl
    · exact ⟨_, rfl, rfl, rfl⟩
    · exact ⟨_, rfl, rfl, rfl⟩
  · rintro ⟨elements, hcalled, -⟩
    have hlength : 4 = 1 := congrArg List.length hcalled
    exact absurd hlength (by decide)

end Musgravite
