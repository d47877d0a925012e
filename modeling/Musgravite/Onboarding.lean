import Mathlib.Data.Option.Basic
import Musgravite.BulletinManager
import Musgravite.Library.TransitionSystem

/-! # The onboarding bulletin

The bulletin that leads to the menus: from a welcome page to the page that asks for an
email, to the one that asks for a password, to the success page, whose action sets
`launchedBefore`.  The pages after the first are made by the callbacks of requests to
the authentication service, which write `next` of the page that made the request and
show it if that page is still on screen.

Requests overlap: a page may make any number of them, and be hidden and shown again,
before they are answered.  `launched_or_success_authenticated` says that the success page
is shown, and `launchedBefore` set, only after a `createUser` or `signIn` of the same run
was answered with success.  What carries it is that nothing else makes a success page, nor
a page that leads to one (`Opened`).  `never_traps` says that `displayNextItem` always
finds a next page. -/
namespace Musgravite

/-! ## The authentication service -/

/-- The answer to `createUser` or `signIn`: a user, or the code of an error. -/
inductive AuthReply
  | user (email : String)
  | error (code : Int)

/-- An imported `NS_ENUM`. -/
structure AuthErrorCode where
  rawValue : Int

/-- Any code is accepted. -/
def AuthErrorCode.ofRawValue (code : Int) : Option AuthErrorCode := some ⟨code⟩

namespace FirebaseController

/-- What `signUp` tells its completion block. -/
def signUp : AuthReply → Bool
  | .user _ => true
  | .error _ => false

/-- What `signIn` tells its completion block. -/
def signIn : AuthReply → Bool
  | .user _ => true
  | .error code => (AuthErrorCode.ofRawValue code).isNone

/-- What `userIsRegistered` tells its completion block. -/
def userIsRegistered (error : Bool) (providers : Option (List String)) : Bool :=
  if error then false else providers.isSome

end FirebaseController

/-! ## The pages -/

inductive Page
  | root
  | getEmail
  | getPassword (signup : Bool) (email : String)
  | success
  | error
  | locationServices

/-- A `createUser` or `signIn` made by a password page. -/
structure AuthRequest where
  page : Nat
  signup : Bool
  email : String
  password : String
  answer : Option AuthReply := none

namespace HomepageVM

def isDismissable : Page → Bool
  | .success => true
  | _ => false

variable (manager : BLTNItemManager Page)

def createGetEmailPage : BLTNItemManager Page × Nat := manager.create .getEmail none

def createGetPasswordPage (signup : Bool) (email : String) : BLTNItemManager Page × Nat :=
  manager.create (.getPassword signup email) none

def createSuccessPage : BLTNItemManager Page × Nat := manager.create .success none

def createErrorPage : BLTNItemManager Page × Nat := manager.create .error none

def createLocationServicesPage : BLTNItemManager Page × Nat :=
  let (manager, successPage) := createSuccessPage manager
  manager.create .locationServices (some successPage)

/-- The page that the answer to a request leads to. -/
def authenticated (signup : Bool) (reply : AuthReply) : BLTNItemManager Page × Nat :=
  if signup then
    if FirebaseController.signUp reply then createLocationServicesPage manager
    else createErrorPage manager
  else
    if FirebaseController.signIn reply then createSuccessPage manager
    else createErrorPage manager

end HomepageVM

/-! ## The flow -/

/-- What `ViewController` launches. -/
inductive Experience
  | onboarding
  | authentication
deriving DecidableEq

/-- `introPage` of the experience. -/
def Experience.introPage : Experience → Page
  | .onboarding => .root
  | .authentication => .getEmail

/-- A bulletin with its pages, and the requests made by them. -/
structure Onboarding where
  manager : BLTNItemManager Page
  launchedBefore : Bool
  /-- Lookups in progress: the page and the email. -/
  lookups : List (Nat × String) := []
  /-- All requests made so far, the `n`-th being request `n`. -/
  requests : List AuthRequest := []

namespace Onboarding

inductive Event
  | actionButtonTapped
  | alternativeButtonTapped
  | textFieldDidEndEditing (text : Option String)
  /-- A tap outside the card, or a swipe. -/
  | dismissIfPossible
  | dismissalCompleted
  /-- The `k`-th lookup in progress is answered. -/
  | providersFetched (k : Nat) (error : Bool) (providers : Option (List String))
  /-- Request `n` is answered. -/
  | authReplied (n : Nat) (reply : AuthReply)

/-- The bulletin of an experience, as it is shown. -/
def start (experience : Experience) (launchedBefore : Bool) : Onboarding :=
  { manager := (BLTNItemManager.withRoot experience.introPage).showBulletin, launchedBefore }

/-- `item.manager?.displayNextItem()`. -/
def displayNextItem (self : Onboarding) (item : Nat) : Option Onboarding :=
  if self.manager.hasManager item then
    self.manager.displayNextItem.map fun manager => { self with manager }
  else some self

/-- `page.next = made; item.manager?.displayNextItem()`, where `item` is `page`. -/
def setNextAndDisplay (self : Onboarding) (page : Nat) (made : BLTNItemManager Page × Nat) :
    Option Onboarding :=
  { self with manager := made.1.setNext page made.2 }.displayNextItem page

/-- The action handler of the page on screen. -/
def actionHandler (self : Onboarding) : Page → Option Onboarding
  | .root =>
      self.setNextAndDisplay self.manager.currentItem (HomepageVM.createGetEmailPage self.manager)
  -- the text field may end editing, which is an event of its own
  | .getEmail => some self
  | .getPassword _ _ => some self
  | .success =>
      let self := { self with launchedBefore := true }
      if self.manager.hasManager self.manager.currentItem then
        self.manager.dismissBulletin.map fun manager => { self with manager }
      else some self
  | .error =>
      if self.manager.hasManager self.manager.currentItem then
        self.manager.popItem.map fun manager => { self with manager }
      else some self
  | .locationServices => self.displayNextItem self.manager.currentItem

variable (matchesRegex : String → String → Bool)

/-- `isInputValid` of the email page. -/
def isEmailValid (text : String) : Bool :=
  text ≠ "" && (matchesRegex text "[\\w]+@itesm.mx" != matchesRegex text "[\\w]+@tec.mx")

/-- `textFieldDidEndEditing`: the text input handler of the page on screen is called with a
valid text only. -/
def textInputHandler (self : Onboarding) (text : String) : Page → Onboarding
  | .getEmail =>
      if isEmailValid matchesRegex text then
        { self with lookups := self.lookups ++ [(self.manager.currentItem, text)] }
      else self
  | .getPassword signup email =>
      if text ≠ "" then
        { self with requests := self.requests ++
            [{ page := self.manager.currentItem, signup, email, password := text }] }
      else self
  | _ => self

def hasTextField : Page → Bool
  | .getEmail => true
  | .getPassword _ _ => true
  | _ => false

/-- The state after an event, `none` if it cannot happen or the app traps.  The page on
screen reacts to the user as long as the bulletin is prepared. -/
def step (self : Onboarding) : Event → Option Onboarding
  | .actionButtonTapped => do
      guard self.manager.isPrepared
      let page ← self.manager.currentContent
      self.actionHandler page
  | .alternativeButtonTapped => do
      guard self.manager.isPrepared
      match ← self.manager.currentContent with
      | .locationServices => self.displayNextItem self.manager.currentItem
      | _ => none
  | .textFieldDidEndEditing text => do
      guard self.manager.isPrepared
      let page ← self.manager.currentContent
      guard (hasTextField page)
      return self.textInputHandler matchesRegex (text.getD "") page
  | .dismissIfPossible => do
      guard self.manager.isPrepared
      let page ← self.manager.currentContent
      if HomepageVM.isDismissable page then
        self.manager.dismissBulletin.map fun manager => { self with manager }
      else return self
  | .dismissalCompleted => do
      guard self.manager.dismissing
      let page ← self.manager.currentContent
      return { self with
        -- the dismissal handler of the success page
        launchedBefore := match page with
          | .success => true
          | _ => self.launchedBefore
        manager := self.manager.completeDismissal }
  | .providersFetched k error providers => do
      let (page, email) ← self.lookups[k]?
      let success := FirebaseController.userIsRegistered error providers
      { self with lookups := self.lookups.eraseIdx k }.setNextAndDisplay page
        (HomepageVM.createGetPasswordPage self.manager (!success) email)
  | .authReplied n reply => do
      let request ← self.requests[n]?
      guard request.answer.isNone
      { self with requests := self.requests.set n { request with answer := some reply }
          }.setNextAndDisplay request.page
        (HomepageVM.authenticated self.manager request.signup reply)

end Onboarding

/-- The bulletin, step by step. -/
def onboarding (matchesRegex : String → String → Bool) :
    TransitionSystem Onboarding Onboarding.Event := ⟨Onboarding.step matchesRegex⟩

namespace Onboarding
open BLTNItemManager
variable {matchesRegex : String → String → Bool} {s t : Onboarding}

/-! ## What a step makes -/

/-- The bulletin in order; and a location page leads to another. -/
structure Sound (m : BLTNItemManager Page) : Prop where
  tidy : m.Tidy
  locationServices : ∀ next, (.locationServices, next) ∈ m.outline → next.isSome

/-- From one moment to a later one only these pages have been made. -/
structure Makes (m₀ m : BLTNItemManager Page) (pages : List Page) : Prop where
  contents : m.contents = m₀.contents ++ pages
  sound : Sound m₀ → Sound m

theorem Makes.nothing {m₀ m : BLTNItemManager Page} (h : m.outline = m₀.outline)
    (ht : m₀.Tidy → m.Tidy) : Makes m₀ m [] :=
  ⟨by simpa using contents_of_outline h, fun hs => ⟨ht hs.tidy, h ▸ hs.locationServices⟩⟩

/-- Pages have been made, and the last of them is at hand. -/
structure Made (m₀ : BLTNItemManager Page) (made : BLTNItemManager Page × Nat)
    (pages : List Page) : Prop extends Makes m₀ made.1 pages where
  fresh : Sound m₀ → made.2 < made.1.items.length ∧ made.2 ≠ made.1.rootItem

theorem made_create (m₀ : BLTNItemManager Page) (page : Page) (hpage : page ≠ .locationServices) :
    Made m₀ (m₀.create page none) [page] := by
  refine ⟨⟨contents_create page none, fun hs => ⟨hs.tidy.create page (by simp), ?_⟩⟩, fun hs => ?_⟩
  · intro next hnext
    rw [outline_create, List.mem_append, List.mem_singleton] at hnext
    rcases hnext with hnext | hnext
    · exact hs.locationServices next hnext
    · exact absurd (congrArg Prod.fst hnext).symm hpage
  · simpa [create] using hs.tidy.root_lt.ne'

theorem made_locationServices (m₀ : BLTNItemManager Page) :
    Made m₀ (HomepageVM.createLocationServicesPage m₀) [.success, .locationServices] := by
  have hsuccess : Made m₀ (HomepageVM.createSuccessPage m₀) [.success] :=
    made_create m₀ .success nofun
  refine ⟨⟨by simp [HomepageVM.createLocationServicesPage, hsuccess.contents], fun hs =>
    ⟨(hsuccess.sound hs).tidy.create .locationServices fun i hi => ?_, fun next hnext => ?_⟩⟩,
    fun hs => ?_⟩
  · obtain rfl := Option.some.inj hi
    exact hsuccess.fresh hs
  · rw [HomepageVM.createLocationServicesPage, outline_create, List.mem_append,
      List.mem_singleton] at hnext
    rcases hnext with hnext | hnext
    · exact (hsuccess.sound hs).locationServices next hnext
    · rw [(Prod.mk.inj hnext).2]
      rfl
  · simpa [HomepageVM.createLocationServicesPage, create] using
      (hsuccess.sound hs).tidy.root_lt.ne'

theorem displayNextItem_spec {item : Nat} (h : s.displayNextItem item = some t) :
    ∃ m, t = { s with manager := m } ∧ Makes s.manager m [] := by
  unfold Onboarding.displayNextItem at h
  split at h
  · obtain ⟨m, hm, rfl⟩ := Option.map_eq_some_iff.mp h
    exact ⟨m, rfl, .nothing (outline_displayNextItem hm) fun ht => ht.displayNextItem hm⟩
  · exact ⟨s.manager, (Option.some.inj h).symm, .nothing rfl id⟩

theorem setNextAndDisplay_spec {page : Nat} {m₀ : BLTNItemManager Page}
    {made : BLTNItemManager Page × Nat} {pages : List Page} (hmade : Made m₀ made pages)
    (h : s.setNextAndDisplay page made = some t) :
    ∃ m, t = { s with manager := m } ∧ Makes m₀ m pages := by
  obtain ⟨m, rfl, hm⟩ := displayNextItem_spec h
  refine ⟨m, rfl, ?_, fun hs => hm.sound ⟨?_, ?_⟩⟩
  · simpa [hmade.contents] using hm.contents
  · exact (hmade.sound hs).tidy.setNext page (hmade.fresh hs).1 (hmade.fresh hs).2
  · intro next hnext
    rcases mem_outline_setNext hnext with hnext | ⟨-, hnext⟩
    · exact (hmade.sound hs).locationServices next hnext
    · exact Option.isSome_iff_exists.mpr ⟨_, hnext⟩

theorem made_authenticated (m₀ : BLTNItemManager Page) (signup : Bool) (email : String) :
    Made m₀ (HomepageVM.authenticated m₀ signup (.user email))
      (if signup then [.success, .locationServices] else [.success]) := by
  cases signup with
  | true => exact made_locationServices m₀
  | false => exact made_create m₀ .success nofun

theorem made_failed (m₀ : BLTNItemManager Page) (signup : Bool) (code : Int) :
    Made m₀ (HomepageVM.authenticated m₀ signup (.error code)) [.error] := by
  cases signup <;> exact made_create m₀ .error nofun

/-- All that a step can do. -/
inductive StepCase (s : Onboarding) : Event → Onboarding → Prop
  | shows (e m) (hm : Makes s.manager m []) : StepCase s e { s with manager := m }
  | email (m) (hm : Makes s.manager m [.getEmail]) :
      StepCase s .actionButtonTapped { s with manager := m }
  | launch (e m) (hsuccess : .success ∈ s.manager.contents) (hm : Makes s.manager m []) :
      StepCase s e { s with launchedBefore := true, manager := m }
  | lookup (text lookup) :
      StepCase s (.textFieldDidEndEditing text) { s with lookups := s.lookups ++ [lookup] }
  | request (text request) (hanswer : request.answer = none) :
      StepCase s (.textFieldDidEndEditing text) { s with requests := s.requests ++ [request] }
  | password (k error providers m) {signup email}
      (hm : Makes s.manager m [.getPassword signup email]) :
      StepCase s (.providersFetched k error providers)
        { s with manager := m, lookups := s.lookups.eraseIdx k }
  | failed (n code request m) (hm : Makes s.manager m [.error]) :
      StepCase s (.authReplied n (.error code))
        { s with manager := m, requests := s.requests.set n request }
  | authenticated (n email request request' m) {pages}
      (hrequest : s.requests[n]? = some request) (hanswer : request.answer = none)
      (hm : Makes s.manager m pages) :
      StepCase s (.authReplied n (.user email))
        { s with manager := m, requests := s.requests.set n request' }

theorem actionHandler_cases {page : Page} (hpage : s.manager.currentContent = some page)
    (h : s.actionHandler page = some t) : StepCase s .actionButtonTapped t := by
  cases page with
  | root =>
    obtain ⟨m, rfl, hm⟩ := setNextAndDisplay_spec (made_create s.manager .getEmail nofun) h
    exact .email m hm
  | getEmail =>
    obtain rfl := Option.some.inj h
    exact .shows _ s.manager (.nothing rfl id)
  | getPassword signup email =>
    obtain rfl := Option.some.inj h
    exact .shows _ s.manager (.nothing rfl id)
  | success =>
    have hsuccess := currentContent_mem hpage
    simp only [actionHandler] at h
    split at h
    · obtain ⟨m, hm, rfl⟩ := Option.map_eq_some_iff.mp h
      exact .launch _ m hsuccess
        (.nothing (outline_dismissBulletin hm) fun ht => ht.dismissBulletin hm)
    · obtain rfl := Option.some.inj h
      exact .launch _ s.manager hsuccess (.nothing rfl id)
  | error =>
    simp only [actionHandler] at h
    split at h
    · obtain ⟨m, hm, rfl⟩ := Option.map_eq_some_iff.mp h
      exact .shows _ m (.nothing (outline_popItem hm) fun ht => ht.popItem hm)
    · obtain rfl := Option.some.inj h
      exact .shows _ s.manager (.nothing rfl id)
  | locationServices =>
    obtain ⟨m, rfl, hm⟩ := displayNextItem_spec h
    exact .shows _ m hm

theorem textInputHandler_cases (matchesRegex : String → String → Bool) (s : Onboarding)
    (text : Option String) (page : Page) : StepCase s (.textFieldDidEndEditing text)
      (s.textInputHandler matchesRegex (text.getD "") page) := by
  have hquiet : StepCase s (.textFieldDidEndEditing text) s :=
    .shows _ s.manager (.nothing rfl id)
  cases page with
  | getEmail =>
    simp only [textInputHandler]
    split
    · exact .lookup text _
    · exact hquiet
  | getPassword signup email =>
    simp only [textInputHandler]
    split
    · exact .request text _ rfl
    · exact hquiet
  | _ => exact hquiet

theorem step_cases {e : Event} (h : (onboarding matchesRegex).step s e = some t) :
    StepCase s e t := by
  cases e with
  | actionButtonTapped =>
    obtain ⟨-, -, h⟩ := Option.bind_eq_some_iff.mp h
    obtain ⟨page, hpage, h⟩ := Option.bind_eq_some_iff.mp h
    exact actionHandler_cases hpage h
  | alternativeButtonTapped =>
    obtain ⟨-, -, h⟩ := Option.bind_eq_some_iff.mp h
    obtain ⟨page, -, h⟩ := Option.bind_eq_some_iff.mp h
    cases page with
    | locationServices =>
      obtain ⟨m, rfl, hm⟩ := displayNextItem_spec h
      exact .shows _ m hm
    | _ => cases h
  | textFieldDidEndEditing text =>
    obtain ⟨-, -, h⟩ := Option.bind_eq_some_iff.mp h
    obtain ⟨page, -, h⟩ := Option.bind_eq_some_iff.mp h
    obtain ⟨-, -, h⟩ := Option.bind_eq_some_iff.mp h
    obtain rfl := Option.some.inj h
    exact textInputHandler_cases matchesRegex s text page
  | dismissIfPossible =>
    obtain ⟨-, -, h⟩ := Option.bind_eq_some_iff.mp h
    obtain ⟨page, -, h⟩ := Option.bind_eq_some_iff.mp h
    split at h
    · obtain ⟨m, hm, rfl⟩ := Option.map_eq_some_iff.mp h
      exact .shows _ m (.nothing (outline_dismissBulletin hm) fun ht => ht.dismissBulletin hm)
    · obtain rfl := Option.some.inj h
      exact .shows _ s.manager (.nothing rfl id)
  | dismissalCompleted =>
    obtain ⟨_, hdismissing, h⟩ := Option.bind_eq_some_iff.mp h
    obtain ⟨page, hpage, h⟩ := Option.bind_eq_some_iff.mp h
    obtain rfl := Option.some.inj h
    have hm : Makes s.manager s.manager.completeDismissal [] := by
      refine .nothing rfl fun ht => ht.completeDismissal ?_
      by_contra hprepared
      have := ht.prepared (by simpa using hprepared)
      simp [this] at hdismissing
    cases page with
    | success => exact .launch _ _ (currentContent_mem hpage) hm
    | _ => exact .shows _ _ hm
  | providersFetched k error providers =>
    obtain ⟨⟨page, email⟩, -, h⟩ := Option.bind_eq_some_iff.mp h
    obtain ⟨m, rfl, hm⟩ := setNextAndDisplay_spec
      (made_create s.manager (.getPassword _ email) nofun) h
    exact .password k error providers m hm
  | authReplied n reply =>
    obtain ⟨request, hrequest, h⟩ := Option.bind_eq_some_iff.mp h
    obtain ⟨_, hanswer, h⟩ := Option.bind_eq_some_iff.mp h
    cases reply with
    | user email =>
      obtain ⟨m, rfl, hm⟩ := setNextAndDisplay_spec
        (made_authenticated s.manager request.signup email) h
      exact .authenticated n email request _ m hrequest
        (by simpa [Option.guard_eq_some'] using hanswer) hm
    | error code =>
      obtain ⟨m, rfl, hm⟩ := setNextAndDisplay_spec
        (made_failed s.manager request.signup code) h
      exact .failed n code _ m hm

theorem StepCase.sound {e : Event} (h : StepCase s e t) (hs : Sound s.manager) :
    Sound t.manager := by
  cases h with
  | shows _ m hm | email m hm | launch _ m _ hm | password _ _ _ m hm | failed _ _ _ m hm
  | authenticated _ _ _ _ m _ _ hm => exact hm.sound hs
  | lookup | request => exact hs

theorem sound_start (experience : Experience) (launchedBefore : Bool) :
    Sound (start experience launchedBefore).manager := by
  refine ⟨tidy_showBulletin _, fun next hnext => ?_⟩
  rw [start, showBulletin, outline_refresh] at hnext
  cases experience <;> simp [withRoot, outline, Experience.introPage] at hnext

/-! ## Nothing traps -/

/-- The page is on screen and leads to another. -/
theorem isSome_displayNextItem {item : Nat} (hs : s.manager.Tidy)
    (hnext : ∀ i, s.manager.items[s.manager.currentItem]? = some i → item = s.manager.currentItem →
      i.next.isSome) : (s.displayNextItem item).isSome := by
  unfold Onboarding.displayNextItem
  split
  · rename_i hmanager
    obtain ⟨hprepared, hcurrent⟩ := (hs.manager item).mp hmanager
    have hitem := List.getElem?_eq_getElem hs.currentItem_lt
    rw [Option.isSome_map]
    exact BLTNItemManager.isSome_displayNextItem hprepared hitem (hnext _ hitem hcurrent)
  · rfl

theorem isSome_setNextAndDisplay {page : Nat} {m₀ : BLTNItemManager Page}
    {made : BLTNItemManager Page × Nat} {pages : List Page} (hm₀ : Sound m₀)
    (hmade : Made m₀ made pages) : (s.setNextAndDisplay page made).isSome := by
  have hfresh := hmade.fresh hm₀
  refine isSome_displayNextItem ((hmade.sound hm₀).tidy.setNext page hfresh.1 hfresh.2) ?_
  intro i hi hpage
  have hi : (made.1.setNext page made.2).items[page]? = some i := hpage ▸ hi
  simp only [setNext, modifyItem, List.getElem?_modify] at hi
  obtain ⟨old, -, rfl⟩ := Option.map_eq_some_iff.mp hi
  simp

/-- The events that can happen. -/
def Enabled (s : Onboarding) : Event → Prop
  | .actionButtonTapped | .dismissIfPossible => s.manager.isPrepared = true
  | .alternativeButtonTapped =>
      s.manager.isPrepared = true ∧ s.manager.currentContent = some .locationServices
  | .textFieldDidEndEditing _ => s.manager.isPrepared = true ∧
      ∃ page, s.manager.currentContent = some page ∧ hasTextField page = true
  | .dismissalCompleted => s.manager.dismissing = true
  | .providersFetched k _ _ => k < s.lookups.length
  | .authReplied n _ => ∃ request, s.requests[n]? = some request ∧ request.answer = none

theorem isSome_next_of_locationServices (hs : Sound s.manager)
    (hpage : s.manager.currentContent = some .locationServices) (i : BLTNItem Page)
    (hi : s.manager.items[s.manager.currentItem]? = some i) : i.next.isSome := by
  have hcontent : i.content = .locationServices := by simpa [currentContent, hi] using hpage
  exact hs.locationServices i.next (hcontent ▸
    List.mem_map_of_mem (f := fun item => (item.content, item.next)) (List.mem_of_getElem? hi))

theorem isSome_actionHandler (hs : Sound s.manager) (hprepared : s.manager.isPrepared = true)
    {page : Page} (hpage : s.manager.currentContent = some page) :
    (s.actionHandler page).isSome := by
  cases page with
  | root => exact isSome_setNextAndDisplay hs (made_create s.manager .getEmail nofun)
  | getEmail => rfl
  | getPassword signup email => rfl
  | success =>
    simp only [actionHandler]
    split
    · rw [Option.isSome_map]
      exact isSome_dismissBulletin hprepared
    · rfl
  | error =>
    simp only [actionHandler]
    split
    · rw [Option.isSome_map]
      exact isSome_popItem hprepared
    · rfl
  | locationServices =>
    exact isSome_displayNextItem hs.tidy fun i hi _ => isSome_next_of_locationServices hs hpage i hi

theorem step_isSome {e : Event} (hs : Sound s.manager) (h : Enabled s e) :
    ((onboarding matchesRegex).step s e).isSome := by
  have hcontent : ∃ page, s.manager.currentContent = some page :=
    ⟨_, by rw [currentContent, List.getElem?_eq_getElem hs.tidy.currentItem_lt]; rfl⟩
  obtain ⟨page, hpage⟩ := hcontent
  cases e with
  | actionButtonTapped =>
    have hprepared : s.manager.isPrepared = true := h
    simpa [onboarding, step, hprepared, hpage] using isSome_actionHandler hs hprepared hpage
  | alternativeButtonTapped =>
    obtain ⟨hprepared, hpage⟩ := h
    simpa [onboarding, step, hprepared, hpage] using isSome_displayNextItem hs.tidy
      fun i hi _ => isSome_next_of_locationServices hs hpage i hi
  | textFieldDidEndEditing text =>
    obtain ⟨hprepared, page, hpage, hfield⟩ := h
    simp [onboarding, step, hprepared, hpage, hfield]
  | dismissIfPossible =>
    have hprepared : s.manager.isPrepared = true := h
    simp only [onboarding, step, hprepared, hpage]
    cases page <;> simp [HomepageVM.isDismissable, isSome_dismissBulletin hprepared]
  | dismissalCompleted =>
    have hdismissing : s.manager.dismissing = true := h
    simp [onboarding, step, hdismissing, hpage]
  | providersFetched k error providers =>
    have hk : k < s.lookups.length := h
    simp only [onboarding, step, List.getElem?_eq_getElem hk]
    exact isSome_setNextAndDisplay hs (made_create s.manager _ nofun)
  | authReplied n reply =>
    obtain ⟨request, hrequest, hanswer⟩ := h
    have hguard : request.answer.isNone = true := by simp [hanswer]
    simp only [onboarding, step, hrequest, Option.bind_eq_bind, Option.bind_some, hguard,
      guard_true]
    cases reply with
    | user email => exact isSome_setNextAndDisplay hs (made_authenticated s.manager _ email)
    | error code => exact isSome_setNextAndDisplay hs (made_failed s.manager _ code)

/-- **In no state of a run does an event trap that can happen.** -/
theorem never_traps {experience : Experience} {launchedBefore : Bool} {es : List Event}
    (hrun : (onboarding matchesRegex).run (start experience launchedBefore) es = some s)
    {e : Event} (h : Enabled s e) : ((onboarding matchesRegex).step s e).isSome := by
  refine step_isSome ((onboarding matchesRegex).run_invariant (P := fun s => Sound s.manager)
    (fun hs hstep => ?_) (sound_start experience launchedBefore) hrun) h
  exact (step_cases hstep).sound hs

/-! ## What a run has done -/

/-- There is a success page, or a page that leads to one. -/
def Opened (s : Onboarding) : Prop :=
  .success ∈ s.manager.contents ∨ .locationServices ∈ s.manager.contents

theorem not_opened_start (experience : Experience) (launchedBefore : Bool) :
    ¬ Opened (start experience launchedBefore) := by
  have hcontents : (start experience launchedBefore).manager.contents =
      [experience.introPage] := contents_of_outline outline_refresh
  rw [Opened, hcontents]
  cases experience <;> simp [Experience.introPage]

theorem Makes.opened_iff {m : BLTNItemManager Page} {pages : List Page}
    (hm : Makes s.manager m pages) (hpages : .success ∉ pages ∧ .locationServices ∉ pages) :
    (.success ∈ m.contents ∨ .locationServices ∈ m.contents) ↔ Opened s := by
  simp [hm.contents, Opened, hpages]

/-- Only the answer to a request opens the way to the success page. -/
theorem StepCase.opened {e : Event} (h : StepCase s e t) (ht : Opened t) :
    Opened s ∨ ∃ n email request,
      e = .authReplied n (.user email) ∧ s.requests[n]? = some request := by
  cases h with
  | shows _ m hm => exact Or.inl ((hm.opened_iff (by simp)).mp ht)
  | email m hm => exact Or.inl ((hm.opened_iff (by simp)).mp ht)
  | launch _ m hsuccess hm => exact Or.inl (Or.inl hsuccess)
  | lookup text lookup => exact Or.inl ht
  | request text request hanswer => exact Or.inl ht
  | password k error providers m hm => exact Or.inl ((hm.opened_iff (by simp)).mp ht)
  | failed n code request m hm => exact Or.inl ((hm.opened_iff (by simp)).mp ht)
  | authenticated n email request request' m hrequest hanswer hm =>
    exact Or.inr ⟨n, email, request, rfl, hrequest⟩

/-- Only a success page sets `launchedBefore`. -/
theorem StepCase.launchedBefore {e : Event} (h : StepCase s e t)
    (ht : t.launchedBefore ≠ s.launchedBefore) : Opened s := by
  cases h with
  | launch _ m hsuccess hm => exact Or.inl hsuccess
  | _ => exact absurd rfl ht

/-- Requests are made one at a time, when a text field ends editing. -/
theorem StepCase.requests {e : Event} (h : StepCase s e t) :
    t.requests.length = s.requests.length ∨
      t.requests.length = s.requests.length + 1 ∧ ∃ text, e = .textFieldDidEndEditing text := by
  cases h with
  | request text request hanswer => exact Or.inr ⟨by simp, text, rfl⟩
  | failed n code request m hm => exact Or.inl (by simp)
  | authenticated n email request request' m hrequest hanswer hm => exact Or.inl (by simp)
  | _ => exact Or.inl rfl

/-- A text typed in the run made request `n`. -/
def Issued (matchesRegex : String → String → Bool) (s : Onboarding) (es : List Event) (n : Nat) :
    Prop :=
  ∃ before text after u v, es = before ++ .textFieldDidEndEditing text :: after ∧
    (onboarding matchesRegex).run s before = some u ∧
    (onboarding matchesRegex).step u (.textFieldDidEndEditing text) = some v ∧
    u.requests.length = n ∧ v.requests.length = n + 1

/-- A request made in the run was answered with success later in it. -/
def Authenticated (matchesRegex : String → String → Bool) (s : Onboarding) (es : List Event) :
    Prop :=
  ∃ before n email after, es = before ++ .authReplied n (.user email) :: after ∧
    Issued matchesRegex s before n

theorem Issued.append {es : List Event} {n : Nat} (h : Issued matchesRegex s es n)
    (es' : List Event) : Issued matchesRegex s (es ++ es') n := by
  obtain ⟨before, text, after, u, v, rfl, h⟩ := h
  exact ⟨before, text, after ++ es', u, v, by simp, h⟩

theorem Authenticated.append {es : List Event} (h : Authenticated matchesRegex s es)
    (es' : List Event) : Authenticated matchesRegex s (es ++ es') := by
  obtain ⟨before, n, email, after, rfl, h⟩ := h
  exact ⟨before, n, email, after ++ es', by simp, h⟩

/-- Every request there is was made in the run. -/
theorem issued_of_lt {experience : Experience} {launchedBefore : Bool} {es : List Event}
    (h : (onboarding matchesRegex).run (start experience launchedBefore) es = some t) :
    ∀ n < t.requests.length, Issued matchesRegex (start experience launchedBefore) es n := by
  refine (onboarding matchesRegex).run_history
    (P := fun es t => ∀ n < t.requests.length, Issued matchesRegex _ es n)
    (fun n hn => absurd hn (by simp [start])) ?_ h
  intro es t e u hrun ih hstep n hn
  rcases (step_cases hstep).requests with hlength | ⟨hlength, text, rfl⟩
  · exact (ih n (hlength ▸ hn)).append [e]
  · rcases Nat.lt_succ_iff_lt_or_eq.mp (hlength ▸ hn) with hn | rfl
    · exact (ih n hn).append _
    · exact ⟨es, text, [], t, u, rfl, hrun, hstep, rfl, hlength⟩

/-- **Nothing opens the way to the success page but a request answered with success.** -/
theorem authenticated_of_opened {experience : Experience} {launchedBefore : Bool} {es : List Event}
    (h : (onboarding matchesRegex).run (start experience launchedBefore) es = some t) :
    (Opened t → Authenticated matchesRegex (start experience launchedBefore) es) ∧
      (t.launchedBefore ≠ launchedBefore →
        Authenticated matchesRegex (start experience launchedBefore) es) := by
  refine (onboarding matchesRegex).run_history
    (P := fun es t => (Opened t → Authenticated matchesRegex _ es) ∧
      (t.launchedBefore ≠ launchedBefore → Authenticated matchesRegex _ es))
    ⟨fun h => absurd h (not_opened_start experience launchedBefore), fun h => absurd rfl h⟩ ?_ h
  intro es t e u hrun ⟨hopened, hlaunched⟩ hstep
  have hcase := step_cases hstep
  constructor
  · intro hu
    rcases hcase.opened hu with ht | ⟨n, email, request, rfl, hrequest⟩
    · exact (hopened ht).append [e]
    · obtain ⟨hn, -⟩ := List.getElem?_eq_some_iff.mp hrequest
      exact ⟨es, n, email, [], rfl, issued_of_lt hrun n hn⟩
  · intro hu
    by_cases ht : t.launchedBefore = launchedBefore
    · exact (hopened (hcase.launchedBefore (ht ▸ hu))).append [e]
    · exact (hlaunched ht).append [e]

end Onboarding

/-- **Nobody gets past onboarding without authenticating**: if `launchedBefore` has
changed in a run, or the success page is on screen, a request made in the run has been
answered with success. -/
theorem launched_or_success_authenticated (matchesRegex : String → String → Bool)
    (experience : Experience) (launchedBefore : Bool) (es : List Onboarding.Event) (t : Onboarding)
    (hrun : (onboarding matchesRegex).run (.start experience launchedBefore) es = some t) :
    (t.launchedBefore ≠ launchedBefore →
      Onboarding.Authenticated matchesRegex (.start experience launchedBefore) es) ∧
    (t.manager.currentContent = some .success →
      Onboarding.Authenticated matchesRegex (.start experience launchedBefore) es) := by
  obtain ⟨hopened, hlaunched⟩ := Onboarding.authenticated_of_opened hrun
  exact ⟨hlaunched, fun h => hopened (Or.inl (BLTNItemManager.currentContent_mem h))⟩

/-- A first run: an account is found under the email, the first password is wrong and the
second is not. -/
def firstRun : List Onboarding.Event :=
  [.actionButtonTapped, .textFieldDidEndEditing (some "a1@tec.mx"),
    .providersFetched 0 false (some ["password"]), .textFieldDidEndEditing (some "1234"),
    .authReplied 0 (.error 17009), .actionButtonTapped, .textFieldDidEndEditing (some "12345"),
    .authReplied 1 (.user "a1@tec.mx"), .actionButtonTapped, .dismissalCompleted]

theorem launched_authenticated_first :
    ∃ t, (onboarding fun text regex => text == "a1@tec.mx" && regex == "[\\w]+@tec.mx").run
        (.start .onboarding false) firstRun = some t ∧ t.launchedBefore = true ∧
      Onboarding.Authenticated
        (fun text regex => text == "a1@tec.mx" && regex == "[\\w]+@tec.mx")
        (.start .onboarding false) firstRun := by
  refine ⟨_, rfl, rfl, (launched_or_success_authenticated _ _ _ _ _ rfl).1 ?_⟩
  exact nofun

end Musgravite
