import Musgravite.Onboarding

/-! # Who is asked to create an account

A password page offers to sign up or to sign in.  Which of the two is decided once, when
the lookup of the providers is answered: `userIsRegistered` turns a failed lookup into
"not registered", so the page made then offers to sign up.  It stays on the card through
any number of failed requests, since the error page goes back to it.

`signUp_known_iff` says when every sign-up page that is shown, and every `createUser`
that is made, goes back to a lookup that found no account under the email: exactly if no
lookup fails while the page that made it is on screen. -/
namespace Musgravite
namespace Onboarding
open BLTNItemManager
variable {matchesRegex : String → String → Bool} {s t : Onboarding}

/-! ## Pages that come into view -/

/-- A location page leads to a success page. -/
def Leads (m : BLTNItemManager Page) : Prop :=
  ∀ p ∈ m.outline, p.1 = .locationServices →
    ∃ next, p.2 = some next ∧ m.contents[next]? = some .success

theorem Leads.of_outline {m₀ m : BLTNItemManager Page} (h : Leads m₀)
    (houtline : m.outline = m₀.outline) : Leads m := by
  rw [Leads, houtline, contents_of_outline houtline]
  exact h

theorem Leads.create {m : BLTNItemManager Page} (h : Leads m) {page : Page} {next : Option Nat}
    (hpage : page = .locationServices → ∃ i, next = some i ∧ m.contents[i]? = some .success) :
    Leads (m.create page next).1 := by
  have hkeep : ∀ i : Nat, m.contents[i]? = some .success →
      (m.create page next).1.contents[i]? = some .success := by
    intro i hi
    rw [contents_create, List.getElem?_append_left (List.getElem?_eq_some_iff.mp hi).1, hi]
  intro p hp hlocation
  rw [outline_create, List.mem_append, List.mem_singleton] at hp
  rcases hp with hp | rfl
  · obtain ⟨i, hi, hsuccess⟩ := h p hp hlocation
    exact ⟨i, hi, hkeep i hsuccess⟩
  · obtain ⟨i, hi, hsuccess⟩ := hpage hlocation
    exact ⟨i, hi, hkeep i hsuccess⟩

theorem Leads.setNext {m : BLTNItemManager Page} (h : Leads m) {page : Nat} (next : Nat)
    (hpage : m.contents[page]? ≠ some .locationServices) : Leads (m.setNext page next) := by
  intro p hp hlocation
  rw [contents_setNext]
  rcases mem_outline_setNext hp with hp | ⟨hcontent, -⟩
  · exact h p hp hlocation
  · exact absurd (hlocation ▸ hcontent) hpage

/-- From one moment to a later one only these pages have been made, and what has come into
view is one of them or a success page. -/
structure Turns (m₀ m : BLTNItemManager Page) (pages : List Page) : Prop
    extends Makes m₀ m pages where
  leads : Leads m
  shown : ∀ i ∈ m.shownItems,
    i ∈ m₀.shownItems ∨ m.contents[i]? = some .success ∨ m₀.items.length ≤ i

theorem Turns.nothing {m₀ m : BLTNItemManager Page} (hleads : Leads m₀)
    (houtline : m.outline = m₀.outline) (ht : m₀.Tidy → m.Tidy)
    (hshown : m.shownItems ⊆ m₀.shownItems) : Turns m₀ m [] :=
  { Makes.nothing houtline ht with
    leads := hleads.of_outline houtline
    shown := fun _ hi => Or.inl (hshown hi) }

/-- A page that has been made, and what it leads to is in order. -/
structure Ready (m₀ : BLTNItemManager Page) (made : BLTNItemManager Page × Nat)
    (pages : List Page) : Prop extends Made m₀ made pages where
  leads : Leads m₀ → Leads made.1
  later : m₀.items.length ≤ made.2
  shownItems : made.1.shownItems = m₀.shownItems
  hasManager : ∀ i, made.1.hasManager i = m₀.hasManager i

theorem ready_create (m₀ : BLTNItemManager Page) (page : Page) (hpage : page ≠ .locationServices) :
    Ready m₀ (m₀.create page none) [page] :=
  { made_create m₀ page hpage with
    leads := fun h => h.create fun hlocation => absurd hlocation hpage
    later := Nat.le_refl _
    shownItems := rfl
    hasManager := fun i => hasManager_create page none i }

theorem ready_locationServices (m₀ : BLTNItemManager Page) :
    Ready m₀ (HomepageVM.createLocationServicesPage m₀) [.success, .locationServices] :=
  { made_locationServices m₀ with
    leads := fun h => by
      have hsuccess : Leads (HomepageVM.createSuccessPage m₀).1 := h.create nofun
      refine hsuccess.create fun _ => ⟨_, rfl, ?_⟩
      have hlength : m₀.contents.length = m₀.items.length := by simp [contents]
      rw [HomepageVM.createSuccessPage, contents_create,
        List.getElem?_append_right (by simp [hlength])]
      simp [hlength]
    later := by simp [HomepageVM.createLocationServicesPage, HomepageVM.createSuccessPage, create]
    shownItems := rfl
    hasManager := fun i => by
      simp [HomepageVM.createLocationServicesPage, HomepageVM.createSuccessPage] }

theorem ready_authenticated (m₀ : BLTNItemManager Page) (signup : Bool) (reply : AuthReply) :
    ∃ pages, Ready m₀ (HomepageVM.authenticated m₀ signup reply) pages ∧
      ∀ page ∈ pages, page = .success ∨ page = .locationServices ∨ page = .error := by
  cases signup <;> cases reply
  · exact ⟨_, ready_create m₀ .success nofun, by simp⟩
  · exact ⟨_, ready_create m₀ .error nofun, by simp⟩
  · exact ⟨_, ready_locationServices m₀, by simp⟩
  · exact ⟨_, ready_create m₀ .error nofun, by simp⟩

/-- The page on screen is followed by the one after it, if it asks for it. -/
theorem displayNextItem_shown {item : Nat} (h : s.displayNextItem item = some t) :
    t.manager.outline = s.manager.outline ∧
      (s.manager.hasManager item = false ∧ t = s ∨
        s.manager.hasManager item = true ∧ ∃ i next,
          s.manager.items[s.manager.currentItem]? = some i ∧ i.next = some next ∧
          t.manager.shownItems = s.manager.shownItems ++ [next] ∧
          t.manager.currentItem = next) := by
  unfold Onboarding.displayNextItem at h
  split at h
  · rename_i hmanager
    obtain ⟨m, hm, rfl⟩ := Option.map_eq_some_iff.mp h
    refine ⟨outline_displayNextItem hm, Or.inr ⟨hmanager, ?_⟩⟩
    obtain ⟨i, hi, hm⟩ := Option.bind_eq_some_iff.mp hm
    obtain ⟨next, hnext, hm⟩ := Option.bind_eq_some_iff.mp hm
    exact ⟨i, next, hi, hnext, push_spec hm⟩
  · rename_i hmanager
    exact ⟨by rw [Option.some.inj h], Or.inl ⟨by simpa using hmanager, (Option.some.inj h).symm⟩⟩

/-- The button of a location page shows the success page. -/
theorem turns_locationServices {item : Nat} (hleads : Leads s.manager)
    (hpage : s.manager.currentContent = some .locationServices)
    (h : s.displayNextItem item = some t) : Turns s.manager t.manager [] := by
  obtain ⟨m, rfl, hm⟩ := displayNextItem_spec h
  obtain ⟨houtline, hshown⟩ := displayNextItem_shown h
  refine { hm with leads := hleads.of_outline houtline, shown := fun i hi => ?_ }
  rcases hshown with ⟨-, ht⟩ | ⟨-, current, next, hcurrent, hnext, hshown, -⟩
  · rw [ht] at hi
    exact Or.inl hi
  · rw [hshown, List.mem_append, List.mem_singleton] at hi
    refine hi.imp_right fun hi => Or.inl ?_
    have hcontent : current.content = .locationServices := by
      simpa [currentContent, hcurrent] using hpage
    have hmem : (current.content, current.next) ∈ s.manager.outline :=
      List.mem_map_of_mem (f := fun item => (item.content, item.next))
        (List.mem_of_getElem? hcurrent)
    obtain ⟨i', hi', hsuccess⟩ := hleads _ hmem hcontent
    obtain rfl : i' = i := by simpa [hi, hnext] using hi'.symm
    rw [contents_of_outline houtline]
    exact hsuccess

/-- A page that is made is shown if the page that leads to it has its manager. -/
theorem turns_setNextAndDisplay {page : Nat} {m₀ : BLTNItemManager Page}
    {made : BLTNItemManager Page × Nat} {pages : List Page} (hready : Ready m₀ made pages)
    (hs : Sound m₀) (hleads : Leads m₀) (hpage : page < m₀.items.length)
    (hcontent : m₀.contents[page]? ≠ some .locationServices)
    (h : s.setNextAndDisplay page made = some t) :
    Turns m₀ t.manager pages ∧
      (m₀.hasManager page = false → t.manager.shownItems = m₀.shownItems) ∧
      (m₀.hasManager page = true → t.manager.currentItem = made.2) := by
  obtain ⟨m, rfl, hm⟩ := setNextAndDisplay_spec hready.toMade h
  obtain ⟨houtline, hshown⟩ := displayNextItem_shown h
  have hmade : made.1.contents[page]? ≠ some .locationServices := by
    rw [hready.contents, List.getElem?_append_left (by simpa [contents] using hpage)]
    exact hcontent
  have hleads' : Leads m := ((hready.leads hleads).setNext made.2 hmade).of_outline houtline
  have hsound := hready.sound hs
  have htidy := hsound.tidy.setNext page (hready.fresh hs).1 (hready.fresh hs).2
  simp only [hasManager_setNext, hready.hasManager] at hshown
  rcases hshown with ⟨hmanager, ht⟩ | ⟨hmanager, current, next, hcurrent, hnext, hshown, hitem⟩
  · have hsame : m.shownItems = m₀.shownItems := by
      rw [congrArg (fun u : Onboarding => u.manager.shownItems) ht]
      exact hready.shownItems
    exact ⟨{ hm with leads := hleads', shown := fun i hi => Or.inl (hsame ▸ hi) },
      fun _ => hsame, fun h => absurd (hmanager.symm.trans h) Bool.false_ne_true⟩
  · -- the page that has its manager is the one on screen
    have hcur : page = made.1.currentItem := by
      refine ((htidy.manager page).mp ?_).2
      rw [hasManager_setNext, hready.hasManager, hmanager]
    obtain rfl : made.2 = next := by
      have hcurrent : (made.1.setNext page made.2).items[page]? = some current := hcur ▸ hcurrent
      simp only [BLTNItemManager.setNext, modifyItem, List.getElem?_modify] at hcurrent
      obtain ⟨old, -, rfl⟩ := Option.map_eq_some_iff.mp hcurrent
      simpa using hnext
    have hview : m.shownItems = m₀.shownItems ++ [made.2] :=
      hshown.trans (congrArg (· ++ [made.2]) hready.shownItems)
    refine ⟨{ hm with leads := hleads', shown := fun i hi => ?_ },
      fun h => absurd (h.symm.trans hmanager) Bool.false_ne_true, fun _ => hitem⟩
    have hi : i ∈ m.shownItems := hi
    rw [hview, List.mem_append, List.mem_singleton] at hi
    rcases hi with hi | rfl
    · exact Or.inl hi
    · exact Or.inr (Or.inr hready.later)

/-! ## What a step keeps -/

/-- Requests are made by the pages that are there to make them. -/
structure Placed (s : Onboarding) : Prop where
  sound : Sound s.manager
  leads : Leads s.manager
  lookups : ∀ l ∈ s.lookups, s.manager.contents[l.1]? = some .getEmail
  requests : ∀ r ∈ s.requests,
    s.manager.contents[r.page]? = some (.getPassword r.signup r.email)

theorem Placed.start (experience : Experience) (launchedBefore : Bool) :
    Placed (Onboarding.start experience launchedBefore) := by
  refine ⟨sound_start experience launchedBefore, fun p hp hlocation => ?_,
    fun _ hl => (nomatch hl), fun _ hr => (nomatch hr)⟩
  rw [Onboarding.start, showBulletin, outline_refresh] at hp
  obtain rfl := List.mem_singleton.mp hp
  cases experience <;> cases hlocation

/-- The pages that a step makes, and the requests that are made in it. -/
structure Stepped (s t : Onboarding) (pages : List Page) : Prop
    extends Turns s.manager t.manager pages where
  lookups : ∀ l ∈ t.lookups, l ∈ s.lookups ∨ s.manager.contents[l.1]? = some .getEmail
  requests : ∀ r ∈ t.requests,
    (∃ old ∈ s.requests, old.page = r.page ∧ old.signup = r.signup ∧ old.email = r.email) ∨
      r.page = s.manager.currentItem ∧
        s.manager.currentContent = some (.getPassword r.signup r.email)

theorem Turns.stepped {pages : List Page} (h : Turns s.manager t.manager pages)
    (hlookups : t.lookups ⊆ s.lookups) (hrequests : t.requests = s.requests) :
    Stepped s t pages :=
  { h with
    lookups := fun _ hl => Or.inl (hlookups hl)
    requests := fun r hr => Or.inl ⟨r, hrequests ▸ hr, rfl, rfl, rfl⟩ }

theorem Placed.turns_self (hp : Placed s) : Turns s.manager s.manager [] :=
  .nothing hp.leads rfl id (List.Subset.refl _)

theorem Placed.turns_dismissBulletin (hp : Placed s) {m : BLTNItemManager Page}
    (h : s.manager.dismissBulletin = some m) : Turns s.manager m [] := by
  refine .nothing hp.leads (outline_dismissBulletin h) (fun ht => ht.dismissBulletin h) ?_
  rw [shownItems_dismissBulletin h]
  exact List.Subset.refl _

theorem lt_of_contents {m : BLTNItemManager Page} {i : Nat} {page : Page}
    (h : m.contents[i]? = some page) : i < m.items.length := by
  simpa [contents] using (List.getElem?_eq_some_iff.mp h).1

/-- The answer to a lookup: a page is made, and shown if the page that asked has its manager. -/
theorem Placed.providersFetched (hp : Placed s) {k : Nat} {error : Bool}
    {providers : Option (List String)}
    (h : (onboarding matchesRegex).step s (.providersFetched k error providers) = some t) :
    ∃ asker email, s.lookups[k]? = some (asker, email) ∧
      Stepped s t
        [.getPassword (!FirebaseController.userIsRegistered error providers) email] ∧
      (s.manager.hasManager asker = false → t.manager.shownItems = s.manager.shownItems) ∧
      (s.manager.hasManager asker = true → t.manager.currentItem = s.manager.items.length) := by
  obtain ⟨⟨asker, email⟩, hlookup, h⟩ := Option.bind_eq_some_iff.mp h
  have hasker := hp.lookups _ (List.mem_of_getElem? hlookup)
  have hready := ready_create s.manager
    (.getPassword (!FirebaseController.userIsRegistered error providers) email) nofun
  obtain ⟨hturns, hshown⟩ := turns_setNextAndDisplay hready hp.sound hp.leads
    (lt_of_contents hasker) (by rw [hasker]; exact nofun) h
  obtain ⟨m, rfl, -⟩ := setNextAndDisplay_spec hready.toMade h
  exact ⟨asker, email, hlookup,
    hturns.stepped (List.eraseIdx_subset ..) rfl, hshown⟩

theorem Placed.actionHandler (hp : Placed s) {page : Page}
    (hpage : s.manager.currentContent = some page) (h : s.actionHandler page = some t) :
    ∃ pages, Stepped s t pages ∧
      ∀ signup email, .getPassword signup email ∉ pages := by
  cases page with
  | root =>
    have hready := ready_create s.manager .getEmail nofun
    have hcurrent := s.manager.currentContent_eq ▸ hpage
    obtain ⟨hturns, -⟩ := turns_setNextAndDisplay hready hp.sound hp.leads
      (lt_of_contents hcurrent) (by rw [hcurrent]; exact nofun) h
    obtain ⟨m, rfl, -⟩ := setNextAndDisplay_spec hready.toMade h
    exact ⟨_, hturns.stepped (List.Subset.refl _) rfl, by simp⟩
  | getEmail | getPassword signup email =>
    obtain rfl := Option.some.inj h
    exact ⟨_, hp.turns_self.stepped (List.Subset.refl _) rfl, by simp⟩
  | success =>
    simp only [Onboarding.actionHandler] at h
    split at h
    · obtain ⟨m, hm, rfl⟩ := Option.map_eq_some_iff.mp h
      have hturns := hp.turns_dismissBulletin hm
      exact ⟨_, hturns.stepped (List.Subset.refl _) rfl, by simp⟩
    · obtain rfl := Option.some.inj h
      have hturns : Turns s.manager { s with launchedBefore := true }.manager [] := hp.turns_self
      exact ⟨_, hturns.stepped (List.Subset.refl _) rfl, by simp⟩
  | error =>
    simp only [Onboarding.actionHandler] at h
    split at h
    · obtain ⟨m, hm, rfl⟩ := Option.map_eq_some_iff.mp h
      have hturns : Turns s.manager m [] := .nothing hp.leads (outline_popItem hm)
        (fun ht => ht.popItem hm) (shownItems_popItem hm)
      exact ⟨_, hturns.stepped (List.Subset.refl _) rfl, by simp⟩
    · obtain rfl := Option.some.inj h
      exact ⟨_, hp.turns_self.stepped (List.Subset.refl _) rfl, by simp⟩
  | locationServices =>
    have hturns := turns_locationServices hp.leads hpage h
    obtain ⟨m, rfl, -⟩ := displayNextItem_spec h
    exact ⟨_, hturns.stepped (List.Subset.refl _) rfl, by simp⟩

theorem Placed.textInputHandler (hp : Placed s) (matchesRegex : String → String → Bool)
    (text : Option String) {page : Page} (hpage : s.manager.currentContent = some page) :
    Stepped s (s.textInputHandler matchesRegex (text.getD "") page) [] := by
  have hquiet : Stepped s s [] :=
    hp.turns_self.stepped (List.Subset.refl _) rfl
  cases page with
  | getEmail =>
    simp only [Onboarding.textInputHandler]
    split
    · refine { hquiet with lookups := fun l hl => ?_ }
      rcases List.mem_append.mp hl with hl | hl
      · exact Or.inl hl
      · obtain rfl := List.mem_singleton.mp hl
        exact Or.inr (s.manager.currentContent_eq ▸ hpage)
    · exact hquiet
  | getPassword signup email =>
    simp only [Onboarding.textInputHandler]
    split
    · refine { hquiet with requests := fun r hr => ?_ }
      rcases List.mem_append.mp hr with hr | hr
      · exact Or.inl ⟨r, hr, rfl, rfl, rfl⟩
      · obtain rfl := List.mem_singleton.mp hr
        exact Or.inr ⟨rfl, hpage⟩
    · exact hquiet
  | _ => exact hquiet

/-- A step makes a password page only if it is the answer to a lookup. -/
theorem Placed.stepped (hp : Placed s) {e : Event}
    (h : (onboarding matchesRegex).step s e = some t) :
    ∃ pages, Stepped s t pages ∧ ∀ signup email, .getPassword signup email ∈ pages →
      ∃ k error providers, e = .providersFetched k error providers := by
  cases e with
  | actionButtonTapped =>
    obtain ⟨-, -, h⟩ := Option.bind_eq_some_iff.mp h
    obtain ⟨page, hpage, h⟩ := Option.bind_eq_some_iff.mp h
    obtain ⟨pages, hstepped, hpages⟩ := hp.actionHandler hpage h
    exact ⟨pages, hstepped, fun signup email hmem => absurd hmem (hpages signup email)⟩
  | alternativeButtonTapped =>
    obtain ⟨-, -, h⟩ := Option.bind_eq_some_iff.mp h
    obtain ⟨page, hpage, h⟩ := Option.bind_eq_some_iff.mp h
    cases page with
    | locationServices =>
      have hturns := turns_locationServices hp.leads hpage h
      obtain ⟨m, rfl, -⟩ := displayNextItem_spec h
      exact ⟨_, hturns.stepped (List.Subset.refl _) rfl, by simp⟩
    | _ => cases h
  | textFieldDidEndEditing text =>
    obtain ⟨-, -, h⟩ := Option.bind_eq_some_iff.mp h
    obtain ⟨page, hpage, h⟩ := Option.bind_eq_some_iff.mp h
    obtain ⟨-, -, h⟩ := Option.bind_eq_some_iff.mp h
    obtain rfl := Option.some.inj h
    exact ⟨_, hp.textInputHandler matchesRegex text hpage, by simp⟩
  | dismissIfPossible =>
    obtain ⟨-, -, h⟩ := Option.bind_eq_some_iff.mp h
    obtain ⟨page, -, h⟩ := Option.bind_eq_some_iff.mp h
    split at h
    · obtain ⟨m, hm, rfl⟩ := Option.map_eq_some_iff.mp h
      have hturns := hp.turns_dismissBulletin hm
      exact ⟨_, hturns.stepped (List.Subset.refl _) rfl, by simp⟩
    · obtain rfl := Option.some.inj h
      exact ⟨_, hp.turns_self.stepped (List.Subset.refl _) rfl, by simp⟩
  | dismissalCompleted =>
    have hsound := (step_cases h).sound hp.sound
    obtain ⟨_, -, h⟩ := Option.bind_eq_some_iff.mp h
    obtain ⟨page, -, h⟩ := Option.bind_eq_some_iff.mp h
    obtain rfl := Option.some.inj h
    have hturns : Turns s.manager s.manager.completeDismissal [] :=
      .nothing hp.leads rfl (fun _ => hsound.tidy) shownItems_completeDismissal
    exact ⟨_, hturns.stepped (List.Subset.refl _) rfl, by simp⟩
  | providersFetched k error providers =>
    obtain ⟨asker, email, -, hstepped, -⟩ := hp.providersFetched h
    exact ⟨_, hstepped, fun _ _ _ => ⟨k, error, providers, rfl⟩⟩
  | authReplied n reply =>
    obtain ⟨request, hrequest, h⟩ := Option.bind_eq_some_iff.mp h
    obtain ⟨_, -, h⟩ := Option.bind_eq_some_iff.mp h
    have hmem := List.mem_of_getElem? hrequest
    have hasker := hp.requests request hmem
    obtain ⟨pages, hready, hpages⟩ := ready_authenticated s.manager request.signup reply
    obtain ⟨hturns, -⟩ := turns_setNextAndDisplay hready hp.sound hp.leads
      (lt_of_contents hasker) (by rw [hasker]; exact nofun) h
    obtain ⟨m, rfl, -⟩ := setNextAndDisplay_spec hready.toMade h
    refine ⟨pages, { hturns with lookups := fun _ hl => Or.inl hl, requests := fun r hr => ?_ },
      fun signup email hmem => absurd (hpages _ hmem) (by simp)⟩
    rcases List.mem_or_eq_of_mem_set hr with hr | rfl
    · exact Or.inl ⟨r, hr, rfl, rfl, rfl⟩
    · exact Or.inl ⟨request, hmem, rfl, rfl, rfl⟩

theorem Stepped.getElem?_contents {pages : List Page} (h : Stepped s t pages)
    {i : Nat} (hi : i < s.manager.items.length) :
    t.manager.contents[i]? = s.manager.contents[i]? := by
  rw [h.contents, List.getElem?_append_left (by simpa [contents] using hi)]

theorem Stepped.length {pages : List Page} (h : Stepped s t pages) :
    t.manager.items.length = s.manager.items.length + pages.length := by
  simpa [contents] using congrArg List.length h.contents

theorem Stepped.placed {pages : List Page} (h : Stepped s t pages) (hp : Placed s) : Placed t := by
  have hkeep : ∀ {i : Nat} {page : Page}, s.manager.contents[i]? = some page →
      t.manager.contents[i]? = some page := by
    intro i page hi
    rw [h.getElem?_contents (lt_of_contents hi), hi]
  refine ⟨h.sound hp.sound, h.leads, fun l hl => ?_, fun r hr => ?_⟩
  · rcases h.lookups l hl with hl | hl
    · exact hkeep (hp.lookups l hl)
    · exact hkeep hl
  · rcases h.requests r hr with ⟨old, hold, hpage, hsignup, hemail⟩ | ⟨hpage, hcontent⟩
    · rw [← hpage, ← hsignup, ← hemail]
      exact hkeep (hp.requests old hold)
    · rw [hpage]
      exact hkeep (s.manager.currentContent_eq ▸ hcontent)

/-! ## Sign-up pages and the lookups behind them -/

/-- The next page to be made is `page`, and what makes it is the answer that nobody is
registered with `email`. -/
def ReportsUnregistered (page : Nat) (email : String) (s : Onboarding) (e : Event) : Prop :=
  s.manager.items.length = page ∧
    ∃ k asker, e = .providersFetched k false none ∧ s.lookups[k]? = some (asker, email)

/-- In the run `page` was made by the answer that nobody is registered with `email`. -/
def Unregistered (matchesRegex : String → String → Bool) (s : Onboarding) (es : List Event)
    (page : Nat) (email : String) : Prop :=
  (onboarding matchesRegex).Took (ReportsUnregistered page email) s es

/-- What is asked after the events of a run: a sign-up page on screen, and every
`createUser`, is for an email that nobody was registered with, as the lookup said that
opened the page. -/
structure SignsUpUnregistered (matchesRegex : String → String → Bool) (s : Onboarding)
    (es : List Event) (t : Onboarding) : Prop where
  page : ∀ email, t.manager.currentContent = some (.getPassword true email) →
    Unregistered matchesRegex s es t.manager.currentItem email
  createUser : ∀ r ∈ t.requests, r.signup = true → Unregistered matchesRegex s es r.page r.email

/-- The condition on a step: a lookup does not fail while the page that made it is on
screen. -/
def LookupSucceeds (s : Onboarding) : Event → Prop
  | .providersFetched k true _ =>
      ∀ asker email, s.lookups[k]? = some (asker, email) → s.manager.hasManager asker = false
  | _ => True

/-- What the steps that meet the condition keep. -/
structure Kept (matchesRegex : String → String → Bool) (s : Onboarding) (es : List Event)
    (t : Onboarding) : Prop where
  placed : Placed t
  shown : ∀ i ∈ t.manager.shownItems, ∀ email,
    t.manager.contents[i]? = some (.getPassword true email) →
      Unregistered matchesRegex s es i email
  createUser : ∀ r ∈ t.requests, r.signup = true → Unregistered matchesRegex s es r.page r.email

variable {s₀ : Onboarding} {es : List Event}

theorem Kept.page (h : Kept matchesRegex s₀ es t) {email : String}
    (hpage : t.manager.currentContent = some (.getPassword true email)) :
    Unregistered matchesRegex s₀ es t.manager.currentItem email :=
  h.shown _ h.placed.sound.tidy.currentItem_mem email (t.manager.currentContent_eq ▸ hpage)

theorem Kept.signsUp (h : Kept matchesRegex s₀ es t) :
    SignsUpUnregistered matchesRegex s₀ es t :=
  ⟨fun _ hpage => h.page hpage, h.createUser⟩

theorem Unregistered.snoc (hrun : (onboarding matchesRegex).run s₀ es = some s) {page : Nat}
    {email : String} (h : Unregistered matchesRegex s₀ es page email) (e : Event) :
    Unregistered matchesRegex s₀ (es ++ [e]) page email :=
  ((onboarding matchesRegex).took_snoc hrun e).mpr (Or.inl h)

/-- A page that comes into view in a step. -/
theorem Kept.shown_step (h : Kept matchesRegex s₀ es s)
    (hrun : (onboarding matchesRegex).run s₀ es = some s) {e : Event} (hC : LookupSucceeds s e)
    (hstep : (onboarding matchesRegex).step s e = some t) {i : Nat}
    (hi : i ∈ t.manager.shownItems) {email : String}
    (hcontent : t.manager.contents[i]? = some (.getPassword true email)) :
    Unregistered matchesRegex s₀ (es ++ [e]) i email := by
  obtain ⟨pages, hstepped, hpages⟩ := h.placed.stepped hstep
  have hold : i ∈ s.manager.shownItems → Unregistered matchesRegex s₀ (es ++ [e]) i email := by
    intro hi
    have hlt := h.placed.sound.tidy.lt_of_mem_shownItems hi
    exact (h.shown i hi email (hstepped.getElem?_contents hlt ▸ hcontent)).snoc hrun e
  rcases hstepped.shown i hi with hi' | hsuccess | hnew
  · exact hold hi'
  · cases hsuccess.symm.trans hcontent
  · -- it is the page made by the answer to a lookup
    have hmem : Page.getPassword true email ∈ pages := by
      rw [hstepped.contents, List.getElem?_append_right (by simpa [contents] using hnew)]
        at hcontent
      exact List.mem_of_getElem? hcontent
    obtain ⟨k, error, providers, rfl⟩ := hpages true email hmem
    obtain ⟨asker, email', hlookup, hstepped, hhidden, -⟩ := h.placed.providersFetched hstep
    have hnew : i = s.manager.items.length := by
      have := hstepped.length
      have := lt_of_contents hcontent
      simp only [List.length_singleton] at *
      omega
    have hmade : Page.getPassword (!FirebaseController.userIsRegistered error providers) email' =
        .getPassword true email := by
      rw [hstepped.contents, List.getElem?_append_right (by simp [contents, hnew])] at hcontent
      simpa [contents, hnew] using hcontent
    injection hmade with hsignup hemail
    cases error with
    | true =>
      rw [hhidden (hC asker email' hlookup)] at hi
      exact hold hi
    | false =>
      obtain rfl : providers = none := by
        simpa [FirebaseController.userIsRegistered] using hsignup
      exact ((onboarding matchesRegex).took_snoc hrun _).mpr
        (Or.inr ⟨hnew.symm, k, asker, rfl, hemail ▸ hlookup⟩)

theorem Kept.step (h : Kept matchesRegex s₀ es s)
    (hrun : (onboarding matchesRegex).run s₀ es = some s) {e : Event} (hC : LookupSucceeds s e)
    (hstep : (onboarding matchesRegex).step s e = some t) :
    Kept matchesRegex s₀ (es ++ [e]) t := by
  obtain ⟨pages, hstepped, -⟩ := h.placed.stepped hstep
  refine ⟨hstepped.placed h.placed, fun i hi email => h.shown_step hrun hC hstep hi,
    fun r hr hsignup => Unregistered.snoc hrun ?_ e⟩
  rcases hstepped.requests r hr with ⟨old, hold, hpage, hsame, hemail⟩ | ⟨hpage, hcontent⟩
  · rw [← hpage, ← hemail]
    exact h.createUser old hold (hsame.trans hsignup)
  · rw [hpage]
    exact h.page (hsignup ▸ hcontent)

/-- A page that a lookup made is there. -/
theorem Unregistered.lt (hp : Placed s₀) (hrun : (onboarding matchesRegex).run s₀ es = some t)
    {page : Nat} {email : String} (h : Unregistered matchesRegex s₀ es page email) :
    page < t.manager.items.length := by
  refine ((onboarding matchesRegex).run_history
    (P := fun es t => Placed t ∧
      (Unregistered matchesRegex s₀ es page email → page < t.manager.items.length))
    ⟨hp, fun h => nomatch h⟩ ?_ hrun).2 h
  intro es s e t hrun ⟨hp, hlt⟩ hstep
  obtain ⟨pages, hstepped, -⟩ := hp.stepped hstep
  refine ⟨hstepped.placed hp, fun h => ?_⟩
  rcases ((onboarding matchesRegex).took_snoc hrun e).mp h with h | ⟨hpage, k, asker, rfl, -⟩
  · exact Nat.lt_of_lt_of_le (hlt h) (by rw [hstepped.length]; omega)
  · obtain ⟨_, _, -, hstepped, -⟩ := hp.providersFetched hstep
    rw [hstepped.length, hpage]
    exact Nat.lt_succ_self page

/-- A lookup that fails while its page is on screen opens a sign-up page. -/
theorem Placed.lookupSucceeds (hp : Placed s) (hp₀ : Placed s₀)
    (hrun : (onboarding matchesRegex).run s₀ es = some s) {e : Event}
    (hstep : (onboarding matchesRegex).step s e = some t)
    (h : SignsUpUnregistered matchesRegex s₀ (es ++ [e]) t) : LookupSucceeds s e := by
  unfold LookupSucceeds
  split
  · rename_i k providers
    intro asker email hlookup
    by_contra hmanager
    obtain ⟨asker', email', hlookup', hstepped, -, hshown⟩ := hp.providersFetched hstep
    obtain ⟨rfl, rfl⟩ := Prod.mk.inj (Option.some.inj (hlookup.symm.trans hlookup'))
    have hcurrent := hshown (by simpa using hmanager)
    have hpage : t.manager.currentContent = some (.getPassword true email) := by
      rw [currentContent_eq, hcurrent, hstepped.contents,
        List.getElem?_append_right (by simp [contents])]
      simp [contents, FirebaseController.userIsRegistered]
    rcases ((onboarding matchesRegex).took_snoc hrun _).mp (h.page email hpage) with
      hknown | ⟨-, _, _, he, -⟩
    · exact absurd (Unregistered.lt hp₀ hrun hknown) (by rw [hcurrent]; exact Nat.lt_irrefl _)
    · cases he
  · trivial

end Onboarding

/-- **Who is led into creating an account**: in a run, only those whom a lookup found no
account for, exactly if no lookup fails while the page that made it is on screen. -/
theorem signUp_known_iff (matchesRegex : String → String → Bool) (experience : Experience)
    (launchedBefore : Bool) (es : List Onboarding.Event) (t : Onboarding)
    (hrun : (onboarding matchesRegex).run (.start experience launchedBefore) es = some t) :
    (onboarding matchesRegex).Throughout
        (Onboarding.SignsUpUnregistered matchesRegex (.start experience launchedBefore))
        (.start experience launchedBefore) es ↔
      (onboarding matchesRegex).Meets Onboarding.LookupSucceeds
        (.start experience launchedBefore) es := by
  have hstart := Onboarding.Placed.start experience launchedBefore
  have hkept : Onboarding.Kept matchesRegex (.start experience launchedBefore) []
      (.start experience launchedBefore) := by
    refine ⟨hstart, fun i hi email hcontent => ?_, fun _ hr => nomatch hr⟩
    obtain rfl := List.mem_singleton.mp hi
    cases experience <;> cases hcontent
  exact (onboarding matchesRegex).throughout_iff_meets
    (I := Onboarding.Kept matchesRegex (.start experience launchedBefore))
    Onboarding.Kept.signsUp hkept (fun hrun h hC hstep => h.step hrun hC hstep)
    (fun hrun h hstep => h.placed.lookupSucceeds hstart hrun hstep) hrun

/-- The text field ends editing twice.  The first lookup finds no account; the second one
fails, when the page that made it is hidden already. -/
def lookedUpTwice : List Onboarding.Event :=
  [.actionButtonTapped, .textFieldDidEndEditing (some "a1@tec.mx"),
    .textFieldDidEndEditing (some "a1@tec.mx"), .providersFetched 0 false none,
    .providersFetched 0 true none, .textFieldDidEndEditing (some "12345")]

theorem signUp_known_twice :
    (onboarding fun text regex => text == "a1@tec.mx" && regex == "[\\w]+@tec.mx").Throughout
      (Onboarding.SignsUpUnregistered
        (fun text regex => text == "a1@tec.mx" && regex == "[\\w]+@tec.mx")
        (.start .onboarding false)) (.start .onboarding false) lookedUpTwice := by
  refine (signUp_known_iff _ _ _ _ _ rfl).mpr ?_
  refine ⟨trivial, fun s₁ h₁ => ⟨trivial, fun s₂ h₂ => ⟨trivial, fun s₃ h₃ => ⟨trivial,
    fun s₄ h₄ => ⟨?_, fun _ _ => ⟨trivial, fun _ _ => trivial⟩⟩⟩⟩⟩⟩
  obtain rfl := Option.some.inj h₁
  obtain rfl := Option.some.inj h₂
  obtain rfl := Option.some.inj h₃
  obtain rfl := Option.some.inj h₄
  intro asker email hlookup
  obtain ⟨rfl, rfl⟩ := Prod.mk.inj (Option.some.inj hlookup)
  rfl

/-- The lookup fails, for whatever account there is: the page that comes next creates one. -/
def lookupFailed : List Onboarding.Event :=
  [.actionButtonTapped, .textFieldDidEndEditing (some "a1@tec.mx"),
    .providersFetched 0 true none, .textFieldDidEndEditing (some "12345")]

theorem signUp_after_failed_lookup :
    ∃ t, (onboarding fun text regex => text == "a1@tec.mx" && regex == "[\\w]+@tec.mx").run
        (.start .onboarding false) lookupFailed = some t ∧
      t.manager.currentContent = some (.getPassword true "a1@tec.mx") ∧
      (∃ r ∈ t.requests, r.signup = true ∧ r.email = "a1@tec.mx") ∧
      ¬ (onboarding fun text regex => text == "a1@tec.mx" && regex == "[\\w]+@tec.mx").Throughout
        (Onboarding.SignsUpUnregistered
          (fun text regex => text == "a1@tec.mx" && regex == "[\\w]+@tec.mx")
          (.start .onboarding false)) (.start .onboarding false) lookupFailed := by
  refine ⟨_, rfl, rfl, ⟨_, List.mem_cons_self, rfl, rfl⟩, fun h => ?_⟩
  have hknown := (h lookupFailed [] _ (List.append_nil _) rfl).page "a1@tec.mx" rfl
  obtain ⟨e, he, s, -, k, asker, rfl, -⟩ := hknown.exists_mem
  simp [lookupFailed] at he

end Musgravite
