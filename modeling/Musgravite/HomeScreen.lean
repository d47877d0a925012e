import Musgravite.Onboarding

/-! # The home screen and its bulletins

The home screen registers a listener with the authentication service whenever it
appears, and never removes one.  A listener whose block finds nobody signed in opens an
authentication bulletin; and appearing opens an onboarding bulletin until one has been
finished.  Either launch overwrites `bulletinManager`, the only strong reference to the
manager of a bulletin, whatever is on screen.

The service calls the blocks some time after the change they report, in any order, so at
any moment of a run the calls that are outstanding may be what happens next.
`oneBulletin_iff` says when a run has at most one live bulletin, and one for each sign-out,
whenever these calls are made: when the screen appears, and when somebody signs out, there
must not be a second listener, nor a bulletin on screen, to get in the way; and nobody
signs in before the sign-out has been reported. -/
namespace Musgravite

structure User where
  uid : String
  email : Option String

/-- A block registered with `addStateDidChangeListener`, and what the service keeps with it. -/
structure Listener where
  firstInvocation : Bool := true
  previousUserID : Option String := none
  /-- Calls that have been dispatched and not made. -/
  calls : Nat := 1

/-- The bulletin on screen. -/
structure Shown where
  /-- Its manager, to which its pages refer weakly. -/
  manager : Nat
  /-- Somebody has signed in since it was shown, so it may show the success page. -/
  authenticated : Bool := false
  dismissing : Bool := false

structure Launch where
  experience : Experience
  /-- The bulletin that was on screen. -/
  above : Option Nat
deriving DecidableEq

structure HomeScreen where
  launchedBefore : Bool
  currentUser : Option User
  /-- The listeners, in the order in which they were registered. -/
  listeners : List Listener := []
  handle : Option Nat := none
  isNavigationBarHidden : Bool := false
  greetingLabel : Option String := none
  bulletinManager : Option Nat := none
  onScreen : Option Shown := none
  /-- All launches so far, the `n`-th being the one that made manager `n`. -/
  launches : List Launch := []

namespace HomeScreen

def currentAuthenticatedUserMail (self : HomeScreen) : String :=
  (self.currentUser.bind User.email).getD ""

/-- What both launches do. -/
def launch (self : HomeScreen) (experience : Experience) : HomeScreen :=
  let manager := self.launches.length
  { self with
    bulletinManager := some manager
    -- nothing is presented above a screen that presents something already
    onScreen := some (self.onScreen.getD { manager })
    launches := self.launches ++ [{ experience, above := self.onScreen.map Shown.manager }] }

def launchOnboardingExperience (self : HomeScreen) : HomeScreen := self.launch .onboarding

def launchAuthenticationExperience (self : HomeScreen) : HomeScreen := self.launch .authentication

def viewDidAppear (self : HomeScreen) : HomeScreen :=
  if !self.launchedBefore then self.launchOnboardingExperience else self

def viewWillAppear (self : HomeScreen) : HomeScreen :=
  { self with
    listeners := self.listeners ++ [{}]
    handle := some self.listeners.length
    isNavigationBarHidden := true }

def viewWillDisappear (self : HomeScreen) : HomeScreen :=
  { self with isNavigationBarHidden := false }

/-- The block that `viewWillAppear` registers. -/
def authStateDidChange (self : HomeScreen) (user : Option User) : HomeScreen :=
  if user.isNone && self.launchedBefore then self.launchAuthenticationExperience
  else { self with greetingLabel := some ("Hola " ++ self.currentAuthenticatedUserMail) }

/-- The service notes the call that it makes to the `i`-th listener. -/
def called (self : HomeScreen) (i : Nat) (listener : Listener) : HomeScreen :=
  { self with listeners := self.listeners.set i {
      firstInvocation := false
      previousUserID := self.currentUser.map User.uid
      calls := listener.calls - 1 } }

/-- The call to the `i`-th listener, which goes on to the block if the user is another one
than at the call before. -/
def call (self : HomeScreen) (i : Nat) : Option HomeScreen := do
  let listener ← self.listeners[i]?
  guard (listener.calls ≠ 0)
  let shouldCallListener := listener.firstInvocation ||
    listener.previousUserID != self.currentUser.map User.uid
  return if shouldCallListener then
    (self.called i listener).authStateDidChange self.currentUser
  else self.called i listener

def updateCurrentUser (self : HomeScreen) (user : Option User) : HomeScreen :=
  { self with
    currentUser := user
    listeners := self.listeners.map fun listener => { listener with calls := listener.calls + 1 } }

inductive Event
  | viewWillAppear
  | viewDidAppear
  | viewWillDisappear
  /-- A `createUser` or `signIn` is granted. -/
  | signIn (user : User)
  | logOut (done : Bool)
  /-- A call to the `i`-th listener. -/
  | authStateDidChange (i : Nat)
  /-- A tap on the button of the success page. -/
  | actionButtonTapped
  /-- A tap outside the card, or a swipe, while it shows the success page. -/
  | dismissIfPossible
  | dismissalCompleted

/-- `dismissBulletin`, if the manager of the bulletin is still there. -/
def dismissBulletin (self : HomeScreen) (shown : Shown) : HomeScreen :=
  if self.bulletinManager = some shown.manager then
    { self with onScreen := some { shown with dismissing := true } }
  else self

@[simp] theorem dismissBulletin_currentUser (s : HomeScreen) (shown : Shown) :
    (s.dismissBulletin shown).currentUser = s.currentUser := by
  unfold dismissBulletin
  split <;> rfl

@[simp] theorem dismissBulletin_listeners (s : HomeScreen) (shown : Shown) :
    (s.dismissBulletin shown).listeners = s.listeners := by
  unfold dismissBulletin
  split <;> rfl

/-- The state after an event, `none` if it cannot happen. -/
def step (self : HomeScreen) : Event → Option HomeScreen
  | .viewWillAppear => some self.viewWillAppear
  | .viewDidAppear => some self.viewDidAppear
  | .viewWillDisappear => some self.viewWillDisappear
  | .signIn user => some { self.updateCurrentUser (some user) with
      onScreen := self.onScreen.map fun shown => { shown with authenticated := true } }
  | .logOut done =>
      if done && self.currentUser.isSome then some (self.updateCurrentUser none) else some self
  | .authStateDidChange i => self.call i
  | .actionButtonTapped => do
      let shown ← self.onScreen
      guard (shown.authenticated && !shown.dismissing)
      return { self with launchedBefore := true }.dismissBulletin shown
  | .dismissIfPossible => do
      let shown ← self.onScreen
      guard (shown.authenticated && !shown.dismissing)
      return self.dismissBulletin shown
  | .dismissalCompleted => do
      let shown ← self.onScreen
      guard shown.dismissing
      -- the dismissal handler of the success page
      return { self with launchedBefore := true, onScreen := none }

/-- The screen when the app is opened. -/
def start (launchedBefore : Bool) (currentUser : Option User) : HomeScreen :=
  { launchedBefore, currentUser }

end HomeScreen

/-- The home screen, step by step. -/
def home : TransitionSystem HomeScreen HomeScreen.Event := ⟨HomeScreen.step⟩

namespace Listener

/-- Called when nobody is signed in, the listener calls its block. -/
def opens (listener : Listener) : Bool :=
  listener.firstInvocation || listener.previousUserID.isSome

/-- And it is going to be called. -/
def armed (listener : Listener) : Bool := listener.calls ≠ 0 && listener.opens

/-- A change of user is among what it is going to be called for: it knows of a user, or has
more to come than its first call. -/
def reports (listener : Listener) : Bool :=
  listener.armed && (listener.previousUserID.isSome || 2 ≤ listener.calls)

end Listener

namespace HomeScreen
variable {s t u : HomeScreen} {i : Nat}

/-- Nobody is signed in, so a block that is called opens an authentication bulletin. -/
def SignedOut (s : HomeScreen) : Prop := s.currentUser = none ∧ s.launchedBefore = true

/-- How many listeners would open one. -/
def armed (s : HomeScreen) : Nat := s.listeners.countP Listener.armed

/-- Between two moments an experience is launched. -/
structure Launched (experience : Experience) (s t : HomeScreen) : Prop where
  launches : t.launches = s.launches ++ [⟨experience, s.onScreen.map Shown.manager⟩]
  onScreen : t.onScreen = some (s.onScreen.getD { manager := s.launches.length })
  bulletinManager : t.bulletinManager = some s.launches.length

/-- The bulletins are as they were. -/
structure Unlaunched (s t : HomeScreen) : Prop where
  launches : t.launches = s.launches
  onScreen : t.onScreen = s.onScreen
  bulletinManager : t.bulletinManager = s.bulletinManager

/-! ## One call -/

theorem call_eq_some (h : s.call i = some t) : ∃ listener, s.listeners[i]? = some listener ∧
    listener.calls ≠ 0 ∧
    t = if listener.firstInvocation || listener.previousUserID != s.currentUser.map User.uid then
      (s.called i listener).authStateDidChange s.currentUser
    else s.called i listener := by
  obtain ⟨listener, hlistener, h⟩ := Option.bind_eq_some_iff.mp h
  obtain ⟨_, hcalls, h⟩ := Option.bind_eq_some_iff.mp h
  exact ⟨listener, hlistener, (Option.guard_eq_some' _).mp hcalls, (Option.some.inj h).symm⟩

theorem authStateDidChange_signedOut (h : SignedOut s) :
    s.authStateDidChange s.currentUser = s.launchAuthenticationExperience := by
  simp [authStateDidChange, h.1, h.2]

theorem authStateDidChange_quiet (h : ¬ SignedOut s) :
    s.authStateDidChange s.currentUser =
      { s with greetingLabel := some ("Hola " ++ s.currentAuthenticatedUserMail) } := by
  unfold authStateDidChange
  rw [if_neg]
  simpa [SignedOut] using h

theorem call_frame (h : s.call i = some t) :
    t.currentUser = s.currentUser ∧ t.launchedBefore = s.launchedBefore := by
  obtain ⟨listener, -, -, rfl⟩ := call_eq_some h
  split
  · unfold authStateDidChange
    split <;> exact ⟨rfl, rfl⟩
  · exact ⟨rfl, rfl⟩

theorem signedOut_call (h : s.call i = some t) : SignedOut t ↔ SignedOut s := by
  rw [SignedOut, SignedOut, (call_frame h).1, (call_frame h).2]

/-- While somebody is signed in, calls launch nothing. -/
theorem call_quiet (hs : ¬ SignedOut s) (h : s.call i = some t) :
    Unlaunched s t := by
  obtain ⟨listener, -, -, rfl⟩ := call_eq_some h
  split
  · have hblock := authStateDidChange_quiet (s := s.called i listener) hs
    rw [show (s.called i listener).currentUser = s.currentUser from rfl] at hblock
    rw [hblock]
    exact ⟨rfl, rfl, rfl⟩
  · exact ⟨rfl, rfl, rfl⟩

theorem armed_called {listener : Listener} (hs : SignedOut s)
    (h : s.listeners[i]? = some listener) :
    (s.called i listener).armed + (if listener.armed then 1 else 0) = s.armed := by
  obtain ⟨hi, rfl⟩ := List.getElem?_eq_some_iff.mp h
  have hcalled (calls : Nat) : Listener.armed ⟨false, none, calls⟩ = false := by
    simp [Listener.armed, Listener.opens]
  have hle := List.boole_getElem_le_countP (p := Listener.armed) hi
  simp only [armed, called, hs.1, Option.map_none, List.countP_set hi, hcalled]
  simp only [Bool.false_eq_true, if_false] at hle ⊢
  omega

/-- **A call while nobody is signed in**: an armed listener opens an authentication
bulletin, and is no longer armed. -/
theorem call_signedOut (hs : SignedOut s) (h : s.call i = some t) {listener : Listener}
    (hlistener : s.listeners[i]? = some listener) :
    if listener.armed then t.armed + 1 = s.armed ∧ Launched .authentication s t
    else t.armed = s.armed ∧ Unlaunched s t := by
  obtain ⟨listener', hlistener', hcalls, rfl⟩ := call_eq_some h
  obtain rfl := Option.some.inj (hlistener.symm.trans hlistener')
  have harmed := armed_called hs hlistener
  have hcalls : listener.armed = listener.opens := by simp [Listener.armed, hcalls]
  have hopens : (listener.firstInvocation ||
      listener.previousUserID != s.currentUser.map User.uid) = listener.opens := by
    rw [hs.1, Listener.opens]
    cases listener.previousUserID <;> simp
  rw [hcalls] at harmed
  rw [hopens, hcalls]
  cases hopen : listener.opens with
  | true =>
    have hblock := authStateDidChange_signedOut (s := s.called i listener) hs
    rw [show (s.called i listener).currentUser = s.currentUser from rfl] at hblock
    simp only [hopen, if_true] at harmed ⊢
    rw [hblock]
    exact ⟨harmed, rfl, rfl, rfl⟩
  | false =>
    simp only [hopen, Bool.false_eq_true, if_false] at harmed ⊢
    exact ⟨harmed, rfl, rfl, rfl⟩

theorem exists_call {listener : Listener} (hlistener : s.listeners[i]? = some listener)
    (hcalls : listener.calls ≠ 0) : ∃ t, s.call i = some t := by
  simp [call, hlistener, hcalls]

theorem exists_call_of_armed (hs : SignedOut s) (h : 0 < s.armed) :
    ∃ i t, s.call i = some t ∧ t.armed + 1 = s.armed ∧ Launched .authentication s t := by
  obtain ⟨listener, hmem, harmed⟩ := List.countP_pos_iff.mp h
  obtain ⟨i, hi⟩ := List.mem_iff_getElem?.mp hmem
  have hcalls : listener.calls ≠ 0 := by
    intro hzero
    simp [Listener.armed, hzero] at harmed
  obtain ⟨t, ht⟩ := exists_call hi hcalls
  have hcall := call_signedOut hs ht hi
  rw [if_pos harmed] at hcall
  exact ⟨i, t, ht, hcall⟩

/-! ## All outstanding calls -/

/-- `t` comes about from `s` by calls to listeners alone. -/
def Delivers (s t : HomeScreen) : Prop :=
  ∃ listeners : List Nat, home.run s (listeners.map .authStateDidChange) = some t

theorem Delivers.refl (s : HomeScreen) : Delivers s s := ⟨[], rfl⟩

theorem Delivers.head (h : s.call i = some t) (hu : Delivers t u) : Delivers s u := by
  obtain ⟨listeners, hrun⟩ := hu
  exact ⟨i :: listeners, home.run_cons_eq_some.mpr ⟨t, h, hrun⟩⟩

theorem Delivers.invariant {P : HomeScreen → Prop} (h : Delivers s t) (hs : P s)
    (hcall : ∀ {s t i}, P s → s.call i = some t → P t) : P t := by
  obtain ⟨listeners, hrun⟩ := h
  induction listeners generalizing s with
  | nil => exact Option.some.inj hrun ▸ hs
  | cons i listeners ih =>
    obtain ⟨u, hu, hrun⟩ := home.run_cons_eq_some.mp hrun
    exact ih (hcall hs hu) hrun

/-- No bulletin was launched while another was on screen. -/
def NoneAbove (s : HomeScreen) : Prop := ∀ launch ∈ s.launches, launch.above = none

/-- No bulletin was launched while another was on screen, and the one on screen has its
manager. -/
def OneLive (s : HomeScreen) : Prop :=
  NoneAbove s ∧ ∀ shown, s.onScreen = some shown → s.bulletinManager = some shown.manager

/-- A manager is released only when a bulletin is launched above another. -/
def Retained (s : HomeScreen) : Prop :=
  NoneAbove s → ∀ shown, s.onScreen = some shown → s.bulletinManager = some shown.manager

theorem Retained.oneLive_iff (h : Retained s) : OneLive s ↔ NoneAbove s :=
  ⟨And.left, fun habove => ⟨habove, h habove⟩⟩

theorem Launched.above_iff {experience : Experience} (h : Launched experience s t) :
    NoneAbove t ↔ NoneAbove s ∧ s.onScreen = none := by
  unfold NoneAbove
  rw [h.launches]
  simp [List.mem_append, or_imp, forall_and]

theorem Unlaunched.above_iff (h : Unlaunched s t) : NoneAbove t ↔ NoneAbove s := by
  rw [NoneAbove, h.launches, NoneAbove]

theorem Retained.launched {experience : Experience} (h : Launched experience s t) :
    Retained t := by
  intro habove shown hshown
  obtain ⟨-, hnone⟩ := h.above_iff.mp habove
  rw [h.onScreen, hnone] at hshown
  obtain rfl := Option.some.inj hshown
  exact h.bulletinManager

theorem Retained.unlaunched (hs : Retained s) (h : Unlaunched s t) : Retained t := by
  rw [Retained, h.above_iff, h.onScreen, h.bulletinManager]
  exact hs

theorem Retained.call (hs : Retained s) (h : s.call i = some t) : Retained t := by
  by_cases hsignedOut : SignedOut s
  · obtain ⟨listener, hlistener, -, -⟩ := call_eq_some h
    have hcall := call_signedOut hsignedOut h hlistener
    split at hcall
    · exact .launched hcall.2
    · exact hs.unlaunched hcall.2
  · exact hs.unlaunched (call_quiet hsignedOut h)

/-- No bulletin was launched above another, and none is going to be: while nobody is signed
in at most one listener is armed, and none if there is a bulletin. -/
def Safe (s : HomeScreen) : Prop :=
  NoneAbove s ∧ (SignedOut s → s.armed = 0 ∨ s.armed = 1 ∧ s.onScreen = none)

theorem Safe.call (hs : Safe s) (h : s.call i = some t) : Safe t := by
  obtain ⟨habove, harmed⟩ := hs
  by_cases hsignedOut : SignedOut s
  · obtain ⟨listener, hlistener, -, -⟩ := call_eq_some h
    have hcall := call_signedOut hsignedOut h hlistener
    split at hcall
    · obtain ⟨hcount, hlaunched⟩ := hcall
      obtain ⟨hone, hnone⟩ := (harmed hsignedOut).resolve_left (by omega)
      exact ⟨hlaunched.above_iff.mpr ⟨habove, hnone⟩, fun _ => Or.inl (by omega)⟩
    · obtain ⟨hcount, hun⟩ := hcall
      refine ⟨hun.above_iff.mpr habove, fun _ => ?_⟩
      rw [hcount, hun.onScreen]
      exact harmed hsignedOut
  · refine ⟨(call_quiet hsignedOut h).above_iff.mpr habove, fun ht => ?_⟩
    exact absurd ((signedOut_call h).mp ht) hsignedOut

/-- **What the outstanding calls can still do**: nothing wrong exactly if the state is
safe. -/
theorem safe_iff (hs : Retained s) : Safe s ↔ ∀ t, Delivers s t → OneLive t := by
  constructor
  · intro hsafe t ht
    obtain ⟨hretained, habove, -⟩ := ht.invariant (P := fun t => Retained t ∧ Safe t) ⟨hs, hsafe⟩
      fun h hcall => ⟨h.1.call hcall, h.2.call hcall⟩
    exact hretained.oneLive_iff.mpr habove
  · intro hall
    refine ⟨(hall s (.refl s)).1, fun hsignedOut => ?_⟩
    rcases Nat.eq_zero_or_pos s.armed with hzero | hpos
    · exact Or.inl hzero
    -- one call opens a bulletin, so there was none, and a second one would be above it
    obtain ⟨i, t, ht, hcount, hlaunched⟩ := exists_call_of_armed hsignedOut hpos
    obtain ⟨-, hnone⟩ := hlaunched.above_iff.mp (hall t (.head ht (.refl t))).1
    refine Or.inr ⟨?_, hnone⟩
    by_contra hmore
    obtain ⟨j, u, hu, -, hlaunched'⟩ :=
      exists_call_of_armed ((signedOut_call ht).mpr hsignedOut) (by omega)
    obtain ⟨-, hnone'⟩ := hlaunched'.above_iff.mp (hall u (.head ht (.head hu (.refl u)))).1
    rw [hlaunched.onScreen] at hnone'
    cases hnone'

/-! ## Sign-outs -/

/-- Once all calls have been made there is one authentication bulletin more, and it is on
screen. -/
def OpensOne (s : HomeScreen) : Prop :=
  ∀ t, Delivers s t → (∀ listener ∈ t.listeners, listener.calls = 0) →
    t.launches = s.launches ++ [⟨.authentication, none⟩]

theorem call_listeners {listener : Listener} (hlistener : s.listeners[i]? = some listener)
    (h : s.call i = some t) : listener.calls ≠ 0 ∧ t.listeners =
      s.listeners.set i ⟨false, s.currentUser.map User.uid, listener.calls - 1⟩ := by
  obtain ⟨listener', hlistener', hcalls, rfl⟩ := call_eq_some h
  obtain rfl := Option.some.inj (hlistener.symm.trans hlistener')
  refine ⟨hcalls, ?_⟩
  split
  · unfold authStateDidChange
    split <;> rfl
  · rfl

/-- All calls can be made. -/
theorem exists_delivered (s : HomeScreen) :
    ∃ t, Delivers s t ∧ ∀ listener ∈ t.listeners, listener.calls = 0 := by
  induction hn : (s.listeners.map Listener.calls).sum using Nat.strong_induction_on
    generalizing s with
  | _ n ih =>
    by_cases hzero : ∀ listener ∈ s.listeners, listener.calls = 0
    · exact ⟨s, .refl s, hzero⟩
    push Not at hzero
    obtain ⟨listener, hmem, hcalls⟩ := hzero
    obtain ⟨i, hi⟩ := List.mem_iff_getElem?.mp hmem
    obtain ⟨t, ht⟩ := exists_call hi hcalls
    obtain ⟨-, hlisteners⟩ := call_listeners hi ht
    set called : Listener := ⟨false, s.currentUser.map User.uid, listener.calls - 1⟩ with hcalled
    have hlt : (t.listeners.map Listener.calls).sum < n := by
      obtain ⟨hlength, rfl⟩ := List.getElem?_eq_some_iff.mp hi
      obtain ⟨before, after, hsplit, -, hset⟩ : ∃ before after,
          s.listeners = before ++ s.listeners[i] :: after ∧ before.length = i ∧
            s.listeners.set i called = before ++ called :: after := List.exists_of_set hlength
      rw [hlisteners, hset, ← hn, hsplit]
      simp only [List.map_append, List.map_cons, List.sum_append, List.sum_cons, hcalled]
      omega
    obtain ⟨u, hu, hall⟩ := ih _ hlt t rfl
    exact ⟨u, .head ht hu, hall⟩

/-- While somebody is signed in, the outstanding calls launch nothing. -/
theorem Delivers.launches_of_quiet (ht : Delivers s t) (hs : ¬ SignedOut s) :
    t.launches = s.launches := by
  refine (ht.invariant (P := fun t => ¬ SignedOut t ∧ t.launches = s.launches) ⟨hs, rfl⟩ ?_).2
  rintro u v i ⟨hu, hsame⟩ hcall
  exact ⟨fun hv => hu ((signedOut_call hcall).mp hv), (call_quiet hu hcall).launches.trans hsame⟩

/-- Nor do they if no listener is armed. -/
theorem Delivers.launches_of_disarmed (ht : Delivers s t) (hs : SignedOut s)
    (hzero : s.armed = 0) : t.launches = s.launches := by
  refine (ht.invariant (P := fun t => SignedOut t ∧ t.armed = 0 ∧ t.launches = s.launches)
    ⟨hs, hzero, rfl⟩ ?_).2.2
  rintro u v i ⟨hu, hzero, hsame⟩ hcall
  obtain ⟨listener, hlistener, -, -⟩ := call_eq_some hcall
  have hcase := call_signedOut hu hcall hlistener
  split at hcase
  · omega
  · exact ⟨(signedOut_call hcall).mpr hu, hcase.1.trans hzero, hcase.2.launches.trans hsame⟩

/-- The one armed listener opens its bulletin, and the others nothing. -/
theorem Delivers.launches_of_armed (ht : Delivers s t) (hs : SignedOut s) (hone : s.armed = 1)
    (hnone : s.onScreen = none) (hall : ∀ listener ∈ t.listeners, listener.calls = 0) :
    t.launches = s.launches ++ [⟨.authentication, none⟩] := by
  have hcases := ht.invariant
    (P := fun t => SignedOut t ∧
      (t.armed = 1 ∧ t.onScreen = none ∧ t.launches = s.launches ∨
        t.armed = 0 ∧ t.launches = s.launches ++ [⟨.authentication, none⟩]))
    ⟨hs, Or.inl ⟨hone, hnone, rfl⟩⟩ ?_
  · have hzero : t.armed = 0 :=
      List.countP_eq_zero.mpr fun listener hmem => by simp [Listener.armed, hall listener hmem]
    obtain ⟨-, ⟨hone, -⟩ | ⟨-, hlaunches⟩⟩ := hcases
    · omega
    · exact hlaunches
  · rintro u v i ⟨hu, hcases⟩ hcall
    refine ⟨(signedOut_call hcall).mpr hu, ?_⟩
    obtain ⟨listener, hlistener, -, -⟩ := call_eq_some hcall
    have hcase := call_signedOut hu hcall hlistener
    split at hcase
    · obtain ⟨hcount, hlaunched⟩ := hcase
      obtain ⟨hone, hnone, hsame⟩ := hcases.resolve_right (by omega)
      exact Or.inr ⟨by omega, by rw [hlaunched.launches, hnone, hsame]; rfl⟩
    · obtain ⟨hcount, hun⟩ := hcase
      rw [hcount, hun.launches, hun.onScreen]
      exact hcases

theorem opensOne_iff (hsafe : Safe s) :
    OpensOne s ↔ SignedOut s ∧ s.armed = 1 := by
  constructor
  · intro h
    obtain ⟨t, ht, hall⟩ := exists_delivered s
    have hlaunches : t.launches ≠ s.launches := by simp [h t ht hall]
    by_cases hsignedOut : SignedOut s
    · refine ⟨hsignedOut, ?_⟩
      rcases hsafe.2 hsignedOut with hzero | ⟨hone, -⟩
      · exact absurd (ht.launches_of_disarmed hsignedOut hzero) hlaunches
      · exact hone
    · exact absurd (ht.launches_of_quiet hsignedOut) hlaunches
  · rintro ⟨hsignedOut, hone⟩ t ht hall
    have hnone : s.onScreen = none := ((hsafe.2 hsignedOut).resolve_left (by omega)).2
    exact ht.launches_of_armed hsignedOut hone hnone hall

/-! ## One step -/

/-- The event is a sign-out. -/
def SignsOut (s : HomeScreen) (e : Event) : Prop := e = .logOut true ∧ s.currentUser.isSome

/-- The condition on a step.  A listener is registered while nobody is signed in only if no
bulletin is on screen and no other listener is about to open one; the screen appears
before the first launch is finished only if no bulletin is on screen; somebody signs out
only if the first launch is finished, no bulletin is on screen and one listener, neither
more nor less, has yet to be called or was last called with a user; nobody signs in, and
no bulletin is finished, with a sign-out behind it that has still to be reported. -/
def KeepsOne (s : HomeScreen) (e : Event) : Prop :=
  match e with
  | .viewWillAppear => SignedOut s → s.onScreen = none ∧ s.armed = 0
  | .viewDidAppear => s.launchedBefore = false → s.onScreen = none
  | .signIn _ => SignedOut s → ∀ listener ∈ s.listeners, listener.reports = false
  | .logOut done => done = true → s.currentUser.isSome →
      s.launchedBefore = true ∧ s.onScreen = none ∧ s.listeners.countP Listener.opens = 1
  | .actionButtonTapped => s.currentUser = none → s.armed = 0
  | .dismissalCompleted => s.currentUser = none → s.armed ≤ 1
  | _ => True

/-- What a step can do. -/
inductive StepCase (s : HomeScreen) : Event → HomeScreen → Prop
  | viewWillAppear : StepCase s .viewWillAppear s.viewWillAppear
  | stays (hbefore : s.launchedBefore = true) : StepCase s .viewDidAppear s
  | launch (t : HomeScreen) (hbefore : s.launchedBefore = false)
      (hlaunched : Launched .onboarding s t) (hafter : t.launchedBefore = false)
      (hlisteners : t.listeners = s.listeners) (huser : t.currentUser = s.currentUser) :
      StepCase s .viewDidAppear t
  | viewWillDisappear : StepCase s .viewWillDisappear s.viewWillDisappear
  | signIn (user) :
      StepCase s (.signIn user) { s.updateCurrentUser (some user) with
        onScreen := s.onScreen.map fun shown => { shown with authenticated := true } }
  | signOut (huser : s.currentUser.isSome) : StepCase s (.logOut true) (s.updateCurrentUser none)
  | notOut (done) (hout : ¬ (done = true ∧ s.currentUser.isSome)) : StepCase s (.logOut done) s
  | call (i : Nat) (t : HomeScreen) (h : s.call i = some t) : StepCase s (.authStateDidChange i) t
  | finish (shown) (hshown : s.onScreen = some shown) (hauthenticated : shown.authenticated)
      (hdismissing : shown.dismissing = false) :
      StepCase s .actionButtonTapped ({ s with launchedBefore := true }.dismissBulletin shown)
  | dismiss (shown) (hshown : s.onScreen = some shown) (hauthenticated : shown.authenticated)
      (hdismissing : shown.dismissing = false) :
      StepCase s .dismissIfPossible (s.dismissBulletin shown)
  | gone (shown) (hshown : s.onScreen = some shown) (hdismissing : shown.dismissing) :
      StepCase s .dismissalCompleted { s with launchedBefore := true, onScreen := none }

theorem viewDidAppear_cases (s : HomeScreen) : StepCase s .viewDidAppear s.viewDidAppear := by
  unfold viewDidAppear
  cases h : s.launchedBefore with
  | true => exact .stays h
  | false => exact .launch _ h ⟨rfl, rfl, rfl⟩ h rfl rfl

theorem step_cases {e : Event} (h : home.step s e = some t) : StepCase s e t := by
  cases e with
  | viewWillAppear =>
    obtain rfl := Option.some.inj h
    exact .viewWillAppear
  | viewDidAppear =>
    obtain rfl := Option.some.inj h
    exact viewDidAppear_cases s
  | viewWillDisappear =>
    obtain rfl := Option.some.inj h
    exact .viewWillDisappear
  | signIn user =>
    obtain rfl := Option.some.inj h
    exact .signIn user
  | logOut done =>
    simp only [home, step, Bool.and_eq_true] at h
    split at h
    · rename_i hout
      obtain ⟨rfl, huser⟩ := hout
      obtain rfl := Option.some.inj h
      exact .signOut huser
    · rename_i hout
      obtain rfl := Option.some.inj h
      exact .notOut done hout
  | authStateDidChange i => exact .call i t h
  | actionButtonTapped =>
    obtain ⟨shown, hshown, h⟩ := Option.bind_eq_some_iff.mp h
    obtain ⟨_, hguard, h⟩ := Option.bind_eq_some_iff.mp h
    obtain ⟨hauthenticated, hdismissing⟩ : shown.authenticated ∧ shown.dismissing = false := by
      simpa [Option.guard_eq_some'] using hguard
    obtain rfl := Option.some.inj h
    exact .finish shown hshown hauthenticated hdismissing
  | dismissIfPossible =>
    obtain ⟨shown, hshown, h⟩ := Option.bind_eq_some_iff.mp h
    obtain ⟨_, hguard, h⟩ := Option.bind_eq_some_iff.mp h
    obtain ⟨hauthenticated, hdismissing⟩ : shown.authenticated ∧ shown.dismissing = false := by
      simpa [Option.guard_eq_some'] using hguard
    obtain rfl := Option.some.inj h
    exact .dismiss shown hshown hauthenticated hdismissing
  | dismissalCompleted =>
    obtain ⟨shown, hshown, h⟩ := Option.bind_eq_some_iff.mp h
    obtain ⟨_, hguard, h⟩ := Option.bind_eq_some_iff.mp h
    obtain rfl := Option.some.inj h
    exact .gone shown hshown (by simpa [Option.guard_eq_some'] using hguard)

theorem armed_updateCurrentUser (s : HomeScreen) (user : Option User) :
    (s.updateCurrentUser user).armed = s.listeners.countP Listener.opens := by
  rw [armed, updateCurrentUser, List.countP_map]
  refine List.countP_congr fun listener _ => ?_
  simp [Listener.armed, Listener.opens]

theorem Retained.dismissBulletin (hs : Retained s) {shown : Shown}
    (hshown : s.onScreen = some shown) :
    Retained (s.dismissBulletin shown) := by
  unfold HomeScreen.dismissBulletin
  split
  · intro habove shown' hshown'
    obtain rfl := Option.some.inj hshown'
    exact hs habove shown hshown
  · exact hs

theorem Retained.step {e : Event} (hs : Retained s) (h : home.step s e = some t) :
    Retained t := by
  cases step_cases h with
  | viewWillAppear => exact hs
  | stays => exact hs
  | launch _ _ hlaunched => exact .launched hlaunched
  | viewWillDisappear => exact hs
  | signIn user =>
    intro habove shown hshown
    obtain ⟨shown', hshown', rfl⟩ := Option.map_eq_some_iff.mp hshown
    exact hs habove shown' hshown'
  | signOut => exact hs
  | notOut => exact hs
  | call i _ hcall => exact hs.call hcall
  | finish shown hshown =>
    exact Retained.dismissBulletin (s := { s with launchedBefore := true }) hs hshown
  | dismiss shown hshown => exact hs.dismissBulletin hshown
  | gone => exact fun _ _ hshown => nomatch hshown

theorem safe_dismissBulletin {shown : Shown} (hshown : s.onScreen = some shown) :
    Safe (s.dismissBulletin shown) ↔ Safe s := by
  unfold HomeScreen.dismissBulletin
  split
  · refine and_congr Iff.rfl (forall_congr' fun _ => ?_)
    simp [hshown, armed]
  · rfl

/-- Whoever signs in does not come before the report of a sign-out. -/
def SignsInReported (s : HomeScreen) (e : Event) : Prop :=
  ∀ user, e = .signIn user → SignedOut s → ∀ listener ∈ s.listeners, listener.reports = false

/-- **One step keeps the screen safe, and a sign-out opens its bulletin, exactly if it
meets the condition**, as far as it is no early sign-in. -/
theorem safe_step {e : Event} (hs : Safe s) (h : home.step s e = some t) :
    (Safe t ∧ (SignsOut s e → SignedOut t ∧ t.armed = 1)) ∧ SignsInReported s e ↔
      KeepsOne s e := by
  obtain ⟨habove, harmed⟩ := hs
  have hin (he : ∀ user, e ≠ .signIn user) : SignsInReported s e :=
    fun user h => absurd h (he user)
  cases step_cases h with
  | viewWillAppear =>
    have hcount : s.viewWillAppear.armed = s.armed + 1 := by
      simp [armed, viewWillAppear, Listener.armed, Listener.opens]
    rw [and_iff_left (hin nofun)]
    refine (and_iff_left fun h => nomatch h.1).trans ((and_iff_right habove).trans ?_)
    refine forall_congr' fun _ => ?_
    rw [hcount]
    simp [viewWillAppear, and_comm]
  | stays hbefore =>
    exact iff_of_true ⟨⟨⟨habove, harmed⟩, fun h => nomatch h.1⟩, hin nofun⟩
      fun h => nomatch hbefore.symm.trans h
  | launch _ hbefore hlaunched hafter =>
    rw [and_iff_left (hin nofun)]
    refine (and_iff_left fun h => nomatch h.1).trans ?_
    simp [Safe, KeepsOne, hbefore, hlaunched.above_iff, habove, SignedOut, hafter]
  | viewWillDisappear =>
    exact iff_of_true ⟨⟨⟨habove, harmed⟩, fun h => nomatch h.1⟩, hin nofun⟩ trivial
  | signIn user =>
    refine (and_iff_right ⟨⟨habove, fun h => nomatch h.1⟩, fun h => nomatch h.1⟩).trans ?_
    exact ⟨fun h => h user rfl, fun h _ _ => h⟩
  | signOut huser =>
    rw [and_iff_left (hin nofun)]
    have hcount := armed_updateCurrentUser s none
    constructor
    · rintro ⟨⟨-, hsafe⟩, hopens⟩ - -
      obtain ⟨hsignedOut, hone⟩ := hopens ⟨rfl, huser⟩
      obtain ⟨-, hnone⟩ := (hsafe hsignedOut).resolve_left (by omega)
      exact ⟨hsignedOut.2, hnone, hcount ▸ hone⟩
    · intro hC
      obtain ⟨hbefore, hnone, hone⟩ := hC rfl huser
      have hone := hcount.trans hone
      exact ⟨⟨habove, fun _ => Or.inr ⟨hone, hnone⟩⟩, fun _ => ⟨⟨rfl, hbefore⟩, hone⟩⟩
  | notOut done hout =>
    refine iff_of_true ⟨⟨⟨habove, harmed⟩, fun h => ?_⟩, hin nofun⟩
      fun hdone huser => absurd ⟨hdone, huser⟩ hout
    obtain ⟨he, huser⟩ := h
    exact absurd ⟨Event.logOut.inj he, huser⟩ hout
  | call i _ hcall =>
    exact iff_of_true ⟨⟨Safe.call ⟨habove, harmed⟩ hcall, fun h => nomatch h.1⟩, hin nofun⟩ trivial
  | finish shown hshown =>
    rw [and_iff_left (hin nofun)]
    refine (and_iff_left fun h => nomatch h.1).trans ?_
    rw [safe_dismissBulletin (s := { s with launchedBefore := true }) hshown]
    refine (and_iff_right habove).trans ?_
    simp [KeepsOne, SignedOut, hshown, armed]
  | dismiss shown hshown =>
    rw [safe_dismissBulletin hshown]
    exact iff_of_true ⟨⟨⟨habove, harmed⟩, fun h => nomatch h.1⟩, hin nofun⟩ trivial
  | gone =>
    rw [and_iff_left (hin nofun)]
    refine (and_iff_left fun h => nomatch h.1).trans ((and_iff_right habove).trans ?_)
    simp [KeepsOne, SignedOut, armed, Nat.le_one_iff_eq_zero_or_eq_one]

theorem safe_start (launchedBefore : Bool) (currentUser : Option User) :
    Safe (start launchedBefore currentUser) :=
  ⟨fun _ h => (nomatch h), fun _ => Or.inl rfl⟩

/-! ## The bulletin of each sign-out -/

/-- Somebody signed out in `s`, in a run from `u`, and nobody has signed in since. -/
def SignedOutAt (u : HomeScreen) (es : List Event) (s : HomeScreen) : Prop :=
  ∃ before after, es = before ++ .logOut true :: after ∧ home.run u before = some s ∧
    s.currentUser.isSome ∧ ∀ user, .signIn user ∉ after

/-- What is asked after each step of a run from `u`, `v` being the state reached.  Whatever
calls are made next, one bulletin at most is live.  Once all of them have been made there
is one authentication bulletin more than when somebody signed out, and when somebody signs
in it has been there already. -/
structure OneBulletin (u : HomeScreen) (es : List Event) (v : HomeScreen) : Prop where
  live : ∀ t, Delivers v t → OneLive t
  delivered : ∀ s t, SignedOutAt u es s → Delivers v t →
    (∀ listener ∈ t.listeners, listener.calls = 0) →
    t.launches = s.launches ++ [⟨.authentication, none⟩]
  reported : ∀ before user s, es = before ++ [.signIn user] → SignedOutAt u before s →
    v.launches = s.launches ++ [⟨.authentication, none⟩]

/-- After a sign-out whose bulletin has still to be opened: `launches` were all before. -/
structure Pending (launches : List Launch) (s : HomeScreen) : Prop where
  signedOut : SignedOut s
  armed : s.armed = 1
  onScreen : s.onScreen = none
  launches : s.launches = launches
  reports : ∃ listener ∈ s.listeners, listener.reports

/-- And once it is open.  It stays on screen while nobody signs in. -/
structure Opened (launches : List Launch) (s : HomeScreen) : Prop where
  signedOut : SignedOut s
  armed : s.armed = 0
  onScreen : ∃ shown, s.onScreen = some shown ∧ shown.authenticated = false ∧
    shown.dismissing = false
  launches : s.launches = launches ++ [⟨.authentication, none⟩]

variable {launches : List Launch} {es : List Event}

theorem armed_pos_of_reports {listener : Listener} (h : listener ∈ s.listeners)
    (hreports : listener.reports) : 0 < s.armed :=
  List.countP_pos_iff.mpr ⟨listener, h, (Bool.and_eq_true _ _ ▸ hreports :).1⟩

theorem Opened.call (hs : Opened launches s) (h : s.call i = some t) : Opened launches t := by
  obtain ⟨listener, hlistener, -, -⟩ := call_eq_some h
  have hcall := call_signedOut hs.signedOut h hlistener
  have hzero := hs.armed
  split at hcall
  · omega
  · obtain ⟨hcount, hun⟩ := hcall
    exact ⟨(signedOut_call h).mpr hs.signedOut, hcount.trans hzero, hun.onScreen ▸ hs.onScreen,
      hun.launches.trans hs.launches⟩

/-- The call of the armed listener opens the bulletin; any other leaves it as it is. -/
theorem Pending.call (hs : Pending launches s) (h : s.call i = some t) :
    Pending launches t ∨ Opened launches t := by
  obtain ⟨listener, hlistener, -, -⟩ := call_eq_some h
  have hsignedOut := (signedOut_call h).mpr hs.signedOut
  have hcall := call_signedOut hs.signedOut h hlistener
  have hone := hs.armed
  split at hcall
  · obtain ⟨hcount, hlaunched⟩ := hcall
    refine Or.inr ⟨hsignedOut, by omega, ⟨{ manager := s.launches.length }, ?_, rfl, rfl⟩, ?_⟩
    · rw [hlaunched.onScreen, hs.onScreen, Option.getD_none]
    · rw [hlaunched.launches, hs.onScreen, hs.launches, Option.map_none]
  · rename_i hdisarmed
    obtain ⟨hcount, hun⟩ := hcall
    obtain ⟨other, hmem, hreports⟩ := hs.reports
    obtain ⟨j, hj⟩ := List.mem_iff_getElem?.mp hmem
    -- the listener that reports is armed, so it is not the one that was called
    have hne : i ≠ j := by
      rintro rfl
      obtain rfl := Option.some.inj (hlistener.symm.trans hj)
      exact hdisarmed (Bool.and_eq_true _ _ ▸ hreports :).1
    obtain ⟨-, hset⟩ := call_listeners hlistener h
    refine Or.inl ⟨hsignedOut, hcount.trans hone, hun.onScreen.trans hs.onScreen,
      hun.launches.trans hs.launches, other, List.mem_iff_getElem?.mpr ⟨j, ?_⟩, hreports⟩
    rw [hset, List.getElem?_set_ne hne, hj]

/-- A listener that has still to be called for the first time is going to be. -/
def FirstCalls (s : HomeScreen) : Prop :=
  ∀ listener ∈ s.listeners, listener.firstInvocation → listener.calls ≠ 0

/-- **A sign-out is pending** in the state it leads to, if it meets the condition. -/
theorem pending_signOut (hfirst : FirstCalls s) (hsafe : Safe (s.updateCurrentUser none))
    (hsignedOut : SignedOut (s.updateCurrentUser none))
    (hone : (s.updateCurrentUser none).armed = 1) :
    Pending s.launches (s.updateCurrentUser none) := by
  refine ⟨hsignedOut, hone, ((hsafe.2 hsignedOut).resolve_left (by omega)).2, rfl, ?_⟩
  rw [armed_updateCurrentUser] at hone
  obtain ⟨listener, hmem, hopens⟩ := List.countP_pos_iff.mp (hone.symm ▸ Nat.one_pos)
  refine ⟨_, List.mem_map_of_mem hmem, ?_⟩
  have hcalls := hfirst listener hmem
  simp only [Listener.opens, Bool.or_eq_true] at hopens
  rcases hopens with hinvocation | huser
  · have hcalls := hcalls hinvocation
    simp [Listener.reports, Listener.armed, Listener.opens, hinvocation]
    omega
  · simp [Listener.reports, Listener.armed, Listener.opens, huser]

theorem FirstCalls.call (hs : FirstCalls s) (h : s.call i = some t) : FirstCalls t := by
  obtain ⟨listener, hlistener, -, -⟩ := call_eq_some h
  rw [FirstCalls, (call_listeners hlistener h).2]
  intro other hmem
  rcases List.mem_or_eq_of_mem_set hmem with hmem | rfl
  · exact hs other hmem
  · exact nofun

theorem FirstCalls.step {e : Event} (hs : FirstCalls s) (h : home.step s e = some t) :
    FirstCalls t := by
  cases step_cases h with
  | viewWillAppear =>
    intro listener hmem
    rcases List.mem_append.mp hmem with hmem | hmem
    · exact hs listener hmem
    · obtain rfl := List.mem_singleton.mp hmem
      exact fun _ => nofun
  | launch _ _ _ _ hlisteners =>
    rw [FirstCalls, hlisteners]
    exact hs
  | signIn | signOut =>
    intro listener hmem _
    obtain ⟨listener, -, rfl⟩ := List.mem_map.mp hmem
    exact nofun
  | call i _ hcall => exact hs.call hcall
  | finish | dismiss =>
    rw [FirstCalls, dismissBulletin_listeners]
    exact hs
  | stays | viewWillDisappear | notOut | gone => exact hs

theorem Pending.step {e : Event} (hs : Pending launches s) (hkeeps : KeepsOne s e)
    (h : home.step s e = some t) : Pending launches t ∨ Opened launches t := by
  have hout : ¬ s.currentUser.isSome := by simp [hs.signedOut.1]
  have hnone {shown : Shown} : s.onScreen ≠ some shown := by simp [hs.onScreen]
  cases step_cases h with
  | viewWillAppear =>
    have hzero := (hkeeps hs.signedOut).2
    exact absurd hs.armed (by omega)
  | stays => exact Or.inl hs
  | launch _ hbefore => exact absurd (hs.signedOut.2.symm.trans hbefore) nofun
  | viewWillDisappear =>
    exact Or.inl ⟨hs.signedOut, hs.armed, hs.onScreen, hs.launches, hs.reports⟩
  | signIn user =>
    obtain ⟨listener, hmem, hreports⟩ := hs.reports
    exact absurd ((hkeeps hs.signedOut listener hmem).symm.trans hreports) nofun
  | signOut huser => exact absurd huser hout
  | notOut => exact Or.inl hs
  | call i _ hcall => exact hs.call hcall
  | finish shown hshown => exact absurd hshown hnone
  | dismiss shown hshown => exact absurd hshown hnone
  | gone shown hshown => exact absurd hshown hnone

/-- The bulletin stays on screen until somebody signs in. -/
theorem Opened.step {e : Event} (hs : Opened launches s) (hin : ∀ user, e ≠ .signIn user)
    (hkeeps : KeepsOne s e) (h : home.step s e = some t) : Opened launches t := by
  have hout : ¬ s.currentUser.isSome := by simp [hs.signedOut.1]
  obtain ⟨shown, hshown, hauthenticated, hdismissing⟩ := hs.onScreen
  have hon {shown' : Shown} (h : s.onScreen = some shown') :
      shown'.authenticated = false ∧ shown'.dismissing = false := by
    obtain rfl := Option.some.inj (hshown.symm.trans h)
    exact ⟨hauthenticated, hdismissing⟩
  cases step_cases h with
  | viewWillAppear => exact absurd ((hkeeps hs.signedOut).1.symm.trans hshown) nofun
  | stays => exact hs
  | launch _ hbefore => exact absurd (hs.signedOut.2.symm.trans hbefore) nofun
  | viewWillDisappear => exact ⟨hs.signedOut, hs.armed, hs.onScreen, hs.launches⟩
  | signIn user => exact absurd rfl (hin user)
  | signOut huser => exact absurd huser hout
  | notOut => exact hs
  | call i _ hcall => exact hs.call hcall
  | finish _ hshown' hyes => exact absurd ((hon hshown').1.symm.trans hyes) nofun
  | dismiss _ hshown' hyes => exact absurd ((hon hshown').1.symm.trans hyes) nofun
  | gone _ hshown' hyes => exact absurd ((hon hshown').2.symm.trans hyes) nofun

/-- A listener that reports a sign-out has been told of it. -/
theorem reports_of_step {e : Event} (h : home.step s e = some t) (huser : t.currentUser = none)
    (hreports : ∃ listener ∈ t.listeners, listener.reports) :
    SignsOut s e ∨ s.currentUser = none ∧ ∃ listener ∈ s.listeners, listener.reports := by
  obtain ⟨listener, hmem, hreports⟩ := hreports
  cases step_cases h with
  | viewWillAppear =>
    rcases List.mem_append.mp hmem with hmem | hmem
    · exact Or.inr ⟨huser, listener, hmem, hreports⟩
    · obtain rfl := List.mem_singleton.mp hmem
      simp [Listener.reports] at hreports
  | launch _ _ _ _ hlisteners hsame =>
    exact Or.inr ⟨hsame.symm.trans huser, listener, hlisteners ▸ hmem, hreports⟩
  | signIn user => cases huser
  | signOut hsome => exact Or.inl ⟨rfl, hsome⟩
  | call i _ hcall =>
    have huser := (call_frame hcall).1.symm.trans huser
    obtain ⟨called, hcalled, -, -⟩ := call_eq_some hcall
    rw [(call_listeners hcalled hcall).2, huser] at hmem
    rcases List.mem_or_eq_of_mem_set hmem with hmem | rfl
    · exact Or.inr ⟨huser, listener, hmem, hreports⟩
    · simp [Listener.reports, Listener.armed, Listener.opens] at hreports
  | finish | dismiss =>
    rw [dismissBulletin_listeners] at hmem
    rw [dismissBulletin_currentUser] at huser
    exact Or.inr ⟨huser, listener, hmem, hreports⟩
  | stays | viewWillDisappear | notOut | gone => exact Or.inr ⟨huser, listener, hmem, hreports⟩

/-! ## Runs -/

theorem signedOutAt_snoc {e : Event} : SignedOutAt u (es ++ [e]) s ↔
    (e = .logOut true ∧ home.run u es = some s ∧ s.currentUser.isSome) ∨
      (SignedOutAt u es s ∧ ∀ user, e ≠ .signIn user) := by
  constructor
  · rintro ⟨before, after, hsplit, hrun, huser, hin⟩
    rcases List.eq_nil_or_concat after with rfl | ⟨after, last, rfl⟩
    · obtain ⟨rfl, he⟩ := List.append_inj' hsplit rfl
      exact Or.inl ⟨List.head_eq_of_cons_eq he, hrun, huser⟩
    · rw [List.concat_eq_append] at hsplit hin
      rw [← List.cons_append, ← List.append_assoc] at hsplit
      obtain ⟨rfl, he⟩ := List.append_inj' hsplit rfl
      obtain rfl := List.head_eq_of_cons_eq he
      refine Or.inr ⟨⟨before, after, rfl, hrun, huser, fun user hmem => ?_⟩, fun user he => ?_⟩
      · exact hin user (List.mem_append_left _ hmem)
      · exact hin user (List.mem_append_right _ (List.mem_singleton.mpr he.symm))
  · rintro (⟨rfl, hrun, huser⟩ | ⟨⟨before, after, rfl, hrun, huser, hin⟩, he⟩)
    · exact ⟨es, [], rfl, hrun, huser, fun _ => nofun⟩
    · refine ⟨before, after ++ [e], by simp, hrun, huser, fun user hmem => ?_⟩
      rcases List.mem_append.mp hmem with hmem | hmem
      · exact hin user hmem
      · exact he user (List.mem_singleton.mp hmem).symm

/-- What the steps that meet the condition keep, with the sign-outs of the run. -/
structure Kept (u : HomeScreen) (es : List Event) (v : HomeScreen) : Prop where
  retained : Retained v
  safe : Safe v
  firstCalls : FirstCalls v
  signOut : ∀ s, SignedOutAt u es s → Pending s.launches v ∨ Opened s.launches v
  ofReports : v.currentUser = none → (∃ listener ∈ v.listeners, listener.reports) →
    ∃ s, SignedOutAt u es s
  reported : ∀ before user s, es = before ++ [.signIn user] → SignedOutAt u before s →
    v.launches = s.launches ++ [⟨.authentication, none⟩]

theorem Kept.oneBulletin {v : HomeScreen} (h : Kept u es v) : OneBulletin u es v := by
  refine ⟨(safe_iff h.retained).mp h.safe, fun s t hout ht hall => ?_, h.reported⟩
  rcases h.signOut s hout with hpending | hopened
  · rw [← hpending.launches]
    exact ht.launches_of_armed hpending.signedOut hpending.armed hpending.onScreen hall
  · rw [ht.launches_of_disarmed hopened.signedOut hopened.armed, hopened.launches]

theorem Kept.step {e : Event} (hrun : home.run u es = some s) (hs : Kept u es s)
    (hkeeps : KeepsOne s e) (h : home.step s e = some t) : Kept u (es ++ [e]) t := by
  obtain ⟨⟨hsafe, hopens⟩, -⟩ := (safe_step hs.safe h).mpr hkeeps
  refine ⟨hs.retained.step h, hsafe, hs.firstCalls.step h, fun v hout => ?_,
    fun huser hreports => ?_, fun before user v hsplit hout => ?_⟩
  · rcases signedOutAt_snoc.mp hout with ⟨rfl, hv, huser⟩ | ⟨hout, hin⟩
    · obtain rfl := Option.some.inj (hrun.symm.trans hv)
      obtain ⟨hsignedOut, hone⟩ := hopens ⟨rfl, huser⟩
      cases step_cases h with
      | signOut => exact Or.inl (pending_signOut hs.firstCalls hsafe hsignedOut hone)
      | notOut _ hnot => exact absurd ⟨rfl, huser⟩ hnot
    · rcases hs.signOut v hout with hpending | hopened
      · exact hpending.step hkeeps h
      · exact Or.inr (hopened.step hin hkeeps h)
  · rcases reports_of_step h huser hreports with ⟨he, hsome⟩ | ⟨hnone, hreports⟩
    · exact ⟨s, signedOutAt_snoc.mpr (Or.inl ⟨he, hrun, hsome⟩)⟩
    · obtain ⟨v, hout⟩ := hs.ofReports hnone hreports
      refine ⟨v, signedOutAt_snoc.mpr (Or.inr ⟨hout, ?_⟩)⟩
      rintro user rfl
      obtain rfl := Option.some.inj h
      cases huser
  · obtain ⟨rfl, he⟩ := List.append_inj' hsplit rfl
    obtain rfl := List.head_eq_of_cons_eq he
    have hlaunches : t.launches = s.launches := by
      obtain rfl := Option.some.inj h
      rfl
    rcases hs.signOut v hout with hpending | hopened
    · obtain ⟨listener, hmem, hreports⟩ := hpending.reports
      exact absurd ((hkeeps hpending.signedOut listener hmem).symm.trans hreports) nofun
    · exact hlaunches.trans hopened.launches

/-- A step after which all is well meets the condition. -/
theorem Kept.keepsOne {e : Event} (hrun : home.run u es = some s) (hs : Kept u es s)
    (h : home.step s e = some t) (ht : OneBulletin u (es ++ [e]) t) : KeepsOne s e := by
  have hsafe : Safe t := (safe_iff (hs.retained.step h)).mpr ht.live
  refine (safe_step hs.safe h).mp ⟨⟨hsafe, ?_⟩, ?_⟩
  · rintro ⟨rfl, huser⟩
    refine (opensOne_iff hsafe).mp fun v hv hall => ?_
    have hout : SignedOutAt u (es ++ [.logOut true]) s :=
      signedOutAt_snoc.mpr (Or.inl ⟨rfl, hrun, huser⟩)
    rw [ht.delivered s v hout hv hall]
    cases step_cases h with
    | signOut => rfl
    | notOut _ hnot => exact absurd ⟨rfl, huser⟩ hnot
  · rintro user rfl hsignedOut listener hmem
    by_contra hreports
    have hreports : listener.reports := by simpa using hreports
    obtain ⟨v, hout⟩ := hs.ofReports hsignedOut.1 ⟨listener, hmem, hreports⟩
    have hlaunches := ht.reported es user v rfl hout
    rcases hs.signOut v hout with hpending | hopened
    · have hsame : t.launches = s.launches := by
        obtain rfl := Option.some.inj h
        rfl
      rw [hsame, hpending.launches] at hlaunches
      simp at hlaunches
    · have hpos := armed_pos_of_reports hmem hreports
      exact absurd hopened.armed (by omega)

theorem kept_start (launchedBefore : Bool) (currentUser : Option User) :
    Kept u [] (start launchedBefore currentUser) := by
  refine ⟨fun _ _ h => (nomatch h), safe_start launchedBefore currentUser, fun _ => nofun,
    ?_, ?_, ?_⟩
  · rintro s ⟨before, after, hsplit, -⟩
    cases before <;> cases hsplit
  · rintro - ⟨listener, hmem, -⟩
    cases hmem
  · intro before user s hsplit
    cases before <;> cases hsplit

end HomeScreen

/-- **When at most one bulletin is live**, and each sign-out opens one: in a run, whatever
calls are made next, exactly if all its steps meet `KeepsOne`. -/
theorem oneBulletin_iff (launchedBefore : Bool) (currentUser : Option User)
    (es : List HomeScreen.Event) (s : HomeScreen)
    (hrun : home.run (.start launchedBefore currentUser) es = some s) :
    home.Throughout (HomeScreen.OneBulletin (.start launchedBefore currentUser))
        (.start launchedBefore currentUser) es ↔
      home.Meets HomeScreen.KeepsOne (.start launchedBefore currentUser) es := by
  exact home.throughout_iff_meets
    (I := HomeScreen.Kept (.start launchedBefore currentUser)) HomeScreen.Kept.oneBulletin
    (HomeScreen.kept_start launchedBefore currentUser) HomeScreen.Kept.step
    HomeScreen.Kept.keepsOne hrun

/-- The user opens the app, signs out and signs in again. -/
def signOutOnce : List HomeScreen.Event :=
  [.viewWillAppear, .viewDidAppear, .authStateDidChange 0, .logOut true, .authStateDidChange 0,
    .signIn ⟨"u1", some "a1@tec.mx"⟩, .authStateDidChange 0, .actionButtonTapped,
    .dismissalCompleted]

theorem oneBulletin_once :
    ∃ s, home.run (.start true (some ⟨"u1", some "a1@tec.mx"⟩)) signOutOnce = some s ∧
      home.Throughout
        (HomeScreen.OneBulletin (.start true (some ⟨"u1", some "a1@tec.mx"⟩)))
        (.start true (some ⟨"u1", some "a1@tec.mx"⟩)) signOutOnce := by
  refine ⟨_, rfl, (oneBulletin_iff true _ signOutOnce _ rfl).mpr ?_⟩
  refine (home.meets_cons _ rfl).mpr ⟨fun h => (nomatch h.1), ?_⟩
  refine (home.meets_cons _ rfl).mpr ⟨fun h => (nomatch h), ?_⟩
  refine (home.meets_cons _ rfl).mpr ⟨trivial, ?_⟩
  refine (home.meets_cons _ rfl).mpr ⟨fun _ _ => ⟨rfl, rfl, rfl⟩, ?_⟩
  refine (home.meets_cons _ rfl).mpr ⟨trivial, ?_⟩
  refine (home.meets_cons _ rfl).mpr ⟨fun _ => List.forall_mem_singleton.mpr rfl, ?_⟩
  refine (home.meets_cons _ rfl).mpr ⟨trivial, ?_⟩
  refine (home.meets_cons _ rfl).mpr ⟨fun h => (nomatch h), ?_⟩
  exact (home.meets_cons _ rfl).mpr ⟨fun h => (nomatch h), trivial⟩

/-- The screen is left and appears again, so there are two listeners when the user signs
out.  Each launches a bulletin, the second one while the first is on screen, whose manager
is released.  And when somebody else signs in before the listener has been called, the
sign-out opens none. -/
theorem oneBulletin_not_twice :
    (home.run (.start true (some ⟨"u1", some "a1@tec.mx"⟩)) [.viewWillAppear, .viewDidAppear,
        .authStateDidChange 0, .viewWillDisappear, .viewWillAppear, .viewDidAppear,
        .authStateDidChange 1, .logOut true, .authStateDidChange 0, .authStateDidChange 1]).map
      (fun s => (s.launches, s.onScreen.map Shown.manager, s.bulletinManager)) =
        some ([⟨.authentication, none⟩, ⟨.authentication, some 0⟩], some 0, some 1) ∧
    (home.run (.start true (some ⟨"u1", some "a1@tec.mx"⟩)) [.viewWillAppear, .viewDidAppear,
        .authStateDidChange 0, .logOut true, .signIn ⟨"u2", some "a2@tec.mx"⟩,
        .authStateDidChange 0, .authStateDidChange 0]).map HomeScreen.launches = some [] :=
  ⟨rfl, rfl⟩

end Musgravite
