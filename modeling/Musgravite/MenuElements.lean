import Musgravite.Firestore.ResourcePaths
import Musgravite.Library.TransitionSystem

/-! # Whose data the menu elements are

`ProjectMenuVM` keeps the mail of the current user in a static constant, which Swift
computes at its first use in the process and never again.  All three calls ask for the
student document of that mail, or stop the app if it leads to none.

So the first call decides for the rest of the run (`FirstCall`).  `menu_requests_iff` says
what follows for one run, in which every call should ask for the document of the account
that is signed in, and for two runs that end with the same account. -/
namespace Musgravite
open Firestore

/-- A process, as far as the menu elements go. -/
structure MenuProcess where
  /-- `Auth.auth().currentUser?.email`. -/
  currentUser : Option String
  /-- `ProjectMenuVM.signedUser`, once it has been used. -/
  signedUser : Option String := none
  /-- The documents that have been asked for. -/
  requests : List DocumentReference := []
  /-- The number of calls of `getAllMenuElements`. -/
  allCalls : Nat := 0
  /-- A call has stopped the app. -/
  stopped : Bool := false

/-- The student document of an account: what `document(_:)` makes of its mail. -/
def studentDocument (mail : String) : Option DocumentReference :=
  documentReference "estudiante" mail

namespace MenuProcess

inductive Event
  | signIn (mail : String)
  /-- `logOut()`, which prints an error if the service does not sign out. -/
  | signOut (done : Bool)
  | getMenuElements
  | getStatsElements
  | getAllMenuElements
  /-- The menu elements are there that the `k`-th call of `getAllMenuElements` asked for;
  with several tasks this can happen more than once. -/
  | menuElementsArrived (k : Nat)

def currentAuthenticatedUserMail (self : MenuProcess) : String := self.currentUser.getD ""

/-- `signedUser`, and the process after its use. -/
def useSignedUser (self : MenuProcess) : MenuProcess × String :=
  match self.signedUser with
  | some mail => (self, mail)
  | none =>
      let mail := self.currentAuthenticatedUserMail
      ({ self with signedUser := some mail }, mail)

/-- `getStudentData(studentID:)`, up to its request. -/
def getStudentData (self : MenuProcess) (studentID : String) : MenuProcess :=
  match studentDocument studentID with
  | some document => { self with requests := self.requests ++ [document] }
  | none => { self with stopped := true }

def getStatsElements (self : MenuProcess) : MenuProcess :=
  let (self, signedUser) := self.useSignedUser
  self.getStudentData signedUser

def getMenuElements (self : MenuProcess) : MenuProcess :=
  let (self, signedUser) := self.useSignedUser
  self.getStudentData signedUser

def getAllMenuElements (self : MenuProcess) : MenuProcess :=
  { self with allCalls := self.allCalls + 1 }.getMenuElements

/-- What an event does while the app runs, `none` if it cannot happen. -/
def handle (self : MenuProcess) : Event → Option MenuProcess
  | .signIn mail => some { self with currentUser := some mail }
  | .signOut done => some { self with currentUser := if done then none else self.currentUser }
  | .getMenuElements => some self.getMenuElements
  | .getStatsElements => some self.getStatsElements
  | .getAllMenuElements => some self.getAllMenuElements
  | .menuElementsArrived k => if k < self.allCalls then some self.getStatsElements else none

/-- After the app was stopped nothing happens in the process. -/
def step (self : MenuProcess) (e : Event) : Option MenuProcess :=
  if self.stopped then none else self.handle e

/-- A process that starts, with the user of the last one still signed in or nobody. -/
def start (currentUser : Option String) : MenuProcess := { currentUser }

end MenuProcess

/-- Processes, step by step. -/
def menuProcesses : TransitionSystem MenuProcess MenuProcess.Event := ⟨MenuProcess.step⟩

namespace MenuProcess

/-! ## Accounts and calls -/

/-- Whether the event is a call, or makes one. -/
def Event.isCall : Event → Bool
  | .signIn _ => false
  | .signOut _ => false
  | _ => true

/-- The account that is signed in after an event. -/
def Event.account (current : Option String) : Event → Option String
  | .signIn mail => some mail
  | .signOut true => none
  | _ => current

/-- The account that is signed in after some events. -/
def account (current : Option String) (es : List Event) : Option String :=
  es.foldl Event.account current

/-- The accounts that are signed in at the calls among the events, call by call. -/
def callers : Option String → List Event → List (Option String)
  | _, [] => []
  | current, e :: es => (if e.isCall then [current] else []) ++ callers (e.account current) es

theorem account_snoc (current : Option String) (es : List Event) (e : Event) :
    account current (es ++ [e]) = e.account (account current es) := by
  simp [account]

theorem callers_snoc (current : Option String) (es : List Event) (e : Event) :
    callers current (es ++ [e]) =
      callers current es ++ if e.isCall then [account current es] else [] := by
  induction es generalizing current with
  | nil => simp [callers, account]
  | cons e' es ih =>
    rw [List.cons_append, callers, callers, ih, List.append_assoc]
    rfl

/-! ## The first call -/

variable {s t : MenuProcess} {e : Event} {u : Option String} {es : List Event}

/-- The mail that the next call uses. -/
def mail (s : MenuProcess) : String := s.signedUser.getD s.currentAuthenticatedUserMail

theorem useSignedUser_eq : s.useSignedUser = ({ s with signedUser := some s.mail }, s.mail) := by
  obtain ⟨currentUser, signedUser, requests, allCalls⟩ := s
  cases signedUser <;> rfl

/-- What a call leaves behind: a request, or a stopped app. -/
def called (s : MenuProcess) (allCalls : Nat) : MenuProcess :=
  { s with
    signedUser := some s.mail
    requests := s.requests ++ (studentDocument s.mail).toList
    allCalls
    stopped := s.stopped || (studentDocument s.mail).isNone }

theorem getMenuElements_eq : s.getMenuElements = s.called s.allCalls := by
  rw [getMenuElements, useSignedUser_eq]
  simp only [getStudentData, called]
  cases studentDocument s.mail <;> simp

@[simp] theorem mail_called (n : Nat) : (s.called n).mail = s.mail := rfl

/-- What a step can do. -/
inductive StepCase (s : MenuProcess) (e : Event) : MenuProcess → Prop
  | call (allCalls : Nat) (hcall : e.isCall = true)
      (haccount : e.account s.currentUser = s.currentUser) : StepCase s e (s.called allCalls)
  | change (hcall : e.isCall = false) :
      StepCase s e { s with currentUser := e.account s.currentUser }

theorem step_cases (h : menuProcesses.step s e = some t) : s.stopped = false ∧ StepCase s e t := by
  obtain ⟨hrunning, h⟩ := Option.ite_none_left_eq_some.mp h
  refine ⟨by simpa using hrunning, ?_⟩
  cases e with
  | signIn mail =>
    obtain rfl := Option.some.inj h
    exact .change rfl
  | signOut done =>
    obtain rfl := Option.some.inj h
    cases done
    · exact .change rfl
    · exact .change rfl
  | getMenuElements | getStatsElements =>
    obtain rfl := getMenuElements_eq.symm.trans (Option.some.inj h)
    exact .call _ rfl rfl
  | getAllMenuElements =>
    obtain rfl := getMenuElements_eq.symm.trans (Option.some.inj h)
    exact .call _ rfl rfl
  | menuElementsArrived k =>
    obtain ⟨-, h⟩ := Option.ite_none_right_eq_some.mp h
    obtain rfl := getMenuElements_eq.symm.trans (Option.some.inj h)
    exact .call _ rfl rfl

/-- What the events of a run have come to: the mail of the first call is kept, and all
requests are for its document; if it has none, the first call has stopped the app. -/
structure FirstCall (u : Option String) (es : List Event) (t : MenuProcess) : Prop where
  currentUser : t.currentUser = account u es
  signedUser : t.signedUser = (callers u es).head?.map fun caller => caller.getD ""
  requests : t.requests = (callers u es).flatMap fun _ => (studentDocument t.mail).toList
  stopped : t.stopped = true ↔ callers u es ≠ [] ∧ studentDocument t.mail = none

theorem FirstCall.step (h : FirstCall u es s) (hstep : menuProcesses.step s e = some t) :
    FirstCall u (es ++ [e]) t := by
  obtain ⟨hrunning, hcase⟩ := step_cases hstep
  cases hcase with
  | call allCalls hcall haccount =>
    have hcallers : callers u (es ++ [e]) = callers u es ++ [account u es] := by
      rw [callers_snoc, hcall, if_pos rfl]
    refine ⟨?_, ?_, ?_, ?_⟩
    · rw [account_snoc, ← h.currentUser]
      exact haccount.symm
    · rw [hcallers, List.head?_append]
      show some s.mail = _
      rw [mail, h.signedUser, currentAuthenticatedUserMail, h.currentUser]
      cases (callers u es).head? <;> rfl
    · rw [hcallers, List.flatMap_append, mail_called, ← h.requests]
      simp [called]
    · rw [hcallers, mail_called]
      simp [called, hrunning]
  | change hcall =>
    have hcallers : callers u (es ++ [e]) = callers u es := by simp [callers_snoc, hcall]
    rcases Option.eq_none_or_eq_some s.signedUser with hsome | ⟨mail, hsome⟩
    · -- there were no calls
      have hnone : callers u es = [] := by simpa [hsome] using h.signedUser.symm
      refine ⟨by rw [account_snoc, ← h.currentUser], hcallers ▸ h.signedUser, ?_, ?_⟩
      · simpa [hcallers, hnone] using h.requests
      · simpa [hcallers, hnone] using hrunning
    · have hmail : ({ s with currentUser := e.account s.currentUser } : MenuProcess).mail =
          s.mail := by
        simp [MenuProcess.mail, hsome]
      exact ⟨by rw [account_snoc, ← h.currentUser], hcallers ▸ h.signedUser,
        by rw [hcallers, hmail]; exact h.requests, by rw [hcallers, hmail]; exact h.stopped⟩

theorem firstCall_of_run (h : menuProcesses.run (start u) es = some t) : FirstCall u es t :=
  menuProcesses.run_history (P := FirstCall u) ⟨rfl, rfl, rfl, by simp [start, callers]⟩
    (fun _ hfirst hstep => hfirst.step hstep) h

/-! ## Whose documents are asked for -/

/-- Each call has asked for the document of the account that was signed in at the call. -/
def OwnRequests (u : Option String) (es : List Event) (t : MenuProcess) : Prop :=
  t.requests.map some = (callers u es).map fun caller => caller.bind studentDocument

/-- At all calls somebody is signed in, and their mails lead to one document. -/
def OneStudent (u : Option String) (es : List Event) : Prop :=
  ∀ c ∈ callers u es, ∀ d ∈ callers u es,
    c.bind studentDocument ≠ none ∧ c.bind studentDocument = d.bind studentDocument

/-- What a call asks for, if it does not stop the app. -/
def requested (s : MenuProcess) (call : Event) : Option DocumentReference :=
  ((menuProcesses.step s call).filter fun t => !t.stopped).bind fun t => t.requests.getLast?

/-- A call asks for the same in both processes. -/
def SameRequest (s t : MenuProcess) : Prop :=
  ∀ call ∈ [Event.getMenuElements, .getStatsElements, .getAllMenuElements],
    requested s call = requested t call

/-- The mail of the account that is signed in at the first call, or now if there is none. -/
def firstCaller (u : Option String) (es : List Event) : String :=
  ((callers u es).head?.getD (account u es)).getD ""

theorem FirstCall.mail_eq (h : FirstCall u es t) : t.mail = firstCaller u es := by
  rw [mail, h.signedUser, currentAuthenticatedUserMail, h.currentUser, firstCaller]
  cases (callers u es).head? <;> rfl

/-- The first of the callers is the one whose document is asked for; nobody has none. -/
theorem FirstCall.head_eq (h : FirstCall u es t) {c : Option String} {cs : List (Option String)}
    (hcallers : callers u es = c :: cs) : c.bind studentDocument = studentDocument t.mail := by
  have hmail : t.mail = c.getD "" := by
    rw [h.mail_eq, firstCaller, hcallers]
    rfl
  cases c with
  | none => rw [hmail]; rfl
  | some m => rw [hmail]; rfl

theorem FirstCall.ownRequests_iff (h : FirstCall u es t) :
    OwnRequests u es t ↔ OneStudent u es := by
  rw [OwnRequests, OneStudent, h.requests]
  cases hcallers : callers u es with
  | nil => simp
  | cons first rest =>
    have hfirst := h.head_eq hcallers
    cases hstudent : studentDocument t.mail with
    | none =>
      -- the first call has stopped the app
      rw [hstudent] at hfirst
      have hnothing : ((first :: rest).flatMap fun _ => (none : Option DocumentReference).toList) =
          [] := List.flatMap_eq_nil_iff.mpr fun _ _ => rfl
      refine iff_of_false (by rw [hnothing]; exact (List.cons_ne_nil _ _).symm) fun hone => ?_
      exact (hone first List.mem_cons_self first List.mem_cons_self).1 hfirst
    | some student =>
      rw [hstudent] at hfirst
      have hmap : ((first :: rest).flatMap fun _ => (some student).toList).map some =
          (first :: rest).map fun _ => some student := by
        rw [Option.toList_some, ← List.map_eq_flatMap (f := fun _ => student), List.map_map]
        rfl
      rw [hmap, List.map_inj_left]
      constructor
      · intro hall c hc d hd
        rw [← hall c hc, ← hall d hd]
        exact ⟨Option.some_ne_none _, rfl⟩
      · intro hone c hc
        rw [(hone c hc first List.mem_cons_self).2, hfirst]

theorem requested_eq (hs : s.stopped = false) {call : Event}
    (hcall : call ∈ [Event.getMenuElements, .getStatsElements, .getAllMenuElements]) :
    requested s call = studentDocument s.mail := by
  have hone : ∃ n, menuProcesses.step s call = some (s.called n) := by
    simp only [List.mem_cons, List.not_mem_nil, or_false] at hcall
    rcases hcall with rfl | rfl | rfl
    · exact ⟨_, (if_neg (by simp [hs])).trans (congrArg some getMenuElements_eq)⟩
    · exact ⟨_, (if_neg (by simp [hs])).trans (congrArg some getMenuElements_eq)⟩
    · exact ⟨_, (if_neg (by simp [hs])).trans (congrArg some getMenuElements_eq)⟩
  obtain ⟨n, hn⟩ := hone
  rw [requested, hn]
  cases hstudent : studentDocument s.mail <;> simp [called, hs, hstudent, Option.filter_some]

/-- After a run a call asks for the document of the first caller. -/
theorem FirstCall.requested_eq (h : FirstCall u es s) {call : Event}
    (hcall : call ∈ [Event.getMenuElements, .getStatsElements, .getAllMenuElements]) :
    requested s call = studentDocument (firstCaller u es) := by
  rw [← h.mail_eq]
  cases hs : s.stopped with
  | false => exact MenuProcess.requested_eq hs hcall
  | true =>
    have hnone : menuProcesses.step s call = none := if_pos hs
    rw [(h.stopped.mp hs).2, requested, hnone]
    rfl

theorem sameRequest_iff {v : Option String} {es' : List Event} (h : FirstCall u es s)
    (h' : FirstCall v es' t) : SameRequest s t ↔
      studentDocument (firstCaller u es) = studentDocument (firstCaller v es') := by
  constructor
  · intro hsame
    have hcall := hsame .getMenuElements List.mem_cons_self
    rwa [h.requested_eq List.mem_cons_self, h'.requested_eq List.mem_cons_self] at hcall
  · intro he call hcall
    rw [h.requested_eq hcall, h'.requested_eq hcall, he]

end MenuProcess

/-- **Whose documents the menu asks for**: in a run, each call asks for that of the account
that is signed in, exactly if somebody is signed in at all calls and the mails lead to one
document; and two runs that end with the same account then ask for the same, exactly if the
mails of their first callers lead to the same document, or neither leads to one. -/
theorem menu_requests_iff (u₁ u₂ : Option String) (es₁ es₂ : List MenuProcess.Event)
    (s₁ s₂ : MenuProcess) (h₁ : menuProcesses.run (.start u₁) es₁ = some s₁)
    (h₂ : menuProcesses.run (.start u₂) es₂ = some s₂) :
    (MenuProcess.OwnRequests u₁ es₁ s₁ ↔ MenuProcess.OneStudent u₁ es₁) ∧
      (s₁.currentUser = s₂.currentUser → (MenuProcess.SameRequest s₁ s₂ ↔
        studentDocument (MenuProcess.firstCaller u₁ es₁) =
          studentDocument (MenuProcess.firstCaller u₂ es₂))) := by
  have hfirst₁ := MenuProcess.firstCall_of_run h₁
  have hfirst₂ := MenuProcess.firstCall_of_run h₂
  exact ⟨hfirst₁.ownRequests_iff, fun _ => MenuProcess.sameRequest_iff hfirst₁ hfirst₂⟩

/-- The account changes before the first call; in the other run it does not. -/
theorem menu_requests_late :
    ∃ s₁ s₂, menuProcesses.run (.start none) [.signIn "a1@tec.mx", .signOut true,
        .signIn "a2@tec.mx", .getAllMenuElements, .menuElementsArrived 0] = some s₁ ∧
      menuProcesses.run (.start (some "a2@tec.mx")) [] = some s₂ ∧
      s₁.requests = [⟨"estudiante", "a2@tec.mx"⟩, ⟨"estudiante", "a2@tec.mx"⟩] ∧
      MenuProcess.OwnRequests none [.signIn "a1@tec.mx", .signOut true,
        .signIn "a2@tec.mx", .getAllMenuElements, .menuElementsArrived 0] s₁ ∧
      MenuProcess.SameRequest s₁ s₂ := by
  obtain ⟨hown, hsame⟩ := menu_requests_iff none (some "a2@tec.mx") [.signIn "a1@tec.mx",
    .signOut true, .signIn "a2@tec.mx", .getAllMenuElements, .menuElementsArrived 0] [] _ _ rfl rfl
  have hone : MenuProcess.OneStudent none [.signIn "a1@tec.mx", .signOut true,
      .signIn "a2@tec.mx", .getAllMenuElements, .menuElementsArrived 0] := by
    unfold MenuProcess.OneStudent
    decide
  exact ⟨_, _, rfl, rfl, rfl, hown.mpr hone, (hsame rfl).mpr rfl⟩

/-- One student looks at the menu and signs out; the next one, on the same device, asks for
the first one's document.  After a restart the request would be another one. -/
theorem menu_requests_other_student :
    ∃ s₁ s₂, menuProcesses.run (.start none) [.signIn "a1@tec.mx", .getMenuElements,
        .signOut true, .signIn "a2@tec.mx", .getMenuElements] = some s₁ ∧
      menuProcesses.run (.start (some "a2@tec.mx")) [.getMenuElements] = some s₂ ∧
      s₁.requests = [⟨"estudiante", "a1@tec.mx"⟩, ⟨"estudiante", "a1@tec.mx"⟩] ∧
      s₁.currentUser = s₂.currentUser ∧ ¬ MenuProcess.SameRequest s₁ s₂ ∧
      ¬ MenuProcess.OwnRequests none [.signIn "a1@tec.mx", .getMenuElements,
        .signOut true, .signIn "a2@tec.mx", .getMenuElements] s₁ := by
  refine ⟨_, _, rfl, rfl, rfl, rfl, fun h => ?_, ?_⟩
  · exact absurd (h .getMenuElements List.mem_cons_self) (by decide)
  · unfold MenuProcess.OwnRequests
    decide

end Musgravite
