import Mathlib.Data.List.Count
import Mathlib.Data.List.Perm.Basic
import Musgravite.Library.TransitionSystem

/-! # Downloads that fan out

A fan-out download sends one read request for each entry of a list and gives all
of them the same completion block, which collects what comes back in a captured
variable and decides when to call the caller's completion block.  The requests
are served in any order, the replies travel back in any order, and several
downloads may be in progress at once, each with its own captured variable.

`FanOut` is one such routine; `Download` is one call of it in progress, with the
replies delivered so far as history; `system` runs any number of calls side by
side.  `Download.Sound` is the invariant of every call: each request is unserved,
in transit or delivered, a delivered document is the one asked for, and the
captured variable and the completions made are what the block makes of the
delivered replies (`answer`).  So a property of all interleavings is a property
of `answer` on an arbitrary list of replies. -/

/-- A fan-out routine over requests `ρ` for documents `α`. -/
structure FanOut (ρ α : Type*) where
  /-- The identifier a request asks for. -/
  key : ρ → String
  /-- The identifier of a document. -/
  ident : α → String
  /-- The completion block, given the requested list, the captured variable, the
  request it was registered for and its reply (`none` for a failed request): the
  captured variable afterwards, and the calls of the caller's completion block. -/
  block : List ρ → Option (List α) → ρ → Option α → Option (List α) × List (Option (List α))

/-- One call of a fan-out routine. -/
structure Download (ρ α : Type*) where
  requests : List ρ
  /-- Requests the backend has not served yet. -/
  unserved : List ρ
  /-- Replies on their way. -/
  transit : List (ρ × Option α)
  /-- Replies the block has seen, oldest first. -/
  delivered : List (ρ × Option α)
  captured : Option (List α)
  /-- Calls of the caller's completion block, oldest first. -/
  completions : List (Option (List α))

namespace Download
variable {ρ α : Type*}

/-- The call has just sent its requests. -/
def start (requests : List ρ) : Download ρ α := ⟨requests, requests, [], [], none, []⟩

/-- Every request has been answered and every answer delivered. -/
def Finished (d : Download ρ α) : Prop := d.unserved = [] ∧ d.transit = []

/-- The documents delivered so far, in the order of their arrival. -/
def documents (d : Download ρ α) : List α := d.delivered.filterMap Prod.snd

/-- No delivered reply is a failure. -/
def AllSucceeded (d : Download ρ α) : Prop := ∀ p ∈ d.delivered, p.2.isSome

/-- The calls of the completion block made since `d`. -/
def newCompletions (d e : Download ρ α) : List (Option (List α)) :=
  e.completions.drop d.completions.length

theorem newCompletions_subset (d e : Download ρ α) : d.newCompletions e ⊆ e.completions :=
  List.drop_subset ..

/-- The caller was answered exactly once: with `nil` if a request failed, with a
list otherwise. -/
def AnsweredOnce (d : Download ρ α) : Prop :=
  ∃ c, d.completions = [c] ∧ (c = none ↔ ∃ p ∈ d.delivered, p.2 = none)

end Download

namespace FanOut
variable {ρ α : Type*} (F : FanOut ρ α)

/-- The backend serves the `k`-th unserved request with `a`: an error, or the
document that was asked for. -/
def serve (d : Download ρ α) (k : Nat) (a : Option α) : Option (Download ρ α) :=
  match d.unserved[k]? with
  | some r =>
      if a.all fun x => F.ident x == F.key r then
        some { d with unserved := d.unserved.eraseIdx k, transit := d.transit ++ [(r, a)] }
      else none
  | none => none

/-- The backend serves the `k`-th unserved request through a getter, which traps
or calls its completion block once. -/
def serveWith (get : ρ → Option (List (Option α))) (d : Download ρ α) (k : Nat) :
    Option (Download ρ α) :=
  match d.unserved[k]?.bind get with
  | some [a] => F.serve d k a
  | _ => none

/-- The `k`-th reply in transit reaches its block. -/
def deliver (d : Download ρ α) (k : Nat) : Option (Download ρ α) :=
  d.transit[k]?.map fun p =>
    let out := F.block d.requests d.captured p.1 p.2
    { d with
      transit := d.transit.eraseIdx k
      delivered := d.delivered ++ [p]
      captured := out.1
      completions := d.completions ++ out.2 }

/-- What the block makes of a list of replies: the captured variable and the
completions, in order. -/
def answer (requests : List ρ) (rs : List (ρ × Option α)) :
    Option (List α) × List (Option (List α)) :=
  rs.foldl (fun s p => ((F.block requests s.1 p.1 p.2).1,
    s.2 ++ (F.block requests s.1 p.1 p.2).2)) (none, [])

@[simp] theorem answer_nil (requests : List ρ) : F.answer requests [] = (none, []) := rfl

theorem answer_snoc (requests : List ρ) (rs : List (ρ × Option α)) (p : ρ × Option α) :
    F.answer requests (rs ++ [p]) =
      ((F.block requests (F.answer requests rs).1 p.1 p.2).1,
        (F.answer requests rs).2 ++ (F.block requests (F.answer requests rs).1 p.1 p.2).2) := by
  simp only [answer, List.foldl_append, List.foldl_cons, List.foldl_nil]

/-! ## The invariant of a call -/

/-- The invariant of a call in progress. -/
structure Sound (d : Download ρ α) : Prop where
  accounted : (d.unserved ++ d.transit.map Prod.fst ++ d.delivered.map Prod.fst).Perm d.requests
  asked : ∀ p ∈ d.transit ++ d.delivered, ∀ x ∈ p.2, F.ident x = F.key p.1
  replayed : (d.captured, d.completions) = F.answer d.requests d.delivered

theorem sound_start (requests : List ρ) : F.Sound (Download.start requests) where
  accounted := by simp [Download.start]
  asked := by simp [Download.start]
  replayed := rfl

variable {F} {d e : Download ρ α} {k : Nat}

/-- What serving a request does. -/
theorem serve_eq_some {a : Option α} (h : F.serve d k a = some e) :
    ∃ r, (r :: d.unserved.eraseIdx k).Perm d.unserved ∧ (∀ x ∈ a, F.ident x = F.key r) ∧
      e = { d with unserved := d.unserved.eraseIdx k, transit := d.transit ++ [(r, a)] } := by
  unfold serve at h
  split at h
  · rename_i r hr
    split at h
    · rename_i ha
      obtain ⟨hk, rfl⟩ := List.getElem?_eq_some_iff.mp hr
      refine ⟨d.unserved[k], List.getElem_cons_eraseIdx_perm hk, ?_, (Option.some.inj h).symm⟩
      intro x hx
      obtain rfl := Option.mem_def.mp hx
      simpa using ha
    · cases h
  · cases h

/-- What serving a request through a getter does. -/
theorem serveWith_eq_some {get : ρ → Option (List (Option α))} (h : F.serveWith get d k = some e) :
    ∃ r a, d.unserved[k]? = some r ∧ get r = some [a] ∧ F.serve d k a = some e := by
  unfold serveWith at h
  split at h
  · rename_i a hget
    obtain ⟨r, hr, hget⟩ := Option.bind_eq_some_iff.mp hget
    exact ⟨r, a, hr, hget, h⟩
  · cases h

/-- A request is served if its getter answers with what was asked for. -/
theorem serveWith_isSome {get : ρ → Option (List (Option α))} {r : ρ} {a : Option α}
    (hr : d.unserved[k]? = some r) (hget : get r = some [a]) (ha : ∀ x ∈ a, F.ident x = F.key r) :
    (F.serveWith get d k).isSome := by
  have hall : a.all (fun x => F.ident x == F.key r) := by
    cases a with
    | none => rfl
    | some x => simpa using ha x rfl
  simp [serveWith, serve, hr, hget, hall]

/-- What delivering a reply does. -/
theorem deliver_eq_some (h : F.deliver d k = some e) :
    ∃ p, (p :: d.transit.eraseIdx k).Perm d.transit ∧
      e = { d with
        transit := d.transit.eraseIdx k
        delivered := d.delivered ++ [p]
        captured := (F.block d.requests d.captured p.1 p.2).1
        completions := d.completions ++ (F.block d.requests d.captured p.1 p.2).2 } := by
  obtain ⟨p, hp, rfl⟩ := Option.map_eq_some_iff.mp h
  obtain ⟨hk, rfl⟩ := List.getElem?_eq_some_iff.mp hp
  exact ⟨d.transit[k], List.getElem_cons_eraseIdx_perm hk, rfl⟩

/-- The calls that delivering a reply makes. -/
theorem newCompletions_deliver (h : F.deliver d k = some e) :
    ∃ p, d.transit[k]? = some p ∧
      d.newCompletions e = (F.block d.requests d.captured p.1 p.2).2 := by
  obtain ⟨p, hp, rfl⟩ := Option.map_eq_some_iff.mp h
  exact ⟨p, hp, List.drop_left⟩

theorem Sound.serve {a : Option α} (hd : F.Sound d) (h : F.serve d k a = some e) : F.Sound e := by
  obtain ⟨r, hr, ha, rfl⟩ := serve_eq_some h
  refine ⟨?_, ?_, hd.replayed⟩
  · refine List.Perm.trans ?_ hd.accounted
    refine List.Perm.append_right _ ?_
    calc d.unserved.eraseIdx k ++ (d.transit ++ [(r, a)]).map Prod.fst
        = d.unserved.eraseIdx k ++ d.transit.map Prod.fst ++ [r] := by simp
      _ |>.Perm (r :: (d.unserved.eraseIdx k ++ d.transit.map Prod.fst)) :=
          List.perm_append_singleton _ _
      _ |>.Perm (d.unserved ++ d.transit.map Prod.fst) := hr.append_right _
  · intro p hp x hx
    rcases List.mem_append.mp hp with hp | hp
    · rcases List.mem_append.mp hp with hp | hp
      · exact hd.asked p (List.mem_append_left _ hp) x hx
      · obtain rfl := List.mem_singleton.mp hp
        exact ha x hx
    · exact hd.asked p (List.mem_append_right _ hp) x hx

theorem Sound.deliver (hd : F.Sound d) (h : F.deliver d k = some e) : F.Sound e := by
  obtain ⟨p, hp, rfl⟩ := deliver_eq_some h
  refine ⟨?_, ?_, ?_⟩
  · refine List.Perm.trans ?_ hd.accounted
    rw [List.append_assoc, List.append_assoc]
    refine List.Perm.append_left _ ?_
    calc (d.transit.eraseIdx k).map Prod.fst ++ (d.delivered ++ [p]).map Prod.fst
        = (d.transit.eraseIdx k).map Prod.fst ++ d.delivered.map Prod.fst ++ [p.1] := by simp
      _ |>.Perm (p.1 :: ((d.transit.eraseIdx k).map Prod.fst ++ d.delivered.map Prod.fst)) :=
          List.perm_append_singleton _ _
      _ |>.Perm (d.transit.map Prod.fst ++ d.delivered.map Prod.fst) :=
          (hp.map Prod.fst).append_right _
  · intro q hq x hx
    refine hd.asked q ?_ x hx
    rcases List.mem_append.mp hq with hq | hq
    · exact List.mem_append_left _ (List.mem_of_mem_eraseIdx hq)
    · rcases List.mem_append.mp hq with hq | hq
      · exact List.mem_append_right _ hq
      · obtain rfl := List.mem_singleton.mp hq
        exact List.mem_append_left _ (hp.subset (List.mem_cons_self ..))
  · rw [answer_snoc, ← hd.replayed]

theorem requests_serve {a : Option α} (h : F.serve d k a = some e) : e.requests = d.requests := by
  obtain ⟨r, -, -, rfl⟩ := serve_eq_some h
  rfl

theorem requests_deliver (h : F.deliver d k = some e) : e.requests = d.requests := by
  obtain ⟨p, -, rfl⟩ := deliver_eq_some h
  rfl

theorem completions_serve {a : Option α} (h : F.serve d k a = some e) :
    e.completions = d.completions := by
  obtain ⟨r, -, -, rfl⟩ := serve_eq_some h
  rfl

theorem completions_deliver (h : F.deliver d k = some e) :
    e.completions = d.completions ++ d.newCompletions e := by
  obtain ⟨p, -, rfl⟩ := deliver_eq_some h
  rw [Download.newCompletions, List.drop_left]

theorem Sound.length_delivered_le (hd : F.Sound d) : d.delivered.length ≤ d.requests.length := by
  have := hd.accounted.length_eq
  simp only [List.length_append, List.length_map] at this
  omega

theorem Sound.finished_iff (hd : F.Sound d) :
    d.Finished ↔ d.delivered.length = d.requests.length := by
  have := hd.accounted.length_eq
  simp only [List.length_append, List.length_map] at this
  rw [Download.Finished, ← List.length_eq_zero_iff, ← List.length_eq_zero_iff]
  omega

theorem Sound.delivered_perm (hd : F.Sound d) (hf : d.Finished) :
    (d.delivered.map Prod.fst).Perm d.requests := by
  have := hd.accounted
  rwa [hf.1, hf.2, List.map_nil, List.append_nil, List.nil_append] at this

theorem Sound.completions_eq (hd : F.Sound d) :
    d.completions = (F.answer d.requests d.delivered).2 :=
  congrArg Prod.snd hd.replayed

/-- If each reply is a document that is known from its request, the documents are those known
from the requests. -/
theorem map_documents {β : Type*} {f : ρ → β} {g : α → β} (rs : List (ρ × Option α))
    (h : ∀ p ∈ rs, ∃ x, p.2 = some x ∧ f p.1 = g x) :
    (rs.filterMap Prod.snd).map g = (rs.map Prod.fst).map f := by
  induction rs with
  | nil => rfl
  | cons p rs ih =>
    obtain ⟨x, hx, hfx⟩ := h p List.mem_cons_self
    rw [List.filterMap_cons_some hx, List.map_cons, List.map_cons, List.map_cons, hfx,
      ih fun q hq => h q (List.mem_cons_of_mem _ hq)]

/-- When every request has succeeded, the documents that arrived are those that
were asked for, each as often as it was asked for. -/
theorem Sound.documents_perm (hd : F.Sound d) (hf : d.Finished) (hs : d.AllSucceeded) :
    (d.documents.map F.ident).Perm (d.requests.map F.key) := by
  rw [Download.documents, map_documents (f := F.key) d.delivered fun p hp => ?_]
  · exact (hd.delivered_perm hf).map F.key
  · obtain ⟨x, hx⟩ := Option.isSome_iff_exists.mp (hs p hp)
    exact ⟨x, hx, (hd.asked p (List.mem_append_right _ hp) x hx).symm⟩

/-! ### What is known of the replies -/

/-- Every reply to the call so far meets `R`. -/
def Replied (R : ρ → Option α → Prop) (d : Download ρ α) : Prop :=
  ∀ p ∈ d.transit ++ d.delivered, R p.1 p.2

variable {R : ρ → Option α → Prop}

theorem replied_start (requests : List ρ) : Replied R (Download.start requests) :=
  fun _ hp => nomatch hp

theorem Replied.serveWith {get : ρ → Option (List (Option α))}
    (hget : ∀ r a, get r = some [a] → R r a) (hd : Replied R d)
    (h : F.serveWith get d k = some e) : Replied R e := by
  obtain ⟨r, a, hr, hreply, h⟩ := serveWith_eq_some h
  rw [serve, hr] at h
  obtain ⟨-, h⟩ := Option.ite_none_right_eq_some.mp h
  obtain rfl := Option.some.inj h
  intro p hp
  rcases List.mem_append.mp hp with hp | hp
  · rcases List.mem_append.mp hp with hp | hp
    · exact hd p (List.mem_append_left _ hp)
    · obtain rfl := List.mem_singleton.mp hp
      exact hget r a hreply
  · exact hd p (List.mem_append_right _ hp)

theorem Replied.deliver (hd : Replied R d) (h : F.deliver d k = some e) : Replied R e := by
  obtain ⟨p, hperm, rfl⟩ := deliver_eq_some h
  have hp := hperm.subset List.mem_cons_self
  intro q hq
  rcases List.mem_append.mp hq with hq | hq
  · exact hd q (List.mem_append_left _ (List.mem_of_mem_eraseIdx hq))
  · rcases List.mem_append.mp hq with hq | hq
    · exact hd q (List.mem_append_right _ hq)
    · obtain rfl := List.mem_singleton.mp hq
      exact hd q (List.mem_append_left _ hp)

theorem Replied.allSucceeded (hd : Replied R d) (hR : ∀ r a, R r a → a.isSome) :
    d.AllSucceeded :=
  fun p hp => hR p.1 p.2 (hd p (List.mem_append_right _ hp))

/-- If the replies are known beforehand, the documents that arrive are the known ones. -/
theorem Replied.documents_perm {β : Type*} {f : ρ → β} {g : α → β} (hr : Replied R d)
    (hg : Function.Injective g) (hR : ∀ r a, R r a → ∃ x, a = some x ∧ f r = g x)
    (hd : F.Sound d) (hf : d.Finished) {xs : List α} (hxs : d.requests.map f = xs.map g) :
    d.documents.Perm xs := by
  rw [← List.map_perm_map_iff hg, ← hxs, Download.documents,
    map_documents (f := f) d.delivered fun p hp => hR _ _ (hr p (List.mem_append_right _ hp))]
  exact (hd.delivered_perm hf).map f

/-! ### The calls that one caller has made -/

/-- One more call for the same list. -/
theorem sound_append_start {requests : List ρ} {ds : List (Download ρ α)}
    (h : ∀ d ∈ ds, F.Sound d ∧ d.requests = requests) :
    ∀ d ∈ ds ++ [.start requests], F.Sound d ∧ d.requests = requests := by
  intro d hd
  rcases List.mem_append.mp hd with hd | hd
  · exact h d hd
  · obtain rfl := List.mem_singleton.mp hd
    exact ⟨F.sound_start requests, rfl⟩

/-- One of the calls goes on. -/
theorem sound_set {requests : List ρ} {ds : List (Download ρ α)} {n : Nat}
    (h : ∀ d ∈ ds, F.Sound d ∧ d.requests = requests) (he : F.Sound e)
    (hr : e.requests = requests) : ∀ d ∈ ds.set n e, F.Sound d ∧ d.requests = requests := by
  intro d hd
  rcases List.mem_or_eq_of_mem_set hd with hd | rfl
  · exact h d hd
  · exact ⟨he, hr⟩

/-! ### The caller's side -/

/-- What each call of a completion block keeps, a series of them keeps. -/
theorem foldlM_invariant {β γ : Type*} {f : γ → β → Option γ} {P : γ → Prop} {l : List β}
    (hf : ∀ a ∈ l, ∀ b b', P b → f b a = some b' → P b') {b b' : γ} (hb : P b)
    (h : l.foldlM f b = some b') : P b' := by
  induction l generalizing b with
  | nil => exact Option.some.inj h ▸ hb
  | cons a l ih =>
    rw [List.foldlM_cons] at h
    obtain ⟨c, hc, h⟩ := Option.bind_eq_some_iff.mp h
    exact ih (fun a' ha' => hf a' (List.mem_cons_of_mem _ ha'))
      (hf a List.mem_cons_self b c hb hc) h

/-- A completion block that traps on `nil` and on nothing else stops a series of calls
exactly if one of them is a `nil`. -/
theorem foldlM_eq_none_iff {β γ : Type*} {f : γ → Option β → Option γ}
    (hnone : ∀ b, f b none = none) (hsome : ∀ b x, (f b (some x)).isSome)
    (l : List (Option β)) (b : γ) : l.foldlM f b = none ↔ none ∈ l := by
  induction l generalizing b with
  | nil => simp
  | cons a l ih =>
    rw [List.foldlM_cons]
    cases a with
    | none => simp [hnone]
    | some x =>
      obtain ⟨c, hc⟩ := Option.isSome_iff_exists.mp (hsome b x)
      rw [hc, Option.bind_eq_bind, Option.bind_some, ih]
      simp

/-! ## Any number of calls at once -/

/-- One event in the life of call `i`. -/
inductive Event (ι α : Type*)
  | serve (i : ι) (k : Nat) (a : Option α)
  | deliver (i : ι) (k : Nat)

variable {ι : Type*} [DecidableEq ι]

/-- All calls have sent their requests. -/
def start (requests : ι → List ρ) : ι → Download ρ α := fun i => .start (requests i)

variable (F ι) in
/-- Any number of calls of one routine, side by side. -/
def system : TransitionSystem (ι → Download ρ α) (Event ι α) where
  step s
    | .serve i k a => (F.serve (s i) k a).map (Function.update s i)
    | .deliver i k => (F.deliver (s i) k).map (Function.update s i)

/-- **In every interleaving, every call keeps its invariant and its requests.** -/
theorem system_sound {requests : ι → List ρ} {s : ι → Download ρ α} {as : List (Event ι α)}
    (h : (F.system ι).run (start requests) as = some s) (i : ι) :
    F.Sound (s i) ∧ (s i).requests = requests i := by
  refine (F.system ι).run_invariant
    (P := fun s => ∀ i, F.Sound (s i) ∧ (s i).requests = requests i) ?_
    (fun i => ⟨F.sound_start _, rfl⟩) h i
  intro s a t hs hstep j
  cases a with
  | serve i k a =>
    obtain ⟨e, he, rfl⟩ := Option.map_eq_some_iff.mp hstep
    by_cases hj : j = i
    · subst hj
      rw [Function.update_self]
      exact ⟨(hs j).1.serve he, (requests_serve he).trans (hs j).2⟩
    · rw [Function.update_of_ne hj]
      exact hs j
  | deliver i k =>
    obtain ⟨e, he, rfl⟩ := Option.map_eq_some_iff.mp hstep
    by_cases hj : j = i
    · subst hj
      rw [Function.update_self]
      exact ⟨(hs j).1.deliver he, (requests_deliver he).trans (hs j).2⟩
    · rw [Function.update_of_ne hj]
      exact hs j

/-! ## Successes and failures -/

/-- The number of failed requests among the replies. -/
def failures (rs : List (ρ × Option α)) : Nat := rs.countP fun p => p.2.isNone

@[simp] theorem failures_nil : failures ([] : List (ρ × Option α)) = 0 := rfl

@[simp] theorem failures_snoc (rs : List (ρ × Option α)) (p : ρ × Option α) :
    failures (rs ++ [p]) = failures rs + if p.2.isNone then 1 else 0 := by
  rw [failures, List.countP_append, List.countP_singleton]
  rfl

theorem length_eq_documents_add_failures (rs : List (ρ × Option α)) :
    rs.length = (rs.filterMap Prod.snd).length + failures rs := by
  unfold failures
  induction rs with
  | nil => rfl
  | cons p rs ih =>
    obtain ⟨r, a⟩ := p
    cases a <;> simp [ih] <;> omega

theorem failures_eq_zero_iff (rs : List (ρ × Option α)) :
    failures rs = 0 ↔ ∀ p ∈ rs, p.2.isSome := by
  simp [failures, List.countP_eq_zero, Option.isSome_iff_ne_none]

/-! ## Routines that pass failures on

The routines of interest pass each failure on as one `nil` and never make up
another one.  For them, to answer once is to make one call. -/

/-- Each failed request is passed on as one `nil`, and nothing else is. -/
def ReportsFailures (F : FanOut ρ α) : Prop :=
  ∀ requests c r a, (F.block requests c r a).2.countP Option.isNone = if a.isNone then 1 else 0

theorem ReportsFailures.answer (hF : ReportsFailures F) (requests : List ρ)
    (rs : List (ρ × Option α)) :
    (F.answer requests rs).2.countP Option.isNone = failures rs := by
  induction rs using List.reverseRecOn with
  | nil => rfl
  | append_singleton rs p ih =>
    rw [answer_snoc, List.countP_append, ih, hF, failures_snoc]

/-- Delivering a reply calls the caller with `nil` exactly if it is a failure. -/
theorem ReportsFailures.none_mem_iff (hF : ReportsFailures F) (h : F.deliver d k = some e) :
    none ∈ d.newCompletions e ↔ d.transit[k]?.map Prod.snd = some none := by
  obtain ⟨⟨r, a⟩, hp, hnew⟩ := newCompletions_deliver h
  have hpos : none ∈ d.newCompletions e ↔ 0 < (d.newCompletions e).countP Option.isNone := by
    simp [List.countP_pos_iff]
  rw [hpos, hnew, hF, hp]
  cases a <;> simp

theorem ReportsFailures.answeredOnce_iff (hF : ReportsFailures F) (hd : F.Sound d) :
    d.AnsweredOnce ↔ d.completions.length = 1 := by
  have hcount : d.completions.countP Option.isNone = failures d.delivered := by
    rw [hd.completions_eq, hF.answer]
  constructor
  · rintro ⟨c, hc, -⟩
    rw [hc, List.length_singleton]
  · intro h
    obtain ⟨c, hc⟩ := List.length_eq_one_iff.mp h
    refine ⟨c, hc, ?_⟩
    rw [hc, List.countP_singleton] at hcount
    have hpos : 0 < failures d.delivered ↔ ∃ p ∈ d.delivered, p.2 = none := by
      simp [failures, List.countP_pos_iff]
    rw [← hpos, ← hcount]
    cases c <;> simp

/-- A block that makes one call for the replies that meet `q`, and none for the
others, makes as many calls as there are such replies. -/
theorem length_answer {requests : List ρ} {q : ρ × Option α → Bool}
    (hq : ∀ c p, (F.block requests c p.1 p.2).2.length = if q p then 1 else 0)
    (rs : List (ρ × Option α)) : (F.answer requests rs).2.length = rs.countP q := by
  induction rs using List.reverseRecOn with
  | nil => rfl
  | append_singleton rs p ih =>
    rw [answer_snoc, List.length_append, ih, hq, List.countP_append, List.countP_singleton]

/-! ## Joining by count

A routine joins by count when a document is added to the captured list and the
list is passed on as soon as it is as long as the list of requests, while a
failure is passed on at once. -/

/-- The routine joins by count. -/
structure JoinsByCount (F : FanOut ρ α) : Prop where
  success : ∀ requests c r a, F.block requests c r (some a) =
    (some (c.getD [] ++ [a]),
      if (c.getD []).length + 1 = requests.length then [some (c.getD [] ++ [a])] else [])
  failure : ∀ requests c r, (c.getD []).length < requests.length →
    F.block requests c r none = (c, [none])

/-- **The law of a join by count**: one `nil` for each failure, and the list once,
with the last reply, if there was no failure. -/
theorem JoinsByCount.answer_eq (hF : JoinsByCount F) (requests : List ρ)
    (rs : List (ρ × Option α)) (hlen : rs.length ≤ requests.length) :
    (F.answer requests rs).1.getD [] = rs.filterMap Prod.snd ∧
    (F.answer requests rs).2 =
      List.replicate (failures rs) none ++
        if rs.length = requests.length ∧ rs ≠ [] ∧ ∀ p ∈ rs, p.2.isSome
        then [some (rs.filterMap Prod.snd)] else [] := by
  induction rs using List.reverseRecOn with
  | nil => simp
  | append_singleton rs p ih =>
    rw [List.length_append, List.length_singleton] at hlen
    obtain ⟨hcap, hout⟩ := ih (by omega)
    -- before the last reply the count was not full, so no list has been passed on yet
    have hshort : rs.length ≠ requests.length := by omega
    rw [if_neg (fun h => hshort h.1), List.append_nil] at hout
    have hle : (rs.filterMap Prod.snd).length ≤ rs.length := List.length_filterMap_le ..
    obtain ⟨r, a⟩ := p
    rw [answer_snoc]
    cases a with
    | none =>
      rw [hF.failure _ _ _ (by rw [hcap]; omega), hout]
      refine ⟨by simpa using hcap, ?_⟩
      simp [List.replicate_succ']
    | some a =>
      rw [hF.success, hcap, hout]
      refine ⟨by simp, ?_⟩
      -- the captured list is full when the replies are all in and none of them failed
      have hcount := length_eq_documents_add_failures rs
      have hiff : ((rs.filterMap Prod.snd).length + 1 = requests.length) ↔
          ((rs ++ [(r, some a)]).length = requests.length ∧ rs ++ [(r, some a)] ≠ [] ∧
            ∀ p ∈ rs ++ [(r, some a)], p.2.isSome) := by
        simp only [List.length_append, List.length_singleton, List.mem_append,
          List.mem_singleton, ne_eq, List.append_eq_nil_iff, List.cons_ne_self, and_false,
          not_false_eq_true, true_and, or_imp, forall_and, forall_eq, Option.isSome_some, and_true,
          ← failures_eq_zero_iff]
        omega
      simp only [hiff, failures_snoc, Option.isNone_some, List.filterMap_append,
        Bool.false_eq_true, if_false, Nat.add_zero]
      simp

/-- **When a join by count answers once**: the list is not empty and at most one
request fails. -/
theorem JoinsByCount.answeredOnce_iff (hF : JoinsByCount F) (hd : F.Sound d) (hf : d.Finished) :
    d.AnsweredOnce ↔ d.requests ≠ [] ∧ failures d.delivered ≤ 1 := by
  have hlen := hd.finished_iff.mp hf
  have hout := (hF.answer_eq d.requests d.delivered hlen.le).2
  rw [← hd.completions_eq] at hout
  have hne : d.delivered ≠ [] ↔ d.requests ≠ [] := by
    rw [← List.length_pos_iff, ← List.length_pos_iff, hlen]
  by_cases hsucc : ∀ p ∈ d.delivered, p.2.isSome
  · have hzero : failures d.delivered = 0 := (failures_eq_zero_iff _).mpr hsucc
    have hnone : ¬ ∃ p ∈ d.delivered, p.2 = none := by
      rintro ⟨p, hp, hpn⟩
      have := hsucc p hp
      simp [hpn] at this
    by_cases hr : d.requests = []
    · rw [hzero, if_neg (fun h => hne.mp h.2.1 hr)] at hout
      simp [Download.AnsweredOnce, hout, hr]
    · rw [hzero, if_pos ⟨hlen, hne.mpr hr, hsucc⟩] at hout
      simp [Download.AnsweredOnce, hout, hr, hnone, hzero]
  · rw [if_neg (fun h => hsucc h.2.2), List.append_nil] at hout
    have hpos : 0 < failures d.delivered :=
      Nat.pos_of_ne_zero fun h => hsucc ((failures_eq_zero_iff _).mp h)
    have hfail : ∃ p ∈ d.delivered, p.2 = none := by simpa using hsucc
    have hr : d.requests ≠ [] := by
      rintro hr
      obtain ⟨p, hp, -⟩ := hfail
      exact hne.mp (List.ne_nil_of_mem hp) hr
    constructor
    · rintro ⟨c, hc, -⟩
      refine ⟨hr, ?_⟩
      have := congrArg List.length (hout.symm.trans hc)
      rw [List.length_replicate, List.length_singleton] at this
      exact this.le
    · rintro ⟨-, hle⟩
      rw [le_antisymm hle hpos] at hout
      exact ⟨none, hout, by simpa using hfail⟩

/-- **What a join by count delivers**, at any moment: a list is delivered once all
requests of a nonempty list have succeeded, and not before; it is delivered once,
and it holds the documents of all replies. -/
theorem JoinsByCount.some_mem_completions (hF : JoinsByCount F) (hd : F.Sound d) :
    ((∃ l, some l ∈ d.completions) ↔ d.requests ≠ [] ∧ d.Finished ∧ d.AllSucceeded) ∧
    ∀ l, some l ∈ d.completions → d.completions = [some l] ∧ l = d.documents := by
  have hout := (hF.answer_eq d.requests d.delivered hd.length_delivered_le).2
  rw [← hd.completions_eq] at hout
  by_cases h : d.delivered.length = d.requests.length ∧ d.delivered ≠ [] ∧
      ∀ p ∈ d.delivered, p.2.isSome
  · have hzero := (failures_eq_zero_iff _).mpr h.2.2
    rw [if_pos h, hzero, List.replicate_zero, List.nil_append] at hout
    rw [hout]
    refine ⟨iff_of_true ⟨_, List.mem_singleton_self _⟩ ⟨?_, hd.finished_iff.mpr h.1, h.2.2⟩, ?_⟩
    · rw [← List.length_pos_iff, ← h.1, List.length_pos_iff]
      exact h.2.1
    · intro l hl
      rw [List.mem_singleton] at hl
      exact ⟨by rw [hl], Option.some.inj hl⟩
  · rw [if_neg h, List.append_nil] at hout
    have hnone : ∀ l, some l ∉ d.completions := by
      intro l hl
      rw [hout] at hl
      cases List.eq_of_mem_replicate hl
    refine ⟨iff_of_false (fun ⟨l, hl⟩ => hnone l hl) ?_, fun l hl => absurd hl (hnone l)⟩
    rintro ⟨hr, hf, hs⟩
    have hlen := hd.finished_iff.mp hf
    refine h ⟨hlen, ?_, hs⟩
    rw [← List.length_pos_iff, hlen, List.length_pos_iff]
    exact hr

/-- A delivered list holds the documents that were asked for, each as often as it
was asked for. -/
theorem JoinsByCount.perm_of_mem_completions (hF : JoinsByCount F) (hd : F.Sound d) {l : List α}
    (hl : some l ∈ d.completions) : (l.map F.ident).Perm (d.requests.map F.key) := by
  obtain ⟨hiff, honce⟩ := hF.some_mem_completions hd
  obtain ⟨-, hf, hs⟩ := hiff.mp ⟨l, hl⟩
  rw [(honce l hl).2]
  exact hd.documents_perm hf hs

/-- So do the lists that a delivery passes on. -/
theorem JoinsByCount.perm_of_deliver (hF : JoinsByCount F) (hd : F.Sound d)
    (h : F.deliver d k = some e) {l : List α} (hl : some l ∈ d.newCompletions e) :
    (l.map F.ident).Perm (d.requests.map F.key) := by
  rw [← requests_deliver h]
  exact hF.perm_of_mem_completions (hd.deliver h) (Download.newCompletions_subset _ _ hl)

/-! ## Passing on what has arrived

A routine without a count adds each document to the captured list and passes the
list on, as far as it has come, when the reply is one to a request that meets a
test `q`. -/

/-- The routine passes on what has arrived at each success that meets `q`. -/
structure PassesOn (F : FanOut ρ α) (q : List ρ → ρ → Prop)
    [∀ requests, DecidablePred (q requests)] : Prop where
  success : ∀ requests c r a, F.block requests c r (some a) =
    (some (c.getD [] ++ [a]), if q requests r then [some (c.getD [] ++ [a])] else [])
  failure : ∀ requests c r, F.block requests c r none = (c, [none])

/-- A split of `xs ++ [x]` is a split of `xs`, or splits off the last element. -/
theorem exists_split_snoc {β : Type*} {xs : List β} {x : β} {P : List β → β → Prop} :
    (∃ before y after, xs ++ [x] = before ++ y :: after ∧ P before y) ↔
      (∃ before y after, xs = before ++ y :: after ∧ P before y) ∨ P xs x := by
  constructor
  · rintro ⟨before, y, after, he, hP⟩
    rcases List.eq_nil_or_concat after with rfl | ⟨after, z, rfl⟩
    · obtain ⟨rfl, hlast⟩ := List.append_inj' he rfl
      obtain rfl := List.singleton_inj.mp hlast
      exact Or.inr hP
    · have he : xs ++ [x] = (before ++ y :: after) ++ [z] := by simpa using he
      exact Or.inl ⟨before, y, after, (List.append_inj' he rfl).1, hP⟩
  · rintro (⟨before, y, after, rfl, hP⟩ | hP)
    · exact ⟨before, y, after ++ [x], by simp, hP⟩
    · exact ⟨xs, x, [], rfl, hP⟩

section PassesOn
variable {q : List ρ → ρ → Prop} [∀ requests, DecidablePred (q requests)]

/-- **The law of passing on**: the list is handed on at each success that meets `q`,
with the documents that have arrived by then. -/
theorem PassesOn.answer_iff (hF : PassesOn F q) (requests : List ρ) (rs : List (ρ × Option α)) :
    (F.answer requests rs).1.getD [] = rs.filterMap Prod.snd ∧
    ∀ l, some l ∈ (F.answer requests rs).2 ↔ ∃ before p after, rs = before ++ p :: after ∧
      p.2.isSome ∧ q requests p.1 ∧ l = (before ++ [p]).filterMap Prod.snd := by
  induction rs using List.reverseRecOn with
  | nil => simp
  | append_singleton rs p ih =>
    obtain ⟨hcap, hout⟩ := ih
    obtain ⟨r, a⟩ := p
    rw [answer_snoc]
    cases a with
    | none =>
      rw [hF.failure]
      refine ⟨by simpa using hcap, fun l => ?_⟩
      rw [exists_split_snoc, ← hout]
      simp
    | some a =>
      rw [hF.success, hcap]
      refine ⟨by simp, fun l => ?_⟩
      rw [exists_split_snoc, ← hout]
      by_cases hq : q requests r <;> simp [hq]

/-- A list that is handed on holds what has arrived first. -/
theorem PassesOn.prefix_documents (hF : PassesOn F q) (hd : F.Sound d) {l : List α}
    (hl : some l ∈ d.completions) : l <+: d.documents := by
  rw [hd.completions_eq, (hF.answer_iff d.requests d.delivered).2] at hl
  obtain ⟨before, p, after, hdelivered, -, -, rfl⟩ := hl
  have hprefix : before ++ [p] <+: d.delivered := ⟨after, by simp [hdelivered]⟩
  exact hprefix.filterMap Prod.snd

/-- The list handed on at a reply is complete if it is the last reply and none has
failed. -/
theorem Sound.perm_iff (hd : F.Sound d) {before after : List (ρ × Option α)} {p : ρ × Option α}
    (h : d.delivered = before ++ p :: after) :
    (((before ++ [p]).filterMap Prod.snd).map F.ident).Perm (d.requests.map F.key) ↔
      before.length + 1 = d.requests.length ∧ d.AllSucceeded := by
  have hlen := hd.length_delivered_le
  rw [h, List.length_append, List.length_cons] at hlen
  constructor
  · intro hperm
    have hcount := hperm.length_eq
    rw [List.length_map, List.length_map] at hcount
    have hall := length_eq_documents_add_failures (before ++ [p])
    rw [List.length_append, List.length_singleton, hcount] at hall
    have hafter : after = [] := List.length_eq_zero_iff.mp (by omega)
    have hzero : failures (before ++ [p]) = 0 := by omega
    refine ⟨by omega, ?_⟩
    rw [Download.AllSucceeded, h, hafter, ← failures_eq_zero_iff, hzero]
  · rintro ⟨hbefore, hs⟩
    have hafter : after = [] := List.length_eq_zero_iff.mp (by omega)
    have hperm := hd.documents_perm (hd.finished_iff.mpr (by rw [h]; simp; omega)) hs
    rwa [Download.documents, h, hafter] at hperm

/-- **When only complete lists are passed on**: each success that meets `q` is the
last reply of all, and no reply is a failure. -/
theorem PassesOn.complete_iff (hF : PassesOn F q) (hd : F.Sound d) :
    (∀ l, some l ∈ d.completions → (l.map F.ident).Perm (d.requests.map F.key)) ↔
      ∀ before p after, d.delivered = before ++ p :: after → p.2.isSome → q d.requests p.1 →
        before.length + 1 = d.requests.length ∧ d.AllSucceeded := by
  simp only [hd.completions_eq, (hF.answer_iff d.requests d.delivered).2]
  constructor
  · intro h before p after he hp hq
    exact (hd.perm_iff he).mp (h _ ⟨before, p, after, he, hp, hq, rfl⟩)
  · rintro h l ⟨before, p, after, he, hp, hq, rfl⟩
    exact (hd.perm_iff he).mpr (h before p after he hp hq)

end PassesOn

end FanOut
