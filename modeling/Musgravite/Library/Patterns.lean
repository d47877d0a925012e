import Mathlib.Computability.Language
import Mathlib.Data.List.Infix

/-! # Patterns that are searched for

A pattern is a row of pieces, each of which stands for a letter of some class, or for one
or more of them.  It denotes a language, `language`; `occursIn` looks for a word of the
language anywhere in a text (`occursIn_iff`).  In a search the first piece may as well
stand for a single letter (`occursIn_repeated`). -/
namespace Pattern
variable {α : Type*}

/-- A letter that is accepted, or one or more of them. -/
structure Piece (α : Type*) where
  accepts : α → Bool
  repeated : Bool := false

def Piece.language (p : Piece α) : Language α :=
  {w : List α | w ≠ [] ∧ (∀ a ∈ w, p.accepts a = true) ∧ (p.repeated = false → w.length = 1)}

/-- The words a pattern stands for. -/
def language (ps : List (Piece α)) : Language α := (ps.map Piece.language).prod

/-- A word of the pattern comes first. -/
def startsWith : List (Piece α) → List α → Bool
  | [], _ => true
  | _ :: _, [] => false
  | p :: ps, a :: s => p.accepts a && (startsWith ps s || p.repeated && startsWith (p :: ps) s)

/-- A word of the pattern comes somewhere. -/
def occursIn (ps : List (Piece α)) (s : List α) : Bool := s.tails.any (startsWith ps)

/-- The piece that stands for one letter only. -/
def letter [DecidableEq α] (a : α) : Piece α := { accepts := fun b => b == a }

variable {p : Piece α} {ps : List (Piece α)} {s w : List α} {a : α}

/-! ## The words of a pattern -/

@[simp] theorem language_nil : language ([] : List (Piece α)) = 1 := rfl

theorem mem_language_cons :
    w ∈ language (p :: ps) ↔ ∃ u ∈ p.language, ∃ v ∈ language ps, u ++ v = w := by
  rw [language, List.map_cons, List.prod_cons, Language.mem_mul]
  rfl

theorem mem_language_append {qs : List (Piece α)} :
    w ∈ language (ps ++ qs) ↔ ∃ u ∈ language ps, ∃ v ∈ language qs, u ++ v = w := by
  rw [language, List.map_append, List.prod_append, Language.mem_mul]
  rfl

theorem nil_notMem_language_cons : [] ∉ language (p :: ps) := by
  intro h
  obtain ⟨u, ⟨hne, -⟩, v, -, huv⟩ := mem_language_cons.mp h
  exact hne (List.append_eq_nil_iff.mp huv).1

/-- The words of a piece that stands for one letter. -/
theorem mem_language_single (hp : p.repeated = false) :
    w ∈ p.language ↔ ∃ a, w = [a] ∧ p.accepts a = true := by
  constructor
  · rintro ⟨-, hall, hlength⟩
    obtain ⟨a, rfl⟩ := List.length_eq_one_iff.mp (hlength hp)
    exact ⟨a, rfl, hall a List.mem_cons_self⟩
  · rintro ⟨a, rfl, ha⟩
    exact ⟨List.cons_ne_nil a [], by simpa using ha, fun _ => rfl⟩

/-- The words of a piece that stands for many. -/
theorem mem_language_repeated (hp : p.repeated = true) :
    w ∈ p.language ↔ w ≠ [] ∧ ∀ a ∈ w, p.accepts a = true := by
  constructor
  · rintro ⟨hne, hall, -⟩
    exact ⟨hne, hall⟩
  · rintro ⟨hne, hall⟩
    exact ⟨hne, hall, fun h => nomatch hp.symm.trans h⟩

/-- A pattern letter by letter. -/
theorem cons_mem_language : a :: w ∈ language (p :: ps) ↔
    p.accepts a = true ∧ (w ∈ language ps ∨ p.repeated = true ∧ w ∈ language (p :: ps)) := by
  constructor
  · intro h
    obtain ⟨u, ⟨hne, hall, hlength⟩, v, hv, huv⟩ := mem_language_cons.mp h
    cases u with
    | nil => exact absurd rfl hne
    | cons b u =>
      obtain ⟨rfl, rfl⟩ := List.cons.inj huv
      refine ⟨hall b List.mem_cons_self, ?_⟩
      cases u with
      | nil => exact Or.inl hv
      | cons c u =>
        have hp : p.repeated = true := by
          by_contra hp
          simpa using hlength (by simpa using hp)
        refine Or.inr ⟨hp, mem_language_cons.mpr ⟨c :: u, ?_, v, hv, rfl⟩⟩
        exact (mem_language_repeated hp).mpr
          ⟨List.cons_ne_nil c u, fun d hd => hall d (List.mem_cons_of_mem b hd)⟩
  · rintro ⟨ha, hw | ⟨hp, hw⟩⟩
    · refine mem_language_cons.mpr ⟨[a], ?_, w, hw, rfl⟩
      exact ⟨List.cons_ne_nil a [], by simpa using ha, fun _ => rfl⟩
    · obtain ⟨u, hu, v, hv, rfl⟩ := mem_language_cons.mp hw
      obtain ⟨-, hall⟩ := (mem_language_repeated hp).mp hu
      refine mem_language_cons.mpr ⟨a :: u, (mem_language_repeated hp).mpr ?_, v, hv, rfl⟩
      exact ⟨List.cons_ne_nil a u, List.forall_mem_cons.mpr ⟨ha, hall⟩⟩

/-- A row of letters stands for itself. -/
theorem mem_language_letters [DecidableEq α] {as : List α} :
    w ∈ language (as.map letter) ↔ w = as := by
  induction as generalizing w with
  | nil => exact Language.mem_one w
  | cons b as ih =>
    cases w with
    | nil => exact iff_of_false nil_notMem_language_cons (List.cons_ne_nil b as).symm
    | cons a w =>
      rw [List.map_cons, cons_mem_language, ih]
      simp [letter]

/-! ## Searching -/

/-- **A pattern is found at the start** exactly if one of its words is there. -/
theorem startsWith_iff : startsWith ps s = true ↔ ∃ w ∈ language ps, w <+: s := by
  induction s generalizing ps with
  | nil =>
    cases ps with
    | nil => simp [startsWith, Language.mem_one]
    | cons p ps =>
      refine iff_of_false nofun ?_
      rintro ⟨w, hw, hfront⟩
      rw [List.prefix_nil] at hfront
      exact nil_notMem_language_cons (hfront ▸ hw)
  | cons a s ih =>
    cases ps with
    | nil => simp [startsWith, Language.mem_one]
    | cons p ps =>
      simp only [startsWith, Bool.and_eq_true, Bool.or_eq_true, ih]
      constructor
      · rintro ⟨ha, ⟨w, hw, hfront⟩ | ⟨hp, w, hw, hfront⟩⟩
        · exact ⟨a :: w, cons_mem_language.mpr ⟨ha, Or.inl hw⟩,
            (List.prefix_cons_inj a).mpr hfront⟩
        · exact ⟨a :: w, cons_mem_language.mpr ⟨ha, Or.inr ⟨hp, hw⟩⟩,
            (List.prefix_cons_inj a).mpr hfront⟩
      · rintro ⟨w, hw, hfront⟩
        cases w with
        | nil => exact absurd hw nil_notMem_language_cons
        | cons b w =>
          obtain ⟨rfl, hrest⟩ := List.cons_prefix_cons.mp hfront
          obtain ⟨ha, hw | ⟨hp, hw⟩⟩ := cons_mem_language.mp hw
          · exact ⟨ha, Or.inl ⟨w, hw, hrest⟩⟩
          · exact ⟨ha, Or.inr ⟨hp, w, hw, hrest⟩⟩

/-- **A pattern is found** exactly if one of its words is an infix. -/
theorem occursIn_iff : occursIn ps s = true ↔ ∃ w ∈ language ps, w <:+: s := by
  simp only [occursIn, List.any_eq_true, List.mem_tails, startsWith_iff,
    List.infix_iff_prefix_suffix]
  constructor
  · rintro ⟨t, ht, w, hw, hfront⟩
    exact ⟨w, hw, t, hfront, ht⟩
  · rintro ⟨w, hw, t, hfront, ht⟩
    exact ⟨t, ht, w, hw, hfront⟩

/-- Of the letters that a repeated piece stands for in front, a search needs the last one. -/
theorem occursIn_repeated {accepts : α → Bool} :
    occursIn ({ accepts, repeated := true } :: ps) s = true ↔
      ∃ a w, accepts a = true ∧ w ∈ language ps ∧ a :: w <:+: s := by
  rw [occursIn_iff]
  constructor
  · rintro ⟨w, hw, hinside⟩
    obtain ⟨u, hu, v, hv, rfl⟩ := mem_language_cons.mp hw
    obtain ⟨hne, hall⟩ := (mem_language_repeated rfl).mp hu
    refine ⟨u.getLast hne, v, hall _ (List.getLast_mem hne), hv, List.IsInfix.trans ?_ hinside⟩
    refine ⟨u.dropLast, [], ?_⟩
    rw [List.append_nil, ← List.singleton_append, ← List.append_assoc, List.dropLast_concat_getLast]
  · rintro ⟨a, w, ha, hw, hinside⟩
    exact ⟨a :: w, cons_mem_language.mpr ⟨ha, Or.inl hw⟩, hinside⟩

end Pattern
