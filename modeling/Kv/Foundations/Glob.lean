import Mathlib.Data.List.Infix

/-!
Glob languages over an arbitrary alphabet. A pattern is a list of tokens: a
star, which matches any run of symbols (the empty one included), or a single
symbol that a test accepts. `GlobMatches` is the language a list of tokens
denotes; `globMatch` decides it by trying every suffix of the string at each
star, and `globMatch_iff` says the two agree.
-/

namespace Foundations

inductive GlobToken (α : Type) where
  | star
  | one (accepts : α → Bool)

open GlobToken

inductive GlobMatches {α : Type} : List (GlobToken α) → List α → Prop
  | nil : GlobMatches [] []
  | skip {ts : List (GlobToken α)} {s : List α} :
      GlobMatches ts s → GlobMatches (star :: ts) s
  | take {ts : List (GlobToken α)} {c : α} {s : List α} :
      GlobMatches (star :: ts) s → GlobMatches (star :: ts) (c :: s)
  | one {accepts : α → Bool} {ts : List (GlobToken α)} {c : α} {s : List α} :
      accepts c = true → GlobMatches ts s → GlobMatches (one accepts :: ts) (c :: s)

def globMatch {α : Type} : List (GlobToken α) → List α → Bool
  | [], s => s.isEmpty
  | .star :: ts, s => s.tails.any (globMatch ts)
  | .one _ :: _, [] => false
  | .one accepts :: ts, c :: s => accepts c && globMatch ts s

section Language

variable {α : Type} {ts : List (GlobToken α)} {s : List α}

@[simp] theorem globMatches_nil_left : GlobMatches ([] : List (GlobToken α)) s ↔ s = [] := by
  constructor
  · intro h
    cases h
    rfl
  · rintro rfl
    exact .nil

theorem globMatches_star_iff : GlobMatches (star :: ts) s ↔ ∃ u, u <:+ s ∧ GlobMatches ts u := by
  constructor
  · intro h
    induction s with
    | nil =>
      cases h with
      | skip rest => exact ⟨[], List.suffix_rfl, rest⟩
    | cons c s ih =>
      cases h with
      | skip rest => exact ⟨c :: s, List.suffix_rfl, rest⟩
      | take more =>
        obtain ⟨u, suffix, rest⟩ := ih more
        exact ⟨u, suffix.trans (List.suffix_cons c s), rest⟩
  · rintro ⟨u, suffix, rest⟩
    induction s with
    | nil =>
      rw [List.suffix_nil.mp suffix] at rest
      exact .skip rest
    | cons c s ih =>
      rcases List.suffix_cons_iff.mp suffix with same | shorter
      · subst same
        exact .skip rest
      · exact .take (ih shorter)

theorem globMatches_one_iff {accepts : α → Bool} :
    GlobMatches (one accepts :: ts) s ↔ ∃ c u, s = c :: u ∧ accepts c = true ∧ GlobMatches ts u := by
  constructor
  · intro h
    cases h with
    | one accepted rest => exact ⟨_, _, rfl, accepted, rest⟩
  · rintro ⟨c, u, rfl, accepted, rest⟩
    exact .one accepted rest

@[simp] theorem globMatches_one_cons {accepts : α → Bool} {c : α} :
    GlobMatches (one accepts :: ts) (c :: s) ↔ accepts c = true ∧ GlobMatches ts s := by
  simp [globMatches_one_iff]

@[simp] theorem not_globMatches_one_nil {accepts : α → Bool} : ¬ GlobMatches (one accepts :: ts) [] := by
  simp [globMatches_one_iff]

theorem globMatches_star_cons {c : α} :
    GlobMatches (star :: ts) (c :: s) ↔ GlobMatches ts (c :: s) ∨ GlobMatches (star :: ts) s := by
  constructor
  · intro h
    cases h with
    | skip rest => exact .inl rest
    | take more => exact .inr more
  · rintro (rest | more)
    · exact .skip rest
    · exact .take more

theorem globMatches_star_nil : GlobMatches (star :: ts) ([] : List α) ↔ GlobMatches ts [] := by
  simp [globMatches_star_iff]

theorem globMatches_star_star : GlobMatches (star :: star :: ts) s ↔ GlobMatches (star :: ts) s := by
  simp only [globMatches_star_iff]
  constructor
  · rintro ⟨u, outer, v, inner, rest⟩
    exact ⟨v, inner.trans outer, rest⟩
  · rintro ⟨v, suffix, rest⟩
    exact ⟨v, suffix, v, List.suffix_rfl, rest⟩

theorem not_globMatches_star_of_suffixes (none : ∀ u, u <:+ s → ¬ GlobMatches ts u) :
    ∀ u, u <:+ s → ¬ GlobMatches (star :: ts) u := by
  intro u suffix matched
  obtain ⟨v, inner, rest⟩ := globMatches_star_iff.mp matched
  exact none v (inner.trans suffix) rest

theorem not_globMatches_one_of_suffixes {accepts : α → Bool} {c : α}
    (none : ∀ u, u <:+ s → ¬ GlobMatches ts u) : ∀ u, u <:+ c :: s → ¬ GlobMatches (one accepts :: ts) u := by
  intro u suffix matched
  obtain ⟨d, w, rfl, -, rest⟩ := globMatches_one_iff.mp matched
  have within : w <:+ s := by
    rcases List.suffix_cons_iff.mp suffix with same | shorter
    · rw [(List.cons.inj same).2]
    · exact (List.suffix_cons d w).trans shorter
  exact none w within rest

theorem globMatch_iff : globMatch ts s = true ↔ GlobMatches ts s := by
  induction ts generalizing s with
  | nil => simp [globMatch]
  | cons t ts ih =>
    cases t with
    | star => simp [globMatch, globMatches_star_iff, ih]
    | one accepts =>
      cases s with
      | nil => simp [globMatch]
      | cons c s => simp [globMatch, ih]

instance (ts : List (GlobToken α)) (s : List α) : Decidable (GlobMatches ts s) :=
  decidable_of_iff _ globMatch_iff

end Language

end Foundations
