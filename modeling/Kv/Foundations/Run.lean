import Mathlib.Logic.Basic
import Mathlib.Data.List.Basic

namespace Foundations

variable {σ α : Type}

def runSteps (step : σ → α → Option σ) : σ → List α → Option σ
  | s, [] => some s
  | s, a :: as => (step s a).bind (fun s' => runSteps step s' as)

@[simp] theorem runSteps_nil (step : σ → α → Option σ) (s : σ) : runSteps step s [] = some s := rfl

@[simp] theorem runSteps_cons (step : σ → α → Option σ) (s : σ) (a : α) (as : List α) :
    runSteps step s (a :: as) = (step s a).bind (fun s' => runSteps step s' as) := rfl

theorem runSteps_append (step : σ → α → Option σ) (s : σ) (as bs : List α) :
    runSteps step s (as ++ bs) = (runSteps step s as).bind (fun s' => runSteps step s' bs) := by
  induction as generalizing s with
  | nil => rfl
  | cons a as ih =>
    simp only [List.cons_append, runSteps_cons]
    cases step s a with
    | none => rfl
    | some s' => exact ih s'

theorem runSteps_eq_none_of_mem {step : σ → α → Option σ} {a : α} {as : List α} (mem : a ∈ as)
    (fails : ∀ s, step s a = none) (s : σ) : runSteps step s as = none := by
  induction as generalizing s with
  | nil => cases mem
  | cons b bs ih =>
    rw [runSteps_cons]
    rcases List.mem_cons.mp mem with rfl | later
    · rw [fails s]
      rfl
    · cases step s b with
      | none => rfl
      | some s' => exact ih later s'

inductive Reachable (init : σ) (step : σ → α → Option σ) : σ → Prop
  | init : Reachable init step init
  | step {s s' : σ} (a : α) : Reachable init step s → step s a = some s' → Reachable init step s'

theorem Reachable.invariant {init : σ} {step : σ → α → Option σ} (P : σ → Prop)
    (base : P init) (preserve : ∀ s s' a, P s → step s a = some s' → P s')
    {s : σ} (reach : Reachable init step s) : P s := by
  induction reach with
  | init => exact base
  | step a _ hstep ih => exact preserve _ _ a ih hstep

theorem Reachable.of_runSteps {init : σ} {step : σ → α → Option σ} {s s' : σ} {as : List α}
    (reach : Reachable init step s) (run : runSteps step s as = some s') : Reachable init step s' := by
  induction as generalizing s with
  | nil =>
    cases run
    exact reach
  | cons a as ih =>
    simp only [runSteps_cons] at run
    cases hs : step s a with
    | none => simp [hs] at run
    | some mid =>
      rw [hs] at run
      exact ih (.step a reach hs) run

theorem reachable_iff_runSteps {init : σ} {step : σ → α → Option σ} {s : σ} :
    Reachable init step s ↔ ∃ as, runSteps step init as = some s := by
  constructor
  · intro reach
    induction reach with
    | init => exact ⟨[], rfl⟩
    | @step s s' a _ hstep ih =>
      obtain ⟨as, run⟩ := ih
      refine ⟨as ++ [a], ?_⟩
      simp [runSteps_append, run, hstep]
  · rintro ⟨as, run⟩
    exact Reachable.init.of_runSteps run

theorem runSteps_of_invariant {step : σ → α → Option σ} (P : σ → Prop)
    (preserve : ∀ s a, P s → ∃ s', step s a = some s' ∧ P s') :
    ∀ (as : List α) (s : σ), P s → ∃ s', runSteps step s as = some s' ∧ P s'
  | [], s, holds => ⟨s, rfl, holds⟩
  | a :: as, s, holds => by
    obtain ⟨mid, stepped, midHolds⟩ := preserve s a holds
    obtain ⟨s', run, holds'⟩ := runSteps_of_invariant P preserve as mid midHolds
    exact ⟨s', by rw [runSteps_cons, stepped, Option.bind_some, run], holds'⟩

theorem foldlM_of_invariant {f : σ → α → Option σ} (P : σ → Prop) :
    ∀ (as : List α), (∀ a ∈ as, ∀ s, P s → ∃ s', f s a = some s' ∧ P s') →
      ∀ s, P s → ∃ s', as.foldlM f s = some s' ∧ P s'
  | [], _, s, holds => ⟨s, rfl, holds⟩
  | a :: as, preserve, s, holds => by
    obtain ⟨mid, stepped, midHolds⟩ := preserve a List.mem_cons_self s holds
    obtain ⟨s', run, holds'⟩ :=
      foldlM_of_invariant P as (fun b mem => preserve b (List.mem_cons_of_mem a mem)) mid midHolds
    exact ⟨s', by rw [List.foldlM_cons, stepped, Option.bind_eq_bind, Option.bind_some, run], holds'⟩

section Allowed

variable {τ : Type}

/-- Whether every step of a run is allowed at the state the steps before it leave; a failing step ends it. -/
def allowedAlong (step : σ → α → Option σ) (allowed : σ → α → Bool) : σ → List α → Bool
  | _, [] => true
  | s, a :: as => allowed s a && match step s a with
    | some s' => allowedAlong step allowed s' as
    | none => true

/-- The runs of a relation between abstract states, step after step. -/
def chainSteps (spec : τ → α → τ → Prop) : τ → List α → τ → Prop
  | t, [], t' => t' = t
  | t, a :: as, t' => ∃ mid, spec t a mid ∧ chainSteps spec mid as t'

/-- A run whose steps are all allowed goes through, keeps an invariant, and moves its abstraction as the relation
allows, when every allowed step from a state of the invariant does. -/
theorem runSteps_of_allowed {step : σ → α → Option σ} {allowed : σ → α → Bool} {spec : τ → α → τ → Prop}
    (P : σ → Prop) (view : σ → τ)
    (preserve : ∀ s a, P s → allowed s a = true → ∃ s', step s a = some s' ∧ P s' ∧ spec (view s) a (view s'))
    {s : σ} (holds : P s) {as : List α} (along : allowedAlong step allowed s as = true) :
    ∃ s', runSteps step s as = some s' ∧ P s' ∧ chainSteps spec (view s) as (view s') := by
  induction as generalizing s with
  | nil => exact ⟨s, rfl, holds, rfl⟩
  | cons a as ih =>
    simp only [allowedAlong, Bool.and_eq_true] at along
    obtain ⟨mid, stepped, midHolds, moved⟩ := preserve s a holds along.1
    rw [stepped] at along
    obtain ⟨s', run, holds', chain⟩ := ih midHolds along.2
    exact ⟨s', by rw [runSteps_cons, stepped, Option.bind_some, run], holds', view mid, moved, chain⟩

end Allowed

section Replies

variable {τ ρ : Type}

def runReplies (step : σ → α → Option (σ × ρ)) : σ → List α → Option (σ × List ρ)
  | s, [] => some (s, [])
  | s, a :: as => (step s a).bind fun (s', r) => (runReplies step s' as).map fun (s'', rs) => (s'', r :: rs)

def specReplies (spec : τ → α → τ × ρ) : τ → List α → τ × List ρ
  | t, [] => (t, [])
  | t, a :: as => ((specReplies spec (spec t a).1 as).1, (spec t a).2 :: (specReplies spec (spec t a).1 as).2)

theorem runReplies_refines (R : σ → τ → Prop) {step : σ → α → Option (σ × ρ)} {spec : τ → α → τ × ρ}
    (stepRefines : ∀ s t a, R s t → ∃ s', step s a = some (s', (spec t a).2) ∧ R s' (spec t a).1)
    {s : σ} {t : τ} (related : R s t) (as : List α) :
    ∃ s', runReplies step s as = some (s', (specReplies spec t as).2) ∧ R s' (specReplies spec t as).1 := by
  induction as generalizing s t with
  | nil => exact ⟨s, rfl, related⟩
  | cons a as ih =>
    obtain ⟨s₁, step₁, related₁⟩ := stepRefines s t a related
    obtain ⟨s₂, run, related₂⟩ := ih related₁
    exact ⟨s₂, by simp [runReplies, step₁, run, specReplies], related₂⟩

end Replies

section Loop

def loopWhile (step : σ → Option (Bool × σ)) : Nat → σ → Option σ
  | 0, _ => none
  | fuel + 1, s => (step s).bind fun r => if r.1 then loopWhile step fuel r.2 else some r.2

theorem loopWhile_spec {step : σ → Option (Bool × σ)} (inv post : σ → Prop) (measure : σ → Nat)
    (progress : ∀ s, inv s → ∃ more s', step s = some (more, s') ∧
      (more = true → inv s' ∧ measure s' < measure s) ∧ (more = false → post s'))
    {s : σ} (holds : inv s) {fuel : Nat} (enough : measure s < fuel) :
    ∃ s', loopWhile step fuel s = some s' ∧ post s' := by
  induction fuel generalizing s with
  | zero => omega
  | succ fuel ih =>
    obtain ⟨more, s', stepped, continues, stops⟩ := progress s holds
    cases more with
    | true =>
      obtain ⟨holds', lower⟩ := continues rfl
      simpa [loopWhile, stepped] using ih holds' (by omega)
    | false => exact ⟨s', by simp [loopWhile, stepped], stops rfl⟩

theorem foldl_range_invariant {f : σ → Nat → σ} (P : Nat → σ → Prop) {n : Nat} {s : σ} (base : P 0 s)
    (round : ∀ k t, k < n → P k t → P (k + 1) (f t k)) : P n ((List.range n).foldl f s) := by
  induction n with
  | zero => exact base
  | succ n ih =>
    rw [List.range_succ, List.foldl_append, List.foldl_cons, List.foldl_nil]
    exact round n _ (Nat.lt_succ_self n) (ih fun k t below => round k t (Nat.lt_succ_of_lt below))

theorem foldl_range'_invariant {f : σ → Nat → σ} (P : Nat → σ → Prop) {start n : Nat} {s : σ} (base : P start s)
    (round : ∀ k t, start ≤ k → k < start + n → P k t → P (k + 1) (f t k)) :
    P (start + n) ((List.range' start n).foldl f s) := by
  rw [List.range'_eq_map_range, List.foldl_map]
  exact foldl_range_invariant (fun k t => P (start + k) t) base
    fun k t below holds => round (start + k) t (by omega) (by omega) holds

end Loop

end Foundations
