import Kv.Foundations.Rounding

/-!
Random choice of distinct key-value pairs from a listpack, the sampling behind
HRANDFIELD and ZRANDMEMBER with a positive count (lpRandomPairsUnique and
lpNextRandom in listpack.c).
-/

namespace Kv.Listpack

open Foundations

structure Entries (α : Type) where
  entries : List α
  fits : entries.length < 2 ^ 32

variable {α : Type}

def lpLength (lp : Entries α) : Nat :=
  lp.entries.length

def lpFirst (lp : Entries α) : Option Nat :=
  if 0 < lpLength lp then some 0 else none

def lpNext (lp : Entries α) (p : Nat) : Option Nat :=
  if p + 1 < lpLength lp then some (p + 1) else none

def randMax : Nat :=
  2147483647

def lpNextRandomLoop (lp : Entries α) (remaining : Nat) (evenOnly : Bool) (rand : Nat → Nat) :
    Nat → Option Nat → Nat → Nat → Option (Nat × Nat) × Nat
  | 0, _, _, draws => (none, draws)
  | _ + 1, none, _, draws => (none, draws)
  | fuel + 1, some p, i, draws =>
    if evenOnly && i % 2 != 0 then
      lpNextRandomLoop lp remaining evenOnly rand fuel (lpNext lp p) (i + 1) draws
    else
      let available := if evenOnly then (lpLength lp - i) / 2 else lpLength lp - i
      let randomDouble := Binary64.div (Binary64.ofNat (rand draws)) (Binary64.ofNat randMax)
      let threshold := Binary64.div (Binary64.ofNat remaining) (Binary64.ofNat available)
      if Binary64.ble randomDouble threshold then (some (p, i), draws + 1)
      else lpNextRandomLoop lp remaining evenOnly rand fuel (lpNext lp p) (i + 1) (draws + 1)

/-- lpNextRandom: the entry to pick from p on, the new *index (left as it was
when NULL is returned), and the draws of rand() made. -/
def lpNextRandom (lp : Entries α) (p : Option Nat) (index remaining : Nat) (evenOnly : Bool)
    (rand : Nat → Nat) (draws : Nat) : Option Nat × Nat × Nat :=
  match lpNextRandomLoop lp remaining evenOnly rand (lpLength lp - index) p index draws with
  | (some (p, i), draws) => (some p, i, draws)
  | (none, draws) => (none, index, draws)

structure Pick (α : Type) where
  index : Nat
  key : α
  val : α

def lpRandomPairsUniqueLoop [Inhabited α] (lp : Entries α) (rand : Nat → Nat) :
    Nat → Option Nat → Nat → Nat → Nat → Nat → Option (List (Pick α) × Nat)
  | 0, _, _, picked, _, _ => some ([], picked)
  | _ + 1, none, _, picked, _, _ => some ([], picked)
  | fuel + 1, some p, index, picked, remaining, draws =>
    match lpNextRandom lp (some p) index remaining true rand draws with
    | (none, _, _) => none
    | (some p, index, draws) =>
      let key := lp.entries.getD p default
      match lpNext lp p with
      | none => none
      | some q =>
        let val := lp.entries.getD q default
        -- index is stepped once past the key and once past the value
        match lpRandomPairsUniqueLoop lp rand fuel (lpNext lp q) (index + 2) (picked + 1)
            (remaining - 1) draws with
        | none => none
        | some (picks, total) => some (⟨index, key, val⟩ :: picks, total)

/-- lpRandomPairsUnique on a stream of rand() results: count is cut down to the
number of pairs, and the result is the picks and the returned count. -/
def lpRandomPairsUnique [Inhabited α] (lp : Entries α) (count : Nat) (rand : Nat → Nat) :
    Option (List (Pick α) × Nat) :=
  let totalSize := lpLength lp / 2
  let count := if count > totalSize then totalSize else count
  lpRandomPairsUniqueLoop lp rand count (lpFirst lp) 0 0 count 0

def Pick.IsPair (lp : Entries α) (pick : Pick α) : Prop :=
  pick.index % 2 = 0 ∧ lp.entries[pick.index]? = some pick.key ∧
    lp.entries[pick.index + 1]? = some pick.val

section Pointers

def ptr (lp : Entries α) (i : Nat) : Option Nat :=
  if i < lpLength lp then some i else none

theorem lpFirst_eq_ptr (lp : Entries α) : lpFirst lp = ptr lp 0 := rfl

theorem lpNext_eq_ptr (lp : Entries α) (p : Nat) : lpNext lp p = ptr lp (p + 1) := rfl

theorem ptr_of_lt {lp : Entries α} {i : Nat} (inside : i < lpLength lp) : ptr lp i = some i :=
  if_pos inside

theorem getElem?_getD [Inhabited α] {lp : Entries α} {i : Nat} (inside : i < lpLength lp) :
    lp.entries[i]? = some (lp.entries.getD i default) := by
  simp [lpLength] at inside
  simp [List.getD_eq_getElem?_getD, inside]

end Pointers

theorem forced_pick {r : Nat} (drawn : r ≤ randMax) {available : Nat} (pos : 0 < available)
    (small : available < 2 ^ 53) :
    Binary64.ble (Binary64.div (Binary64.ofNat r) (Binary64.ofNat randMax))
      (Binary64.div (Binary64.ofNat available) (Binary64.ofNat available)) = true :=
  Binary64.ble_div_ofNat drawn (le_refl _) (by decide) pos (by decide) small

section Selection

/-! The invariant of both loops: the pairs still to be picked never outnumber the
pairs left from the current index, of which there are (n - i) / 2 for an even
number n of entries, whether i is even or odd. -/

variable {lp : Entries α} (even : lpLength lp % 2 = 0) {rand : Nat → Nat}
  (inRange : ∀ k, rand k ≤ randMax)

include even inRange in
theorem lpNextRandomLoop_even {remaining : Nat} (pos : 0 < remaining) :
    ∀ fuel i draws, fuel = lpLength lp - i → remaining ≤ (lpLength lp - i) / 2 →
      ∃ j draws', lpNextRandomLoop lp remaining true rand fuel (ptr lp i) i draws = (some (j, j), draws') ∧
        i ≤ j ∧ j % 2 = 0 ∧ remaining ≤ (lpLength lp - j) / 2 := by
  have bounded : lpLength lp < 2 ^ 32 := lp.fits
  intro fuel
  -- one entry per turn: the fuel is the number of entries left
  induction fuel with
  | zero =>
    intro i draws left enough
    omega
  | succ fuel ih =>
    intro i draws left enough
    rw [ptr_of_lt (by omega)]
    simp only [lpNextRandomLoop, Bool.true_and, lpNext_eq_ptr]
    by_cases odd : i % 2 = 1
    · -- an odd index is stepped over, and it leaves as many pairs as i + 1
      rw [if_pos (by simp [odd])]
      obtain ⟨j, draws', run, after, jEven, jLeft⟩ := ih (i + 1) draws (by omega) (by omega)
      exact ⟨j, draws', run, by omega, jEven, jLeft⟩
    · rw [if_neg (by simp [show i % 2 = 0 by omega])]
      simp only [if_true]
      by_cases pick : Binary64.ble (Binary64.div (Binary64.ofNat (rand draws)) (Binary64.ofNat randMax))
          (Binary64.div (Binary64.ofNat remaining) (Binary64.ofNat ((lpLength lp - i) / 2))) = true
      · exact ⟨i, draws + 1, by rw [if_pos pick], le_refl _, by omega, enough⟩
      · -- no pick: so fewer pairs remain than are left, one fewer from i + 1 on
        have fewer : remaining < (lpLength lp - i) / 2 := by
          refine Nat.lt_of_le_of_ne enough fun same => pick ?_
          rw [same]
          exact forced_pick (inRange draws) (by omega) (by omega)
        rw [if_neg pick]
        obtain ⟨j, draws', run, after, jEven, jLeft⟩ := ih (i + 1) (draws + 1) (by omega) (by omega)
        exact ⟨j, draws', run, by omega, jEven, jLeft⟩

include even inRange in
theorem lpNextRandom_even {remaining i : Nat} (pos : 0 < remaining)
    (enough : remaining ≤ (lpLength lp - i) / 2) (draws : Nat) :
    ∃ j draws', lpNextRandom lp (ptr lp i) i remaining true rand draws = (some j, j, draws') ∧
      i ≤ j ∧ j % 2 = 0 ∧ remaining ≤ (lpLength lp - j) / 2 := by
  obtain ⟨j, draws', run, after, jEven, jLeft⟩ :=
    lpNextRandomLoop_even even inRange pos (lpLength lp - i) i draws rfl enough
  exact ⟨j, draws', by simp only [lpNextRandom, run], after, jEven, jLeft⟩

include even inRange in
theorem lpRandomPairsUniqueLoop_picks [Inhabited α] :
    ∀ fuel i picked draws, i % 2 = 0 → fuel ≤ (lpLength lp - i) / 2 →
      ∃ picks, lpRandomPairsUniqueLoop lp rand fuel (ptr lp i) i picked fuel draws =
          some (picks, picked + fuel) ∧
        picks.length = fuel ∧ (picks.map Pick.index).Pairwise (· < ·) ∧
        ∀ pick ∈ picks, i ≤ pick.index ∧ pick.IsPair lp := by
  intro fuel
  induction fuel with
  | zero =>
    intro i picked draws _ _
    cases ptr lp i <;> exact ⟨[], rfl, rfl, List.Pairwise.nil, by simp⟩
  | succ fuel ih =>
    intro i picked draws iEven enough
    obtain ⟨j, draws', next, after, jEven, jLeft⟩ :=
      lpNextRandom_even even inRange (Nat.succ_pos fuel) enough draws
    -- the value entry after the key exists, as a pair is left from j
    have keyInside : j < lpLength lp := by omega
    have valInside : j + 1 < lpLength lp := by omega
    obtain ⟨picks, run, count, sorted, pairs⟩ :=
      ih (j + 2) (picked + 1) draws' (by omega) (by omega)
    refine ⟨⟨j, lp.entries.getD j default, lp.entries.getD (j + 1) default⟩ :: picks, ?_, ?_, ?_, ?_⟩
    · rw [ptr_of_lt (by omega)]
      rw [ptr_of_lt (by omega)] at next
      simp only [lpRandomPairsUniqueLoop, next, lpNext_eq_ptr, ptr_of_lt valInside, Nat.add_sub_cancel]
      rw [run, show picked + 1 + fuel = picked + (fuel + 1) by omega]
    · simp [count]
    · refine List.pairwise_cons.mpr ⟨?_, sorted⟩
      intro index member
      obtain ⟨pick, inPicks, rfl⟩ := List.mem_map.mp member
      have later := (pairs pick inPicks).1
      show j < pick.index
      omega
    · intro pick member
      rcases List.mem_cons.mp member with rfl | inPicks
      · exact ⟨after, jEven, getElem?_getD keyInside, getElem?_getD valInside⟩
      · exact ⟨by have := (pairs pick inPicks).1; omega, (pairs pick inPicks).2⟩

end Selection

theorem lpRandomPairsUnique_pairs [Inhabited α] (lp : Entries α) (even : lpLength lp % 2 = 0)
    (count : Nat) (rand : Nat → Nat) (inRange : ∀ k, rand k ≤ randMax) :
    ∃ picks, lpRandomPairsUnique lp count rand = some (picks, min count (lpLength lp / 2)) ∧
      picks.length = min count (lpLength lp / 2) ∧ (picks.map Pick.index).Pairwise (· < ·) ∧
      ∀ pick ∈ picks, pick.IsPair lp := by
  have clamped : (if count > lpLength lp / 2 then lpLength lp / 2 else count) = min count (lpLength lp / 2) := by
    split <;> omega
  obtain ⟨picks, run, length, sorted, pairs⟩ :=
    lpRandomPairsUniqueLoop_picks even inRange (min count (lpLength lp / 2)) 0 0 0 rfl (by omega)
  refine ⟨picks, ?_, length, sorted, fun pick member => (pairs pick member).2⟩
  simp only [lpRandomPairsUnique, clamped, lpFirst_eq_ptr, run, Nat.zero_add]

theorem lpRandomPairsUnique_pairs_four :
    let lp : Entries Nat := ⟨[10, 11, 12, 13], by decide⟩
    lpLength lp % 2 = 0 ∧ (∀ k, (fun _ => 0 : Nat → Nat) k ≤ randMax) ∧
      ∃ picks, lpRandomPairsUnique lp 5 (fun _ => 0) = some (picks, min 5 (lpLength lp / 2)) ∧
        picks.length = min 5 (lpLength lp / 2) ∧ (picks.map Pick.index).Pairwise (· < ·) ∧
        ∀ pick ∈ picks, pick.IsPair lp := by
  intro lp
  have even : lpLength lp % 2 = 0 := by decide
  have inRange : ∀ k, (fun _ => 0 : Nat → Nat) k ≤ randMax := fun _ => Nat.zero_le _
  exact ⟨even, inRange, lpRandomPairsUnique_pairs lp even 5 (fun _ => 0) inRange⟩

end Kv.Listpack
