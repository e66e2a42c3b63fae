import Kv.Hashtable.Rehash

/-!
Resizing: `resize` allocates table 1 and starts (or at once completes) a
rehash, and the functions that decide when to call it. All of them keep
`Valid` and the content; after `hashtableExpandIfNeeded` the table that the
next insertion goes to is allocated.
-/

set_option linter.dupNamespace false

namespace Kv.Hashtable

open Foundations

variable {α κ : Type}

theorem nextBucketExp_bounds {minCapacity : Nat} (h : minCapacity ≠ 0) :
    0 ≤ nextBucketExp minCapacity ∧ nextBucketExp minCapacity ≤ 63 := by
  simp only [nextBucketExp, h, if_false]
  split
  · omega
  · split
    · omega
    · -- the bit length of a number below 2 ^ 63
      have small : ((minCapacity * bucketFactor % 2 ^ 64 - 1) / bucketDivisor + 1 - 1).log2 < 63 := by
        rcases Nat.eq_zero_or_pos ((minCapacity * bucketFactor % 2 ^ 64 - 1) / bucketDivisor + 1 - 1)
          with zero | pos
        · rw [zero]
          decide
        · exact (Nat.log2_lt pos.ne').mpr (by omega)
      omega

theorem numBuckets_of_nonneg {exp : Int} (h : 0 ≤ exp) : numBuckets exp = 2 ^ exp.toNat := by
  have ne : exp ≠ -1 := by omega
  simp [numBuckets, ne]

theorem nextBucketExp_least {minCapacity : Nat} (pos : 0 < minCapacity)
    (noWrap : minCapacity * bucketFactor < 2 ^ 64) :
    (minCapacity * bucketFactor + bucketDivisor - 1) / bucketDivisor ≤ numBuckets (nextBucketExp minCapacity) ∧
      ∀ k, (minCapacity * bucketFactor + bucketDivisor - 1) / bucketDivisor ≤ 2 ^ k →
        numBuckets (nextBucketExp minCapacity) ≤ 2 ^ k := by
  -- ceil(x / y) = floor((x - 1) / y) + 1, as the source computes it
  have ceil : (minCapacity * bucketFactor + bucketDivisor - 1) / bucketDivisor =
      (minCapacity * bucketFactor % 2 ^ 64 - 1) / bucketDivisor + 1 := by
    rw [Nat.mod_eq_of_lt noWrap]
    simp only [bucketFactor, bucketDivisor]
    omega
  rw [ceil]
  unfold nextBucketExp
  simp only [Nat.pos_iff_ne_zero.mp pos, if_false]
  have atLeastOne : 1 ≤ (minCapacity * bucketFactor % 2 ^ 64 - 1) / bucketDivisor + 1 := Nat.le_add_left 1 _
  generalize (minCapacity * bucketFactor % 2 ^ 64 - 1) / bucketDivisor + 1 = minBuckets at *
  split_ifs with huge one
  · -- a product below 2 ^ 64 asks for at most 2 ^ 59 + 1 buckets
    simp only [bucketFactor, bucketDivisor] at huge ceil noWrap
    omega
  · subst one
    exact ⟨by decide, fun k _ => Nat.one_le_two_pow⟩
  · have atLeast : minBuckets - 1 < 2 ^ ((minBuckets - 1).log2 + 1) := Nat.lt_log2_self
    rw [numBuckets_of_nonneg (by omega), Int.toNat_natCast]
    refine ⟨by omega, fun k enough => Nat.pow_le_pow_right (by decide) ?_⟩
    have below : (minBuckets - 1).log2 < k := (Nat.log2_lt (by omega)).mpr (by omega)
    omega

theorem resize_checks_fit {exp : Int} (lo : 0 ≤ exp) {minCapacity : Nat}
    (capacity : minCapacity ≤ numBuckets exp * entriesPerBucket % 2 ^ 64)
    (size : numBuckets exp ≤ numBuckets exp * bucketSize % 2 ^ 64) :
    minCapacity ≤ numBuckets exp * entriesPerBucket ∧ numBuckets exp * bucketSize < 2 ^ 64 := by
  refine ⟨capacity.trans (Nat.mod_le _ _), ?_⟩
  rw [numBuckets_of_nonneg lo] at size ⊢
  by_contra wraps
  -- 2 ^ exp * 64 is a power of two, so past 2 ^ 64 it is a multiple of it and wraps to 0
  have multiple : 2 ^ 64 ∣ 2 ^ exp.toNat * bucketSize := by
    rw [show bucketSize = 2 ^ 6 from rfl, ← Nat.pow_add]
    refine Nat.pow_dvd_pow 2 ?_
    have : 2 ^ 64 ≤ 2 ^ (exp.toNat + 6) := by
      rw [Nat.pow_add]
      exact Nat.le_of_not_lt wraps
    exact (Nat.pow_le_pow_iff_right (by decide)).mp this
  rw [Nat.mod_eq_zero_of_dvd multiple] at size
  exact absurd size (Nat.not_le.mpr (Nat.two_pow_pos _))

def Ready (ht : Hashtable α) : Prop :=
  ht.isRehashing = true ∨ (ht.tables 0).buckets.isSome

variable {T : HashtableType α κ}

theorem TableValid.fresh [Inhabited α] {exp : Int} (lo : 0 ≤ exp) (hi : exp ≤ 63) {u : Table α}
    (buckets : u.buckets = some (List.replicate (numBuckets exp) [emptyBucket])) (hexp : u.exp = exp)
    (used : u.used = 0) (child : u.childBuckets = 0) :
    TableValid T u ∧ tableContent u = 0 := by
  have emptyContent : (emptyBucket : Bucket α).content = 0 := (Bucket.content_eq_zero_iff _).mpr rfl
  have each : ∀ c ∈ List.replicate (numBuckets exp) [(emptyBucket : Bucket α)], c = [emptyBucket] :=
    fun c mem => List.eq_of_mem_replicate mem
  have nothing : tableContent u = 0 := by
    simp [tableContent, buckets, emptyContent]
  refine ⟨⟨fun h => by simp [buckets] at h, ?_, ?_, by simp [used, nothing], ?_, ?_⟩, nothing⟩
  · intro bs h
    rw [buckets] at h
    cases h
    simp [hexp, lo, hi, numBuckets_of_nonneg lo]
  · intro bs h c mem
    rw [buckets] at h
    cases h
    rw [each c mem]
    exact chainWF_singleton rfl
  · simp [childCount, buckets, child]
  · intro idx x mem
    have empty : chainContent (u.chain idx) = 0 := by
      simp only [Table.chain, buckets, Option.getD_some, List.getElem?_replicate]
      split <;> simp [emptyContent]
    rw [empty] at mem
    simp at mem

theorem resizeAllowedRefuses_zero (allocSize minCapacity : Nat) :
    resizeAllowedRefuses T allocSize minCapacity 0 = false := by
  unfold resizeAllowedRefuses
  cases T.resizeAllowed <;> simp

theorem Advanced.ready {ht ht' : Hashtable α} (advanced : Advanced T ht ht') (valid : Valid T ht)
    (rehashing : ht.isRehashing = true) : Ready ht' := by
  rcases advanced.progress with ⟨-, alloc⟩ | ⟨later, -, -⟩
  · exact .inr alloc
  · -- rehash_idx only grows from a value that is at least 0
    have nonneg := (valid.rehashing (by simpa [Hashtable.isRehashing] using rehashing)).idx_nonneg
    left
    simp only [Hashtable.isRehashing, bne_iff_ne, ne_eq]
    omega

section Resize

variable [Inhabited α]

theorem resizeAllocated_spec {ht : Hashtable α} (valid : Valid T ht) (idle : ht.isRehashing = false)
    {exp : Int} (lo : 0 ≤ exp) (hi : exp ≤ 63) :
    ∃ ht', resizeAllocated T ht exp = some ht' ∧ Preserved T ht ht' ∧ Ready ht' := by
  have none1 := valid.idle (by simpa [Hashtable.isRehashing] using idle)
  -- table 1 is unallocated, so it holds nothing and has no child buckets
  have empty1 : tableContent (ht.tables 1) = 0 := by simp [tableContent, none1]
  have noChild1 : (ht.tables 1).childBuckets = 0 := by
    rw [valid.table1.childBuckets]
    simp [childCount, none1]
  let ht₁ : Hashtable α := { ht.modifyTable 1 fun t =>
      { t with buckets := some (List.replicate (numBuckets exp) [emptyBucket]), exp := exp, used := 0 } with
    rehashIdx := 0 }
  have unfold : resizeAllocated T ht exp =
      if (ht₁.tables 0).buckets.isNone || ((ht₁.tables 0).used == 0 && (ht₁.tables 0).childBuckets == 0) then
        some (rehashingCompleted ht₁)
      else if T.instantRehashing then rehashUntilDone T (numBuckets (ht₁.tables 0).exp) ht₁
      else some ht₁ := rfl
  have tables0 : ht₁.tables 0 = ht.tables 0 := by
    simp [ht₁, Hashtable.modifyTable_tables]
  obtain ⟨fresh, freshContent⟩ := TableValid.fresh (T := T) lo hi (u := ht₁.tables 1)
    (by simp [ht₁]) (by simp [ht₁]) (by simp [ht₁]) (by simp [ht₁, noChild1])
  have sameContent : htContent ht₁ = htContent ht := by
    rw [htContent, htContent, tables0, freshContent, empty1]
  rw [unfold, tables0]
  by_cases done : ((ht.tables 0).buckets.isNone || ((ht.tables 0).used == 0 && (ht.tables 0).childBuckets == 0)) = true
  · -- nothing to move: the new table becomes table 0 at once
    rw [if_pos done]
    obtain ⟨valid', content'⟩ := rehashingCompleted_valid fresh
    have empty0 : tableContent (ht.tables 0) = 0 := by
      simp only [Bool.or_eq_true, Bool.and_eq_true, beq_iff_eq, Option.isNone_iff_eq_none] at done
      rcases done with unallocated | ⟨used, -⟩
      · simp [tableContent, unallocated]
      · have counted := valid.table0.used
        rw [used] at counted
        exact Multiset.card_eq_zero.mp counted.symm
    refine ⟨_, rfl, ⟨valid', ?_, rfl, rfl⟩, .inr ?_⟩
    · rw [content', freshContent, htContent, empty0, empty1, add_zero]
    · simp [ht₁]
  · rw [if_neg done]
    have alloc0 : (ht.tables 0).buckets.isSome := by
      cases h : (ht.tables 0).buckets
      · simp [h] at done
      · rfl
    obtain ⟨bs, alloc⟩ := Option.isSome_iff_exists.mp alloc0
    have nonempty : 0 < bs.length := by
      rw [(valid.table0.allocated bs alloc).2.2]
      exact Nat.two_pow_pos _
    -- the rehash starts at bucket 0 of the old table
    have valid₁ : Valid T ht₁ := by
      refine ⟨tables0 ▸ valid.table0, fresh, fun h => absurd h (by simp [ht₁]), fun _ => ?_⟩
      refine ⟨le_refl _, ?_, tables0 ▸ alloc0, by simp [ht₁], fun i hi => absurd hi (by simp [ht₁])⟩
      rw [tables0, valid.table0.numBuckets_eq alloc]
      simpa [ht₁] using nonempty
    have rehashing₁ : ht₁.isRehashing = true := by simp [ht₁, Hashtable.isRehashing]
    have started : Preserved T ht ht₁ := ⟨valid₁, sameContent, rfl, rfl⟩
    by_cases instant : T.instantRehashing = true
    · rw [if_pos instant]
      obtain ⟨ht', run, advanced, finished⟩ :=
        rehashUntilDone_spec (numBuckets (ht.tables 0).exp) valid₁ rehashing₁ (by rw [tables0]; simp [ht₁])
      refine ⟨ht', run, started.trans advanced.preserved, ?_⟩
      rcases advanced.progress with ⟨-, alloc'⟩ | ⟨later, -, -⟩
      · exact .inr alloc'
      · -- a finished rehash has rehash_idx at -1, below where it started
        simp only [Hashtable.isRehashing, bne_eq_false_iff_eq] at finished
        simp only [ht₁, finished] at later
        omega
    · rw [if_neg instant]
      exact ⟨ht₁, rfl, started, .inl rehashing₁⟩

theorem resize_spec (policy : ResizePolicy) {ht : Hashtable α} (valid : Valid T ht)
    (idle : ht.isRehashing = false) (minCapacity : Nat) (alloc : Option Bool) :
    ∃ r, resize T policy ht minCapacity alloc = some r ∧ Preserved T ht r.ht ∧ (r.ht = ht ∨ Ready r.ht) := by
  have positive : (if minCapacity = 0 then 1 else minCapacity) ≠ 0 := by split <;> omega
  have bounds := nextBucketExp_bounds positive
  obtain ⟨ht', allocated, preserved, ready⟩ := resizeAllocated_spec valid idle bounds.1 bounds.2
  dsimp only [resize]
  rw [if_neg (by simp [idle])]
  generalize (if minCapacity = 0 then 1 else minCapacity) = m at allocated ⊢
  -- every check either refuses, leaving the table as it is, or lets the allocation through
  split_ifs
  all_goals first
    | exact ⟨_, rfl, Preserved.refl valid, .inl rfl⟩
    | exact ⟨_, by rw [allocated]; rfl, preserved, .inr ready⟩

theorem resize_unallocated (policy : ResizePolicy) {ht : Hashtable α} (idle : ht.isRehashing = false)
    (unallocated : (ht.tables 0).buckets = none) (exp : (ht.tables 0).exp = -1) :
    resize T policy ht 1 none = (resizeAllocated T ht 0).map fun ht => ⟨true, false, ht⟩ := by
  have one : nextBucketExp 1 = 0 := by decide
  simp [resize, idle, one, exp, unallocated, numBuckets, resizeAllowedRefuses_zero, entriesPerBucket, bucketSize]

structure SizedFor (T : HashtableType α κ) (ht : Hashtable α) (minCapacity : Nat) (r : Resized α) : Prop where
  allocated : ∃ ht', resizeAllocated T ht (nextBucketExp (max minCapacity 1)) = some ht' ∧ r.ht = ht'
  holds : max minCapacity 1 ≤ numBuckets (nextBucketExp (max minCapacity 1)) * entriesPerBucket
  noWrap : numBuckets (nextBucketExp (max minCapacity 1)) * bucketSize < 2 ^ 64
  least : max minCapacity 1 * bucketFactor < 2 ^ 64 →
    (max minCapacity 1 * bucketFactor + bucketDivisor - 1) / bucketDivisor ≤
        numBuckets (nextBucketExp (max minCapacity 1)) ∧
      ∀ k, (max minCapacity 1 * bucketFactor + bucketDivisor - 1) / bucketDivisor ≤ 2 ^ k →
        numBuckets (nextBucketExp (max minCapacity 1)) ≤ 2 ^ k

/-- The sizing of resize, for every min_capacity: it refuses and leaves the table as it was, or it
allocates the table its size computations ask for, and then that table is large enough, its size
in bytes did not wrap, and it is the least power of two the bucket factor asks for. -/
theorem resize_sizing (policy : ResizePolicy) {ht : Hashtable α} (valid : Valid T ht)
    (idle : ht.isRehashing = false) (minCapacity : Nat) (alloc : Option Bool) :
    ∃ r, resize T policy ht minCapacity alloc = some r ∧
      ((r.resized = false ∧ r.ht = ht) ∨ (r.resized = true ∧ SizedFor T ht minCapacity r)) := by
  have atLeastOne : (if minCapacity = 0 then 1 else minCapacity) = max minCapacity 1 := by
    split <;> omega
  have bounds := nextBucketExp_bounds (show max minCapacity 1 ≠ 0 by omega)
  obtain ⟨ht', allocated, -, -⟩ := resizeAllocated_spec valid idle bounds.1 bounds.2
  dsimp only [resize]
  rw [if_neg (by simp [idle]), atLeastOne]
  split_ifs with overflow
  -- every refusal returns the table untouched
  all_goals try exact ⟨_, rfl, .inl ⟨rfl, rfl⟩⟩
  -- the allocation: the overflow checks passed
  simp only [Bool.or_eq_true, decide_eq_true_eq, not_or, Nat.not_lt] at overflow
  obtain ⟨holds, noWrap⟩ := resize_checks_fit bounds.1 overflow.1 overflow.2
  refine ⟨_, by rw [allocated]; rfl, .inr ⟨rfl, ⟨ht', allocated, rfl⟩, holds, noWrap, ?_⟩⟩
  exact nextBucketExp_least (by omega)

theorem resize_sizing_create :
    let T : HashtableType Nat Nat := ⟨id, fun k => k.toUInt64, fun k k' => if k = k' then 0 else 1, none, none, false⟩
    Valid T hashtableCreate ∧ (hashtableCreate : Hashtable Nat).isRehashing = false ∧
      ∃ r, resize T .allow hashtableCreate (2 ^ 64 - 1) none = some r ∧
        ((r.resized = false ∧ r.ht = hashtableCreate) ∨
          (r.resized = true ∧ SizedFor T hashtableCreate (2 ^ 64 - 1) r)) := by
  intro T
  have valid : Valid T hashtableCreate :=
    ⟨resetTable_valid, resetTable_valid, fun _ => rfl, fun rehashing => absurd rfl rehashing⟩
  exact ⟨valid, rfl, resize_sizing .allow valid rfl (2 ^ 64 - 1) none⟩

theorem hashtableExpandIfNeeded_spec (policy : ResizePolicy) {ht : Hashtable α} (valid : Valid T ht) :
    ∃ resized ht', hashtableExpandIfNeeded T policy ht = some (resized, ht') ∧ Preserved T ht ht' ∧
      Ready ht' := by
  by_cases rehashing : ht.isRehashing = true
  · exact ⟨false, ht, by simp [hashtableExpandIfNeeded, rehashing], Preserved.refl valid, .inl rehashing⟩
  have idle : ht.isRehashing = false := by simpa using rehashing
  simp only [hashtableExpandIfNeeded, idle, Bool.false_eq_true, if_false]
  generalize (if policy = .allow then maxFillPercentSoft else maxFillPercentHard) = maxFill
  split_ifs with roomy
  · -- the table has room, so it has buckets
    refine ⟨false, ht, rfl, Preserved.refl valid, .inr ?_⟩
    cases h : (ht.tables 0).buckets
    · have exp := valid.table0.unallocated h
      simp [numBuckets, exp] at roomy
    · rfl
  · cases h : (ht.tables 0).buckets
    · -- nothing allocated yet: one entry is asked for and the first table is allocated
      have none1 := valid.idle (by simpa [Hashtable.isRehashing] using idle)
      have used0 : (ht.tables 0).used = 0 := by rw [valid.table0.used]; simp [tableContent, h]
      have used1 : (ht.tables 1).used = 0 := by rw [valid.table1.used]; simp [tableContent, none1]
      obtain ⟨ht', allocated, preserved, ready⟩ := resizeAllocated_spec valid idle (le_refl 0) (by decide)
      refine ⟨true, ht', ?_, preserved, ready⟩
      rw [used0, used1, resize_unallocated policy idle h (valid.table0.unallocated h), allocated]
      rfl
    · obtain ⟨r, resized, preserved, same | ready⟩ := resize_spec policy valid idle _ none
      · refine ⟨r.resized, r.ht, by rw [resized]; rfl, preserved, .inr ?_⟩
        rw [same, h]
        rfl
      · exact ⟨r.resized, r.ht, by rw [resized]; rfl, preserved, ready⟩

theorem rehashStepOnReadIfNeeded_spec (policy : ResizePolicy) {ht : Hashtable α} (valid : Valid T ht) :
    ∃ ht', rehashStepOnReadIfNeeded T policy ht = some ht' ∧ Preserved T ht ht' ∧ (Ready ht → Ready ht') := by
  unfold rehashStepOnReadIfNeeded
  split
  · exact ⟨ht, rfl, Preserved.refl valid, id⟩
  · rename_i busy
    have rehashing : ht.isRehashing = true := by simp_all
    split
    · exact ⟨ht, rfl, Preserved.refl valid, id⟩
    · obtain ⟨ht', step, advanced⟩ := rehashStep_spec valid rehashing
      exact ⟨ht', step, advanced.preserved, fun _ => advanced.ready valid rehashing⟩

theorem rehashStepOnWriteIfNeeded_spec (policy : ResizePolicy) {ht : Hashtable α} (valid : Valid T ht) :
    ∃ ht', rehashStepOnWriteIfNeeded T policy ht = some ht' ∧ Preserved T ht ht' ∧ (Ready ht → Ready ht') := by
  unfold rehashStepOnWriteIfNeeded
  split
  · exact ⟨ht, rfl, Preserved.refl valid, id⟩
  · rename_i busy
    have rehashing : ht.isRehashing = true := by simp_all
    split
    · exact ⟨ht, rfl, Preserved.refl valid, id⟩
    · obtain ⟨ht', step, advanced⟩ := rehashStep_spec valid rehashing
      exact ⟨ht', step, advanced.preserved, fun _ => advanced.ready valid rehashing⟩

theorem expand_spec (policy : ResizePolicy) {ht : Hashtable α} (valid : Valid T ht) (size : Nat)
    (alloc : Option Bool) :
    ∃ r, expand T policy ht size alloc = some r ∧ Preserved T ht r.ht ∧ (Ready ht → Ready r.ht) := by
  unfold expand
  split
  · exact ⟨_, rfl, Preserved.refl valid, id⟩
  · rename_i grow
    have idle : ht.isRehashing = false := by simp_all
    obtain ⟨r, resized, preserved, same | ready⟩ := resize_spec policy valid idle size alloc
    · exact ⟨r, resized, preserved, fun h => same ▸ h⟩
    · exact ⟨r, resized, preserved, fun _ => ready⟩

theorem hashtableExpand_spec (policy : ResizePolicy) {ht : Hashtable α} (valid : Valid T ht) (size : Nat) :
    ∃ expanded ht', hashtableExpand T policy ht size = some (expanded, ht') ∧ Preserved T ht ht' ∧
      (Ready ht → Ready ht') := by
  obtain ⟨r, expanded, preserved, ready⟩ := expand_spec policy valid size none
  exact ⟨r.resized, r.ht, by simp [hashtableExpand, expanded], preserved, ready⟩

theorem hashtableTryExpand_spec (policy : ResizePolicy) {ht : Hashtable α} (valid : Valid T ht) (size : Nat)
    (allocOk : Bool) :
    ∃ expanded ht', hashtableTryExpand T policy ht size allocOk = some (expanded, ht') ∧
      Preserved T ht ht' ∧ (Ready ht → Ready ht') := by
  obtain ⟨r, expanded, preserved, ready⟩ := expand_spec policy valid size (some allocOk)
  exact ⟨r.resized || !r.mallocFailed, r.ht, by simp [hashtableTryExpand, expanded], preserved, ready⟩

theorem hashtableShrinkIfNeeded_spec (policy : ResizePolicy) {ht : Hashtable α} (valid : Valid T ht) :
    ∃ shrunk ht', hashtableShrinkIfNeeded T policy ht = some (shrunk, ht') ∧ Preserved T ht ht' ∧
      (Ready ht → Ready ht') := by
  unfold hashtableShrinkIfNeeded
  split
  · exact ⟨false, ht, rfl, Preserved.refl valid, id⟩
  · rename_i settled
    have idle : ht.isRehashing = false := by simp_all
    dsimp only
    generalize (if policy = .allow then minFillPercentSoft else minFillPercentHard) = minFill
    split
    · exact ⟨false, ht, rfl, Preserved.refl valid, id⟩
    · obtain ⟨r, resized, preserved, same | ready⟩ := resize_spec policy valid idle (ht.tables 0).used none
      · exact ⟨r.resized, r.ht, by rw [resized]; rfl, preserved, fun h => same ▸ h⟩
      · exact ⟨r.resized, r.ht, by rw [resized]; rfl, preserved, fun _ => ready⟩

theorem hashtableRightsizeIfNeeded_spec (policy : ResizePolicy) {ht : Hashtable α} (valid : Valid T ht) :
    ∃ changed ht', hashtableRightsizeIfNeeded T policy ht = some (changed, ht') ∧ Preserved T ht ht' ∧
      (Ready ht → Ready ht') := by
  obtain ⟨shrunk, ht₁, shrink, preserved₁, ready₁⟩ := hashtableShrinkIfNeeded_spec policy valid
  cases shrunk
  · obtain ⟨expanded, ht₂, grow, preserved₂, ready₂⟩ := hashtableExpandIfNeeded_spec policy preserved₁.valid
    exact ⟨expanded, ht₂, by simp [hashtableRightsizeIfNeeded, shrink, grow], preserved₁.trans preserved₂,
      fun _ => ready₂⟩
  · exact ⟨true, ht₁, by simp [hashtableRightsizeIfNeeded, shrink], preserved₁, ready₁⟩

end Resize

end Kv.Hashtable
