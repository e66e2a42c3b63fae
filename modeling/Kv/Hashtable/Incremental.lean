import Kv.Hashtable.Find
import Kv.Foundations.Run

/-!
The incremental find of `hashtable.c`: a lookup cut into steps, so that a
caller can interleave the memory accesses of many lookups. The search walks
the chain of the key in table 0, unless the rehash has moved that chain
already, and then, while a rehash is going on, the chain of the key in table 1.
-/

set_option linter.dupNamespace false

namespace Kv.Hashtable

open Foundations

variable {α κ : Type} (T : HashtableType α κ)

theorem incrementalFindRun_eq_loopWhile (ht : Hashtable α) (fuel : Nat) (d : IncrementalFind κ) :
    incrementalFindRun T ht fuel d = loopWhile (hashtableIncrementalFindStep T ht) fuel d := by
  induction fuel generalizing d with
  | zero => rfl
  | succ fuel ih =>
    simp only [incrementalFindRun, loopWhile]
    cases hashtableIncrementalFindStep T ht d with
    | none => rfl
    | some r =>
      obtain ⟨more, d'⟩ := r
      cases more <;> simp [ih]

def Compares (key : κ) (c : Multiset (α × UInt8)) : Option α → Prop
  | some e => T.keyCompare key (T.entryGetKey e) = 0 ∧ ∃ h2, (e, h2) ∈ c
  | none => ∀ x ∈ c, hashOf T x.1 = T.hashFunction key → T.keyCompare key (T.entryGetKey x.1) ≠ 0

section Search

variable (ht : Hashtable α) (key : κ)

def keyChain (t : Fin 2) : List (Bucket α) :=
  (ht.tables t).chain (bucketIndex (ht.tables t) (T.hashFunction key))

def KeyChainMoved : Prop :=
  0 ≤ ht.rehashIdx ∧ bucketIndex (ht.tables 0) (T.hashFunction key) < ht.rehashIdx.toNat

def Stops (b : Bucket α) (pos : Nat) : Prop :=
  isPositionFilled b pos = true ∧ b.hashes pos = highBits (T.hashFunction key) ∧
    T.keyCompare key (T.entryGetKey (b.entries pos)) = 0

def NoStopBefore (ch : List (Bucket α)) (depth pos : Nat) : Prop :=
  ∀ d' (hd : d' < ch.length) p', p' < numBucketPositions ch[d'] → Stops T key ch[d'] p' →
    depth < d' ∨ d' = depth ∧ pos ≤ p'

structure AtBucket (d : IncrementalFind κ) (t : Fin 2) (depth : Nat) : Prop where
  bucket : d.bucket = some (t, bucketIndex (ht.tables t) (T.hashFunction key), depth)
  table : d.table = t
  depth_lt : depth < (keyChain T ht key t).length
  second : t = 1 → 0 ≤ ht.rehashIdx ∧ NoStopBefore T key (keyChain T ht key 0) (keyChain T ht key 0).length 0
  passed : NoStopBefore T key (keyChain T ht key t) depth d.pos

inductive Phase (d : IncrementalFind κ) : Prop
  | start (state : d.state = .nextBucket) (bucket : d.bucket = none) (alloc : (ht.tables 0).buckets.isSome)
  | nextEntry {t : Fin 2} {depth : Nat} (state : d.state = .nextEntry) (here : AtBucket T ht key d t depth)
  | checkEntry {t : Fin 2} {depth : Nat} {b : Bucket α} (state : d.state = .checkEntry)
      (here : AtBucket T ht key d t depth) (current : d.currentBucket ht = some b)
      (lt : d.pos < numBucketPositions b) (filled : isPositionFilled b d.pos = true)
      (byte : b.hashes d.pos = highBits (T.hashFunction key))

structure Searching (d : IncrementalFind κ) : Prop where
  key_eq : d.key = key
  hash_eq : d.hash = T.hashFunction key
  phase : Phase T ht key d

def Settled (d : IncrementalFind κ) : Prop :=
  d.state = .found ∧ (∃ b, d.currentBucket ht = some b ∧ (b.entries d.pos, b.hashes d.pos) ∈ htContent ht ∧
      T.keyCompare key (T.entryGetKey (b.entries d.pos)) = 0) ∨
    d.state = .notFound ∧
      ∀ x ∈ htContent ht, hashOf T x.1 = T.hashFunction key → T.keyCompare key (T.entryGetKey x.1) ≠ 0

def bucketsLeft (t : Fin 2) (depth : Nat) : Nat :=
  (keyChain T ht key t).length - depth + if t = 0 then (keyChain T ht key 1).length else 0

theorem bucketsLeft_zero (depth : Nat) :
    bucketsLeft T ht key 0 depth = (keyChain T ht key 0).length - depth + (keyChain T ht key 1).length :=
  rfl

theorem bucketsLeft_one (depth : Nat) : bucketsLeft T ht key 1 depth = (keyChain T ht key 1).length - depth + 0 :=
  rfl

def searchMeasure (d : IncrementalFind κ) : Nat :=
  match d.state, d.bucket with
  | .nextBucket, none => 16 * ((keyChain T ht key 0).length + (keyChain T ht key 1).length) + 16
  | .nextEntry, some (t, _, depth) => 16 * (bucketsLeft T ht key t depth - 1) + 2 * (entriesPerBucket - d.pos) + 1
  | .checkEntry, some (t, _, depth) => 16 * (bucketsLeft T ht key t depth - 1) + 2 * (entriesPerBucket - d.pos)
  | _, _ => 0

end Search

section Chains

variable {T} {ht : Hashtable α} {key : κ}

variable (key) in
theorem keyChain_wf (valid : Valid T ht) {t : Fin 2} {bs : List (List (Bucket α))}
    (alloc : (ht.tables t).buckets = some bs) : ChainWF (keyChain T ht key t) := by
  have tv := valid.table t
  have hidx := tv.bucketIndex_lt alloc (T.hashFunction key)
  rw [keyChain, chain_eq alloc hidx]
  exact tv.chains bs alloc _ (List.getElem_mem hidx)

theorem keyChain_alloc {t : Fin 2} (nonempty : 0 < (keyChain T ht key t).length) :
    ∃ bs, (ht.tables t).buckets = some bs := by
  cases h : (ht.tables t).buckets with
  | none => simp [keyChain, Table.chain, h] at nonempty
  | some bs => exact ⟨bs, rfl⟩

variable (key) in
theorem keyChain_pos (valid : Valid T ht) {t : Fin 2} (alloc : (ht.tables t).buckets.isSome) :
    0 < (keyChain T ht key t).length := by
  obtain ⟨bs, alloc⟩ := Option.isSome_iff_exists.mp alloc
  exact List.length_pos_of_ne_nil (keyChain_wf key valid alloc).ne_nil

variable (key) in
theorem keyChain_length_le (valid : Valid T ht) (t : Fin 2) :
    (keyChain T ht key t).length ≤ (ht.tables t).childBuckets + 1 := by
  cases alloc : (ht.tables t).buckets with
  | none => simp [keyChain, Table.chain, alloc]
  | some bs =>
    have hidx := (valid.table t).bucketIndex_lt alloc (T.hashFunction key)
    have bound := length_le_childCount alloc hidx
    rw [keyChain, chain_eq alloc hidx, (valid.table t).childBuckets]
    omega

theorem noStopBefore_zero (ch : List (Bucket α)) : NoStopBefore T key ch 0 0 := by
  intro d' _ p' _ _
  omega

theorem NoStopBefore.skip {ch : List (Bucket α)} {depth pos pos' : Nat} (passed : NoStopBefore T key ch depth pos)
    (hd : depth < ch.length)
    (skipped : ∀ q, pos ≤ q → q < pos' → q < numBucketPositions ch[depth] → ¬Stops T key ch[depth] q) :
    NoStopBefore T key ch depth pos' := by
  intro d' hd' p' lt stop
  rcases passed d' hd' p' lt stop with deeper | ⟨rfl, later⟩
  · exact .inl deeper
  · by_cases beyond : pos' ≤ p'
    · exact .inr ⟨rfl, beyond⟩
    · exact absurd stop (skipped p' later (by omega) lt)

theorem NoStopBefore.next {ch : List (Bucket α)} {depth : Nat} (hd : depth < ch.length)
    (passed : NoStopBefore T key ch depth (numBucketPositions ch[depth])) : NoStopBefore T key ch (depth + 1) 0 := by
  intro d' hd' p' lt stop
  rcases passed d' hd' p' lt stop with deeper | ⟨rfl, beyond⟩
  · omega
  · omega

theorem NoStopBefore.not_stops {ch : List (Bucket α)} (passed : NoStopBefore T key ch ch.length 0)
    {d' : Nat} (hd : d' < ch.length) {p' : Nat} (lt : p' < numBucketPositions ch[d']) : ¬Stops T key ch[d'] p' := by
  intro stop
  rcases passed d' hd p' lt stop with beyond | ⟨rfl, -⟩ <;> omega

theorem KeyChainMoved.noStop (valid : Valid T ht) (moved : KeyChainMoved T ht key) :
    NoStopBefore T key (keyChain T ht key 0) (keyChain T ht key 0).length 0 := by
  obtain ⟨b, single, empty, -⟩ := (valid.rehashing (by have := moved.1; omega)).done _ moved.2
  intro d' hd p' _ stop
  have first : d' = 0 := by
    simp only [keyChain, single, List.length_singleton] at hd
    omega
  subst first
  have filled := stop.1
  simp [keyChain, single, isPositionFilled, empty] at filled

theorem compare_ne_of_noStop (valid : Valid T ht) {t : Fin 2}
    (passed : NoStopBefore T key (keyChain T ht key t) (keyChain T ht key t).length 0)
    {x : α × UInt8} (mem : x ∈ tableContent (ht.tables t)) (hashed : hashOf T x.1 = T.hashFunction key) :
    T.keyCompare key (T.entryGetKey x.1) ≠ 0 := by
  have tv := valid.table t
  obtain ⟨idx, inChain⟩ := mem_tableContent.mp mem
  obtain ⟨index, byte⟩ := tv.placed idx x inChain
  obtain ⟨bs, alloc⟩ : ∃ bs, (ht.tables t).buckets = some bs := by
    cases h : (ht.tables t).buckets with
    | none => simp [Table.chain, h] at inChain
    | some bs => exact ⟨bs, rfl⟩
  have here : bucketIndex (ht.tables t) (T.hashFunction key) = idx := by
    rw [bucketIndex_eq (tv.allocated bs alloc).1, ← hashed, index]
  rw [← here] at inChain
  obtain ⟨depth, hd, q, lt, filled, entry⟩ := (keyChain_wf key valid alloc).exists_depth inChain
  intro equal
  apply passed.not_stops hd lt
  rw [← entry] at byte hashed equal
  exact ⟨filled, byte.trans (congrArg highBits hashed), equal⟩

theorem mem_htContent_of_filled {t : Fin 2} {idx depth : Nat} {b : Bucket α}
    (current : ((ht.tables t).chain idx)[depth]? = some b) {pos : Nat} (lt : pos < numBucketPositions b)
    (filled : isPositionFilled b pos = true) : (b.entries pos, b.hashes pos) ∈ htContent ht := by
  have inBucket := Bucket.mem_content_of_filled b (p := pos) (by simp [filledPositions, lt, filled])
  have inChain : (b.entries pos, b.hashes pos) ∈ chainContent ((ht.tables t).chain idx) := by
    unfold chainContent
    exact mem_sum_map.mpr ⟨b, List.mem_of_getElem? current, inBucket⟩
  exact mem_htContent (mem_tableContent.mpr ⟨idx, inChain⟩)

theorem Valid.alloc0 (valid : Valid T ht) (nonempty : hashtableSize ht ≠ 0) : (ht.tables 0).buckets.isSome := by
  by_contra unallocated
  have none0 : (ht.tables 0).buckets = none := by simpa using unallocated
  have idle : ht.rehashIdx = -1 := by
    by_contra rehashing
    exact unallocated (valid.rehashing rehashing).alloc0
  have none1 := valid.idle idle
  have used0 := valid.table0.used
  have used1 := valid.table1.used
  simp only [tableContent, none0, none1, Option.getD_none, List.map_nil, List.sum_nil,
    Multiset.card_zero] at used0 used1
  simp [hashtableSize, used0, used1] at nonempty

end Chains

section Steps

variable {T} {ht : Hashtable α} {key : κ}

theorem AtBucket.currentBucket {d : IncrementalFind κ} {t : Fin 2} {depth : Nat}
    (here : AtBucket T ht key d t depth) : d.currentBucket ht = (keyChain T ht key t)[depth]? := by
  simp [IncrementalFind.currentBucket, here.bucket, keyChain]

theorem compare_ne_of_passed (valid : Valid T ht)
    (passed0 : NoStopBefore T key (keyChain T ht key 0) (keyChain T ht key 0).length 0)
    (passed1 : ht.rehashIdx = -1 ∨ NoStopBefore T key (keyChain T ht key 1) (keyChain T ht key 1).length 0)
    {x : α × UInt8} (mem : x ∈ htContent ht) (hashed : hashOf T x.1 = T.hashFunction key) :
    T.keyCompare key (T.entryGetKey x.1) ≠ 0 := by
  rcases Multiset.mem_add.mp mem with in0 | in1
  · exact compare_ne_of_noStop valid passed0 in0 hashed
  · rcases passed1 with idle | passed1
    · simp [tableContent, valid.idle idle] at in1
    · exact compare_ne_of_noStop valid passed1 in1 hashed

theorem incrementalNextBucket_start (valid : Valid T ht) {d : IncrementalFind κ}
    (keyEq : d.key = key) (hashEq : d.hash = T.hashFunction key) (bucket : d.bucket = none)
    (alloc : (ht.tables 0).buckets.isSome) :
    ∃ d', incrementalNextBucket ht d = some (true, d') ∧ Searching T ht key d' ∧
      searchMeasure T ht key d' < 16 * ((keyChain T ht key 0).length + (keyChain T ht key 1).length) + 16 := by
  simp only [incrementalNextBucket, bucket, hashEq]
  by_cases moved : 0 ≤ ht.rehashIdx ∧ bucketIndex (ht.tables 0) (T.hashFunction key) < ht.rehashIdx.toNat
  · rw [if_pos moved]
    have nonempty := keyChain_pos key valid (valid.rehashing (by omega)).alloc1
    refine ⟨_, rfl, ⟨keyEq, rfl, .nextEntry rfl ⟨rfl, rfl, nonempty, fun _ => ⟨moved.1,
      KeyChainMoved.noStop valid moved⟩, noStopBefore_zero _⟩⟩, ?_⟩
    simp only [searchMeasure, bucketsLeft_one, entriesPerBucket]
    omega
  · rw [if_neg moved]
    have nonempty := keyChain_pos key valid alloc
    refine ⟨_, rfl, ⟨keyEq, rfl, .nextEntry rfl ⟨rfl, rfl, nonempty, fun h => absurd h (by decide),
      noStopBefore_zero _⟩⟩, ?_⟩
    simp only [searchMeasure, bucketsLeft_zero, entriesPerBucket]
    omega

theorem incrementalNextBucket_progress (valid : Valid T ht) {d : IncrementalFind κ} {t : Fin 2} {depth : Nat}
    (keyEq : d.key = key) (hashEq : d.hash = T.hashFunction key) (here : AtBucket T ht key d t depth)
    (passed : NoStopBefore T key (keyChain T ht key t) (depth + 1) 0) :
    ∃ more d', incrementalNextBucket ht d = some (more, d') ∧
      (more = true → Searching T ht key d' ∧ searchMeasure T ht key d' < 16 * (bucketsLeft T ht key t depth - 1)) ∧
      (more = false → Settled T ht key d') := by
  have hd := here.depth_lt
  obtain ⟨bs, alloc⟩ := keyChain_alloc (show 0 < (keyChain T ht key t).length by omega)
  have wf := keyChain_wf key valid alloc
  have current := here.currentBucket
  rw [List.getElem?_eq_getElem hd] at current
  simp only [incrementalNextBucket, here.bucket, current, here.table, Option.bind_eq_bind, Option.bind_some]
  by_cases chained : (keyChain T ht key t)[depth].chained = true
  · -- the child bucket
    have next : depth + 1 < (keyChain T ht key t).length := (wf.getElem_chained hd).mp chained
    rw [if_pos chained]
    refine ⟨true, _, rfl, fun _ => ⟨⟨keyEq, hashEq, .nextEntry rfl ⟨rfl, rfl, next, here.second, passed⟩⟩, ?_⟩, fun h => absurd h (by decide)⟩
    simp only [searchMeasure, bucketsLeft, entriesPerBucket]
    split <;> omega
  · have last : depth + 1 = (keyChain T ht key t).length := by
      have := (wf.getElem_chained hd).not.mp chained
      omega
    have whole : NoStopBefore T key (keyChain T ht key t) (keyChain T ht key t).length 0 := last ▸ passed
    rw [if_neg chained]
    by_cases toSecond : t = 0 ∧ 0 ≤ ht.rehashIdx
    · -- the chain of the key in table 1, while a rehash is going on
      obtain ⟨rfl, rehashing⟩ := toSecond
      have nonempty := keyChain_pos key valid (valid.rehashing (by omega)).alloc1
      rw [if_pos ⟨rfl, rehashing⟩]
      refine ⟨true, _, rfl, fun _ => ⟨⟨keyEq, hashEq, .nextEntry rfl ⟨by rw [hashEq], rfl, nonempty,
        fun _ => ⟨rehashing, whole⟩, noStopBefore_zero _⟩⟩, ?_⟩, fun h => absurd h (by decide)⟩
      simp only [searchMeasure, bucketsLeft_zero, bucketsLeft_one, entriesPerBucket]
      omega
    · -- no table left
      rw [if_neg toSecond]
      refine ⟨false, _, rfl, fun h => absurd h (by decide), fun _ => .inr ⟨rfl, fun x mem hashed => ?_⟩⟩
      rcases Fin.exists_fin_two.mp ⟨t, rfl⟩ with rfl | rfl
      · have idle : ht.rehashIdx = -1 := by
          by_contra rehashing
          exact toSecond ⟨rfl, (valid.rehashing rehashing).idx_nonneg⟩
        exact compare_ne_of_passed valid whole (.inl idle) mem hashed
      · exact compare_ne_of_passed valid (here.second rfl).2 (.inr whole) mem hashed

theorem incrementalNextEntry_progress (valid : Valid T ht) {d : IncrementalFind κ} {t : Fin 2} {depth : Nat}
    (keyEq : d.key = key) (hashEq : d.hash = T.hashFunction key) (here : AtBucket T ht key d t depth) :
    ∃ more d', incrementalNextEntry ht d = some (more, d') ∧
      (more = true → Searching T ht key d' ∧
        searchMeasure T ht key d' < 16 * (bucketsLeft T ht key t depth - 1) + 2 * (entriesPerBucket - d.pos) + 1) ∧
      (more = false → Settled T ht key d') := by
  have hd := here.depth_lt
  have current := here.currentBucket
  rw [List.getElem?_eq_getElem hd] at current
  have bound := numBucketPositions_le (keyChain T ht key t)[depth]
  -- without a position holding the hash byte from d.pos on, the bucket is passed
  have leave : (∀ q, d.pos ≤ q → q < numBucketPositions (keyChain T ht key t)[depth] →
      isPositionFilled (keyChain T ht key t)[depth] q = true →
      (keyChain T ht key t)[depth].hashes q ≠ highBits (T.hashFunction key)) →
      ∃ more d', incrementalNextBucket ht d = some (more, d') ∧
        (more = true → Searching T ht key d' ∧
          searchMeasure T ht key d' < 16 * (bucketsLeft T ht key t depth - 1) + 2 * (entriesPerBucket - d.pos) + 1) ∧
        (more = false → Settled T ht key d') := by
    intro noCandidate
    have whole : NoStopBefore T key (keyChain T ht key t) depth (numBucketPositions (keyChain T ht key t)[depth]) :=
      here.passed.skip hd fun q low _ lt stop => noCandidate q low lt stop.1 stop.2.1
    obtain ⟨more, d', next, continues, stops⟩ := incrementalNextBucket_progress valid keyEq hashEq here (whole.next hd)
    exact ⟨more, d', next, fun more => ⟨(continues more).1, by have := (continues more).2; omega⟩, stops⟩
  simp only [incrementalNextEntry, current, Option.bind_eq_bind, Option.bind_some]
  split
  · split
    · -- a position with the hash byte
      rename_i q found
      obtain ⟨candidate, range, before⟩ := List.find?_range'_eq_some.mp found
      simp only [List.mem_range'_1] at range
      simp only [Bool.and_eq_true, beq_iff_eq, hashEq] at candidate
      have passed := here.passed.skip hd fun j low high _ stop => by
        have := before j low high
        simp [stop.1, stop.2.1, hashEq] at this
      refine ⟨true, _, rfl, fun _ => ⟨⟨keyEq, hashEq, .checkEntry rfl ⟨here.bucket, here.table, hd, here.second, passed⟩
        current (show q < _ by omega) candidate.1 candidate.2⟩, ?_⟩, fun h => absurd h (by decide)⟩
      simp only [searchMeasure, here.bucket, entriesPerBucket] at bound ⊢
      omega
    · -- none: the next bucket
      rename_i missed
      apply leave
      intro q low lt filled byte
      have := List.find?_range'_eq_none.mp missed q low (by omega)
      simp [filled, byte, hashEq] at this
  · -- an empty bucket, or no position left
    rename_i guard
    apply leave
    intro q low lt filled _
    simp only [bne_iff_ne, ne_eq, Bool.and_eq_true, decide_eq_true_eq, not_and, not_lt] at guard
    by_cases empty : (keyChain T ht key t)[depth].presence = 0
    · simp [isPositionFilled, empty] at filled
    · have := guard empty
      omega

theorem hashtableIncrementalFindStep_progress (valid : Valid T ht) {d : IncrementalFind κ}
    (holds : Searching T ht key d ∨ Settled T ht key d) :
    ∃ more d', hashtableIncrementalFindStep T ht d = some (more, d') ∧
      (more = true → (Searching T ht key d' ∨ Settled T ht key d') ∧
        searchMeasure T ht key d' < searchMeasure T ht key d) ∧
      (more = false → Settled T ht key d') := by
  rcases holds with ⟨keyEq, hashEq, phase⟩ | settled
  · cases phase with
    | start state bucket alloc =>
      obtain ⟨d', next, searching, lower⟩ := incrementalNextBucket_start valid keyEq hashEq bucket alloc
      refine ⟨true, d', by simp [hashtableIncrementalFindStep, state, next], fun _ => ⟨.inl searching, ?_⟩, fun h => absurd h (by decide)⟩
      simpa [searchMeasure, state, bucket] using lower
    | nextEntry state here =>
      obtain ⟨more, d', next, continues, stops⟩ := incrementalNextEntry_progress valid keyEq hashEq here
      refine ⟨more, d', by simp [hashtableIncrementalFindStep, state, next], fun more => ⟨.inl (continues more).1, ?_⟩,
        stops⟩
      simpa [searchMeasure, state, here.bucket] using (continues more).2
    | @checkEntry t depth b state here current lt filled byte =>
      have hd := here.depth_lt
      obtain rfl : (keyChain T ht key t)[depth] = b := by
        have := here.currentBucket
        rw [current, List.getElem?_eq_getElem hd] at this
        exact (Option.some.inj this).symm
      simp only [hashtableIncrementalFindStep, state, current, Option.bind_eq_bind, Option.bind_some]
      by_cases equal : T.keyCompare d.key (T.entryGetKey ((keyChain T ht key t)[depth].entries d.pos)) = 0
      · -- a match: found
        rw [if_pos equal]
        have chainCurrent : ((ht.tables t).chain (bucketIndex (ht.tables t) (T.hashFunction key)))[depth]? =
            some (keyChain T ht key t)[depth] := by
          rw [← List.getElem?_eq_getElem hd]
          rfl
        exact ⟨false, _, rfl, fun h => absurd h (by decide), fun _ => .inl ⟨rfl, _, current,
          mem_htContent_of_filled chainCurrent lt filled, keyEq ▸ equal⟩⟩
      · -- no match: on to the next position
        rw [if_neg equal]
        have passed : NoStopBefore T key (keyChain T ht key t) depth (d.pos + 1) :=
          here.passed.skip hd fun q low high _ stop => by
            obtain rfl : q = d.pos := by omega
            exact equal (keyEq ▸ stop.2.2)
        obtain ⟨more, d', next, continues, stops⟩ := incrementalNextEntry_progress valid keyEq hashEq
          (d := { d with pos := d.pos + 1 }) ⟨here.bucket, here.table, hd, here.second, passed⟩
        refine ⟨more, d', next, fun more => ⟨.inl (continues more).1, ?_⟩, stops⟩
        have lower := (continues more).2
        have bound := numBucketPositions_le (keyChain T ht key t)[depth]
        simp only [searchMeasure, state, here.bucket, entriesPerBucket] at lower bound ⊢
        omega
  · refine ⟨false, d, ?_, fun h => absurd h (by decide), fun _ => settled⟩
    rcases settled with ⟨found, -⟩ | ⟨notFound, -⟩
    · simp [hashtableIncrementalFindStep, found]
    · simp [hashtableIncrementalFindStep, notFound]

variable (key) in
theorem hashtableIncrementalFindInit_holds (valid : Valid T ht) :
    (Searching T ht key (hashtableIncrementalFindInit T ht key) ∨
        Settled T ht key (hashtableIncrementalFindInit T ht key)) ∧
      searchMeasure T ht key (hashtableIncrementalFindInit T ht key) < incrementalFindFuel ht := by
  unfold hashtableIncrementalFindInit
  split
  · rename_i empty
    refine ⟨.inr (.inr ⟨rfl, fun x mem => ?_⟩), by simp [searchMeasure, incrementalFindFuel]⟩
    rw [htContent_eq_zero valid empty] at mem
    simp at mem
  · rename_i nonempty
    refine ⟨.inl ⟨rfl, rfl, .start rfl rfl (valid.alloc0 nonempty)⟩, ?_⟩
    have le0 := keyChain_length_le key valid 0
    have le1 := keyChain_length_le key valid 1
    simp only [searchMeasure, incrementalFindFuel]
    omega

end Steps

variable {T}

theorem hashtableIncrementalFind_spec {ht : Hashtable α} (valid : Valid T ht) (key : κ) :
    ∃ res, hashtableIncrementalFind T ht key = some res ∧ Compares T key (htContent ht) res := by
  obtain ⟨start, enough⟩ := hashtableIncrementalFindInit_holds key valid
  obtain ⟨d, run, settled⟩ := loopWhile_spec _ (Settled T ht key) (searchMeasure T ht key)
    (fun _ holds => hashtableIncrementalFindStep_progress valid holds) start enough
  simp only [hashtableIncrementalFind, incrementalFindRun_eq_loopWhile, run, Option.bind_eq_bind, Option.bind_some]
  rcases settled with ⟨found, b, current, mem, equal⟩ | ⟨notFound, absent⟩
  · exact ⟨some (b.entries d.pos), by simp [hashtableIncrementalFindGetResult, found, current], equal, _, mem⟩
  · exact ⟨none, by simp [hashtableIncrementalFindGetResult, notFound], absent⟩

end Kv.Hashtable
