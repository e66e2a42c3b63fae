import Kv.Hll.SparseSet

/-!
hllAdd of hyperloglog.c once hllPatLen has hashed the element to a register and a count, and its runs
from createHLLObject. Against the registers as a plain array, each add raising one of them, a run gives
the same replies and leaves a string that stands for the same registers: sparse and within
hll_sparse_max_bytes, or dense once promoted.
-/

namespace Kv.Hll

open Foundations

/-! ### The registers as an array -/

/-- One add on the registers as an array: the register raised to the count, and whether it changed. -/
def registerMax (regs : List Nat) (index count : Nat) : Int × List Nat :=
  (if regs.getD index 0 < count then 1 else 0, regs.set index (max (regs.getD index 0) count))

/-- Adds one after the other on the registers as an array: the replies and the registers after. -/
def registerMaxRun : List Nat → List (Nat × UInt8) → List Int × List Nat
  | regs, [] => ([], regs)
  | regs, (index, count) :: adds =>
    ((registerMax regs index count.toNat).1 :: (registerMaxRun (registerMax regs index count.toNat).2 adds).1,
      (registerMaxRun (registerMax regs index count.toNat).2 adds).2)

/-! ### hllAdd -/

/-- hllAdd with the register `index` and the run length `count` that hllPatLen derives from the element:
hllDenseAdd on the registers of a dense string, hllSparseAdd on a sparse one, -1 on another encoding. -/
def hllAdd (maxBytes : Nat) (a : SdsAllocator) (o : HllString) (index : Nat) (count : UInt8) :
    Option (Int × HllString) :=
  if o.buf.getD 4 0 = hllDenseEncoding then
    let set := hllDenseSet (o.buf.drop hllHdrSize) index count
    some (set.1, { o with buf := o.buf.take hllHdrSize ++ set.2 })
  else if o.buf.getD 4 0 = hllSparseEncoding then hllSparseSet maxBytes a o index count
  else some (-1, o)

/-- Adds one after the other; none where an assertion fails. -/
def hllAddRun (maxBytes : Nat) (a : SdsAllocator) : HllString → List (Nat × UInt8) → Option (List Int × HllString)
  | o, [] => some ([], o)
  | o, (index, count) :: adds => do
    let (r, o) ← hllAdd maxBytes a o index count
    let (rs, o) ← hllAddRun maxBytes a o adds
    pure (r :: rs, o)

/-- A string of a run from createHLLObject: dense, or sparse and within hll_sparse_max_bytes unless it is
still the single XZERO it was created with. -/
def HllRunValid (maxBytes : Nat) (o : HllString) : Prop :=
  DenseValid o ∨ SparseValid o ∧ (o.buf.length ≤ maxBytes ∨ hllSparseOps (o.buf.drop hllHdrSize) = [.xzero hllRegisters])

section Steps

variable {o : HllString} {index : Nat} {count : UInt8}

theorem DenseValid.registersOf (valid : DenseValid o) :
    hllRegistersOf o.buf = some (hllDenseRegisters (o.buf.drop hllHdrSize)) := by
  rw [hllRegistersOf, if_pos valid.dense, if_pos valid.size]

theorem hllDenseGetRegister_eq_getD (p : List UInt8) {i : Nat} (inside : i < hllRegisters) :
    hllDenseGetRegister p i = (hllDenseRegisters p).getD i 0 := by
  rw [List.getD_eq_getElem _ _ (by rw [length_hllDenseRegisters]; exact inside), getElem_hllDenseRegisters]

/-- hllDenseAdd: the registers after the header raised in place. -/
theorem hllAdd_dense (maxBytes : Nat) (a : SdsAllocator) (valid : DenseValid o) (inside : index < hllRegisters)
    (small : count.toNat < 64) :
    ∃ o', hllAdd maxBytes a o index count =
        some ((registerMax (hllDenseRegisters (o.buf.drop hllHdrSize)) index count.toNat).1, o') ∧
      hllRegistersOf o'.buf = some (registerMax (hllDenseRegisters (o.buf.drop hllHdrSize)) index count.toNat).2 ∧
      DenseValid o' := by
  have size : (o.buf.drop hllHdrSize).length = hllDenseBytes := by
    rw [List.length_drop, valid.size]
    rfl
  have hdr : (o.buf.take hllHdrSize).length = hllHdrSize := by
    rw [List.length_take, valid.size]
    rfl
  obtain ⟨length, registers, reply⟩ := hllDenseSet_spec size inside small
  rw [hllDenseGetRegister_eq_getD _ inside] at registers reply
  have bufLen : (o.buf.take hllHdrSize ++ (hllDenseSet (o.buf.drop hllHdrSize) index count).2).length =
      hllDenseSize := by
    rw [List.length_append, hdr, length, size]
    rfl
  -- the header, and with it the encoding, is left as it was
  have dense : (o.buf.take hllHdrSize ++ (hllDenseSet (o.buf.drop hllHdrSize) index count).2).getD 4 0 =
      hllDenseEncoding := by
    rw [List.getD_append _ _ _ _ (by rw [hdr]; decide), List.getD_eq_getElem?_getD,
      List.getElem?_take_of_lt (by decide), ← List.getD_eq_getElem?_getD]
    exact valid.dense
  have valid' : DenseValid { o with buf := o.buf.take hllHdrSize ++ (hllDenseSet (o.buf.drop hllHdrSize) index count).2 } :=
    ⟨bufLen, dense, by rw [bufLen, ← valid.size]; exact valid.allocated⟩
  refine ⟨_, ?_, ?_, valid'⟩
  · rw [hllAdd, if_pos valid.dense]
    dsimp only
    rw [reply, registerMax]
    split <;> rfl
  · rw [valid'.registersOf, List.drop_left' hdr, registers, registerMax]

/-- One add on a string of a run: the reply and the registers of the array, and a string that is dense or
sparse within hll_sparse_max_bytes. -/
theorem hllAdd_spec (maxBytes : Nat) (a : SdsAllocator) (valid : HllRunValid maxBytes o) {regs : List Nat}
    (registers : hllRegistersOf o.buf = some regs) (inside : index < hllRegisters) (pos : 1 ≤ count.toNat)
    (small : count.toNat < 64) :
    ∃ o', hllAdd maxBytes a o index count = some ((registerMax regs index count.toNat).1, o') ∧
      hllRegistersOf o'.buf = some (registerMax regs index count.toNat).2 ∧
      (DenseValid o' ∨ SparseValid o' ∧ o'.buf.length ≤ maxBytes) := by
  rcases valid with dense | ⟨sparse, fits⟩
  · rw [dense.registersOf, Option.some_inj] at registers
    subst registers
    obtain ⟨o', run, registers', dense'⟩ := hllAdd_dense maxBytes a dense inside small
    exact ⟨o', run, registers', .inl dense'⟩
  · rw [sparse.registersOf, Option.some_inj] at registers
    subst registers
    obtain ⟨o', run, registers', result⟩ := hllSparseSet_spec maxBytes a sparse inside pos small
    have notDense : o.buf.getD 4 0 ≠ hllDenseEncoding := by rw [sparse.sparse]; decide
    refine ⟨o', ?_, registers', ?_⟩
    · rw [hllAdd, if_neg notDense, if_pos sparse.sparse, run, registerMax]
      -- hllSparseSet asks whether the count is at most the register, the array whether it is above
      by_cases raises : (sparseRegisters (hllSparseOps (o.buf.drop hllHdrSize))).getD index 0 < count.toNat
      · rw [if_neg (Nat.not_le.mpr raises), if_pos raises]
      · rw [if_pos (Nat.not_lt.mp raises), if_neg raises]
    · rcases result with ⟨sparse', bound, created⟩ | dense'
      · -- a sparse string grows only up to hll_sparse_max_bytes, from its creation on
        refine .inr ⟨sparse', ?_⟩
        rcases fits with within | single
        · rcases bound with fits' | shorter
          · exact fits'
          · exact shorter.trans within
        · exact created single
      · exact .inl dense'

theorem HllRunValid.of_fits {maxBytes : Nat} {o : HllString} (fits : DenseValid o ∨ SparseValid o ∧ o.buf.length ≤ maxBytes) :
    HllRunValid maxBytes o :=
  fits.imp_right fun sparse => ⟨sparse.1, .inl sparse.2⟩

end Steps

section Runs

variable (maxBytes : Nat) (a : SdsAllocator)

/-- A run of adds on a string of a run, by induction on the adds with `HllRunValid` as the invariant: the
replies and the registers of the array, and after at least one add a string that is dense or sparse within
hll_sparse_max_bytes. -/
theorem hllAddRun_spec (adds : List (Nat × UInt8))
    (inRange : ∀ add ∈ adds, add.1 < hllRegisters ∧ 1 ≤ add.2.toNat ∧ add.2.toNat < 64) :
    ∀ (o : HllString) (regs : List Nat), HllRunValid maxBytes o → hllRegistersOf o.buf = some regs →
      ∃ o', hllAddRun maxBytes a o adds = some ((registerMaxRun regs adds).1, o') ∧
        hllRegistersOf o'.buf = some (registerMaxRun regs adds).2 ∧ HllRunValid maxBytes o' ∧
        (adds ≠ [] → DenseValid o' ∨ SparseValid o' ∧ o'.buf.length ≤ maxBytes) := by
  induction adds with
  | nil => exact fun o regs valid registers => ⟨o, rfl, registers, valid, fun nonEmpty => absurd rfl nonEmpty⟩
  | cons add adds ih =>
    intro o regs valid registers
    obtain ⟨index, count⟩ := add
    obtain ⟨inside, pos, small⟩ := inRange (index, count) List.mem_cons_self
    obtain ⟨o₁, step, registers₁, fits₁⟩ := hllAdd_spec maxBytes a valid registers inside pos small
    obtain ⟨o', run, registers', valid', fits'⟩ :=
      ih (fun add mem => inRange add (List.mem_cons_of_mem _ mem)) o₁ _ (HllRunValid.of_fits fits₁) registers₁
    refine ⟨o', ?_, registers', valid', fun _ => ?_⟩
    · simp only [hllAddRun, step, Option.bind_eq_bind, Option.bind_some, run, registerMaxRun]
      rfl
    · -- the last add of the run says what the string is
      cases adds with
      | nil =>
        cases run
        exact fits₁
      | cons next rest => exact fits' (List.cons_ne_nil next rest)

end Runs

/-- A new HyperLogLog is a valid sparse string, the single XZERO of all the registers, standing for
registers that are all zero. -/
theorem createHLLObject_spec (a : SdsAllocator) :
    ∃ o, createHLLObject = some o ∧ SparseValid ⟨o, a.grant o.length⟩ ∧
      hllSparseOps (o.drop hllHdrSize) = [.xzero hllRegisters] ∧
      hllRegistersOf o = some (List.replicate hllRegisters 0) := by
  have runs : hllXzeroRuns ((hllRegisters + (hllSparseXzeroMaxLen - 1)) / hllSparseXzeroMaxLen) hllRegisters =
      [127, 255] := by decide
  have opcodes : ([72, 89, 76, 76, 1, 0, 0, 0, 0, 0, 0, 0, 0, 0, 0, 0, 127, 255] : List UInt8).drop hllHdrSize =
      [127, 255] := rfl
  have single : hllSparseOps [127, 255] = [.xzero hllRegisters] := by decide
  have sparse : SparseValid ⟨[72, 89, 76, 76, 1, 0, 0, 0, 0, 0, 0, 0, 0, 0, 0, 0, 127, 255],
      a.grant ([72, 89, 76, 76, 1, 0, 0, 0, 0, 0, 0, 0, 0, 0, 0, 0, 127, 255] : List UInt8).length⟩ := by
    refine ⟨by dsimp only; decide, rfl, ?_, ?_, a.enough _⟩
    · dsimp only
      rw [opcodes]
      decide
    · dsimp only
      rw [opcodes, sparseRegisters_xzero_all, List.length_replicate]
  refine ⟨_, by rw [createHLLObject, runs]; rfl, sparse, by rw [opcodes, single], ?_⟩
  rw [sparse.registersOf]
  dsimp only
  rw [opcodes, sparseRegisters_xzero_all]

end Kv.Hll
