import Kv.Hll.Sparse

/-!
hllSparseSet of hyperloglog.c: a register of a sparse HyperLogLog raised to a count in place. The
string is first grown greedily, up to hll_sparse_max_bytes; step 1 finds the opcode that covers the
register; step 2 rewrites it in place when that is trivial (cases A to C) and otherwise splits it into
at most five bytes of opcodes (case D), which step 3 puts in its place, promoting the string to the
dense representation when it would grow past hll_sparse_max_bytes; step 4 merges adjacent VAL opcodes
from the one before the opcode changed. hllSparseSet_spec gathers the steps: on a valid sparse string the
register is raised, the reply says whether it changed, and the string after is a valid sparse or dense
representation of the raised registers.
-/

namespace Kv.Hll

open Foundations

structure HllString where
  buf : List UInt8
  alloc : Nat
  deriving DecidableEq, Repr

structure SdsAllocator where
  grant : Nat → Nat
  enough : ∀ n, n ≤ grant n

def hllInvalidateCache (hdr : List UInt8) : List UInt8 := hdr.set 15 (hdr.getD 15 0 ||| 0x80)

def hllSparseGrow (maxBytes : Nat) (a : SdsAllocator) (o : HllString) : HllString :=
  if o.alloc < maxBytes ∧ o.alloc - o.buf.length < 3 then
    let newlen := o.buf.length + 3
    let newlen := newlen + min newlen 300
    let newlen := if newlen > maxBytes then maxBytes else newlen
    { buf := o.buf.take newlen, alloc := a.grant newlen }
  else o

def hllSparseLocate (index : Nat) : List UInt8 → Nat → Nat → Option Nat → Option (Nat × Nat × Nat × Option Nat)
  | [], _, _, _ => none
  | [b], p, first, prev =>
    let span := (hllSparseOp b 0).len
    if index ≤ first + span - 1 then some (p, first, span, prev) else none
  | b :: c :: rest, p, first, prev =>
    let span := (hllSparseOp b c).len
    if index ≤ first + span - 1 then some (p, first, span, prev)
    else if hllSparseIsXzero b then hllSparseLocate index rest (p + 2) (first + span) (some p)
    else hllSparseLocate index (c :: rest) (p + 1) (first + span) (some p)

def hllSparseZeroRun (len : Nat) : List UInt8 :=
  if len > hllSparseZeroMaxLen then hllSparseXzeroSet len else [hllSparseZeroSet len]

def hllSparseSplit (op : SparseOp) (first last index count : Nat) : List UInt8 :=
  match op with
  | .val curval _ =>
    (if index ≠ first then [hllSparseValSet curval (index - first)] else []) ++ [hllSparseValSet count 1] ++
      (if index ≠ last then [hllSparseValSet curval (last - index)] else [])
  | _ =>
    (if index ≠ first then hllSparseZeroRun (index - first) else []) ++ [hllSparseValSet count 1] ++
      (if index ≠ last then hllSparseZeroRun (last - index) else [])

def hllSparseMergeScan : Nat → List UInt8 → Nat → List UInt8
  | 0, sparse, _ => sparse
  | scanlen + 1, sparse, p =>
    if p < sparse.length then
      let b := sparse.getD p 0
      if hllSparseIsXzero b then hllSparseMergeScan scanlen sparse (p + 2)
      else if hllSparseIsZero b then hllSparseMergeScan scanlen sparse (p + 1)
      else
        let c := sparse.getD (p + 1) 0
        if p + 1 < sparse.length ∧ hllSparseIsVal c = true ∧ hllSparseValValue b = hllSparseValValue c ∧
            hllSparseValLen b + hllSparseValLen c ≤ hllSparseValMaxLen then
          let merged := hllSparseValSet (hllSparseValValue b) (hllSparseValLen b + hllSparseValLen c)
          hllSparseMergeScan scanlen ((sparse.set (p + 1) merged).eraseIdx p) p
        else hllSparseMergeScan scanlen sparse (p + 1)
    else sparse

def hllSparseUpdated (o : HllString) (sparse : List UInt8) (prev : Option Nat) : HllString :=
  { o with buf := hllInvalidateCache (o.buf.take hllHdrSize) ++ hllSparseMergeScan 5 sparse (prev.getD 0) }

def hllSparsePromote (a : SdsAllocator) (o : HllString) (index : Nat) (count : UInt8) : Option (Int × HllString) :=
  match hllSparseToDense o.buf with
  | none => some (-1, o)
  | some dense =>
    let set := hllDenseSet (dense.drop hllHdrSize) index count
    if set.1 ≠ 1 then none
    else some (set.1, { buf := dense.take hllHdrSize ++ set.2, alloc := a.grant hllDenseSize })

def hllSparseReplace (maxBytes : Nat) (a : SdsAllocator) (o : HllString) (index : Nat) (count : UInt8)
    (p oldlen : Nat) (seq : List UInt8) (prev : Option Nat) : Option (Int × HllString) :=
  let deltalen : Int := seq.length - oldlen
  if deltalen > 0 ∧ o.buf.length + deltalen > maxBytes then hllSparsePromote a o index count
  else if o.buf.length + deltalen > o.alloc then none
  else
    let sparse := o.buf.drop hllHdrSize
    let sparse := (sparse.take p ++ seq ++ sparse.drop (p + oldlen)).take (sparse.length + seq.length - oldlen)
    some (1, hllSparseUpdated o sparse prev)

/-- hllSparseSet: the register `index` raised to `count`, with 1 when it changed, 0 when it did not and -1
when the string is not a valid sparse representation; none where a serverAssert fails. -/
def hllSparseSet (maxBytes : Nat) (a : SdsAllocator) (o : HllString) (index : Nat) (count : UInt8) :
    Option (Int × HllString) :=
  if count.toNat > hllSparseValMaxValue then hllSparsePromote a o index count
  else
    let o := hllSparseGrow maxBytes a o
    let sparse := o.buf.drop hllHdrSize
    match hllSparseLocate index sparse 0 0 none with
    | none => some (-1, o)
    | some (p, first, span, prev) =>
      let op := hllSparseOp (sparse.getD p 0) (sparse.getD (p + 1) 0)
      let caseD := hllSparseReplace maxBytes a o index count p op.oplen
        (hllSparseSplit op first (first + span - 1) index count.toNat) prev
      match op with
      | .val oldcount runlen =>
        -- case A: the register already holds at least the count
        if oldcount ≥ count.toNat then some (0, o)
        -- case B: a VAL of this register alone
        else if runlen = 1 then some (1, hllSparseUpdated o (sparse.set p (hllSparseValSet count.toNat 1)) prev)
        else caseD
      | .zero runlen =>
        -- case C: a ZERO of this register alone
        if runlen = 1 then some (1, hllSparseUpdated o (sparse.set p (hllSparseValSet count.toNat 1)) prev)
        else caseD
      | .xzero _ => caseD

def SparseOp.mergeWith : SparseOp → SparseOp → Option SparseOp
  | .val v l, .val v' l' => if v = v' ∧ l + l' ≤ hllSparseValMaxLen then some (.val v (l + l')) else none
  | _, _ => none

def mergeValOps : Nat → List SparseOp → List SparseOp
  | 0, ops => ops
  | _ + 1, [] => []
  | scanlen + 1, op :: ops =>
    match ops with
    | [] => [op]
    | op' :: rest =>
      match op.mergeWith op' with
      | some merged => mergeValOps scanlen (merged :: rest)
      | none => op :: mergeValOps scanlen (op' :: rest)

section Merge

theorem mergeWith_spec {op op' merged : SparseOp} (fits : op.Fits) (fits' : op'.Fits)
    (merges : op.mergeWith op' = some merged) :
    merged.Fits ∧ merged.registers = op.registers ++ op'.registers ∧ merged.oplen = 1 ∧
      ∃ v l l', op = .val v l ∧ op' = .val v l' ∧ merged = .val v (l + l') := by
  cases op with
  | zero l => cases merges
  | xzero l => cases merges
  | val v l =>
    cases op' with
    | zero l' => cases merges
    | xzero l' => cases merges
    | val v' l' =>
      by_cases both : v = v' ∧ l + l' ≤ hllSparseValMaxLen
      · rw [SparseOp.mergeWith, if_pos both] at merges
        obtain rfl := Option.some.inj merges
        obtain ⟨rfl, fit⟩ := both
        refine ⟨⟨fits.1, fits.2.1, by have := fits.2.2.1; omega, fit⟩, ?_, rfl, v, l, l', rfl, rfl, rfl⟩
        exact List.replicate_add l l' v
      · rw [SparseOp.mergeWith, if_neg both] at merges
        cases merges

theorem sparseRegisters_mergeValOps (scanlen : Nat) {ops : List SparseOp} (fits : ∀ op ∈ ops, op.Fits) :
    sparseRegisters (mergeValOps scanlen ops) = sparseRegisters ops ∧ (∀ op ∈ mergeValOps scanlen ops, op.Fits) ∧
      (sparseBytes (mergeValOps scanlen ops)).length ≤ (sparseBytes ops).length := by
  induction scanlen generalizing ops with
  | zero => exact ⟨rfl, fits, le_refl _⟩
  | succ scanlen ih =>
    match ops with
    | [] => exact ⟨rfl, (fun _ mem => by cases mem), le_refl _⟩
    | [op] => exact ⟨rfl, fits, le_refl _⟩
    | op :: op' :: rest =>
      have fitsRest : ∀ o ∈ rest, o.Fits := fun o mem => fits o (by simp [mem])
      rw [mergeValOps]
      split
      · rename_i merged merges
        obtain ⟨fitsMerged, registers, one, v, l, l', rfl, rfl, -⟩ :=
          mergeWith_spec (fits op (by simp)) (fits op' (by simp)) merges
        obtain ⟨same, fits', shorter⟩ := @ih (merged :: rest) fun o mem => by
          rcases List.mem_cons.mp mem with rfl | later
          · exact fitsMerged
          · exact fitsRest o later
        refine ⟨?_, fits', ?_⟩
        · rw [same, sparseRegisters_cons, registers, sparseRegisters_cons, sparseRegisters_cons, List.append_assoc]
        · -- two VAL bytes become one
          simp only [sparseBytes_cons, List.length_append, SparseOp.length_bytes, one] at shorter ⊢
          simp only [SparseOp.oplen]
          omega
      · obtain ⟨same, fits', shorter⟩ := @ih (op' :: rest) fun o mem => fits o (List.mem_cons_of_mem op mem)
        refine ⟨by rw [sparseRegisters_cons, same]; rfl, fun o mem => ?_, ?_⟩
        · rcases List.mem_cons.mp mem with rfl | later
          · exact fits o (by simp)
          · exact fits' o later
        · simp only [sparseBytes_cons, List.length_append] at shorter ⊢
          omega

theorem mergeValOps_nil (scanlen : Nat) : mergeValOps scanlen [] = [] := by
  cases scanlen <;> rfl

theorem mergeValOps_cons_of_isVal {op : SparseOp} (notVal : op.isVal = false) (scanlen : Nat) (rest : List SparseOp) :
    mergeValOps (scanlen + 1) (op :: rest) = op :: mergeValOps scanlen rest := by
  cases rest with
  | nil => rw [mergeValOps_nil]; rfl
  | cons op' rest =>
    have none : op.mergeWith op' = none := by
      cases op with
      | val v l => cases notVal
      | zero l => rfl
      | xzero l => rfl
    simp only [mergeValOps, none]

theorem oplen_pos (op : SparseOp) : 0 < op.oplen := by
  cases op <;> simp [SparseOp.oplen]

theorem length_sparseBytes_cons (A : List SparseOp) (op : SparseOp) (rest : List SparseOp) :
    (sparseBytes (A ++ op :: rest)).length = (sparseBytes A).length + op.oplen + (sparseBytes rest).length := by
  rw [sparseBytes_append, sparseBytes_cons, List.length_append, List.length_append, SparseOp.length_bytes,
    Nat.add_assoc]

theorem set_eraseIdx_pair {α : Type} (S : List α) (b b' m : α) (T : List α) :
    ((S ++ b :: b' :: T).set (S.length + 1) m).eraseIdx S.length = S ++ m :: T := by
  induction S with
  | nil => rfl
  | cons x S ih =>
    rw [List.cons_append, List.length_cons, List.set_cons_succ, List.eraseIdx_cons_succ, ih]
    rfl

theorem hllSparseMergeScan_sparseBytes (scanlen : Nat) (A : List SparseOp) {B : List SparseOp}
    (fits : ∀ op ∈ B, op.Fits) :
    hllSparseMergeScan scanlen (sparseBytes (A ++ B)) (sparseBytes A).length =
      sparseBytes (A ++ mergeValOps scanlen B) := by
  induction scanlen generalizing A B with
  | zero => rfl
  | succ scanlen ih =>
    -- the scan moved past an opcode is the scan from the next boundary
    have pass : ∀ op rest, (∀ o ∈ rest, o.Fits) →
        hllSparseMergeScan scanlen (sparseBytes (A ++ op :: rest)) ((sparseBytes A).length + op.oplen) =
          sparseBytes (A ++ op :: mergeValOps scanlen rest) := by
      intro op rest fitsRest
      have next : (sparseBytes (A ++ [op])).length = (sparseBytes A).length + op.oplen := by
        simp [sparseBytes_append]
      have moved := ih (A ++ [op]) fitsRest
      rw [List.append_assoc, List.singleton_append, next, List.append_assoc, List.singleton_append] at moved
      exact moved
    cases B with
    | nil =>
      rw [hllSparseMergeScan, if_neg (by simp), mergeValOps_nil]
    | cons op rest =>
      have fitsOp := fits op List.mem_cons_self
      have fitsRest : ∀ o ∈ rest, o.Fits := fun o mem => fits o (List.mem_cons_of_mem op mem)
      have reads := @hllSparseOp_at A op fitsOp rest
      obtain ⟨zero, xzero, -⟩ := hllSparseOp_classes reads
      have inside : (sparseBytes A).length < (sparseBytes (A ++ op :: rest)).length := by
        have := oplen_pos op
        rw [length_sparseBytes_cons]
        omega
      rw [hllSparseMergeScan, if_pos inside]
      dsimp only
      rw [xzero, zero]
      cases op with
      | xzero l =>
        rw [if_pos (show (SparseOp.xzero l).isXzero = true from rfl), mergeValOps_cons_of_isVal rfl]
        exact pass _ rest fitsRest
      | zero l =>
        rw [if_neg (show ¬(SparseOp.zero l).isXzero = true from Bool.false_ne_true),
          if_pos (show (SparseOp.zero l).isZero = true from rfl), mergeValOps_cons_of_isVal rfl]
        exact pass _ rest fitsRest
      | val v l =>
        rw [if_neg (show ¬(SparseOp.val v l).isXzero = true from Bool.false_ne_true),
          if_neg (show ¬(SparseOp.val v l).isZero = true from Bool.false_ne_true)]
        obtain ⟨value, len⟩ := hllSparseOp_eq_val reads
        rw [value, len]
        cases rest with
        | nil =>
          have last : ¬(sparseBytes A).length + 1 < (sparseBytes (A ++ [.val v l])).length := by
            rw [length_sparseBytes_cons]
            simp [SparseOp.oplen]
          rw [if_neg fun both => last both.1, show mergeValOps (scanlen + 1) [.val v l] = [.val v l] from rfl]
          have done := pass (.val v l) [] fitsRest
          rw [mergeValOps_nil] at done
          exact done
        | cons op' rest' =>
          have fits' := fitsRest op' List.mem_cons_self
          have cAt : (sparseBytes (A ++ .val v l :: op' :: rest')).getD ((sparseBytes A).length + 1) 0 =
              (op'.bytes ++ sparseBytes rest').getD 0 0 := by
            rw [getD_sparseBytes_at]
            rfl
          have reads' := hllSparseOp_bytes_append fits' (sparseBytes rest')
          obtain ⟨-, -, val'⟩ := hllSparseOp_classes reads'
          have within : (sparseBytes A).length + 1 < (sparseBytes (A ++ .val v l :: op' :: rest')).length := by
            have := oplen_pos op'
            have one : (SparseOp.val v l).oplen = 1 := rfl
            rw [length_sparseBytes_cons, sparseBytes_cons, List.length_append, SparseOp.length_bytes, one]
            omega
          rw [cAt, val']
          -- a merge needs a VAL of the same value after it whose run fits
          by_cases merges : ∃ l', op' = .val v l' ∧ l + l' ≤ hllSparseValMaxLen
          · obtain ⟨l', rfl, fit⟩ := merges
            obtain ⟨value', len'⟩ := hllSparseOp_eq_val reads'
            have mergeWith : (SparseOp.val v l).mergeWith (.val v l') = some (.val v (l + l')) := by
              rw [SparseOp.mergeWith, if_pos ⟨rfl, fit⟩]
            obtain ⟨fitsMerged, -⟩ := mergeWith_spec fitsOp fits' mergeWith
            rw [if_pos ⟨within, rfl, value'.symm, by rw [len']; exact fit⟩, len']
            have spliced : ((sparseBytes (A ++ .val v l :: .val v l' :: rest')).set ((sparseBytes A).length + 1)
                (hllSparseValSet v (l + l'))).eraseIdx (sparseBytes A).length =
                  sparseBytes (A ++ .val v (l + l') :: rest') := by
              simp only [sparseBytes_append, sparseBytes_cons, SparseOp.bytes, List.singleton_append]
              exact set_eraseIdx_pair _ _ _ _ _
            rw [spliced, ih A (B := .val v (l + l') :: rest') fun o mem => by
              rcases List.mem_cons.mp mem with rfl | later
              · exact fitsMerged
              · exact fitsRest o (List.mem_cons_of_mem _ later)]
            simp only [mergeValOps, mergeWith]
          · have none : (SparseOp.val v l).mergeWith op' = none := by
              cases op' with
              | val v' l' =>
                rw [SparseOp.mergeWith, if_neg fun both => merges ⟨l', by rw [both.1], both.2⟩]
              | zero l' => rfl
              | xzero l' => rfl
            have refused : ¬((sparseBytes A).length + 1 < (sparseBytes (A ++ .val v l :: op' :: rest')).length ∧
                op'.isVal = true ∧ v = hllSparseValValue ((op'.bytes ++ sparseBytes rest').getD 0 0) ∧
                l + hllSparseValLen ((op'.bytes ++ sparseBytes rest').getD 0 0) ≤ hllSparseValMaxLen) := by
              rintro ⟨-, isVal, sameValue, fit⟩
              cases op' with
              | val v' l' =>
                obtain ⟨value', len'⟩ := hllSparseOp_eq_val reads'
                exact merges ⟨l', by rw [sameValue, value'], by rw [← len']; exact fit⟩
              | zero l' => cases isVal
              | xzero l' => cases isVal
            rw [if_neg refused]
            have moved := pass (.val v l) (op' :: rest') fitsRest
            simp only [mergeValOps, none]
            exact moved

end Merge

section Locate

theorem hllSparseLocate_cons (index : Nat) (b : UInt8) (tail : List UInt8) (p first : Nat) (prev : Option Nat) :
    hllSparseLocate index (b :: tail) p first prev =
      if index ≤ first + (hllSparseOp b (tail.headD 0)).len - 1 then
        some (p, first, (hllSparseOp b (tail.headD 0)).len, prev)
      else hllSparseLocate index ((b :: tail).drop (hllSparseOp b (tail.headD 0)).oplen)
        (p + (hllSparseOp b (tail.headD 0)).oplen) (first + (hllSparseOp b (tail.headD 0)).len) (some p) := by
  cases tail with
  | nil =>
    rw [List.headD_nil, hllSparseLocate]
    by_cases covers : index ≤ first + (hllSparseOp b 0).len - 1
    · simp only [if_pos covers]
    · -- past a last opcode the loop leaves the string
      have gone : [b].drop (hllSparseOp b 0).oplen = [] := List.drop_eq_nil_of_le (by
        have := oplen_pos (hllSparseOp b 0)
        simp only [List.length_singleton]
        omega)
      simp only [if_neg covers, gone]
      rfl
  | cons c rest =>
    rw [hllSparseLocate, oplen_hllSparseOp, List.headD_cons]
    by_cases covers : index ≤ first + (hllSparseOp b c).len - 1
    · simp only [if_pos covers]
    · by_cases xzero : hllSparseIsXzero b = true
      · simp only [if_neg covers, if_pos xzero]
        rfl
      · simp only [if_neg covers, if_neg xzero]
        rfl

theorem hllSparseLocate_spec {done ops : List SparseOp} (fits : ∀ op ∈ ops, op.Fits) {index p first : Nat}
    (atP : p = (sparseBytes done).length) (atFirst : first = (sparseRegisters done).length)
    {prev : Option Nat} (prevAt : ∃ A B, done = A ++ B ∧ prev.getD 0 = (sparseBytes A).length)
    (start : first ≤ index) (inside : index < (sparseRegisters (done ++ ops)).length) :
    ∃ pre op post prev', ops = pre ++ op :: post ∧
      hllSparseLocate index (sparseBytes ops) p first prev =
        some ((sparseBytes (done ++ pre)).length, (sparseRegisters (done ++ pre)).length, op.len, prev') ∧
      (sparseRegisters (done ++ pre)).length ≤ index ∧ index < (sparseRegisters (done ++ pre)).length + op.len ∧
      ∃ A B, done ++ pre = A ++ B ∧ prev'.getD 0 = (sparseBytes A).length := by
  induction ops generalizing done p first prev with
  | nil =>
    rw [List.append_nil] at inside
    omega
  | cons op ops ih =>
    have fitsOp := fits op List.mem_cons_self
    have fitsRest : ∀ o ∈ ops, o.Fits := fun o mem => fits o (List.mem_cons_of_mem op mem)
    obtain ⟨b, tail, first_byte⟩ : ∃ b tail, op.bytes ++ sparseBytes ops = b :: tail := by
      cases op <;> exact ⟨_, _, rfl⟩
    have reads : hllSparseOp b (tail.headD 0) = op := by
      have := hllSparseOp_bytes_append fitsOp (sparseBytes ops)
      rw [first_byte] at this
      cases tail <;> exact this
    have pos := SparseOp.len_pos fitsOp
    rw [sparseBytes_cons, first_byte, hllSparseLocate_cons, reads, ← first_byte, List.drop_left' (SparseOp.length_bytes op)]
    by_cases covers : index ≤ first + op.len - 1
    · -- the opcode at hand covers the register
      rw [if_pos covers]
      obtain ⟨A, B, split, atPrev⟩ := prevAt
      refine ⟨[], op, ops, prev, rfl, ?_, by simp; omega, by simp; omega, A, B, by simp [split], atPrev⟩
      simp [atP, atFirst]
    · rw [if_neg covers]
      have regs : (sparseRegisters (done ++ [op])).length = first + op.len := by
        simp [sparseRegisters_append, atFirst]
      obtain ⟨pre, op', post, prev', split, located, low, high, boundary⟩ :=
        @ih (done ++ [op]) fitsRest (p + op.oplen) (first + op.len) (by simp [sparseBytes_append, atP])
          regs.symm (some p) ⟨done, [op], rfl, by simp [atP]⟩ (by omega) (by simpa using inside)
      refine ⟨op :: pre, op', post, prev', by rw [split]; rfl, ?_, ?_, ?_, ?_⟩
      · rw [located]
        simp
      · simpa using low
      · simpa using high
      · simpa using boundary

end Locate

section Split

def zeroRunOp (len : Nat) : SparseOp := if len > hllSparseZeroMaxLen then .xzero len else .zero len

theorem hllSparseZeroRun_eq (len : Nat) : hllSparseZeroRun len = (zeroRunOp len).bytes := by
  unfold hllSparseZeroRun zeroRunOp
  split <;> rfl

theorem zeroRunOp_fits {len : Nat} (pos : 1 ≤ len) (le : len ≤ hllSparseXzeroMaxLen) : (zeroRunOp len).Fits := by
  unfold zeroRunOp
  split
  · exact ⟨pos, le⟩
  · exact ⟨pos, by omega⟩

theorem zeroRunOp_registers (len : Nat) : (zeroRunOp len).registers = List.replicate len 0 := by
  unfold zeroRunOp
  split <;> rfl

theorem zeroRunOp_oplen (len : Nat) : (zeroRunOp len).oplen = if len > hllSparseZeroMaxLen then 2 else 1 := by
  unfold zeroRunOp
  split <;> rfl

theorem sparseBytes_ite (c : Prop) [Decidable c] (op : SparseOp) :
    sparseBytes (if c then [op] else []) = if c then op.bytes else [] := by
  split <;> simp

theorem sparseRegisters_ite {c : Prop} [Decidable c] {k : Nat} (op : SparseOp) (a : Nat)
    (run : op.registers = List.replicate k a) (empty : ¬c → k = 0) :
    sparseRegisters (if c then [op] else []) = List.replicate k a := by
  by_cases holds : c
  · rw [if_pos holds, sparseRegisters_cons, sparseRegisters_nil, List.append_nil, run]
  · rw [if_neg holds, empty holds]
    rfl

theorem length_sparseBytes_ite (c : Prop) [Decidable c] (op : SparseOp) :
    (sparseBytes (if c then [op] else [])).length ≤ op.oplen := by
  split <;> simp

theorem zeroSplit_spec {n first index count : Nat} (le : n ≤ hllSparseXzeroMaxLen) (start : first ≤ index)
    (inside : index < first + n) (middle : (SparseOp.val count 1).Fits) :
    ∃ newOps, (if index ≠ first then hllSparseZeroRun (index - first) else []) ++ [hllSparseValSet count 1] ++
        (if index ≠ first + n - 1 then hllSparseZeroRun (first + n - 1 - index) else []) = sparseBytes newOps ∧
      (∀ o ∈ newOps, o.Fits) ∧ sparseRegisters newOps = (List.replicate n 0).set (index - first) count ∧
      (sparseBytes newOps).length ≤ if n ≤ hllSparseZeroMaxLen then 3 else 5 := by
  refine ⟨(if index ≠ first then [zeroRunOp (index - first)] else []) ++ [.val count 1] ++
    (if index ≠ first + n - 1 then [zeroRunOp (first + n - 1 - index)] else []), ?_, ?_, ?_, ?_⟩
  · rw [sparseBytes_append, sparseBytes_append, sparseBytes_ite, sparseBytes_ite, hllSparseZeroRun_eq,
      hllSparseZeroRun_eq]
    rfl
  · intro o mem
    simp only [List.mem_append, List.mem_ite_nil_right, List.mem_singleton] at mem
    rcases mem with (⟨outside, rfl⟩ | rfl) | ⟨outside, rfl⟩
    · exact zeroRunOp_fits (by omega) (by omega)
    · exact middle
    · exact zeroRunOp_fits (by omega) (by omega)
  · rw [set_replicate (by omega), sparseRegisters_append, sparseRegisters_append,
      sparseRegisters_ite _ 0 (zeroRunOp_registers _) (by omega),
      sparseRegisters_ite _ 0 (zeroRunOp_registers _) (by omega), show first + n - 1 - index = n - (index - first) - 1 by omega,
      List.append_assoc]
    rfl
  · have left := length_sparseBytes_ite (index ≠ first) (zeroRunOp (index - first))
    have right := length_sparseBytes_ite (index ≠ first + n - 1) (zeroRunOp (first + n - 1 - index))
    rw [zeroRunOp_oplen] at left right
    have one : (sparseBytes [SparseOp.val count 1]).length = 1 := rfl
    rw [sparseBytes_append, sparseBytes_append, List.length_append, List.length_append, one]
    by_cases small : n ≤ hllSparseZeroMaxLen
    · -- both runs fit a ZERO
      rw [if_neg (show ¬index - first > hllSparseZeroMaxLen by omega)] at left
      rw [if_neg (show ¬first + n - 1 - index > hllSparseZeroMaxLen by omega)] at right
      rw [if_pos small]
      omega
    · have leftTwo : (if index - first > hllSparseZeroMaxLen then 2 else 1) ≤ 2 := by split <;> omega
      have rightTwo : (if first + n - 1 - index > hllSparseZeroMaxLen then 2 else 1) ≤ 2 := by split <;> omega
      rw [if_neg small]
      omega

theorem length_hllSparseZeroRun (len : Nat) :
    (hllSparseZeroRun len).length = if len > hllSparseZeroMaxLen then 2 else 1 := by
  rw [hllSparseZeroRun_eq, SparseOp.length_bytes, zeroRunOp_oplen]

/-- Wherever the register, the split of the run of all the registers is longer than its XZERO: one side of
the register holds more than HLL_SPARSE_ZERO_MAX_LEN of them. -/
theorem oplen_lt_length_hllSparseSplit_xzero (index count : Nat) :
    (SparseOp.xzero hllRegisters).oplen <
      (hllSparseSplit (.xzero hllRegisters) 0 (0 + hllRegisters - 1) index count).length := by
  have left := length_hllSparseZeroRun (index - 0)
  have right := length_hllSparseZeroRun (0 + hllRegisters - 1 - index)
  unfold hllSparseZeroMaxLen at left right
  rw [hllRegisters_eq] at right ⊢
  simp only [hllSparseSplit, List.length_append, List.length_singleton, SparseOp.oplen]
  split_ifs at left right ⊢ <;> simp only [List.length_nil, left, right] <;> omega

theorem hllSparseSplit_spec {op : SparseOp} (fits : op.Fits) {first index count : Nat}
    (start : first ≤ index) (inside : index < first + op.len) (pos : 1 ≤ count) (le : count ≤ hllSparseValMaxValue) :
    ∃ newOps, hllSparseSplit op first (first + op.len - 1) index count = sparseBytes newOps ∧
      (∀ o ∈ newOps, o.Fits) ∧ sparseRegisters newOps = op.registers.set (index - first) count ∧
      (sparseBytes newOps).length ≤ op.oplen + 3 := by
  have middle : (SparseOp.val count 1).Fits := ⟨pos, le, le_refl 1, by decide⟩
  cases op with
  | zero runlen =>
    have short : runlen ≤ hllSparseZeroMaxLen := fits.2
    obtain ⟨newOps, bytes, fitsNew, registers, length⟩ := @zeroSplit_spec runlen first index count
      (by unfold hllSparseZeroMaxLen at short; unfold hllSparseXzeroMaxLen; omega) start inside middle
    refine ⟨newOps, bytes, fitsNew, registers, ?_⟩
    rw [if_pos short] at length
    exact Nat.le_trans length (by simp [SparseOp.oplen])
  | xzero runlen =>
    obtain ⟨newOps, bytes, fitsNew, registers, length⟩ := @zeroSplit_spec runlen first index count fits.2 start
      inside middle
    refine ⟨newOps, bytes, fitsNew, registers, ?_⟩
    split at length <;> exact Nat.le_trans length (by simp [SparseOp.oplen])
  | val curval runlen =>
    obtain ⟨vpos, vle, lpos, lle⟩ := fits
    simp only [SparseOp.len] at inside ⊢
    refine ⟨(if index ≠ first then [.val curval (index - first)] else []) ++ [.val count 1] ++
      (if index ≠ first + runlen - 1 then [.val curval (first + runlen - 1 - index)] else []), ?_, ?_, ?_, ?_⟩
    · rw [sparseBytes_append, sparseBytes_append, sparseBytes_ite, sparseBytes_ite]
      rfl
    · intro o mem
      simp only [List.mem_append, List.mem_ite_nil_right, List.mem_singleton] at mem
      unfold hllSparseValMaxLen at lle
      rcases mem with (⟨outside, rfl⟩ | rfl) | ⟨outside, rfl⟩
      · exact ⟨vpos, vle, show 1 ≤ index - first by omega, show index - first ≤ 4 by omega⟩
      · exact middle
      · exact ⟨vpos, vle, show 1 ≤ first + runlen - 1 - index by omega, show first + runlen - 1 - index ≤ 4 by omega⟩
    · have leftRegs : sparseRegisters (if index ≠ first then [SparseOp.val curval (index - first)] else []) =
          List.replicate (index - first) curval := sparseRegisters_ite _ curval rfl (by omega)
      have rightRegs : sparseRegisters (if index ≠ first + runlen - 1 then
          [SparseOp.val curval (first + runlen - 1 - index)] else []) =
            List.replicate (first + runlen - 1 - index) curval := sparseRegisters_ite _ curval rfl (by omega)
      rw [SparseOp.registers, set_replicate (by simp only [SparseOp.len]; omega), sparseRegisters_append,
        sparseRegisters_append, leftRegs, rightRegs]
      simp only [SparseOp.len, SparseOp.value]
      rw [show first + runlen - 1 - index = runlen - (index - first) - 1 by omega, List.append_assoc]
      rfl
    · have left := length_sparseBytes_ite (index ≠ first) (.val curval (index - first))
      have right := length_sparseBytes_ite (index ≠ first + runlen - 1) (.val curval (first + runlen - 1 - index))
      rw [sparseBytes_append, sparseBytes_append, List.length_append, List.length_append]
      have one : (sparseBytes [SparseOp.val count 1]).length = 1 := rfl
      rw [one]
      simp only [SparseOp.oplen] at left right ⊢
      omega

end Split

section Steps

theorem splice_sparseBytes (pre : List SparseOp) (op : SparseOp) (post newOps : List SparseOp) :
    ((sparseBytes (pre ++ op :: post)).take (sparseBytes pre).length ++ sparseBytes newOps ++
        (sparseBytes (pre ++ op :: post)).drop ((sparseBytes pre).length + op.oplen)).take
      ((sparseBytes (pre ++ op :: post)).length + (sparseBytes newOps).length - op.oplen) =
      sparseBytes (pre ++ newOps ++ post) := by
  have whole : sparseBytes (pre ++ op :: post) = sparseBytes pre ++ (op.bytes ++ sparseBytes post) := by
    rw [sparseBytes_append, sparseBytes_cons]
  have kept : (sparseBytes (pre ++ op :: post)).take (sparseBytes pre).length = sparseBytes pre := by
    rw [whole, List.take_left' rfl]
  have after : (sparseBytes (pre ++ op :: post)).drop ((sparseBytes pre).length + op.oplen) = sparseBytes post := by
    rw [whole, ← List.append_assoc, List.drop_left' (by rw [List.length_append, SparseOp.length_bytes])]
  rw [kept, after, List.take_of_length_le (by rw [length_sparseBytes_cons]; simp only [List.length_append]; omega),
    sparseBytes_append, sparseBytes_append]

theorem set_sparseBytes (pre : List SparseOp) {op : SparseOp} (one : op.oplen = 1) (post : List SparseOp)
    (b : UInt8) :
    (sparseBytes (pre ++ op :: post)).set (sparseBytes pre).length b = sparseBytes pre ++ b :: sparseBytes post := by
  obtain ⟨x, single⟩ : ∃ x, op.bytes = [x] := by
    cases op with
    | zero l => exact ⟨_, rfl⟩
    | val v l => exact ⟨_, rfl⟩
    | xzero l => cases one
  rw [sparseBytes_append, sparseBytes_cons, single, List.singleton_append, List.set_append_right _ _ (le_refl _),
    Nat.sub_self, List.set_cons_zero]

theorem getD_sparseRegisters_at (pre : List SparseOp) (op : SparseOp) (post : List SparseOp) {index : Nat}
    (start : (sparseRegisters pre).length ≤ index) (inside : index < (sparseRegisters pre).length + op.len) :
    (sparseRegisters (pre ++ op :: post)).getD index 0 = op.value := by
  rw [sparseRegisters_append, sparseRegisters_cons, List.getD_append_right _ _ _ _ start,
    List.getD_append _ _ _ _ (by rw [SparseOp.length_registers]; omega), SparseOp.registers,
    List.getD_replicate _ (by omega)]

theorem set_eq_of_getD_eq {l : List Nat} {i v : Nat} (inside : i < l.length) (same : l.getD i 0 = v) :
    l.set i v = l := by
  rw [← same, List.getD_eq_getElem _ _ inside, List.set_getElem_self]

theorem sparseRegisters_replace (pre : List SparseOp) (op : SparseOp) (post newOps : List SparseOp) {index : Nat}
    (start : (sparseRegisters pre).length ≤ index) (inside : index < (sparseRegisters pre).length + op.len)
    {count : Nat} (replaced : sparseRegisters newOps = op.registers.set (index - (sparseRegisters pre).length) count) :
    sparseRegisters (pre ++ newOps ++ post) = (sparseRegisters (pre ++ op :: post)).set index count := by
  rw [sparseRegisters_append, sparseRegisters_append, replaced, sparseRegisters_append, sparseRegisters_cons,
    List.set_append_right _ _ start, List.set_append_left _ _ (by rw [SparseOp.length_registers]; omega),
    List.append_assoc]

theorem hllSparseGrow_spec (maxBytes : Nat) (a : SdsAllocator) {o : HllString} (allocated : o.buf.length ≤ o.alloc) :
    (hllSparseGrow maxBytes a o).buf = o.buf ∧ o.buf.length ≤ (hllSparseGrow maxBytes a o).alloc ∧
      (maxBytes ≤ (hllSparseGrow maxBytes a o).alloc ∨ o.buf.length + 3 ≤ (hllSparseGrow maxBytes a o).alloc) := by
  unfold hllSparseGrow
  split
  · rename_i short
    dsimp only
    -- the new length is above the old, since the allocation was below hll_sparse_max_bytes
    by_cases capped : o.buf.length + 3 + min (o.buf.length + 3) 300 > maxBytes
    · rw [if_pos capped]
      have granted := a.enough maxBytes
      exact ⟨List.take_of_length_le (by omega), by omega, .inl granted⟩
    · rw [if_neg capped]
      have granted := a.enough (o.buf.length + 3 + min (o.buf.length + 3) 300)
      exact ⟨List.take_of_length_le (by omega), by omega, .inr (by omega)⟩
  · rename_i roomy
    exact ⟨rfl, allocated, by omega⟩

end Steps

structure SparseValid (o : HllString) : Prop where
  header : hllHdrSize ≤ o.buf.length
  sparse : o.buf.getD 4 0 = hllSparseEncoding
  wellFormed : hllSparseWellFormed (o.buf.drop hllHdrSize) = true
  covers : (sparseRegisters (hllSparseOps (o.buf.drop hllHdrSize))).length = hllRegisters
  allocated : o.buf.length ≤ o.alloc

structure DenseValid (o : HllString) : Prop where
  size : o.buf.length = hllDenseSize
  dense : o.buf.getD 4 0 = hllDenseEncoding
  allocated : o.buf.length ≤ o.alloc

section Valid

variable {o : HllString}

theorem SparseValid.bytes (valid : SparseValid o) :
    sparseBytes (hllSparseOps (o.buf.drop hllHdrSize)) = o.buf.drop hllHdrSize :=
  beq_iff_eq.mp valid.wellFormed

theorem SparseValid.registersOf (valid : SparseValid o) :
    hllRegistersOf o.buf = some (sparseRegisters (hllSparseOps (o.buf.drop hllHdrSize))) := by
  rw [hllRegistersOf, if_neg (by rw [valid.sparse]; decide), if_pos valid.sparse, hllSparseDecode, if_pos valid.covers]

/-- The promotion of a valid sparse string: a dense string standing for the registers with the register
raised, and the assertion that it changed, which holds when the register was below the count. -/
theorem hllSparsePromote_eq (a : SdsAllocator) (valid : SparseValid o) {index : Nat} (inside : index < hllRegisters)
    {count : UInt8} (small : count.toNat < 64) :
    ∃ o', DenseValid o' ∧ hllRegistersOf o'.buf = some ((sparseRegisters (hllSparseOps (o.buf.drop hllHdrSize))).set
        index (max ((sparseRegisters (hllSparseOps (o.buf.drop hllHdrSize))).getD index 0) count.toNat)) ∧
      hllSparsePromote a o index count =
        if (sparseRegisters (hllSparseOps (o.buf.drop hllHdrSize))).getD index 0 < count.toNat then some (1, o')
        else none := by
  have decoded : hllSparseDecode (o.buf.drop hllHdrSize) = some (sparseRegisters (hllSparseOps (o.buf.drop hllHdrSize))) := by
    rw [hllSparseDecode, if_pos valid.covers]
  obtain ⟨dense, toDense, size, registers⟩ :=
    hllSparseToDense_of_decode (by rw [valid.sparse]; decide) decoded
  have hdr := length_denseHeader valid.header
  have old : hllDenseGetRegister dense index = (sparseRegisters (hllSparseOps (o.buf.drop hllHdrSize))).getD index 0 := by
    rw [← registers, List.getD_eq_getElem _ _ (by rw [length_hllDenseRegisters]; exact inside),
      getElem_hllDenseRegisters]
  obtain ⟨length, setRegisters, changed⟩ := hllDenseSet_spec size inside small
  -- the promoted string is the sparse header marked HLL_DENSE before the raised registers
  have denseSize : ((o.buf.take hllHdrSize).set 4 hllDenseEncoding ++ (hllDenseSet dense index count).2).length =
      hllDenseSize := by
    rw [List.length_append, hdr, length, size]
    rfl
  have encoding : ((o.buf.take hllHdrSize).set 4 hllDenseEncoding ++ (hllDenseSet dense index count).2).getD 4 0 =
      hllDenseEncoding := by
    rw [List.getD_append _ _ _ _ (by rw [hdr]; decide), List.getD_eq_getElem _ _ (by rw [hdr]; decide),
      List.getElem_set_self]
  refine ⟨HllString.mk ((o.buf.take hllHdrSize).set 4 hllDenseEncoding ++ (hllDenseSet dense index count).2)
    (a.grant hllDenseSize), ⟨denseSize, encoding, ?_⟩, ?_, ?_⟩
  · rw [denseSize]
    exact a.enough hllDenseSize
  · rw [hllRegistersOf, if_pos encoding, if_pos denseSize, List.drop_left' hdr, setRegisters, registers, old]
  · rw [hllSparsePromote, toDense]
    dsimp only
    rw [List.drop_left' hdr, List.take_left' hdr, changed, old]
    -- the serverAssert on the reply of hllDenseSet
    by_cases raises : (sparseRegisters (hllSparseOps (o.buf.drop hllHdrSize))).getD index 0 < count.toNat
    · rw [if_pos raises, if_pos raises, if_neg (by decide)]
      rfl
    · rw [if_neg raises, if_neg raises, if_pos (by decide)]

/-- The promotion of a sparse string whose register is below the count: a dense string standing for the
registers with the register raised, and the assertion that it changed holds. -/
theorem hllSparsePromote_spec (a : SdsAllocator) (valid : SparseValid o) {index : Nat} (inside : index < hllRegisters)
    {count : UInt8} (small : count.toNat < 64)
    (raises : (sparseRegisters (hllSparseOps (o.buf.drop hllHdrSize))).getD index 0 < count.toNat) :
    ∃ o', hllSparsePromote a o index count = some (1, o') ∧ DenseValid o' ∧
      hllRegistersOf o'.buf = some ((sparseRegisters (hllSparseOps (o.buf.drop hllHdrSize))).set index count.toNat) := by
  obtain ⟨o', dense, registers, promoted⟩ := hllSparsePromote_eq a valid inside small
  rw [if_pos raises] at promoted
  rw [Nat.max_eq_right (Nat.le_of_lt raises)] at registers
  exact ⟨o', promoted, dense, registers⟩

theorem hllSparsePromote_spec_xzero :
    SparseValid ⟨List.replicate 16 1 ++ [127, 255], 18⟩ ∧ 5 < hllRegisters ∧ (3 : UInt8).toNat < 64 ∧
      (sparseRegisters (hllSparseOps ((List.replicate 16 (1 : UInt8) ++ [127, 255]).drop hllHdrSize))).getD 5 0 <
        (3 : UInt8).toNat ∧
      ∃ o', hllSparsePromote ⟨id, fun _ => le_refl _⟩ ⟨List.replicate 16 1 ++ [127, 255], 18⟩ 5 3 = some (1, o') ∧
        DenseValid o' ∧ hllRegistersOf o'.buf =
          some ((sparseRegisters (hllSparseOps ((List.replicate 16 (1 : UInt8) ++ [127, 255]).drop hllHdrSize))).set 5
            (3 : UInt8).toNat) := by
  have opcodes : (List.replicate 16 (1 : UInt8) ++ [127, 255]).drop hllHdrSize = [127, 255] :=
    List.drop_left' (show (List.replicate 16 (1 : UInt8)).length = hllHdrSize from List.length_replicate)
  have valid : SparseValid ⟨List.replicate 16 1 ++ [127, 255], 18⟩ := by
    refine ⟨by decide, by decide, by decide, ?_, by decide⟩
    show (sparseRegisters (hllSparseOps ((List.replicate 16 (1 : UInt8) ++ [127, 255]).drop hllHdrSize))).length = _
    rw [opcodes, sparseRegisters_xzero_all, List.length_replicate]
  have raises : (sparseRegisters (hllSparseOps ((List.replicate 16 (1 : UInt8) ++ [127, 255]).drop hllHdrSize))).getD 5 0 <
      (3 : UInt8).toNat := by
    rw [opcodes, sparseRegisters_xzero_all, List.getD_replicate _ (by decide)]
    decide
  exact ⟨valid, by decide, by decide, raises, hllSparsePromote_spec ⟨id, fun _ => le_refl _⟩ valid (by decide) (by decide)
    raises⟩

theorem SparseValid.grow (maxBytes : Nat) (a : SdsAllocator) (valid : SparseValid o) :
    SparseValid (hllSparseGrow maxBytes a o) := by
  obtain ⟨same, allocated, -⟩ := hllSparseGrow_spec maxBytes a valid.allocated
  exact ⟨by rw [same]; exact valid.header, by rw [same]; exact valid.sparse, by rw [same]; exact valid.wellFormed,
    by rw [same]; exact valid.covers, by rw [same]; exact allocated⟩

/-- The end of an update in place: the header, its cache marked invalid, before the opcodes merged from
`prev` on. The string stays a valid sparse representation of the same registers. -/
theorem hllSparseUpdated_spec (valid : SparseValid o) {A B : List SparseOp} (fitsA : ∀ op ∈ A, op.Fits)
    (fitsB : ∀ op ∈ B, op.Fits) (covers : (sparseRegisters (A ++ B)).length = hllRegisters)
    (room : hllHdrSize + (sparseBytes (A ++ B)).length ≤ o.alloc) {prev : Option Nat}
    (boundary : prev.getD 0 = (sparseBytes A).length) :
    SparseValid (hllSparseUpdated o (sparseBytes (A ++ B)) prev) ∧
      hllRegistersOf (hllSparseUpdated o (sparseBytes (A ++ B)) prev).buf = some (sparseRegisters (A ++ B)) ∧
      (hllSparseUpdated o (sparseBytes (A ++ B)) prev).buf.length ≤ hllHdrSize + (sparseBytes (A ++ B)).length := by
  obtain ⟨same, fitsMerged, shorter⟩ := sparseRegisters_mergeValOps 5 fitsB
  have fits : ∀ op ∈ A ++ mergeValOps 5 B, op.Fits := by
    intro op mem
    rcases List.mem_append.mp mem with inA | merged
    · exact fitsA op inA
    · exact fitsMerged op merged
  have hdr : (hllInvalidateCache (o.buf.take hllHdrSize)).length = hllHdrSize := by
    rw [hllInvalidateCache, List.length_set, List.length_take, Nat.min_eq_left valid.header]
  have buf : (hllSparseUpdated o (sparseBytes (A ++ B)) prev).buf =
      hllInvalidateCache (o.buf.take hllHdrSize) ++ sparseBytes (A ++ mergeValOps 5 B) := by
    rw [hllSparseUpdated, boundary, hllSparseMergeScan_sparseBytes 5 A fitsB]
  have opcodes : (hllSparseUpdated o (sparseBytes (A ++ B)) prev).buf.drop hllHdrSize =
      sparseBytes (A ++ mergeValOps 5 B) := by
    rw [buf, List.drop_left' hdr]
  have registers : sparseRegisters (hllSparseOps ((hllSparseUpdated o (sparseBytes (A ++ B)) prev).buf.drop
      hllHdrSize)) = sparseRegisters (A ++ B) := by
    rw [opcodes, hllSparseOps_sparseBytes fits, sparseRegisters_append, same, ← sparseRegisters_append]
  have length : (hllSparseUpdated o (sparseBytes (A ++ B)) prev).buf.length ≤
      hllHdrSize + (sparseBytes (A ++ B)).length := by
    -- merging VAL opcodes only shortens the string
    rw [buf, List.length_append, hdr, sparseBytes_append, sparseBytes_append, List.length_append, List.length_append]
    omega
  have valid' : SparseValid (hllSparseUpdated o (sparseBytes (A ++ B)) prev) := by
    refine ⟨?_, ?_, ?_, by rw [registers]; exact covers, Nat.le_trans length room⟩
    · rw [buf, List.length_append, hdr]
      exact Nat.le_add_right _ _
    · -- the cache flag is byte 15; the encoding, byte 4, is the old one
      rw [buf, List.getD_append _ _ _ _ (by rw [hdr]; decide), hllInvalidateCache, List.getD_eq_getElem?_getD,
        List.getElem?_set_ne (by decide), List.getElem?_take_of_lt (by decide), ← List.getD_eq_getElem?_getD]
      exact valid.sparse
    · rw [opcodes, hllSparseWellFormed, hllSparseOps_sparseBytes fits, beq_self_eq_true]
  exact ⟨valid', by rw [valid'.registersOf, registers], length⟩

/-- Opcodes of a valid string replaced by others that stand for its registers with `index` set to `count`,
then merged from `prev` on: a valid sparse string of those registers. -/
theorem hllSparseUpdated_replace (valid : SparseValid o) {pre post : List SparseOp} {op : SparseOp}
    (ops : hllSparseOps (o.buf.drop hllHdrSize) = pre ++ op :: post) {index : Nat}
    (start : (sparseRegisters pre).length ≤ index) (inside : index < (sparseRegisters pre).length + op.len)
    {newOps : List SparseOp} (fitsNew : ∀ x ∈ newOps, x.Fits) {count : Nat}
    (replaced : sparseRegisters newOps = op.registers.set (index - (sparseRegisters pre).length) count)
    (room : hllHdrSize + (sparseBytes (pre ++ newOps ++ post)).length ≤ o.alloc) {prev : Option Nat}
    (boundary : ∃ A B, pre = A ++ B ∧ prev.getD 0 = (sparseBytes A).length) :
    SparseValid (hllSparseUpdated o (sparseBytes (pre ++ newOps ++ post)) prev) ∧
      hllRegistersOf (hllSparseUpdated o (sparseBytes (pre ++ newOps ++ post)) prev).buf =
        some ((sparseRegisters (pre ++ op :: post)).set index count) ∧
      (hllSparseUpdated o (sparseBytes (pre ++ newOps ++ post)) prev).buf.length ≤
        hllHdrSize + (sparseBytes (pre ++ newOps ++ post)).length := by
  obtain ⟨A, B, rfl, boundary⟩ := boundary
  have fitsOps := hllSparseOps_fits (o.buf.drop hllHdrSize)
  rw [ops] at fitsOps
  have registers := sparseRegisters_replace (A ++ B) op post newOps start inside replaced
  have reassoc : A ++ B ++ newOps ++ post = A ++ (B ++ newOps ++ post) := by simp
  have fitsA : ∀ x ∈ A, x.Fits := fun x mem => fitsOps x (by simp [mem])
  have fitsB : ∀ x ∈ B ++ newOps ++ post, x.Fits := by
    intro x mem
    simp only [List.mem_append] at mem
    rcases mem with (inB | new) | inPost
    · exact fitsOps x (by simp [inB])
    · exact fitsNew x new
    · exact fitsOps x (by simp [inPost])
  have covers : (sparseRegisters (A ++ (B ++ newOps ++ post))).length = hllRegisters := by
    rw [← reassoc, registers, List.length_set, ← ops, valid.covers]
  rw [reassoc] at room ⊢
  obtain ⟨valid', updated, length⟩ := hllSparseUpdated_spec valid fitsA fitsB covers room boundary
  exact ⟨valid', by rw [updated, ← reassoc, registers], length⟩

/-- Cases B and C of hllSparseSet: an opcode of one register rewritten in place to a VAL of the count. -/
theorem hllSparseSet_inPlace (valid : SparseValid o) {pre post : List SparseOp} {op : SparseOp}
    (ops : hllSparseOps (o.buf.drop hllHdrSize) = pre ++ op :: post) (one : op.oplen = 1) (single : op.len = 1)
    {index : Nat} (start : (sparseRegisters pre).length ≤ index) (inside : index < (sparseRegisters pre).length + op.len)
    {count : UInt8} (pos : 1 ≤ count.toNat) (le : count.toNat ≤ hllSparseValMaxValue) {prev : Option Nat}
    (boundary : ∃ A B, pre = A ++ B ∧ prev.getD 0 = (sparseBytes A).length) :
    SparseValid (hllSparseUpdated o ((o.buf.drop hllHdrSize).set (sparseBytes pre).length
        (hllSparseValSet count.toNat 1)) prev) ∧
      hllRegistersOf (hllSparseUpdated o ((o.buf.drop hllHdrSize).set (sparseBytes pre).length
        (hllSparseValSet count.toNat 1)) prev).buf = some ((sparseRegisters (pre ++ op :: post)).set index count.toNat) ∧
      (hllSparseUpdated o ((o.buf.drop hllHdrSize).set (sparseBytes pre).length
        (hllSparseValSet count.toNat 1)) prev).buf.length ≤ o.buf.length := by
  have whole : o.buf.drop hllHdrSize = sparseBytes (pre ++ op :: post) := by rw [← ops, valid.bytes]
  have rewritten : (o.buf.drop hllHdrSize).set (sparseBytes pre).length (hllSparseValSet count.toNat 1) =
      sparseBytes (pre ++ [.val count.toNat 1] ++ post) := by
    rw [whole, set_sparseBytes pre one, List.append_assoc, List.singleton_append, sparseBytes_append, sparseBytes_cons]
    rfl
  have replaced : sparseRegisters [.val count.toNat 1] =
      op.registers.set (index - (sparseRegisters pre).length) count.toNat := by
    rw [SparseOp.registers, single, show index - (sparseRegisters pre).length = 0 by omega]
    rfl
  have same : hllHdrSize + (sparseBytes (pre ++ [.val count.toNat 1] ++ post)).length = o.buf.length := by
    have := valid.header
    rw [← rewritten, List.length_set, List.length_drop]
    omega
  rw [rewritten]
  obtain ⟨valid', registers, length⟩ := hllSparseUpdated_replace valid ops start inside
    (fun x mem => by rw [List.mem_singleton.mp mem]; exact ⟨pos, le, le_refl 1, by decide⟩) replaced
    (by rw [same]; exact valid.allocated) boundary
  exact ⟨valid', registers, same ▸ length⟩

/-- Case D of hllSparseSet: the opcode split around the register. The string is promoted when it would
pass hll_sparse_max_bytes; otherwise the assertion on its allocation holds, since hllSparseGrow left room
for the at most three bytes a split adds. -/
theorem hllSparseReplace_split (maxBytes : Nat) (a : SdsAllocator) (valid : SparseValid o)
    (grown : maxBytes ≤ o.alloc ∨ o.buf.length + 3 ≤ o.alloc) {pre post : List SparseOp} {op : SparseOp}
    (ops : hllSparseOps (o.buf.drop hllHdrSize) = pre ++ op :: post) {index : Nat}
    (start : (sparseRegisters pre).length ≤ index) (inside : index < (sparseRegisters pre).length + op.len)
    {count : UInt8} (pos : 1 ≤ count.toNat) (le : count.toNat ≤ hllSparseValMaxValue) (raises : op.value < count.toNat)
    {prev : Option Nat} (boundary : ∃ A B, pre = A ++ B ∧ prev.getD 0 = (sparseBytes A).length) :
    ∃ o', hllSparseReplace maxBytes a o index count (sparseBytes pre).length op.oplen
        (hllSparseSplit op (sparseRegisters pre).length ((sparseRegisters pre).length + op.len - 1) index count.toNat)
        prev = some (1, o') ∧
      hllRegistersOf o'.buf = some ((sparseRegisters (pre ++ op :: post)).set index count.toNat) ∧
      (SparseValid o' ∧ (o'.buf.length ≤ maxBytes ∨ o'.buf.length ≤ o.buf.length ∧
        (hllSparseSplit op (sparseRegisters pre).length ((sparseRegisters pre).length + op.len - 1) index
          count.toNat).length ≤ op.oplen) ∨ DenseValid o') := by
  have fitsOps := hllSparseOps_fits (o.buf.drop hllHdrSize)
  rw [ops] at fitsOps
  obtain ⟨newOps, bytes, fitsNew, replaced, length⟩ := hllSparseSplit_spec (fitsOps op (by simp)) start inside pos le
  have whole : o.buf.drop hllHdrSize = sparseBytes (pre ++ op :: post) := by rw [← ops, valid.bytes]
  have bufLen : o.buf.length = hllHdrSize + (sparseBytes (pre ++ op :: post)).length := by
    rw [← whole, List.length_drop]
    have := valid.header
    omega
  have allocated := valid.allocated
  rw [length_sparseBytes_cons] at bufLen
  rw [hllSparseReplace, bytes]
  dsimp only
  split_ifs with promote overflow
  · -- the string would pass hll_sparse_max_bytes: promoted to dense
    have covered : (sparseRegisters (pre ++ op :: post)).length = hllRegisters := by rw [← ops]; exact valid.covers
    have within : index < hllRegisters := by
      rw [← covered, sparseRegisters_append, sparseRegisters_cons, List.length_append, List.length_append,
        SparseOp.length_registers]
      omega
    have old : (sparseRegisters (hllSparseOps (o.buf.drop hllHdrSize))).getD index 0 < count.toNat := by
      rw [ops, getD_sparseRegisters_at pre op post start inside]
      exact raises
    obtain ⟨o', dense, registers, promoted⟩ :=
      hllSparsePromote_eq a valid within (show count.toNat < 64 by unfold hllSparseValMaxValue at le; omega)
    rw [if_pos old] at promoted
    exact ⟨o', promoted, by rw [registers, ops, Nat.max_eq_right (Nat.le_of_lt (by rwa [ops] at old))], .inr dense⟩
  · -- the serverAssert on the allocation
    exfalso
    omega
  · refine ⟨_, rfl, ?_⟩
    have room : hllHdrSize + (sparseBytes (pre ++ newOps ++ post)).length ≤ o.alloc := by
      rw [sparseBytes_append, sparseBytes_append, List.length_append, List.length_append]
      omega
    rw [whole, splice_sparseBytes]
    obtain ⟨valid', registers, updated⟩ := hllSparseUpdated_replace valid ops start inside fitsNew replaced room boundary
    -- a split that grows the string was checked against hll_sparse_max_bytes
    have grows : (sparseBytes (pre ++ newOps ++ post)).length =
        (sparseBytes pre).length + (sparseBytes newOps).length + (sparseBytes post).length := by
      rw [sparseBytes_append, sparseBytes_append, List.length_append, List.length_append]
    rw [grows] at updated
    refine ⟨registers, .inl ⟨valid', ?_⟩⟩
    by_cases longer : op.oplen < (sparseBytes newOps).length
    · exact .inl (by omega)
    · exact .inr ⟨by omega, by omega⟩

theorem eq_nil_of_append_cons_eq_singleton {pre post : List SparseOp} {op op' : SparseOp}
    (single : pre ++ op :: post = [op']) : pre = [] ∧ op = op' ∧ post = [] := by
  cases pre with
  | nil => simpa using single
  | cons x rest => simp at single

/-- hllSparseSet on a valid sparse string and a count of the range hllPatLen gives: the register raised
to the count when it was below, with 1, or left as it was, with 0; the string after is a valid dense
representation of the registers, or a valid sparse one that grew only up to hll_sparse_max_bytes, as it
does from the single XZERO of a new HyperLogLog. The assertions of the source hold on the way. -/
theorem hllSparseSet_spec (maxBytes : Nat) (a : SdsAllocator) (valid : SparseValid o) {index : Nat}
    (inside : index < hllRegisters) {count : UInt8} (pos : 1 ≤ count.toNat) (small : count.toNat < 64) :
    ∃ o', hllSparseSet maxBytes a o index count =
        some (if count.toNat ≤ (sparseRegisters (hllSparseOps (o.buf.drop hllHdrSize))).getD index 0 then 0 else 1,
          o') ∧
      hllRegistersOf o'.buf = some ((sparseRegisters (hllSparseOps (o.buf.drop hllHdrSize))).set index
        (max ((sparseRegisters (hllSparseOps (o.buf.drop hllHdrSize))).getD index 0) count.toNat)) ∧
      (SparseValid o' ∧ (o'.buf.length ≤ maxBytes ∨ o'.buf.length ≤ o.buf.length) ∧
        (hllSparseOps (o.buf.drop hllHdrSize) = [.xzero hllRegisters] → o'.buf.length ≤ maxBytes) ∨ DenseValid o') := by
  obtain ⟨ops, opsDef⟩ : ∃ ops, hllSparseOps (o.buf.drop hllHdrSize) = ops := ⟨_, rfl⟩
  have fitsOps : ∀ x ∈ ops, x.Fits := by rw [← opsDef]; exact hllSparseOps_fits _
  have covered : (sparseRegisters ops).length = hllRegisters := by rw [← opsDef]; exact valid.covers
  -- every register of a sparse string is at most HLL_SPARSE_VAL_MAX_VALUE
  have oldLe : (sparseRegisters ops).getD index 0 ≤ hllSparseValMaxValue := by
    apply le_of_mem_sparseRegisters fitsOps
    rw [List.getD_eq_getElem _ _ (by omega)]
    exact List.getElem_mem _
  rw [opsDef]
  by_cases large : count.toNat > hllSparseValMaxValue
  · -- a count past what a VAL holds promotes the string at once
    have old : (sparseRegisters (hllSparseOps (o.buf.drop hllHdrSize))).getD index 0 < count.toNat := by
      rw [opsDef]
      omega
    obtain ⟨o', dense, registers, promoted⟩ := hllSparsePromote_eq a valid inside small
    rw [if_pos old] at promoted
    refine ⟨o', ?_, ?_, .inr dense⟩
    · rw [hllSparseSet, if_pos large, promoted, if_neg (by omega)]
    · rw [registers, opsDef]
  · have valid1 := valid.grow maxBytes a
    obtain ⟨same, -, grown⟩ := hllSparseGrow_spec maxBytes a valid.allocated
    have sameLength : (hllSparseGrow maxBytes a o).buf.length = o.buf.length := congrArg List.length same
    rw [← same] at opsDef grown
    obtain ⟨pre, op, post, prev, rfl, located, low, high, boundary⟩ :=
      @hllSparseLocate_spec [] ops fitsOps index 0 0 rfl rfl none ⟨[], [], rfl, rfl⟩ (Nat.zero_le _)
        (by rw [List.nil_append, covered]; exact inside)
    simp only [List.nil_append] at located low high boundary
    have whole : (hllSparseGrow maxBytes a o).buf.drop hllHdrSize = sparseBytes (pre ++ op :: post) := by
      rw [← opsDef, valid1.bytes]
    have old := getD_sparseRegisters_at pre op post low high
    rw [hllSparseSet, if_neg large]
    dsimp only
    rw [whole, located]
    dsimp only
    rw [hllSparseOp_at (fitsOps op (by simp)) post, ← whole, old]
    cases op with
    | val oldcount runlen =>
      dsimp only
      rw [show (SparseOp.val oldcount runlen).value = oldcount from rfl] at old ⊢
      -- a VAL is not the single XZERO of a new HyperLogLog
      have notNew : pre ++ .val oldcount runlen :: post ≠ [.xzero hllRegisters] := fun single => by
        cases (eq_nil_of_append_cons_eq_singleton single).2.1
      by_cases kept : oldcount ≥ count.toNat
      · -- case A: nothing changes
        refine ⟨_, by rw [if_pos kept, if_pos kept], ?_, .inl ⟨valid1, .inr sameLength.le, fun single => absurd single notNew⟩⟩
        rw [valid1.registersOf, opsDef, Nat.max_eq_left kept, set_eq_of_getD_eq (by omega) old]
      · rw [if_neg kept, if_neg kept, Nat.max_eq_right (by omega)]
        by_cases single : runlen = 1
        · -- case B
          rw [if_pos single]
          obtain ⟨valid', registers, length⟩ :=
            hllSparseSet_inPlace valid1 opsDef rfl single low high pos (by omega) boundary
          exact ⟨_, rfl, registers, .inl ⟨valid', .inr (length.trans sameLength.le), fun single => absurd single notNew⟩⟩
        · rw [if_neg single]
          obtain ⟨o', run, registers, result⟩ := hllSparseReplace_split maxBytes a valid1 grown opsDef low high pos
            (by omega) (show oldcount < count.toNat by omega) boundary
          refine ⟨o', run, registers, result.imp (fun sparse => ⟨sparse.1, ?_, fun single => absurd single notNew⟩) id⟩
          exact sparse.2.imp_right fun shorter => shorter.1.trans sameLength.le
    | zero runlen =>
      dsimp only
      rw [show (SparseOp.zero runlen).value = 0 from rfl, if_neg (show ¬count.toNat ≤ 0 by omega),
        Nat.max_eq_right (Nat.zero_le _)]
      have notNew : pre ++ .zero runlen :: post ≠ [.xzero hllRegisters] := fun single => by
        cases (eq_nil_of_append_cons_eq_singleton single).2.1
      by_cases single : runlen = 1
      · -- case C
        rw [if_pos single]
        obtain ⟨valid', registers, length⟩ :=
          hllSparseSet_inPlace valid1 opsDef rfl single low high pos (by omega) boundary
        exact ⟨_, rfl, registers, .inl ⟨valid', .inr (length.trans sameLength.le), fun single => absurd single notNew⟩⟩
      · rw [if_neg single]
        obtain ⟨o', run, registers, result⟩ := hllSparseReplace_split maxBytes a valid1 grown opsDef low high pos
          (by omega) (show 0 < count.toNat by omega) boundary
        refine ⟨o', run, registers, result.imp (fun sparse => ⟨sparse.1, ?_, fun single => absurd single notNew⟩) id⟩
        exact sparse.2.imp_right fun shorter => shorter.1.trans sameLength.le
    | xzero runlen =>
      dsimp only
      rw [show (SparseOp.xzero runlen).value = 0 from rfl, if_neg (show ¬count.toNat ≤ 0 by omega),
        Nat.max_eq_right (Nat.zero_le _)]
      obtain ⟨o', run, registers, result⟩ := hllSparseReplace_split maxBytes a valid1 grown opsDef low high pos
        (by omega) (show 0 < count.toNat by omega) boundary
      refine ⟨o', run, registers, result.imp (fun sparse => ⟨sparse.1, ?_, fun single => ?_⟩) id⟩
      · exact sparse.2.imp_right fun shorter => shorter.1.trans sameLength.le
      · -- the split of the run of all the registers grows the string, so it was checked against
        -- hll_sparse_max_bytes
        obtain ⟨rfl, isAll, rfl⟩ := eq_nil_of_append_cons_eq_singleton single
        obtain rfl : runlen = hllRegisters := SparseOp.xzero.inj isAll
        have longer := oplen_lt_length_hllSparseSplit_xzero index count.toNat
        rcases sparse.2 with fits | ⟨-, notLonger⟩
        · exact fits
        · exact absurd notLonger (Nat.not_le.mpr longer)

end Valid

end Kv.Hll
