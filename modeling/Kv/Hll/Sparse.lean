import Kv.Hll.DenseSimd

/-!
The sparse encoding of HyperLogLog in hyperloglog.c. After the header the registers are run-length
coded by three opcodes:
-/

namespace Kv.Hll

open Foundations

def hllDenseEncoding : UInt8 := 0

def hllSparseEncoding : UInt8 := 1

/-- HLL_SPARSE_IS_ZERO. -/
def hllSparseIsZero (b : UInt8) : Bool := b &&& 0xc0 == 0

def hllSparseIsXzero (b : UInt8) : Bool := b &&& 0xc0 == 0x40

def hllSparseIsVal (b : UInt8) : Bool := b &&& 0x80 != 0

def hllSparseZeroLen (b : UInt8) : Nat := (b &&& 0x3f).toNat + 1

def hllSparseXzeroLen (b c : UInt8) : Nat := ((b &&& 0x3f).toNat <<< 8 ||| c.toNat) + 1

def hllSparseValValue (b : UInt8) : Nat := ((b >>> 2) &&& 0x1f).toNat + 1

def hllSparseValLen (b : UInt8) : Nat := (b &&& 0x3).toNat + 1

def hllSparseValMaxValue : Nat := 32

def hllSparseValMaxLen : Nat := 4

def hllSparseZeroMaxLen : Nat := 64

def hllSparseXzeroMaxLen : Nat := 16384

/-- HLL_SPARSE_VAL_SET: the value and the length less one, above the VAL bit. The source shifts an int,
so a value of zero is outside what it defines. -/
def hllSparseValSet (val len : Nat) : UInt8 := UInt8.ofNat ((val - 1) <<< 2 ||| (len - 1) ||| 0x80)

def hllSparseZeroSet (len : Nat) : UInt8 := UInt8.ofNat (len - 1)

def hllSparseXzeroSet (len : Nat) : List UInt8 :=
  let l := len - 1
  [UInt8.ofNat (l >>> 8 ||| 0x40), UInt8.ofNat (l &&& 0xff)]

inductive SparseOp where
  | zero (len : Nat)
  | xzero (len : Nat)
  | val (value len : Nat)
  deriving DecidableEq, Repr

namespace SparseOp

def len : SparseOp → Nat
  | zero l => l
  | xzero l => l
  | val _ l => l

def value : SparseOp → Nat
  | val v _ => v
  | _ => 0

def oplen : SparseOp → Nat
  | xzero _ => 2
  | _ => 1

def bytes : SparseOp → List UInt8
  | zero l => [hllSparseZeroSet l]
  | xzero l => hllSparseXzeroSet l
  | val v l => [hllSparseValSet v l]

def Fits : SparseOp → Prop
  | zero l => 1 ≤ l ∧ l ≤ hllSparseZeroMaxLen
  | xzero l => 1 ≤ l ∧ l ≤ hllSparseXzeroMaxLen
  | val v l => 1 ≤ v ∧ v ≤ hllSparseValMaxValue ∧ 1 ≤ l ∧ l ≤ hllSparseValMaxLen

instance decidableFits : (op : SparseOp) → Decidable op.Fits
  | zero l => inferInstanceAs (Decidable (1 ≤ l ∧ l ≤ hllSparseZeroMaxLen))
  | xzero l => inferInstanceAs (Decidable (1 ≤ l ∧ l ≤ hllSparseXzeroMaxLen))
  | val v l => inferInstanceAs (Decidable (1 ≤ v ∧ v ≤ hllSparseValMaxValue ∧ 1 ≤ l ∧ l ≤ hllSparseValMaxLen))

def registers (op : SparseOp) : List Nat := List.replicate op.len op.value

def isZero : SparseOp → Bool
  | zero _ => true
  | _ => false

def isXzero : SparseOp → Bool
  | xzero _ => true
  | _ => false

def isVal : SparseOp → Bool
  | val _ _ => true
  | _ => false

@[simp] theorem length_bytes (op : SparseOp) : op.bytes.length = op.oplen := by
  cases op <;> rfl

@[simp] theorem length_registers (op : SparseOp) : op.registers.length = op.len := by
  simp [registers]

theorem len_pos {op : SparseOp} (fits : op.Fits) : 0 < op.len := by
  cases op with
  | zero l => exact fits.1
  | xzero l => exact fits.1
  | val v l => exact fits.2.2.1

theorem value_le {op : SparseOp} (fits : op.Fits) : op.value ≤ hllSparseValMaxValue := by
  cases op with
  | zero l => exact Nat.zero_le _
  | xzero l => exact Nat.zero_le _
  | val v l => exact fits.2.1

end SparseOp

def hllSparseOp (b c : UInt8) : SparseOp :=
  if hllSparseIsZero b then .zero (hllSparseZeroLen b)
  else if hllSparseIsXzero b then .xzero (hllSparseXzeroLen b c)
  else .val (hllSparseValValue b) (hllSparseValLen b)

def hllSparseOps : List UInt8 → List SparseOp
  | [] => []
  | [b] => [hllSparseOp b 0]
  | b :: c :: rest =>
    if hllSparseIsXzero b then hllSparseOp b c :: hllSparseOps rest
    else hllSparseOp b c :: hllSparseOps (c :: rest)

def sparseRegisters (ops : List SparseOp) : List Nat := ops.flatMap SparseOp.registers

def sparseBytes (ops : List SparseOp) : List UInt8 := ops.flatMap SparseOp.bytes

def hllSparseWellFormed (sparse : List UInt8) : Bool := sparseBytes (hllSparseOps sparse) == sparse

@[simp] theorem sparseBytes_nil : sparseBytes [] = [] := rfl

@[simp] theorem sparseBytes_cons (op : SparseOp) (ops : List SparseOp) :
    sparseBytes (op :: ops) = op.bytes ++ sparseBytes ops := rfl

theorem sparseBytes_append (ops ops' : List SparseOp) :
    sparseBytes (ops ++ ops') = sparseBytes ops ++ sparseBytes ops' := by
  simp [sparseBytes]

@[simp] theorem sparseRegisters_nil : sparseRegisters [] = [] := rfl

@[simp] theorem sparseRegisters_cons (op : SparseOp) (ops : List SparseOp) :
    sparseRegisters (op :: ops) = op.registers ++ sparseRegisters ops := rfl

theorem sparseRegisters_append (ops ops' : List SparseOp) :
    sparseRegisters (ops ++ ops') = sparseRegisters ops ++ sparseRegisters ops' := by
  simp [sparseRegisters]

section Opcodes

theorem hllSparseOp_cases (b c : UInt8) :
    (hllSparseIsZero b = true ∧ hllSparseOp b c = .zero (hllSparseZeroLen b)) ∨
    (hllSparseIsZero b = false ∧ hllSparseIsXzero b = true ∧ hllSparseOp b c = .xzero (hllSparseXzeroLen b c)) ∨
    (hllSparseIsZero b = false ∧ hllSparseIsXzero b = false ∧
      hllSparseOp b c = .val (hllSparseValValue b) (hllSparseValLen b)) := by
  unfold hllSparseOp
  cases zero : hllSparseIsZero b
  · cases xzero : hllSparseIsXzero b
    · exact .inr (.inr ⟨rfl, rfl, rfl⟩)
    · exact .inr (.inl ⟨rfl, rfl, rfl⟩)
  · exact .inl ⟨rfl, rfl⟩

theorem hllSparseIsVal_eq (b : UInt8) : hllSparseIsVal b = (!hllSparseIsZero b && !hllSparseIsXzero b) := by
  have all : ∀ n < 256, hllSparseIsVal (UInt8.ofNat n) =
      (!hllSparseIsZero (UInt8.ofNat n) && !hllSparseIsXzero (UInt8.ofNat n)) := by decide +kernel
  have byte := all b.toNat b.toNat_lt
  rwa [UInt8.ofNat_toNat] at byte

theorem hllSparseIsXzero_of_isZero {b : UInt8} (zero : hllSparseIsZero b = true) : hllSparseIsXzero b = false := by
  have masked : b &&& 0xc0 = 0 := beq_iff_eq.mp zero
  rw [hllSparseIsXzero, masked]
  decide

theorem hllSparseOp_classes {b c : UInt8} {op : SparseOp} (reads : hllSparseOp b c = op) :
    hllSparseIsZero b = op.isZero ∧ hllSparseIsXzero b = op.isXzero ∧ hllSparseIsVal b = op.isVal := by
  rcases hllSparseOp_cases b c with ⟨zero, first⟩ | ⟨zero, xzero, first⟩ | ⟨zero, xzero, first⟩ <;>
    rw [reads] at first <;> subst first <;> rw [hllSparseIsVal_eq]
  · rw [zero, hllSparseIsXzero_of_isZero zero]
    exact ⟨rfl, rfl, rfl⟩
  · rw [zero, xzero]
    exact ⟨rfl, rfl, rfl⟩
  · rw [zero, xzero]
    exact ⟨rfl, rfl, rfl⟩

theorem oplen_hllSparseOp (b c : UInt8) : (hllSparseOp b c).oplen = if hllSparseIsXzero b then 2 else 1 := by
  rcases hllSparseOp_cases b c with ⟨zero, op⟩ | ⟨_, xzero, op⟩ | ⟨_, xzero, op⟩
  · rw [op, hllSparseIsXzero_of_isZero zero]
    rfl
  · rw [op, xzero]
    rfl
  · rw [op, xzero]
    rfl

theorem shiftLeft_eight_or_lt {x c : Nat} (high : x < 64) (low : c < 256) : x <<< 8 ||| c < 16384 := by
  have shifted : x <<< 8 < 2 ^ 14 := by
    rw [Nat.shiftLeft_eq]
    omega
  exact Nat.or_lt_two_pow shifted (Nat.lt_trans low (by decide))

theorem hllSparseOp_fits (b c : UInt8) : (hllSparseOp b c).Fits := by
  have six : (b &&& 0x3f).toNat < 64 := by
    rw [UInt8.toNat_and]
    exact Nat.lt_of_le_of_lt Nat.and_le_right (by decide)
  rcases hllSparseOp_cases b c with ⟨_, op⟩ | ⟨_, _, op⟩ | ⟨_, _, op⟩ <;> rw [op]
  · exact ⟨by simp [hllSparseZeroLen], by simp only [hllSparseZeroLen, hllSparseZeroMaxLen]; omega⟩
  · have bound := shiftLeft_eight_or_lt six c.toNat_lt
    exact ⟨by simp [hllSparseXzeroLen], by simp only [hllSparseXzeroLen, hllSparseXzeroMaxLen]; omega⟩
  · have five : ((b >>> 2) &&& 0x1f).toNat < 32 := by
      rw [UInt8.toNat_and]
      exact Nat.lt_of_le_of_lt Nat.and_le_right (by decide)
    have two : (b &&& 0x3).toNat < 4 := by
      rw [UInt8.toNat_and]
      exact Nat.lt_of_le_of_lt Nat.and_le_right (by decide)
    refine ⟨by simp [hllSparseValValue], ?_, by simp [hllSparseValLen], ?_⟩
    · simp only [hllSparseValValue, hllSparseValMaxValue]
      omega
    · simp only [hllSparseValLen, hllSparseValMaxLen]
      omega

theorem hllSparseOps_fits (sparse : List UInt8) : ∀ op ∈ hllSparseOps sparse, op.Fits := by
  induction sparse using hllSparseOps.induct with
  | case1 => intro op mem; cases mem
  | case2 b =>
    intro op mem
    rw [hllSparseOps, List.mem_singleton] at mem
    rw [mem]
    exact hllSparseOp_fits b 0
  | case3 b c rest xzero ih =>
    intro op mem
    rw [hllSparseOps, if_pos xzero] at mem
    rcases List.mem_cons.mp mem with rfl | later
    · exact hllSparseOp_fits b c
    · exact ih op later
  | case4 b c rest xzero ih =>
    intro op mem
    rw [hllSparseOps, if_neg xzero] at mem
    rcases List.mem_cons.mp mem with rfl | later
    · exact hllSparseOp_fits b c
    · exact ih op later

theorem hllSparseOps_cons {b : UInt8} (notX : hllSparseIsXzero b = false) (tail : List UInt8) :
    hllSparseOps (b :: tail) = hllSparseOp b (tail.headD 0) :: hllSparseOps tail := by
  cases tail with
  | nil => rfl
  | cons c rest => rw [hllSparseOps, if_neg (by rw [notX]; decide)]; rfl

theorem zeroSet_reads : ∀ n < 64, hllSparseIsZero (UInt8.ofNat n) = true ∧ hllSparseIsXzero (UInt8.ofNat n) = false ∧
    hllSparseZeroLen (UInt8.ofNat n) = n + 1 := by
  decide

theorem valSet_reads : ∀ v < 32, ∀ l < 4,
    hllSparseIsZero (UInt8.ofNat (v <<< 2 ||| l ||| 0x80)) = false ∧
      hllSparseIsXzero (UInt8.ofNat (v <<< 2 ||| l ||| 0x80)) = false ∧
      hllSparseValValue (UInt8.ofNat (v <<< 2 ||| l ||| 0x80)) = v + 1 ∧
      hllSparseValLen (UInt8.ofNat (v <<< 2 ||| l ||| 0x80)) = l + 1 := by
  decide

theorem xzeroSet_reads : ∀ a < 64, hllSparseIsZero (UInt8.ofNat (a ||| 0x40)) = false ∧
    hllSparseIsXzero (UInt8.ofNat (a ||| 0x40)) = true ∧ (UInt8.ofNat (a ||| 0x40) &&& 0x3f).toNat = a := by
  decide

theorem hllSparseOp_zeroSet {l : Nat} (fits : (SparseOp.zero l).Fits) (c : UInt8) :
    hllSparseIsXzero (hllSparseZeroSet l) = false ∧ hllSparseOp (hllSparseZeroSet l) c = .zero l := by
  obtain ⟨pos, le⟩ := fits
  obtain ⟨zero, notX, len⟩ := zeroSet_reads (l - 1) (by unfold hllSparseZeroMaxLen at le; omega)
  refine ⟨notX, ?_⟩
  rw [hllSparseOp, hllSparseZeroSet, if_pos zero, len, Nat.sub_add_cancel pos]

theorem hllSparseOp_valSet {v l : Nat} (fits : (SparseOp.val v l).Fits) (c : UInt8) :
    hllSparseIsXzero (hllSparseValSet v l) = false ∧ hllSparseOp (hllSparseValSet v l) c = .val v l := by
  obtain ⟨vpos, vle, lpos, lle⟩ := fits
  unfold hllSparseValMaxValue at vle
  unfold hllSparseValMaxLen at lle
  obtain ⟨notZero, notX, value, len⟩ := valSet_reads (v - 1) (by omega) (l - 1) (by omega)
  refine ⟨notX, ?_⟩
  rw [hllSparseOp, hllSparseValSet, if_neg (by rw [notZero]; decide), if_neg (by rw [notX]; decide), value, len,
    Nat.sub_add_cancel vpos, Nat.sub_add_cancel lpos]

theorem hllSparseOp_xzeroSet {l : Nat} (fits : (SparseOp.xzero l).Fits) :
    hllSparseIsXzero ((hllSparseXzeroSet l).getD 0 0) = true ∧
      hllSparseOp ((hllSparseXzeroSet l).getD 0 0) ((hllSparseXzeroSet l).getD 1 0) = .xzero l := by
  obtain ⟨pos, le⟩ := fits
  unfold hllSparseXzeroMaxLen at le
  have high : (l - 1) >>> 8 < 64 := by
    rw [Nat.shiftRight_eq_div_pow]
    omega
  obtain ⟨notZero, xzero, first⟩ := xzeroSet_reads ((l - 1) >>> 8) high
  have second : (UInt8.ofNat ((l - 1) &&& 0xff)).toNat = (l - 1) &&& (2 ^ 8 - 1) :=
    UInt8.toNat_ofNat_of_lt' (Nat.lt_of_le_of_lt Nat.and_le_right (by decide))
  refine ⟨xzero, ?_⟩
  simp only [hllSparseXzeroSet, List.getD_cons_zero, List.getD_cons_succ]
  rw [hllSparseOp, if_neg (by rw [notZero]; decide), if_pos xzero, hllSparseXzeroLen, first, second,
    shiftRight_shiftLeft_or_and, Nat.sub_add_cancel pos]

theorem hllSparseOps_sparseBytes {ops : List SparseOp} (fits : ∀ op ∈ ops, op.Fits) :
    hllSparseOps (sparseBytes ops) = ops := by
  induction ops with
  | nil => rfl
  | cons op ops ih =>
    have rest := ih fun op' mem => fits op' (List.mem_cons_of_mem op mem)
    have first := fits op List.mem_cons_self
    rw [sparseBytes_cons]
    cases op with
    | zero l =>
      rw [SparseOp.bytes, List.singleton_append, hllSparseOps_cons (hllSparseOp_zeroSet first 0).1,
        (hllSparseOp_zeroSet first _).2, rest]
    | val v l =>
      rw [SparseOp.bytes, List.singleton_append, hllSparseOps_cons (hllSparseOp_valSet first 0).1,
        (hllSparseOp_valSet first _).2, rest]
    | xzero l =>
      obtain ⟨xzero, reads⟩ := hllSparseOp_xzeroSet first
      rw [SparseOp.bytes, hllSparseXzeroSet] at *
      simp only [List.getD_cons_zero, List.getD_cons_succ] at xzero reads
      rw [List.cons_append, List.cons_append, List.nil_append, hllSparseOps, if_pos xzero, reads, rest]

theorem hllSparseOp_bytes_append {op : SparseOp} (fits : op.Fits) (tail : List UInt8) :
    hllSparseOp ((op.bytes ++ tail).getD 0 0) ((op.bytes ++ tail).getD 1 0) = op := by
  cases op with
  | zero l =>
    simp only [SparseOp.bytes, List.singleton_append, List.getD_cons_zero, List.getD_cons_succ]
    exact (hllSparseOp_zeroSet fits _).2
  | val v l =>
    simp only [SparseOp.bytes, List.singleton_append, List.getD_cons_zero, List.getD_cons_succ]
    exact (hllSparseOp_valSet fits _).2
  | xzero l =>
    have reads := (hllSparseOp_xzeroSet fits).2
    simp only [SparseOp.bytes, hllSparseXzeroSet, List.cons_append, List.nil_append, List.getD_cons_zero,
      List.getD_cons_succ] at reads ⊢
    exact reads

theorem getD_sparseBytes_at (pre : List SparseOp) (op : SparseOp) (post : List SparseOp) (k : Nat) :
    (sparseBytes (pre ++ op :: post)).getD ((sparseBytes pre).length + k) 0 = (op.bytes ++ sparseBytes post).getD k 0 := by
  rw [sparseBytes_append, sparseBytes_cons, List.getD_append_right _ _ _ _ (by omega), Nat.add_sub_cancel_left]

theorem hllSparseOp_at {pre : List SparseOp} {op : SparseOp} (fits : op.Fits) (post : List SparseOp) :
    hllSparseOp ((sparseBytes (pre ++ op :: post)).getD (sparseBytes pre).length 0)
      ((sparseBytes (pre ++ op :: post)).getD ((sparseBytes pre).length + 1) 0) = op := by
  have first := getD_sparseBytes_at pre op post 0
  rw [Nat.add_zero] at first
  rw [first, getD_sparseBytes_at]
  exact hllSparseOp_bytes_append fits _

theorem hllSparseOp_eq_val {b c : UInt8} {v l : Nat} (reads : hllSparseOp b c = .val v l) :
    hllSparseValValue b = v ∧ hllSparseValLen b = l := by
  rcases hllSparseOp_cases b c with ⟨-, first⟩ | ⟨-, -, first⟩ | ⟨-, -, first⟩ <;> rw [reads] at first
  · cases first
  · cases first
  · cases first
    exact ⟨rfl, rfl⟩

end Opcodes

section Run

variable {σ : Type}

def hllSparseRunStep (onZero : σ → Nat → Nat → σ) (onVal : σ → Nat → Nat → Nat → σ) (s : σ) (idx : Nat) :
    SparseOp → σ
  | .zero runlen => onZero s idx runlen
  | .xzero runlen => onZero s idx runlen
  | .val regval runlen => onVal s idx runlen regval

def hllSparseRun (onZero : σ → Nat → Nat → σ) (onVal : σ → Nat → Nat → Nat → σ) :
    List SparseOp → Nat → σ → Bool × Nat × σ
  | [], idx, s => (true, idx, s)
  | op :: ops, idx, s =>
    if op.len + idx > hllRegisters then (false, idx, s)
    else hllSparseRun onZero onVal ops (idx + op.len) (hllSparseRunStep onZero onVal s idx op)

theorem hllSparseRun_of_le (onZero : σ → Nat → Nat → σ) (onVal : σ → Nat → Nat → Nat → σ) (I : List Nat → σ → Prop)
    (zeroRun : ∀ pre s l, I pre s → pre.length + l ≤ hllRegisters →
      I (pre ++ List.replicate l 0) (onZero s pre.length l))
    (valRun : ∀ pre s v l, I pre s → pre.length + l ≤ hllRegisters → (SparseOp.val v l).Fits →
      I (pre ++ List.replicate l v) (onVal s pre.length l v))
    {ops : List SparseOp} (fits : ∀ op ∈ ops, op.Fits) {pre : List Nat} {s : σ} (holds : I pre s)
    (within : pre.length + (sparseRegisters ops).length ≤ hllRegisters) :
    ∃ s', hllSparseRun onZero onVal ops pre.length s = (true, pre.length + (sparseRegisters ops).length, s') ∧
      I (pre ++ sparseRegisters ops) s' := by
  induction ops generalizing pre s with
  | nil => exact ⟨s, by simp [hllSparseRun], by simpa using holds⟩
  | cons op ops ih =>
    rw [sparseRegisters_cons, List.length_append, SparseOp.length_registers] at within
    have first : op.len + pre.length ≤ hllRegisters := by omega
    -- the run of the first opcode, as its branch of the loop handles it
    have ran : I (pre ++ op.registers) (hllSparseRunStep onZero onVal s pre.length op) := by
      cases op with
      | zero l => exact zeroRun pre s l holds (by simp only [SparseOp.len] at first; omega)
      | xzero l => exact zeroRun pre s l holds (by simp only [SparseOp.len] at first; omega)
      | val v l => exact valRun pre s v l holds (by simp only [SparseOp.len] at first; omega) (fits _ List.mem_cons_self)
    have next : (pre ++ op.registers).length = pre.length + op.len := by simp
    obtain ⟨s', run, holds'⟩ := ih (fun op' mem => fits op' (List.mem_cons_of_mem op mem)) ran (by omega)
    refine ⟨s', ?_, by rwa [sparseRegisters_cons, ← List.append_assoc]⟩
    rw [hllSparseRun, if_neg (by omega), ← next, run, next, sparseRegisters_cons, List.length_append,
      SparseOp.length_registers, Nat.add_assoc]

theorem hllSparseRun_of_lt {onZero : σ → Nat → Nat → σ} {onVal : σ → Nat → Nat → Nat → σ} {ops : List SparseOp} {idx : Nat} (start : idx ≤ hllRegisters) (s : σ)
    (beyond : hllRegisters < idx + (sparseRegisters ops).length) :
    (hllSparseRun onZero onVal ops idx s).1 = false := by
  induction ops generalizing idx s with
  | nil => simp at beyond; omega
  | cons op ops ih =>
    rw [sparseRegisters_cons, List.length_append, SparseOp.length_registers] at beyond
    rw [hllSparseRun]
    split
    · rfl
    · exact ih (by omega) _ (by omega)

theorem hllSparseRun_accepts (onZero : σ → Nat → Nat → σ) (onVal : σ → Nat → Nat → Nat → σ)
    {ops : List SparseOp} (fits : ∀ op ∈ ops, op.Fits) (s : σ) :
    ((hllSparseRun onZero onVal ops 0 s).1 && (hllSparseRun onZero onVal ops 0 s).2.1 == hllRegisters) =
      decide ((sparseRegisters ops).length = hllRegisters) := by
  by_cases within : (sparseRegisters ops).length ≤ hllRegisters
  · obtain ⟨s', run, -⟩ := hllSparseRun_of_le onZero onVal (fun _ _ => True) (fun _ _ _ _ _ => trivial)
      (fun _ _ _ _ _ _ _ => trivial) fits (s := s) trivial
      (show ([] : List Nat).length + (sparseRegisters ops).length ≤ hllRegisters by simpa using within)
    simp only [List.length_nil, Nat.zero_add] at run
    rw [run, Bool.true_and]
    by_cases covers : (sparseRegisters ops).length = hllRegisters <;> simp [covers]
  · rw [hllSparseRun_of_lt (Nat.zero_le _) s (by omega)]
    simp only [Bool.false_and]
    exact (decide_eq_false (by omega)).symm

end Run

def hllSparseDecode (sparse : List UInt8) : Option (List Nat) :=
  let registers := sparseRegisters (hllSparseOps sparse)
  if registers.length = hllRegisters then some registers else none

def hllSparseToDenseRun (registers : List UInt8) (idx runlen regval : Nat) : List UInt8 :=
  (List.range runlen).foldl (fun registers k => hllDenseSetRegister registers (idx + k) regval) registers

def hllMergeRun (max : List UInt8) (i runlen regval : Nat) : List UInt8 :=
  (List.range runlen).foldl (fun max k => hllRaiseRegister max (i + k) regval) max

/-- hllSparseToDense: a dense string with the header of the sparse one, encoding HLL_DENSE, whose
registers the VAL runs set; none (C_ERR) when the runs go past the registers or end before the last.
A dense string is returned as it is. -/
def hllSparseToDense (o : List UInt8) : Option (List UInt8) :=
  if o.getD 4 0 = hllDenseEncoding then some o
  else
    let hdr := (o.take hllHdrSize).set 4 hllDenseEncoding
    let run := hllSparseRun (fun registers _ _ => registers) hllSparseToDenseRun
      (hllSparseOps (o.drop hllHdrSize)) 0 (List.replicate hllDenseBytes 0)
    if !run.1 || run.2.1 != hllRegisters then none else some (hdr ++ run.2.2)

/-- hllSparseRegHisto: the histogram with each run added to the count of its value, and whether it sets
`*invalid`. -/
def hllSparseRegHisto (sparse : List UInt8) (reghisto : Nat → Nat) : Bool × (Nat → Nat) :=
  let run := hllSparseRun (fun reghisto _ runlen => Function.update reghisto 0 (reghisto 0 + runlen))
    (fun reghisto _ runlen regval => Function.update reghisto regval (reghisto regval + runlen))
    (hllSparseOps sparse) 0 reghisto
  (!run.1 || run.2.1 != hllRegisters, run.2.2)

/-- hllMerge: the raw registers `max` raised to those of the string `hll`, and whether it returns C_OK. -/
def hllMerge (simd : HllSimd) (max hll : List UInt8) : Bool × List UInt8 :=
  if hll.getD 4 0 = hllDenseEncoding then (true, hllMergeDense simd max (hll.drop hllHdrSize))
  else
    let run := hllSparseRun (fun max _ _ => max) hllMergeRun (hllSparseOps (hll.drop hllHdrSize)) 0 max
    (run.1 && run.2.1 == hllRegisters, run.2.2)

section Readers

theorem hllSparseDecode_eq_some {sparse : List UInt8} {registers : List Nat}
    (decoded : hllSparseDecode sparse = some registers) :
    sparseRegisters (hllSparseOps sparse) = registers ∧ registers.length = hllRegisters := by
  unfold hllSparseDecode at decoded
  dsimp only at decoded
  split at decoded
  · cases decoded
    exact ⟨rfl, by assumption⟩
  · cases decoded

def DenseHolds (pre : List Nat) (registers : List UInt8) : Prop :=
  registers.length = hllDenseBytes ∧ ∀ j < hllRegisters, hllDenseGetRegister registers j = pre.getD j 0

theorem denseHolds_valRun {pre : List Nat} {registers : List UInt8} {v l : Nat} (holds : DenseHolds pre registers)
    (within : pre.length + l ≤ hllRegisters) (fits : (SparseOp.val v l).Fits) :
    DenseHolds (pre ++ List.replicate l v) (hllSparseToDenseRun registers pre.length l v) := by
  have small : v < 64 := by
    have := fits.2.1
    unfold hllSparseValMaxValue at this
    omega
  rw [hllSparseToDenseRun]
  refine foldl_range_invariant (fun k registers => DenseHolds (pre ++ List.replicate k v) registers)
    (by simpa using holds) (fun k d below written => ?_)
  obtain ⟨size, values⟩ := written
  have room : (pre.length + k) * 6 + 6 ≤ 8 * d.length := by
    rw [size, hllDenseBytes_eq]
    rw [hllRegisters_eq] at within
    omega
  refine ⟨by rw [length_hllDenseSetRegister, size], fun j inside => ?_⟩
  rw [hllDenseGetRegister_setRegister small room, values j inside, getD_append_replicate, getD_append_replicate]
  by_cases same : j = pre.length + k
  · rw [if_pos same, if_pos ⟨by omega, by omega⟩]
  · rw [if_neg same]
    by_cases run : pre.length ≤ j ∧ j < pre.length + k
    · rw [if_pos run, if_pos ⟨run.1, by omega⟩]
    · rw [if_neg run, if_neg (by omega)]

theorem getD_append_replicate_zero (pre : List Nat) (l j : Nat) :
    (pre ++ List.replicate l 0).getD j 0 = pre.getD j 0 := by
  rw [getD_append_replicate]
  split
  · rename_i run
    rw [List.getD_eq_default _ _ run.1]
  · rfl

theorem hllSparseToDense_of_decode {o : List UInt8} (sparse : o.getD 4 0 ≠ hllDenseEncoding) {registers : List Nat}
    (decoded : hllSparseDecode (o.drop hllHdrSize) = some registers) :
    ∃ dense, hllSparseToDense o = some ((o.take hllHdrSize).set 4 hllDenseEncoding ++ dense) ∧
      dense.length = hllDenseBytes ∧ hllDenseRegisters dense = registers := by
  obtain ⟨decodes, length⟩ := hllSparseDecode_eq_some decoded
  have start : DenseHolds [] (List.replicate hllDenseBytes 0) := by
    refine ⟨List.length_replicate, fun j _ => ?_⟩
    rw [hllDenseGetRegister_eq_readField]
    -- every bit of a zeroed buffer is clear
    apply Nat.eq_of_testBit_eq
    intro t
    rw [testBit_readField (by decide), bufferBit]
    simp [List.getD_eq_getElem?_getD]
  obtain ⟨d, run, holds⟩ := hllSparseRun_of_le (fun registers _ _ => registers) hllSparseToDenseRun DenseHolds
    (fun pre d l holds _ => by
      refine ⟨holds.1, fun j inside => ?_⟩
      rw [holds.2 j inside, getD_append_replicate_zero])
    (fun pre d v l holds within fits => denseHolds_valRun holds within fits)
    (hllSparseOps_fits _) start (by rw [decodes, length]; rfl)
  rw [List.nil_append, decodes] at holds
  refine ⟨d, ?_, holds.1, ?_⟩
  · rw [hllSparseToDense, if_neg sparse]
    simp only [List.length_nil] at run
    rw [run, decodes, length]
    rfl
  · rw [hllDenseRegisters]
    apply List.ext_getElem
    · rw [List.length_map, List.length_range, length]
    · intro j inside _
      rw [List.getElem_map, List.getElem_range, holds.2 j (by simpa using inside),
        List.getD_eq_getElem _ _ (by rw [length]; simpa using inside)]

theorem hllSparseToDense_eq_none {o : List UInt8} (sparse : o.getD 4 0 ≠ hllDenseEncoding)
    (undecoded : hllSparseDecode (o.drop hllHdrSize) = none) : hllSparseToDense o = none := by
  have short : (sparseRegisters (hllSparseOps (o.drop hllHdrSize))).length ≠ hllRegisters := by
    intro covers
    rw [hllSparseDecode, if_pos covers] at undecoded
    cases undecoded
  have refused := hllSparseRun_accepts (fun registers _ _ => registers) hllSparseToDenseRun
    (hllSparseOps_fits (o.drop hllHdrSize)) (List.replicate hllDenseBytes 0)
  rw [decide_eq_false short] at refused
  rw [hllSparseToDense, if_neg sparse]
  dsimp only
  rw [if_pos (by revert refused; cases (hllSparseRun _ _ _ _ _).1 <;> simp)]

def HistoHolds (reghisto : Nat → Nat) (pre : List Nat) (h : Nat → Nat) : Prop :=
  ∀ y, h y = reghisto y + pre.count y

theorem histoHolds_run {reghisto h : Nat → Nat} {pre : List Nat} (holds : HistoHolds reghisto pre h) (l v : Nat) :
    HistoHolds reghisto (pre ++ List.replicate l v) (Function.update h v (h v + l)) := by
  intro y
  rw [Function.update_apply, List.count_append, List.count_replicate]
  by_cases same : y = v
  · subst same
    rw [if_pos rfl, holds y, if_pos (beq_self_eq_true y)]
    omega
  · rw [if_neg same, holds y, if_neg (by simpa using Ne.symm same)]
    omega

theorem hllSparseRegHisto_invalid (sparse : List UInt8) (reghisto : Nat → Nat) :
    (hllSparseRegHisto sparse reghisto).1 = (hllSparseDecode sparse).isNone := by
  have accepts := hllSparseRun_accepts (fun reghisto _ runlen => Function.update reghisto 0 (reghisto 0 + runlen))
    (fun reghisto _ runlen regval => Function.update reghisto regval (reghisto regval + runlen))
    (hllSparseOps_fits sparse) reghisto
  rw [hllSparseRegHisto, hllSparseDecode]
  dsimp only
  by_cases covers : (sparseRegisters (hllSparseOps sparse)).length = hllRegisters
  · rw [decide_eq_true covers] at accepts
    rw [if_pos covers]
    revert accepts
    cases (hllSparseRun _ _ _ _ _).1 <;> simp
  · rw [decide_eq_false covers] at accepts
    rw [if_neg covers]
    revert accepts
    cases (hllSparseRun _ _ _ _ _).1 <;> simp

theorem hllSparseRegHisto_of_decode {sparse : List UInt8} {registers : List Nat}
    (decoded : hllSparseDecode sparse = some registers) (reghisto : Nat → Nat) (v : Nat) :
    (hllSparseRegHisto sparse reghisto).2 v = reghisto v + registers.count v := by
  obtain ⟨decodes, length⟩ := hllSparseDecode_eq_some decoded
  obtain ⟨h, run, holds⟩ := hllSparseRun_of_le (fun reghisto _ runlen => Function.update reghisto 0 (reghisto 0 + runlen))
    (fun reghisto _ runlen regval => Function.update reghisto regval (reghisto regval + runlen)) (HistoHolds reghisto)
    (fun _ _ l holds _ => histoHolds_run holds l 0) (fun _ _ v l holds _ _ => histoHolds_run holds l v)
    (hllSparseOps_fits sparse) (show HistoHolds reghisto [] reghisto from fun y => by simp)
    (by rw [decodes, length]; rfl)
  simp only [List.length_nil] at run
  rw [hllSparseRegHisto]
  dsimp only
  rw [run]
  dsimp only
  rw [holds v, List.nil_append, decodes]

def MaxHolds (raw : List UInt8) (pre : List Nat) (m : List UInt8) : Prop :=
  m.length = raw.length ∧ ∀ j, (m.getD j 0).toNat =
    if j < raw.length then max (raw.getD j 0).toNat (pre.getD j 0) else (raw.getD j 0).toNat

theorem maxHolds_valRun {raw m : List UInt8} {pre : List Nat} {v l : Nat} (size : raw.length = hllRegisters)
    (holds : MaxHolds raw pre m) (within : pre.length + l ≤ hllRegisters) (fits : (SparseOp.val v l).Fits) :
    MaxHolds raw (pre ++ List.replicate l v) (hllMergeRun m pre.length l v) := by
  have small : v < 256 := by
    have := fits.2.1
    unfold hllSparseValMaxValue at this
    omega
  rw [hllMergeRun]
  refine foldl_range_invariant (fun k m => MaxHolds raw (pre ++ List.replicate k v) m)
    (by simpa using holds) (fun k m' below raised => ?_)
  obtain ⟨length, values⟩ := raised
  refine ⟨by rw [length_hllRaiseRegister, length], fun j => ?_⟩
  rw [getD_hllRaiseRegister small, length, values j, getD_append_replicate, getD_append_replicate]
  by_cases same : j = pre.length + k
  · -- the register of this round: nothing decoded at it yet, so it holds the raw value
    subst same
    have inside : pre.length + k < raw.length := by omega
    have fresh : pre.getD (pre.length + k) 0 = 0 := List.getD_eq_default _ _ (by omega)
    rw [if_pos (by exact ⟨rfl, inside⟩), if_pos inside, if_pos inside, if_neg (by omega), if_pos (by omega), fresh]
    omega
  · have sameRun : (pre.length ≤ j ∧ j < pre.length + (k + 1)) ↔ (pre.length ≤ j ∧ j < pre.length + k) := by omega
    rw [if_neg fun both => same both.1]
    simp only [sameRun]

theorem hllMerge_ok_sparse (simd : HllSimd) (raw : List UInt8) {hll : List UInt8}
    (sparse : hll.getD 4 0 ≠ hllDenseEncoding) :
    (hllMerge simd raw hll).1 = (hllSparseDecode (hll.drop hllHdrSize)).isSome := by
  have accepts := hllSparseRun_accepts (fun max _ _ => max) hllMergeRun (hllSparseOps_fits (hll.drop hllHdrSize)) raw
  rw [hllMerge, if_neg sparse, hllSparseDecode]
  dsimp only
  rw [accepts]
  split <;> simp_all

theorem hllMerge_of_decode (simd : HllSimd) {raw : List UInt8} (size : raw.length = hllRegisters) {hll : List UInt8}
    (sparse : hll.getD 4 0 ≠ hllDenseEncoding) {registers : List Nat}
    (decoded : hllSparseDecode (hll.drop hllHdrSize) = some registers) :
    hllRawRegisters (hllMerge simd raw hll).2 = List.zipWith max (hllRawRegisters raw) registers := by
  obtain ⟨decodes, length⟩ := hllSparseDecode_eq_some decoded
  have start : MaxHolds raw [] raw := ⟨rfl, fun j => by split <;> simp⟩
  obtain ⟨m, run, holds⟩ := hllSparseRun_of_le (fun max _ _ => max) hllMergeRun (MaxHolds raw)
    (fun pre m l holds _ => ⟨holds.1, fun j => by rw [holds.2 j, getD_append_replicate_zero]⟩)
    (fun pre m v l holds within fits => maxHolds_valRun size holds within fits)
    (hllSparseOps_fits _) start (by rw [decodes, length]; rfl)
  rw [List.nil_append, decodes] at holds
  simp only [List.length_nil] at run
  rw [hllMerge, if_neg sparse]
  dsimp only
  rw [run]
  dsimp only
  apply List.ext_getElem
  · simp [length_hllRawRegisters, length]
  · intro j inside _
    rw [length_hllRawRegisters] at inside
    rw [List.getElem_zipWith, getElem_hllRawRegisters, getElem_hllRawRegisters, holds.2 j, if_pos (by omega),
      List.getD_eq_getElem registers 0 (by omega)]

end Readers

def hllRegistersOf (o : List UInt8) : Option (List Nat) :=
  if o.getD 4 0 = hllDenseEncoding then
    if o.length = hllDenseSize then some (hllDenseRegisters (o.drop hllHdrSize)) else none
  else if o.getD 4 0 = hllSparseEncoding then hllSparseDecode (o.drop hllHdrSize)
  else none

theorem le_of_mem_sparseRegisters {ops : List SparseOp} (fits : ∀ op ∈ ops, op.Fits) {v : Nat}
    (mem : v ∈ sparseRegisters ops) : v ≤ hllSparseValMaxValue := by
  obtain ⟨op, inOps, inRun⟩ := List.mem_flatMap.mp mem
  rw [SparseOp.registers] at inRun
  rw [List.eq_of_mem_replicate inRun]
  exact SparseOp.value_le (fits op inOps)

theorem sparseRegisters_xzero_all : sparseRegisters (hllSparseOps [127, 255]) = List.replicate hllRegisters 0 := by
  have ops : hllSparseOps [127, 255] = [.xzero 16384] := by decide
  rw [ops, sparseRegisters_cons, sparseRegisters_nil, List.append_nil, hllRegisters_eq]
  rfl

theorem hllSparseDecode_xzero_all : hllSparseDecode [127, 255] = some (List.replicate hllRegisters 0) := by
  rw [hllSparseDecode, sparseRegisters_xzero_all, if_pos List.length_replicate]

theorem length_denseHeader {o : List UInt8} (header : hllHdrSize ≤ o.length) :
    ((o.take hllHdrSize).set 4 hllDenseEncoding).length = hllHdrSize := by
  rw [List.length_set, List.length_take, Nat.min_eq_left header]

theorem hllSparse_readers_reject (simd : HllSimd) {o : List UInt8} (sparse : o.getD 4 0 ≠ hllDenseEncoding)
    (raw : List UInt8) (reghisto : Nat → Nat) (undecoded : hllSparseDecode (o.drop hllHdrSize) = none) :
    hllSparseToDense o = none ∧ (hllSparseRegHisto (o.drop hllHdrSize) reghisto).1 = true ∧
      (hllMerge simd raw o).1 = false := by
  have invalid := hllSparseRegHisto_invalid (o.drop hllHdrSize) reghisto
  have ok := hllMerge_ok_sparse simd raw sparse
  rw [undecoded] at invalid ok
  exact ⟨hllSparseToDense_eq_none sparse undecoded, invalid, ok⟩

theorem hllSparse_readers_accept (simd : HllSimd) {o : List UInt8} (header : hllHdrSize ≤ o.length)
    (sparse : o.getD 4 0 ≠ hllDenseEncoding) {raw : List UInt8} (size : raw.length = hllRegisters)
    (reghisto : Nat → Nat) {registers : List Nat} (decoded : hllSparseDecode (o.drop hllHdrSize) = some registers) :
    (∃ dense, hllSparseToDense o = some dense ∧ hllDenseRegisters (dense.drop hllHdrSize) = registers) ∧
      (hllSparseRegHisto (o.drop hllHdrSize) reghisto).1 = false ∧
      (∀ v, (hllSparseRegHisto (o.drop hllHdrSize) reghisto).2 v = reghisto v + registers.count v) ∧
      (hllMerge simd raw o).1 = true ∧
      hllRawRegisters (hllMerge simd raw o).2 = List.zipWith max (hllRawRegisters raw) registers := by
  have invalid := hllSparseRegHisto_invalid (o.drop hllHdrSize) reghisto
  have ok := hllMerge_ok_sparse simd raw sparse
  rw [decoded] at invalid ok
  obtain ⟨dense, toDense, -, denseRegisters⟩ := hllSparseToDense_of_decode sparse decoded
  have hdr := length_denseHeader header
  refine ⟨⟨_, toDense, ?_⟩, invalid, hllSparseRegHisto_of_decode decoded reghisto, ok,
    hllMerge_of_decode simd size sparse decoded⟩
  rw [List.drop_left' hdr, denseRegisters]

/-- The three readers of the sparse representation accept the same strings, those whose runs cover
exactly the registers, and read the same registers from them: hllSparseToDense writes them into a dense
string, hllSparseRegHisto counts them and hllMerge raises a raw array to them. -/
theorem hllSparse_readers_agree (simd : HllSimd) {o : List UInt8} (header : hllHdrSize ≤ o.length)
    (sparse : o.getD 4 0 ≠ hllDenseEncoding) {raw : List UInt8} (size : raw.length = hllRegisters)
    (reghisto : Nat → Nat) :
    match hllSparseDecode (o.drop hllHdrSize) with
    | none => hllSparseToDense o = none ∧ (hllSparseRegHisto (o.drop hllHdrSize) reghisto).1 = true ∧
        (hllMerge simd raw o).1 = false
    | some registers =>
        (∃ dense, hllSparseToDense o = some dense ∧ hllDenseRegisters (dense.drop hllHdrSize) = registers) ∧
        (hllSparseRegHisto (o.drop hllHdrSize) reghisto).1 = false ∧
        (∀ v, (hllSparseRegHisto (o.drop hllHdrSize) reghisto).2 v = reghisto v + registers.count v) ∧
        (hllMerge simd raw o).1 = true ∧
          hllRawRegisters (hllMerge simd raw o).2 = List.zipWith max (hllRawRegisters raw) registers := by
  split
  · rename_i undecoded
    exact hllSparse_readers_reject simd sparse raw reghisto undecoded
  · rename_i registers decoded
    exact hllSparse_readers_accept simd header sparse size reghisto decoded

theorem hllSparse_readers_agree_xzero :
    hllHdrSize ≤ (List.replicate 16 (1 : UInt8) ++ [127, 255]).length ∧
      (List.replicate 16 (1 : UInt8) ++ [127, 255]).getD 4 0 ≠ hllDenseEncoding ∧
      (List.replicate 16384 (0 : UInt8)).length = hllRegisters ∧
      (∃ dense, hllSparseToDense (List.replicate 16 1 ++ [127, 255]) = some dense ∧
        hllDenseRegisters (dense.drop hllHdrSize) = List.replicate hllRegisters 0) ∧
      (hllSparseRegHisto ((List.replicate 16 (1 : UInt8) ++ [127, 255]).drop hllHdrSize) fun _ => 0).1 = false ∧
      (∀ v, (hllSparseRegHisto ((List.replicate 16 (1 : UInt8) ++ [127, 255]).drop hllHdrSize) fun _ => 0).2 v =
        0 + (List.replicate hllRegisters 0).count v) ∧
      (hllMerge ⟨true, false, false, true, true⟩ (List.replicate 16384 0) (List.replicate 16 1 ++ [127, 255])).1 = true ∧
      hllRawRegisters
          (hllMerge ⟨true, false, false, true, true⟩ (List.replicate 16384 0) (List.replicate 16 1 ++ [127, 255])).2 =
        List.zipWith max (hllRawRegisters (List.replicate 16384 0)) (List.replicate hllRegisters 0) := by
  have size : (List.replicate 16384 (0 : UInt8)).length = hllRegisters := by
    rw [List.length_replicate, hllRegisters_eq]
  have decoded : hllSparseDecode ((List.replicate 16 (1 : UInt8) ++ [127, 255]).drop hllHdrSize) =
      some (List.replicate hllRegisters 0) := by
    rw [List.drop_left' (show (List.replicate 16 (1 : UInt8)).length = hllHdrSize from List.length_replicate)]
    exact hllSparseDecode_xzero_all
  -- the agreement is read at the decoded registers without a hypothesis whose type is the match
  exact ⟨by decide, by decide, size,
    cast (by rw [decoded]) (hllSparse_readers_agree ⟨true, false, false, true, true⟩ (o := List.replicate 16 1 ++ [127, 255])
      (by decide) (by decide) size fun _ => 0)⟩

/-- Every reader of the registers agrees with the others. The three readers of a sparse string reject the same
strings and read the same registers from the others, and on a dense buffer the unrolled histogram, the merge
by whichever variant the build and the CPU select, the histogram of the raw array it leaves and the compression
back agree with the registers HLL_DENSE_GET_REGISTER reads. -/
theorem hllRegister_decoders_agree (simd : HllSimd) {o : List UInt8} (header : hllHdrSize ≤ o.length)
    (sparse : o.getD 4 0 ≠ hllDenseEncoding) {raw : List UInt8} (size : raw.length = hllRegisters)
    (reghisto : Nat → Nat) (dense : List UInt8) :
    (hllSparseDecode (o.drop hllHdrSize) = none →
      hllSparseToDense o = none ∧ (hllSparseRegHisto (o.drop hllHdrSize) reghisto).1 = true ∧
        (hllMerge simd raw o).1 = false) ∧
    (∀ registers, hllSparseDecode (o.drop hllHdrSize) = some registers →
      (∃ d, hllSparseToDense o = some d ∧ hllDenseRegisters (d.drop hllHdrSize) = registers) ∧
        (hllSparseRegHisto (o.drop hllHdrSize) reghisto).1 = false ∧
        (∀ v, (hllSparseRegHisto (o.drop hllHdrSize) reghisto).2 v = reghisto v + registers.count v) ∧
        (hllMerge simd raw o).1 = true ∧
        hllRawRegisters (hllMerge simd raw o).2 = List.zipWith max (hllRawRegisters raw) registers) ∧
    (∀ v, hllDenseRegHisto dense reghisto v = reghisto v + (hllDenseRegisters dense).count v) ∧
    hllRawRegisters (hllMergeDense simd raw dense) =
      List.zipWith max (hllRawRegisters raw) (hllDenseRegisters dense) ∧
    (∀ v, hllRawRegHisto (hllMergeDense simd raw dense) reghisto v =
      reghisto v + (List.zipWith max (hllRawRegisters raw) (hllDenseRegisters dense)).count v) ∧
    (dense.length = hllDenseBytes → (∀ v ∈ hllRawRegisters raw, v < 64) →
      hllDenseRegisters (hllDenseCompress simd dense raw) = hllRawRegisters raw) := by
  have merged := MergedBelow.registers size (hllMergeDense_merged simd raw dense)
  refine ⟨hllSparse_readers_reject simd sparse raw reghisto,
    fun _ decoded => hllSparse_readers_accept simd header sparse size reghisto decoded, fun v => ?_, merged,
    fun v => ?_, fun bytes fits => CompressedTo.registers (hllDenseCompress_compressed simd bytes fits)⟩
  · -- the unrolled histogram counts what HLL_DENSE_GET_REGISTER reads
    rw [hllDenseRegHisto_eq, foldl_tallyOne]
  · rw [hllRawRegHisto_count, merged]

theorem hllRegister_decoders_agree_xzero :
    hllHdrSize ≤ (List.replicate 16 (1 : UInt8) ++ [127, 255]).length ∧
      (List.replicate 16 (1 : UInt8) ++ [127, 255]).getD 4 0 ≠ hllDenseEncoding ∧
      (List.replicate 16384 (0 : UInt8)).length = hllRegisters ∧
      (hllSparseDecode ((List.replicate 16 (1 : UInt8) ++ [127, 255]).drop hllHdrSize) = none →
        hllSparseToDense (List.replicate 16 1 ++ [127, 255]) = none ∧
          (hllSparseRegHisto ((List.replicate 16 (1 : UInt8) ++ [127, 255]).drop hllHdrSize) fun _ => 0).1 = true ∧
          (hllMerge ⟨true, false, false, true, true⟩ (List.replicate 16384 0) (List.replicate 16 1 ++ [127, 255])).1 =
            false) ∧
      (∀ registers, hllSparseDecode ((List.replicate 16 (1 : UInt8) ++ [127, 255]).drop hllHdrSize) = some registers →
        (∃ d, hllSparseToDense (List.replicate 16 1 ++ [127, 255]) = some d ∧
          hllDenseRegisters (d.drop hllHdrSize) = registers) ∧
          (hllSparseRegHisto ((List.replicate 16 (1 : UInt8) ++ [127, 255]).drop hllHdrSize) fun _ => 0).1 = false ∧
          (∀ v, (hllSparseRegHisto ((List.replicate 16 (1 : UInt8) ++ [127, 255]).drop hllHdrSize) fun _ => 0).2 v =
            0 + registers.count v) ∧
          (hllMerge ⟨true, false, false, true, true⟩ (List.replicate 16384 0) (List.replicate 16 1 ++ [127, 255])).1 =
            true ∧
          hllRawRegisters (hllMerge ⟨true, false, false, true, true⟩ (List.replicate 16384 0)
            (List.replicate 16 1 ++ [127, 255])).2 = List.zipWith max (hllRawRegisters (List.replicate 16384 0)) registers) ∧
      (∀ v, hllDenseRegHisto (List.replicate 12288 0) (fun _ => 0) v =
        0 + (hllDenseRegisters (List.replicate 12288 0)).count v) ∧
      hllRawRegisters (hllMergeDense ⟨true, false, false, true, true⟩ (List.replicate 16384 0) (List.replicate 12288 0)) =
        List.zipWith max (hllRawRegisters (List.replicate 16384 0)) (hllDenseRegisters (List.replicate 12288 0)) ∧
      (∀ v, hllRawRegHisto (hllMergeDense ⟨true, false, false, true, true⟩ (List.replicate 16384 0)
          (List.replicate 12288 0)) (fun _ => 0) v =
        0 + (List.zipWith max (hllRawRegisters (List.replicate 16384 0))
          (hllDenseRegisters (List.replicate 12288 0))).count v) ∧
      ((List.replicate 12288 (0 : UInt8)).length = hllDenseBytes →
        (∀ v ∈ hllRawRegisters (List.replicate 16384 0), v < 64) →
        hllDenseRegisters (hllDenseCompress ⟨true, false, false, true, true⟩ (List.replicate 12288 0)
          (List.replicate 16384 0)) = hllRawRegisters (List.replicate 16384 0)) := by
  have size : (List.replicate 16384 (0 : UInt8)).length = hllRegisters := by
    rw [List.length_replicate, hllRegisters_eq]
  exact ⟨by decide, by decide, size, hllRegister_decoders_agree ⟨true, false, false, true, true⟩
    (o := List.replicate 16 1 ++ [127, 255]) (by decide) (by decide) size (fun _ => 0) (List.replicate 12288 0)⟩

def hllXzeroRuns : Nat → Nat → List UInt8
  | 0, _ => []
  | fuel + 1, aux =>
    if aux = 0 then []
    else
      let xzero := if hllSparseXzeroMaxLen > aux then aux else hllSparseXzeroMaxLen
      hllSparseXzeroSet xzero ++ hllXzeroRuns fuel (aux - xzero)

/-- createHLLObject: the header with the magic "HYLL" and encoding HLL_SPARSE, the rest zero, and XZERO
opcodes covering the registers; none where the assertion on the length fails. -/
def createHLLObject : Option (List UInt8) :=
  let sparselen := hllHdrSize + ((hllRegisters + (hllSparseXzeroMaxLen - 1)) / hllSparseXzeroMaxLen) * 2
  let runs := hllXzeroRuns ((hllRegisters + (hllSparseXzeroMaxLen - 1)) / hllSparseXzeroMaxLen) hllRegisters
  if hllHdrSize + runs.length ≠ sparselen then none
  else some ([72, 89, 76, 76, hllSparseEncoding] ++ List.replicate (hllHdrSize - 5) 0 ++ runs)

-- a new HyperLogLog is sparse, passes its assertion, and stands for registers that are all zero
example :
    ∃ o, createHLLObject = some o ∧ o.length = hllHdrSize + 2 ∧ o.getD 4 0 = hllSparseEncoding ∧
      hllSparseWellFormed (o.drop hllHdrSize) = true ∧
      hllSparseDecode (o.drop hllHdrSize) = some (List.replicate hllRegisters 0) := by
  have runs : hllXzeroRuns ((hllRegisters + (hllSparseXzeroMaxLen - 1)) / hllSparseXzeroMaxLen) hllRegisters =
      [127, 255] := by decide
  refine ⟨[72, 89, 76, 76, 1, 0, 0, 0, 0, 0, 0, 0, 0, 0, 0, 0, 127, 255], ?_, rfl, rfl, by decide,
    hllSparseDecode_xzero_all⟩
  rw [createHLLObject, runs]
  rfl

end Kv.Hll
