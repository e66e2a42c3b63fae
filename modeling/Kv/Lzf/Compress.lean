import Kv.Lzf.Decompress
import Mathlib.Logic.Function.Basic

/-!
lzf_compress (lzf_c.c) in its configuration here: HLOG 16, VERY_FAST, no
INIT_HTAB, pointers in the hash table. The table is not initialised, so its
slots are a parameter: each is NULL or a pointer, given as a position relative
to the input, in a flat address space. A slot is only a hint, since a match is
taken only after its bytes are compared; that is why any table gives a correct
compression. The output is written as tokens. A literal run's control byte is
kept free when the run opens, and is written when it closes (`op[-lit-1]`).
-/

namespace Kv.Lzf

open Foundations

def frst (input : List UInt8) (ip : Nat) : Option UInt32 := do
  let p0 ← input[ip]?
  let p1 ← input[ip + 1]?
  some ((p0.toUInt32 <<< 8) ||| p1.toUInt32)

def nextHval (v : UInt32) (input : List UInt8) (ip : Nat) : Option UInt32 := do
  let p2 ← input[ip + 2]?
  some ((v <<< 8) ||| p2.toUInt32)

def idx (h : UInt32) : Nat := (((h >>> 8) - h * 5) &&& 0xFFFF).toNat

structure LzfState where
  ip : Nat
  op : Nat
  lit : Nat
  hval : UInt32
  htab : Nat → Option Int
  out : List UInt8

inductive CompressTurn where
  | stop (result : Nat) (out : List UInt8)
  | exit (state : LzfState)
  | next (state : LzfState)

inductive CompressEnd where
  | stop (result : Nat) (out : List UInt8)
  | exit (state : LzfState)

def lzfMatchTest (input : List UInt8) (ip : Nat) : Option Int → Option (Option Nat)
  | none => some none
  | some ref =>
    if 0 ≤ (ip : Int) - ref - 1 ∧ (ip : Int) - ref - 1 < 8192 then
      if 0 < ref then do
        let r2 ← input[ref.toNat + 2]?
        let i2 ← input[ip + 2]?
        if r2 = i2 then do
          let r0 ← input[ref.toNat]?
          let r1 ← input[ref.toNat + 1]?
          let i0 ← input[ip]?
          let i1 ← input[ip + 1]?
          if r0 = i0 ∧ r1 = i1 then some (some ref.toNat) else some none
        else some none
      else some none
    else some none

def lzfMatchUnrolled (input : List UInt8) (ref ip : Nat) : Nat → Nat → Option (Option Nat)
  | 0, _ => some none
  | steps + 1, len => do
    let len := len + 1
    let r ← input[ref + len]?
    let i ← input[ip + len]?
    if r ≠ i then some (some len) else lzfMatchUnrolled input ref ip steps len

def lzfMatchExtend (input : List UInt8) (ref ip maxlen : Nat) : Nat → Nat → Option Nat
  | 0, _ => none
  | fuel + 1, len =>
    let len := len + 1
    if len < maxlen then do
      let r ← input[ref + len]?
      let i ← input[ip + len]?
      if r = i then lzfMatchExtend input ref ip maxlen fuel len else some len
    else some len

def lzfMatchLength (input : List UInt8) (ref ip maxlen : Nat) : Option Nat :=
  if maxlen > 16 then do
    match ← lzfMatchUnrolled input ref ip 16 2 with
    | some len => some len
    | none => lzfMatchExtend input ref ip maxlen (maxlen + 1) 18
  else lzfMatchExtend input ref ip maxlen (maxlen + 1) 2

def lzfCopyLiteral (input : List UInt8) (s : LzfState) : Option LzfState := do
  let byte ← input[s.ip]?
  let out ← writeBytes s.out s.op [byte]
  let s := { s with ip := s.ip + 1, op := s.op + 1, lit := s.lit + 1, out }
  if s.lit = 32 then do
    let out ← writeBytes s.out (s.op - s.lit - 1) [UInt8.ofNat s.lit - 1]
    some { s with op := s.op + 1, lit := 0, out }
  else some s

def lzfCompressRehash (input : List UInt8) (s : LzfState) (ip op : Nat) (out : List UInt8) : Option CompressTurn :=
  if ip + 2 ≥ input.length then some (.exit { s with ip, op, lit := 0, out })
  else do
    let ip := ip - 2
    let hval ← frst input ip
    let hval ← nextHval hval input ip
    let htab := Function.update s.htab (idx hval) (some (ip : Int))
    let ip := ip + 1
    let hval ← nextHval hval input ip
    let htab := Function.update htab (idx hval) (some (ip : Int))
    some (.next { ip := ip + 1, op, lit := 0, hval, htab, out })

def lzfCompressReference (input : List UInt8) (outLen : Nat) (s : LzfState) (ref off : Nat) :
    Option CompressTurn := do
  let maxlen := min (input.length - s.ip - 2) 264
  -- first the faster conservative test, then the exact one
  if s.op + 3 + 1 ≥ outLen ∧ s.op - (if s.lit = 0 then 1 else 0) + 3 + 1 ≥ outLen then some (.stop 0 s.out)
  else do
    let out ← writeBytes s.out (s.op - s.lit - 1) [UInt8.ofNat s.lit - 1]
    let op := s.op - (if s.lit = 0 then 1 else 0)
    let len ← lzfMatchLength input ref s.ip maxlen
    let len := len - 2
    let ip := s.ip + 1
    let (out, op) ← if len < 7 then do
        let out ← writeBytes out op [UInt8.ofNat (off / 256 + len * 32)]
        some (out, op + 1)
      else do
        let out ← writeBytes out op [UInt8.ofNat (off / 256 + 7 * 32), UInt8.ofNat (len - 7)]
        some (out, op + 2)
    let out ← writeBytes out op [UInt8.ofNat off]
    lzfCompressRehash input s (ip + len + 1) (op + 1 + 1) out

def lzfCompressTurn (input : List UInt8) (outLen : Nat) (s : LzfState) : Option CompressTurn := do
  let hval ← nextHval s.hval input s.ip
  let ref := s.htab (idx hval)
  let s := { s with hval, htab := Function.update s.htab (idx hval) (some (s.ip : Int)) }
  match ← lzfMatchTest input s.ip ref with
  | some ref => lzfCompressReference input outLen s ref (s.ip - ref - 1)
  | none =>
    if s.op ≥ outLen then some (.stop 0 s.out)
    else (lzfCopyLiteral input s).map .next

def lzfCompressLoop (input : List UInt8) (outLen : Nat) : Nat → LzfState → Option CompressEnd
  | 0, _ => none
  | fuel + 1, s =>
    if s.ip + 2 < input.length then
      match lzfCompressTurn input outLen s with
      | none => none
      | some (.stop result out) => some (.stop result out)
      | some (.exit s) => some (.exit s)
      | some (.next s) => lzfCompressLoop input outLen fuel s
    else some (.exit s)

def lzfCompressTail (input : List UInt8) : Nat → LzfState → Option LzfState
  | 0, _ => none
  | fuel + 1, s =>
    if s.ip < input.length then do
      let s ← lzfCopyLiteral input s
      lzfCompressTail input fuel s
    else some s

/-- lzf_compress of `input` into the buffer `out`, from the hash table `htab`: the return value and the
buffer after. -/
def lzfCompress (htab : Nat → Option Int) (input out : List UInt8) : Option (Nat × List UInt8) :=
  if input.length = 0 ∨ out.length = 0 then some (0, out)
  else do
    -- lit = 0; op++: the first run's control byte is kept free
    let hval ← frst input 0
    match ← lzfCompressLoop input out.length input.length ⟨0, 1, 0, hval, htab, out⟩ with
    | .stop result out => some (result, out)
    | .exit s =>
      -- at most 3 bytes can be missing here
      if s.op + 3 > out.length then some (0, s.out)
      else do
        let s ← lzfCompressTail input (input.length + 1) s
        let out ← writeBytes s.out (s.op - s.lit - 1) [UInt8.ofNat s.lit - 1]
        some (s.op - (if s.lit = 0 then 1 else 0), out)

section Match

variable {input : List UInt8} {ref ip : Nat}

def Agree (input : List UInt8) (ref ip n : Nat) : Prop := ∀ k < n, input[ref + k]? = input[ip + k]?

theorem lzfMatchTest_spec (slot : Option Int) (ahead : ip + 2 < input.length) :
    lzfMatchTest input ip slot = some none ∨
      ∃ ref, lzfMatchTest input ip slot = some (some ref) ∧ 0 < ref ∧ ref < ip ∧ ip - ref - 1 < 8192 ∧
        Agree input ref ip 3 := by
  cases slot with
  | none => exact .inl rfl
  | some ref =>
    rw [lzfMatchTest]
    by_cases near : 0 ≤ (ip : Int) - ref - 1 ∧ (ip : Int) - ref - 1 < 8192
    · by_cases after : 0 < ref
      · -- the reads are inside the input, before `ip + 2`
        have at0 : input[ref.toNat]? = some input[ref.toNat] := List.getElem?_eq_getElem (by omega)
        have at1 : input[ref.toNat + 1]? = some input[ref.toNat + 1] := List.getElem?_eq_getElem (by omega)
        have at2 : input[ref.toNat + 2]? = some input[ref.toNat + 2] := List.getElem?_eq_getElem (by omega)
        rw [if_pos near, if_pos after, at2, List.getElem?_eq_getElem ahead]
        simp only [Option.bind_eq_bind, Option.bind_some]
        split
        · next third =>
          rw [at0, at1, List.getElem?_eq_getElem (by omega), List.getElem?_eq_getElem (by omega)]
          simp only [Option.bind_some]
          split
          · next first =>
            refine .inr ⟨ref.toNat, rfl, by omega, by omega, by omega, fun k lt => ?_⟩
            rcases (show k = 0 ∨ k = 1 ∨ k = 2 by omega) with rfl | rfl | rfl
            · simp [at0, List.getElem?_eq_getElem (show ip < input.length by omega), first.1]
            · simp [at1, List.getElem?_eq_getElem (show ip + 1 < input.length by omega), first.2]
            · simp [at2, List.getElem?_eq_getElem ahead, third]
          · exact .inl rfl
        · exact .inl rfl
      · rw [if_pos near, if_neg after]
        exact .inl rfl
    · rw [if_neg near]
      exact .inl rfl

theorem lzfMatchExtend_spec (maxlen : Nat) (bounded : maxlen + 2 ≤ input.length - ip) (before : ref < ip) (fuel len : Nat)
    (enough : maxlen ≤ len + fuel + 1) (agree : Agree input ref ip (len + 1)) :
    ∃ n, lzfMatchExtend input ref ip maxlen (fuel + 1) len = some n ∧ len < n ∧ n ≤ max (len + 1) maxlen ∧
      Agree input ref ip n := by
  induction fuel generalizing len with
  | zero =>
    rw [lzfMatchExtend, if_neg (by omega)]
    exact ⟨len + 1, rfl, by omega, by omega, agree⟩
  | succ fuel ih =>
    rw [lzfMatchExtend]
    by_cases more : len + 1 < maxlen
    · have atRef : input[ref + (len + 1)]? = some input[ref + (len + 1)] := List.getElem?_eq_getElem (by omega)
      have atIp : input[ip + (len + 1)]? = some input[ip + (len + 1)] := List.getElem?_eq_getElem (by omega)
      rw [if_pos more, atRef, atIp]
      simp only [Option.bind_eq_bind, Option.bind_some]
      split
      · next same =>
        -- one more byte agrees
        have agree' : Agree input ref ip (len + 1 + 1) := fun k lt => by
          rcases Nat.lt_succ_iff_lt_or_eq.mp lt with lt | rfl
          · exact agree k lt
          · rw [atRef, atIp, same]
        obtain ⟨n, run, above, below, agreeN⟩ := ih (len + 1) (by omega) agree'
        exact ⟨n, run, by omega, by omega, agreeN⟩
      · exact ⟨len + 1, rfl, by omega, by omega, agree⟩
    · rw [if_neg more]
      exact ⟨len + 1, rfl, by omega, by omega, agree⟩

theorem lzfMatchUnrolled_spec (before : ref < ip) (steps len : Nat) (inside : ip + len + steps < input.length)
    (agree : Agree input ref ip (len + 1)) :
    (∃ n, lzfMatchUnrolled input ref ip steps len = some (some n) ∧ len < n ∧ n ≤ len + steps ∧
      Agree input ref ip n) ∨
      (lzfMatchUnrolled input ref ip steps len = some none ∧ Agree input ref ip (len + steps + 1)) := by
  induction steps generalizing len with
  | zero => exact .inr ⟨rfl, agree⟩
  | succ steps ih =>
    have atRef : input[ref + (len + 1)]? = some input[ref + (len + 1)] := List.getElem?_eq_getElem (by omega)
    have atIp : input[ip + (len + 1)]? = some input[ip + (len + 1)] := List.getElem?_eq_getElem (by omega)
    rw [lzfMatchUnrolled, atRef, atIp]
    simp only [Option.bind_eq_bind, Option.bind_some]
    split
    · exact .inl ⟨len + 1, rfl, by omega, by omega, agree⟩
    · next same =>
      have agree' : Agree input ref ip (len + 1 + 1) := fun k lt => by
        rcases Nat.lt_succ_iff_lt_or_eq.mp lt with lt | rfl
        · exact agree k lt
        · rw [atRef, atIp, not_not.mp same]
      rcases ih (len + 1) (by omega) agree' with ⟨n, run, above, below, agreeN⟩ | ⟨run, agreeAll⟩
      · exact .inl ⟨n, run, by omega, by omega, agreeN⟩
      · exact .inr ⟨run, by rwa [show len + (steps + 1) + 1 = len + 1 + steps + 1 by omega]⟩

theorem lzfMatchLength_spec (before : ref < ip) (ahead : ip + 2 < input.length) (agree : Agree input ref ip 3) :
    ∃ n, lzfMatchLength input ref ip (min (input.length - ip - 2) 264) = some n ∧ 3 ≤ n ∧ n ≤ 264 ∧
      ip + n ≤ input.length ∧ Agree input ref ip n := by
  unfold lzfMatchLength
  split
  · next long =>
    -- sixteen unrolled comparisons, then the loop from 18 if they all agree
    rcases lzfMatchUnrolled_spec before 16 2 (by omega) agree with ⟨n, run, above, below, agreeN⟩ | ⟨run, agreeAll⟩
    · rw [run]
      exact ⟨n, rfl, by omega, by omega, by omega, agreeN⟩
    · obtain ⟨n, extend, above, below, agreeN⟩ :=
        lzfMatchExtend_spec (min (input.length - ip - 2) 264) (by omega) before
          (min (input.length - ip - 2) 264) 18 (by omega) agreeAll
      rw [run]
      exact ⟨n, extend, by omega, by omega, by omega, agreeN⟩
  · obtain ⟨n, extend, above, below, agreeN⟩ :=
      lzfMatchExtend_spec (min (input.length - ip - 2) 264) (by omega) before
        (min (input.length - ip - 2) 264) 2 (by omega) agree
    exact ⟨n, extend, by omega, by omega, by omega, agreeN⟩

end Match

section Invariant

variable {input : List UInt8} {outLen : Nat}

structure Emitted (input : List UInt8) (outLen : Nat) (tokens : List LzfToken) (s : LzfState) : Prop where
  valid : ValidTokens [] tokens
  expanded : expandTokens [] tokens = input.take (s.ip - s.lit)
  short : s.lit < 32
  started : s.lit ≤ s.ip
  inside : s.ip ≤ input.length
  layout : ∃ reserved rest,
    s.out = tokens.flatMap LzfToken.encode ++ reserved :: ((input.drop (s.ip - s.lit)).take s.lit ++ rest)
  position : s.op = (tokens.flatMap LzfToken.encode).length + 1 + s.lit
  size : s.out.length = outLen

structure Doomed (outLen : Nat) (s : LzfState) : Prop where
  full : s.op = outLen + 1
  empty : s.lit = 0
  size : s.out.length = outLen

theorem length_run {ip lit : Nat} (started : lit ≤ ip) (inside : ip ≤ input.length) :
    ((input.drop (ip - lit)).take lit).length = lit := by
  simp
  omega

theorem take_drop_concat (input : List UInt8) (start n : Nat) (inside : start + n < input.length) :
    (input.drop start).take n ++ [input[start + n]] = (input.drop start).take (n + 1) := by
  have := List.take_concat_get' (input.drop start) n (by simp; omega)
  simpa using this

theorem ofNat_sub_one {n : Nat} (pos : 1 ≤ n) : UInt8.ofNat n - 1 = UInt8.ofNat (n - 1) := by
  obtain ⟨m, rfl⟩ : ∃ m, n = m + 1 := ⟨n - 1, by omega⟩
  rw [Nat.add_sub_cancel, UInt8.ofNat_add]
  simp

theorem writeBytes_close (encoded run rest : List UInt8) (reserved : UInt8) (nonempty : 1 ≤ run.length) :
    writeBytes (encoded ++ reserved :: (run ++ rest)) encoded.length [UInt8.ofNat run.length - 1] =
      some (encoded ++ (LzfToken.literal run).encode ++ rest) := by
  rw [writeBytes_cons, LzfToken.encode, ofNat_sub_one nonempty]
  simp

theorem lzfCopyLiteral_spec {tokens : List LzfToken} {s : LzfState} (emitted : Emitted input outLen tokens s)
    (reading : s.ip < input.length) (room : s.op < outLen) :
    ∃ s', lzfCopyLiteral input s = some s' ∧ s'.ip = s.ip + 1 ∧
      ((s'.lit = s.lit + 1 ∧ s'.op = s.op + 1 ∧ Emitted input outLen tokens s') ∨
        (s.lit = 31 ∧ s'.lit = 0 ∧ s'.op = s.op + 2 ∧
          (Emitted input outLen (tokens ++ [.literal ((input.drop (s.ip + 1 - 32)).take 32)]) s' ∨
            Doomed outLen s'))) := by
  obtain ⟨reserved, rest, layout⟩ := emitted.layout
  have started := emitted.started
  have runLength := length_run started emitted.inside
  have size := emitted.size
  rw [layout] at size
  simp only [List.length_append, List.length_cons, runLength] at size
  -- the byte goes to the first place after the run
  obtain ⟨old, tail, rfl⟩ : ∃ old tail, rest = old :: tail :=
    List.exists_cons_of_length_pos (by have := emitted.position; omega)
  have grown := take_drop_concat input (s.ip - s.lit) s.lit (by omega)
  simp only [Nat.sub_add_cancel started] at grown
  have written : writeBytes s.out s.op [input[s.ip]] = some (tokens.flatMap LzfToken.encode ++ reserved ::
      ((input.drop (s.ip - s.lit)).take (s.lit + 1) ++ tail)) := by
    have := writeBytes_cons (tokens.flatMap LzfToken.encode ++ reserved :: (input.drop (s.ip - s.lit)).take s.lit)
      tail old input[s.ip]
    simp only [List.length_append, List.length_cons, runLength, List.append_assoc, List.cons_append] at this
    rw [layout, emitted.position, Nat.add_assoc, Nat.add_comm 1, this, ← grown]
    simp
  rw [lzfCopyLiteral, List.getElem?_eq_getElem reading]
  simp only [Option.bind_eq_bind, Option.bind_some, written]
  have runLength' : ((input.drop (s.ip - s.lit)).take (s.lit + 1)).length = s.lit + 1 := by
    simp
    omega
  have position := emitted.position
  by_cases full : s.lit + 1 = 32
  · -- the run is full: its control byte goes in the place kept for it
    have same : (input.drop (s.ip - s.lit)).take (s.lit + 1) = (input.drop (s.ip + 1 - 32)).take 32 := by
      rw [show s.ip - s.lit = s.ip + 1 - 32 by omega, full]
    have closed := writeBytes_close (tokens.flatMap LzfToken.encode) ((input.drop (s.ip - s.lit)).take (s.lit + 1))
      tail reserved (by omega)
    rw [runLength', same, full] at closed
    rw [if_pos full, show s.op + 1 - (s.lit + 1) - 1 = (tokens.flatMap LzfToken.encode).length by omega, same,
      full, closed]
    refine ⟨_, rfl, rfl, .inr ⟨by omega, rfl, rfl, ?_⟩⟩
    -- whether the new run has a place for its control byte depends on what follows the closed one
    cases tail with
    | nil =>
      right
      simp only [List.length_cons, List.length_nil] at size
      refine ⟨by simp only; omega, rfl, ?_⟩
      simp only [List.length_append, LzfToken.length_encode_literal, List.length_take, List.length_drop,
        List.length_nil]
      omega
    | cons next tail =>
      left
      have expanded : expandTokens [] (tokens ++ [.literal ((input.drop (s.ip + 1 - 32)).take 32)]) =
          input.take (s.ip + 1) := by
        rw [expandTokens_concat, emitted.expanded, LzfToken.expand, ← same, ← List.take_add]
        congr 1
        omega
      refine ⟨emitted.valid.concat ?_, ?_, by simp, by simp, by simp; omega, ⟨next, tail, by simp⟩, ?_, ?_⟩
      · rw [emitted.expanded]
        simp only [LzfToken.Valid, List.length_take, List.length_drop]
        omega
      · simpa using expanded
      · simp only [List.flatMap_append, List.length_append, List.flatMap_singleton,
          LzfToken.length_encode_literal, List.length_take, List.length_drop]
        omega
      · simp only [List.length_append, List.length_cons, LzfToken.length_encode_literal, List.length_take,
          List.length_drop] at size ⊢
        omega
  · -- the run grows by the byte
    rw [if_neg full]
    refine ⟨_, rfl, rfl, .inl ⟨rfl, rfl, emitted.valid, ?_, ?_, ?_, ?_, ⟨reserved, tail, ?_⟩, ?_, ?_⟩⟩
    · simpa using emitted.expanded
    · have := emitted.short
      simp only
      omega
    · simp only
      omega
    · simp only
      omega
    · simp
    · simp only
      omega
    · simp at size ⊢
      omega

theorem Emitted.close {tokens : List LzfToken} {s : LzfState} (emitted : Emitted input outLen tokens s) :
    ∃ closed rest, writeBytes s.out (s.op - s.lit - 1) [UInt8.ofNat s.lit - 1] =
        some (closed.flatMap LzfToken.encode ++ rest) ∧
      (closed.flatMap LzfToken.encode).length = s.op - (if s.lit = 0 then 1 else 0) ∧
      ValidTokens [] closed ∧ expandTokens [] closed = input.take s.ip ∧
      (closed.flatMap LzfToken.encode).length + rest.length = outLen := by
  obtain ⟨reserved, rest, layout⟩ := emitted.layout
  have started := emitted.started
  have runLength := length_run started emitted.inside
  have position := emitted.position
  have size := emitted.size
  rw [layout] at size
  simp only [List.length_append, List.length_cons, runLength] at size
  rw [layout, show s.op - s.lit - 1 = (tokens.flatMap LzfToken.encode).length by omega]
  by_cases empty : s.lit = 0
  · -- an empty run: its place is given back, and what is written there is overwritten by the next token
    refine ⟨tokens, (UInt8.ofNat s.lit - 1) :: rest, ?_, by rw [if_pos empty]; omega, emitted.valid, ?_, ?_⟩
    · simp only [empty, List.take_zero, List.nil_append]
      exact writeBytes_cons _ _ _ _
    · rw [emitted.expanded, empty, Nat.sub_zero]
    · simp only [List.length_cons]
      omega
  · -- a run of 1 to 31 bytes, closed as a literal token
    have closed := writeBytes_close (tokens.flatMap LzfToken.encode) ((input.drop (s.ip - s.lit)).take s.lit)
      rest reserved (by omega)
    rw [runLength] at closed
    refine ⟨tokens ++ [.literal ((input.drop (s.ip - s.lit)).take s.lit)], rest, ?_, ?_, ?_, ?_, ?_⟩
    · rw [closed, List.flatMap_append, List.flatMap_singleton]
    · simp only [List.flatMap_append, List.flatMap_singleton, List.length_append,
        LzfToken.length_encode_literal, runLength, if_neg empty]
      omega
    · refine emitted.valid.concat ?_
      rw [emitted.expanded]
      simp only [LzfToken.Valid, runLength]
      have := emitted.short
      omega
    · rw [expandTokens_concat, emitted.expanded, LzfToken.expand, ← List.take_add, Nat.sub_add_cancel started]
    · simp only [List.flatMap_append, List.flatMap_singleton, List.length_append,
        LzfToken.length_encode_literal, runLength]
      omega

theorem frst_isSome {ip : Nat} (reading : ip + 1 < input.length) : ∃ h, frst input ip = some h := by
  simp [frst, List.getElem?_eq_getElem reading, List.getElem?_eq_getElem (show ip < input.length by omega)]

theorem nextHval_isSome (v : UInt32) {ip : Nat} (reading : ip + 2 < input.length) :
    ∃ h, nextHval v input ip = some h := by
  simp [nextHval, List.getElem?_eq_getElem reading]

def Reachable (input : List UInt8) (outLen : Nat) (s : LzfState) : Prop :=
  (∃ tokens, Emitted input outLen tokens s) ∨ Doomed outLen s

def TurnOk (input : List UInt8) (outLen ip : Nat) : CompressTurn → Prop
  | .stop result out => result = 0 ∧ out.length = outLen
  | .exit s => ip < s.ip ∧ input.length ≤ s.ip + 2 ∧ Reachable input outLen s
  | .next s => ip < s.ip ∧ Reachable input outLen s

theorem emitted_opened {tokens : List LzfToken} {ip op : Nat} {hval : UInt32} {htab : Nat → Option Int}
    {out : List UInt8} (valid : ValidTokens [] tokens) (expanded : expandTokens [] tokens = input.take ip)
    (inside : ip ≤ input.length) (layout : ∃ reserved rest, out = tokens.flatMap LzfToken.encode ++ reserved :: rest)
    (position : op = (tokens.flatMap LzfToken.encode).length + 1) (size : out.length = outLen) :
    Emitted input outLen tokens ⟨ip, op, 0, hval, htab, out⟩ := by
  obtain ⟨reserved, rest, layout⟩ := layout
  exact ⟨valid, expanded, by simp, by simp, inside, ⟨reserved, rest, by simpa using layout⟩, position, size⟩

theorem lzfCompressRehash_spec {tokens : List LzfToken} {s : LzfState} {ip op : Nat} {out : List UInt8}
    (emitted : ∀ hval htab, Emitted input outLen tokens ⟨ip, op, 0, hval, htab, out⟩) (further : s.ip < ip)
    (past : 2 ≤ ip) :
    ∃ turn, lzfCompressRehash input s ip op out = some turn ∧ TurnOk input outLen s.ip turn := by
  unfold lzfCompressRehash
  split
  · exact ⟨_, rfl, further, by simp only; omega, .inl ⟨tokens, emitted _ _⟩⟩
  · next going =>
    -- the hashes read the bytes up to `ip + 1`, before the input's end
    obtain ⟨h0, first⟩ := frst_isSome (show ip - 2 + 1 < input.length by omega)
    obtain ⟨h1, second⟩ := nextHval_isSome h0 (show ip - 2 + 2 < input.length by omega)
    obtain ⟨h2, third⟩ := nextHval_isSome h1 (show ip - 2 + 1 + 2 < input.length by omega)
    simp only [first, second, third, Option.bind_eq_bind, Option.bind_some]
    refine ⟨_, rfl, by simp only; omega, .inl ⟨tokens, ?_⟩⟩
    rw [show ip - 2 + 1 + 1 = ip by omega]
    exact emitted _ _

theorem reference_expands {closed : List LzfToken} {ip ref n : Nat} (valid : ValidTokens [] closed)
    (expanded : expandTokens [] closed = input.take ip) (after : 0 < ref) (before : ref < ip)
    (near : ip - ref - 1 < 8192) (least : 3 ≤ n) (most : n ≤ 264) (fits : ip + n ≤ input.length)
    (agree : Agree input ref ip n) :
    ValidTokens [] (closed ++ [.reference (ip - ref - 1) (n - 2)]) ∧
      expandTokens [] (closed ++ [.reference (ip - ref - 1) (n - 2)]) = input.take (ip + n) := by
  have length : (expandTokens [] closed).length = ip := by
    rw [expanded, List.length_take]
    omega
  refine ⟨valid.concat ?_, ?_⟩
  · rw [length]
    exact ⟨near, by omega, by omega, by omega⟩
  · -- the copy reads the bytes the match test and the match loop compared
    rw [expandTokens_concat, expanded, LzfToken.expand, Nat.sub_add_cancel (by omega : 2 ≤ n)]
    refine copyBack_of_agree input (by omega) (by omega) fits fun k lt => ?_
    rw [show ip + k - (ip - ref - 1 + 1) = ref + k by omega]
    exact agree k lt

theorem lzfCompressReference_spec {tokens : List LzfToken} {s : LzfState} (emitted : Emitted input outLen tokens s)
    {ref : Nat} (ahead : s.ip + 2 < input.length) (after : 0 < ref) (before : ref < s.ip)
    (near : s.ip - ref - 1 < 8192) (agree : Agree input ref s.ip 3) :
    ∃ turn, lzfCompressReference input outLen s ref (s.ip - ref - 1) = some turn ∧ TurnOk input outLen s.ip turn := by
  unfold lzfCompressReference
  dsimp only
  by_cases full : s.op + 3 + 1 ≥ outLen ∧ s.op - (if s.lit = 0 then 1 else 0) + 3 + 1 ≥ outLen
  · rw [if_pos full]
    exact ⟨_, rfl, rfl, emitted.size⟩
  · obtain ⟨closed, rest, written, closedLength, valid, expanded, size⟩ := emitted.close
    obtain ⟨n, matched, least, most, fits, agreeN⟩ := lzfMatchLength_spec before ahead agree
    rw [if_neg full, written, ← closedLength]
    simp only [Option.bind_eq_bind, Option.bind_some, matched]
    obtain ⟨validRef, expandedRef⟩ := reference_expands valid expanded after before near least most fits agreeN
    -- the reference's two or three bytes and the byte kept for the next run lie before the buffer's end
    obtain ⟨r0, r1, r2, r3, rest, rfl⟩ : ∃ r0 r1 r2 r3 tail, rest = r0 :: r1 :: r2 :: r3 :: tail := by
      match rest, size with
      | r0 :: r1 :: r2 :: r3 :: tail, _ => exact ⟨r0, r1, r2, r3, tail, rfl⟩
      | [], size | [_], size | [_, _], size | [_, _, _], size =>
        simp only [List.length_cons, List.length_nil] at size
        omega
    by_cases short : n - 2 < 7
    · rw [if_pos short, writeBytes_cons]
      have second := writeBytes_cons (closed.flatMap LzfToken.encode ++ [UInt8.ofNat ((s.ip - ref - 1) / 256 + (n - 2) * 32)])
        (r2 :: r3 :: rest) r1 (UInt8.ofNat (s.ip - ref - 1))
      simp only [List.append_assoc, List.singleton_append, List.length_append, List.length_singleton] at second
      simp only [Option.bind_some, second]
      refine lzfCompressRehash_spec (fun hval htab => emitted_opened validRef (by rw [expandedRef]; congr 1; omega)
        (by omega) ⟨r2, r3 :: rest, ?_⟩ ?_ ?_) (by omega) (by omega)
      · simp [LzfToken.encode, short]
      · simp [LzfToken.encode, short]
      · simp at size ⊢
        omega
    · have first : writeBytes (closed.flatMap LzfToken.encode ++ r0 :: r1 :: r2 :: r3 :: rest)
          (closed.flatMap LzfToken.encode).length
          [UInt8.ofNat ((s.ip - ref - 1) / 256 + 7 * 32), UInt8.ofNat (n - 2 - 7)] =
          some (closed.flatMap LzfToken.encode ++ UInt8.ofNat ((s.ip - ref - 1) / 256 + 7 * 32) ::
            UInt8.ofNat (n - 2 - 7) :: r2 :: r3 :: rest) := by
        rw [writeBytes_append rfl (by simp)]
        simp
      have second := writeBytes_cons (closed.flatMap LzfToken.encode ++
        [UInt8.ofNat ((s.ip - ref - 1) / 256 + 7 * 32), UInt8.ofNat (n - 2 - 7)]) (r3 :: rest) r2
        (UInt8.ofNat (s.ip - ref - 1))
      simp only [List.append_assoc, List.cons_append, List.nil_append, List.length_append, List.length_cons,
        List.length_nil] at second
      rw [if_neg short, first]
      simp only [Option.bind_some, second]
      refine lzfCompressRehash_spec (fun hval htab => emitted_opened validRef (by rw [expandedRef]; congr 1; omega)
        (by omega) ⟨r3, rest, ?_⟩ ?_ ?_) (by omega) (by omega)
      · simp [LzfToken.encode, short]
      · simp [LzfToken.encode, short]
      · simp at size ⊢
        omega

theorem Emitted.rehashed {tokens : List LzfToken} {s : LzfState} (emitted : Emitted input outLen tokens s)
    (hval : UInt32) (htab : Nat → Option Int) : Emitted input outLen tokens { s with hval, htab } :=
  ⟨emitted.valid, emitted.expanded, emitted.short, emitted.started, emitted.inside, emitted.layout, emitted.position,
    emitted.size⟩

theorem Reachable.size {s : LzfState} (reachable : Reachable input outLen s) : s.out.length = outLen := by
  rcases reachable with ⟨tokens, emitted⟩ | doomed
  · exact emitted.size
  · exact doomed.size

theorem lzfCompressReference_doomed {s : LzfState} (doomed : Doomed outLen s) (ref off : Nat) :
    lzfCompressReference input outLen s ref off = some (.stop 0 s.out) := by
  unfold lzfCompressReference
  rw [if_pos (by rw [doomed.full, doomed.empty, if_pos rfl]; omega)]

theorem lzfCompressTurn_spec {s : LzfState} (reachable : Reachable input outLen s)
    (ahead : s.ip + 2 < input.length) :
    ∃ turn, lzfCompressTurn input outLen s = some turn ∧ TurnOk input outLen s.ip turn := by
  unfold lzfCompressTurn
  obtain ⟨hval, hashed⟩ := nextHval_isSome s.hval ahead
  rw [hashed]
  simp only [Option.bind_eq_bind, Option.bind_some]
  rcases lzfMatchTest_spec (s.htab (idx hval)) ahead with test | ⟨ref, test, after, before, near, agree⟩
  · -- no match: a literal byte, if the buffer has room for it
    rw [test]
    simp only [Option.bind_some]
    split
    · exact ⟨_, rfl, rfl, reachable.size⟩
    · next room =>
      rcases reachable with ⟨tokens, emitted⟩ | doomed
      · obtain ⟨s', copied, moved, outcome⟩ :=
          lzfCopyLiteral_spec (emitted.rehashed hval (Function.update s.htab (idx hval) (some (s.ip : Int))))
            (show s.ip < input.length by omega) (show s.op < outLen by omega)
        replace moved : s'.ip = s.ip + 1 := moved
        rcases outcome with grown | ⟨-, -, -, closed⟩
        · exact ⟨.next s', by rw [copied]; rfl, by omega, .inl ⟨tokens, grown.2.2⟩⟩
        · refine ⟨.next s', by rw [copied]; rfl, by omega, ?_⟩
          rcases closed with closed | doomed
          · exact .inl ⟨_, closed⟩
          · exact .inr doomed
      · exact absurd doomed.full (by omega)
  · -- a match: a back reference
    rw [test]
    simp only [Option.bind_some]
    rcases reachable with ⟨tokens, emitted⟩ | doomed
    · exact lzfCompressReference_spec (emitted.rehashed hval (Function.update s.htab (idx hval) (some (s.ip : Int))))
        ahead after before near agree
    · have doomed' : Doomed outLen { s with hval, htab := Function.update s.htab (idx hval) (some (s.ip : Int)) } :=
        ⟨doomed.full, doomed.empty, doomed.size⟩
      exact ⟨.stop 0 s.out, lzfCompressReference_doomed doomed' _ _, rfl, doomed.size⟩

def EndOk (input : List UInt8) (outLen : Nat) : CompressEnd → Prop
  | .stop result out => result = 0 ∧ out.length = outLen
  | .exit s => input.length ≤ s.ip + 2 ∧ Reachable input outLen s

theorem lzfCompressLoop_spec (fuel : Nat) {s : LzfState} (reachable : Reachable input outLen s)
    (enough : input.length ≤ s.ip + fuel + 1) (running : 0 < fuel) :
    ∃ e, lzfCompressLoop input outLen fuel s = some e ∧ EndOk input outLen e := by
  induction fuel generalizing s with
  | zero => omega
  | succ fuel ih =>
    rw [lzfCompressLoop]
    split
    · next ahead =>
      obtain ⟨turn, turned, ok⟩ := lzfCompressTurn_spec reachable ahead
      rw [turned]
      cases turn with
      | stop result out => exact ⟨_, rfl, ok⟩
      | exit s' => exact ⟨_, rfl, ok.2⟩
      | next s' =>
        have further := ok.1
        exact ih ok.2 (by omega) (by omega)
    · next ended => exact ⟨_, rfl, by omega, reachable⟩

theorem lzfCompressTail_spec (fuel : Nat) {tokens : List LzfToken} {s : LzfState}
    (emitted : Emitted input outLen tokens s) (ended : input.length ≤ s.ip + 2) (enough : input.length - s.ip < fuel)
    (room : s.op + (input.length - s.ip) ≤ outLen)
    (closing : 32 ≤ s.lit + (input.length - s.ip) → s.op + (input.length - s.ip) < outLen) :
    ∃ tokens' s', lzfCompressTail input fuel s = some s' ∧ Emitted input outLen tokens' s' ∧
      s'.ip = input.length ∧ s'.op ≤ outLen := by
  induction fuel generalizing tokens s with
  | zero => omega
  | succ fuel ih =>
    rw [lzfCompressTail]
    have inside := emitted.inside
    have short := emitted.short
    split
    · next reading =>
      obtain ⟨s', copied, moved, grown | ⟨full, emptied, pushed, closed | doomed⟩⟩ :=
        lzfCopyLiteral_spec emitted reading (by omega)
      · rw [copied, Option.bind_eq_bind, Option.bind_some]
        obtain ⟨grownLit, grownOp, grown⟩ := grown
        exact ih grown (by omega) (by omega) (by omega) (by omega)
      · -- the run closed: the room kept for its control byte is used by the new run's
        rw [copied, Option.bind_eq_bind, Option.bind_some]
        exact ih closed (by omega) (by omega) (by omega) (by omega)
      · have := doomed.full
        omega
    · next done =>
      exact ⟨tokens, s, rfl, emitted, by omega, by omega⟩

theorem lzfCompress_spec (htab : Nat → Option Int) (input out : List UInt8) (notOne : input.length ≠ 1) :
    ∃ result out', lzfCompress htab input out = some (result, out') ∧ out'.length = out.length ∧
      (result = 0 ∨ result ≤ out.length ∧ ∃ tokens, ValidTokens [] tokens ∧ expandTokens [] tokens = input ∧
        out'.take result = tokens.flatMap LzfToken.encode) := by
  unfold lzfCompress
  split
  · exact ⟨0, out, rfl, rfl, .inl rfl⟩
  · next nonempty =>
    obtain ⟨hval, first⟩ := frst_isSome (show 0 + 1 < input.length by omega)
    obtain ⟨reserved, rest, rfl⟩ : ∃ reserved rest, out = reserved :: rest :=
      List.exists_cons_of_length_pos (by omega)
    -- the first run opened, its control byte kept at 0
    have start : Reachable input (reserved :: rest).length ⟨0, 1, 0, hval, htab, reserved :: rest⟩ :=
      .inl ⟨[], emitted_opened trivial (by simp [expandTokens]) (by omega) ⟨reserved, rest, by simp⟩ (by simp) rfl⟩
    obtain ⟨e, looped, ok⟩ := lzfCompressLoop_spec input.length start (by simp) (by omega)
    rw [first]
    simp only [Option.bind_eq_bind, Option.bind_some, looped]
    cases e with
    | stop result out' => exact ⟨result, out', rfl, ok.2, .inl ok.1⟩
    | exit s =>
      obtain ⟨ended, reachable⟩ := ok
      dsimp only
      by_cases full : s.op + 3 > (reserved :: rest).length
      · rw [if_pos full]
        exact ⟨0, s.out, rfl, reachable.size, .inl rfl⟩
      · rw [if_neg full]
        rcases reachable with ⟨tokens, emitted⟩ | doomed
        · -- the last bytes, then the last run closed
          have started := emitted.inside
          obtain ⟨tokens', s', tailed, emitted', atEnd, within⟩ :=
            lzfCompressTail_spec (input.length + 1) emitted ended (by omega) (by omega) (by omega)
          obtain ⟨closed, rest', written, closedLength, valid, expanded, size⟩ := emitted'.close
          rw [tailed]
          simp only [Option.bind_some, written]
          refine ⟨_, _, rfl, by simp only [List.length_append]; omega,
            .inr ⟨by omega, closed, valid, by rw [expanded, atEnd, List.take_length], ?_⟩⟩
          rw [← closedLength, List.take_left]
        · have := doomed.full
          omega

theorem lzfCompress_roundTrip (htab : Nat → Option Int) (input out : List UInt8) (notOne : input.length ≠ 1) :
    ∃ result out', lzfCompress htab input out = some (result, out') ∧ result ≤ out.length ∧
      (result ≠ 0 → ∀ buffer : List UInt8, buffer.length = input.length →
        lzfDecompress (out'.take result) buffer = some (input.length, input)) := by
  obtain ⟨result, out', compressed, -, zero | ⟨within, tokens, valid, expanded, taken⟩⟩ :=
    lzfCompress_spec htab input out notOne
  · exact ⟨result, out', compressed, by omega, fun nonzero => absurd zero nonzero⟩
  · refine ⟨result, out', compressed, within, fun _ buffer length => ?_⟩
    rw [taken, lzfDecompress_tokens tokens valid buffer (by rw [expanded, length]), expanded, length]

end Invariant

/-- Where lzf_compress leaves its buffers: a single byte is hashed with the byte after it, read past the
input's end, and an input that ends with a full 32-byte run gets its empty last run's control byte, 255,
written at `out[c]`, right past the `c` bytes it returns. -/
theorem lzfCompress_past_buffers :
    (∀ htab (byte reserved : UInt8) (rest : List UInt8), lzfCompress htab [byte] (reserved :: rest) = none) ∧
      (lzfCompress (fun _ => none) ((List.range 32).map UInt8.ofNat) (List.replicate 34 0)).map
        (fun r => (r.1, r.2[33]?)) = some (33, some 255) := by
  refine ⟨fun htab byte reserved rest => ?_, by decide⟩
  unfold lzfCompress
  rw [if_neg (by simp)]
  simp [frst]

end Kv.Lzf
