import Mathlib.Data.Nat.Bitwise

/-!
The 24-bit LRU and LFU values of lrulfu.c, and the readers of object.c that
store a value back. An LRU value is a clock in seconds; an LFU value packs the
minute of its last evaluation, 16 bits, over an 8-bit logarithmic counter.
The statics of lrulfu.c (the two clocks and the policy) and the decay setting
are one record. The random draw of LFULogIncr is not modelled: its outcome is
an argument.
-/

namespace Kv.Lrulfu

structure LruLfu where
  lruClock : UInt32
  lfuClockMinutes : UInt16
  isUsingLfuPolicy : Bool
  lfuConfigDecayTime : Nat
  deriving DecidableEq, Repr

def lrulfuMask : UInt32 := ((1 : UInt32) <<< 24) - 1

def lruClockResolution : UInt32 := 1000

def lfuInitVal : UInt8 := 5

section Lru

def lruGetClockTime (g : LruLfu) : UInt32 := g.lruClock

/-- lru_import. -/
def lruImport (g : LruLfu) (idleSecs : UInt32) : UInt32 :=
  let now := lruGetClockTime g
  let idleSecs := if lruClockResolution ≠ 1000 then
      (idleSecs.toNat * 1000 / lruClockResolution.toNat).toUInt32
    else idleSecs
  let idleSecs := idleSecs &&& lrulfuMask
  (now - idleSecs) &&& lrulfuMask

/-- lru_getIdleSecs. -/
def lruGetIdleSecs (g : LruLfu) (lru : UInt32) : UInt32 :=
  let seconds := (lruGetClockTime g - lru) &&& lrulfuMask
  if lruClockResolution ≠ 1000 then (seconds.toNat * lruClockResolution.toNat / 1000).toUInt32 else seconds

end Lru

section Lfu

def lfuGetTimeInMinutes (g : LruLfu) : UInt16 := g.lfuClockMinutes

/-- lfu_import. -/
def lfuImport (g : LruLfu) (freq : UInt8) : UInt32 := (lfuGetTimeInMinutes g).toUInt32 <<< 8 ||| freq.toUInt32

/-- LFUDecay: the counter less one for each whole decay period since the stored minute, stamped with the current
minute. -/
def lfuDecay (g : LruLfu) (lfu : UInt32) : UInt32 :=
  let now := lfuGetTimeInMinutes g
  let prevTime : UInt16 := (lfu >>> 8).toUInt16
  let freq : UInt8 := lfu.toUInt8
  -- the 16-bit minutes wrap
  let elapsed : UInt16 := now - prevTime
  let numPeriods : UInt16 := if g.lfuConfigDecayTime ≠ 0 then (elapsed.toNat / g.lfuConfigDecayTime).toUInt16 else 0
  let freq : UInt8 := if numPeriods.toNat > freq.toNat then 0 else freq - numPeriods.toUInt8
  now.toUInt32 <<< 8 ||| freq.toUInt32

/-- LFULogIncr, with the outcome of its random draw, `r < p`, as `hit`. -/
def lfuLogIncr (hit : Bool) (freq : UInt8) : UInt8 :=
  if freq = 255 then freq else if hit then freq + 1 else freq

/-- lfu_touch. -/
def lfuTouch (g : LruLfu) (hit : Bool) (lfu : UInt32) : UInt32 :=
  let lfu := lfuDecay g lfu
  let freq := lfuLogIncr hit lfu.toUInt8
  lfu &&& ~~~(255 : UInt32) ||| freq.toUInt32

/-- lfu_getFrequency: the decayed value, and its counter, which the source returns through `freq`. -/
def lfuGetFrequency (g : LruLfu) (lfu : UInt32) : UInt32 × UInt8 :=
  let lfu := lfuDecay g lfu
  (lfu, lfu.toUInt8)

end Lfu

section Generic

/-- lrulfu_updateClockAndPolicy. -/
def lrulfuUpdateClockAndPolicy (g : LruLfu) (mstime : Int64) (isPolicyLfu : Bool) : LruLfu :=
  { g with
    lruClock := ((mstime / lruClockResolution.toUInt64.toInt64) &&& lrulfuMask.toUInt64.toInt64).toUInt64.toUInt32
    lfuClockMinutes := (mstime / 60000).toUInt64.toUInt16
    isUsingLfuPolicy := isPolicyLfu }

def lrulfuInit (g : LruLfu) : UInt32 :=
  if g.isUsingLfuPolicy then lfuImport g lfuInitVal else lruImport g 0

/-- lrulfu_getIdleness: the value stored back, and the idleness, which the source returns through `idleness`. -/
def lrulfuGetIdleness (g : LruLfu) (lrulfu : UInt32) : UInt32 × UInt32 :=
  if g.isUsingLfuPolicy then
    let (lrulfu, freq) := lfuGetFrequency g lrulfu
    (lrulfu, 255 - freq.toUInt32)
  else (lrulfu, lruGetIdleSecs g lrulfu)

/-- lrulfu_touch. -/
def lrulfuTouch (g : LruLfu) (hit : Bool) (lrulfu : UInt32) : UInt32 :=
  if g.isUsingLfuPolicy then lfuTouch g hit lrulfu else lruImport g 0

end Generic

section Objects

/-- objectGetLFUFrequency: the counter, and the object's `lru` field after it. -/
def objectGetLFUFrequency (g : LruLfu) (lru : UInt32) : UInt8 × UInt32 :=
  let (lru, freq) := lfuGetFrequency g lru
  (freq, lru)

/-- objectGetIdleness: the idleness, and the object's `lru` field after it. -/
def objectGetIdleness (g : LruLfu) (lru : UInt32) : UInt32 × UInt32 :=
  let (lru, idleness) := lrulfuGetIdleness g lru
  (idleness, lru)

end Objects

section Layout

def lfuTime (lfu : UInt32) : UInt16 := (lfu >>> 8).toUInt16

def lfuFreq (lfu : UInt32) : UInt8 := lfu.toUInt8

def lfuPeriods (d : Nat) (elapsed : UInt16) : Nat := if d ≠ 0 then elapsed.toNat / d else 0

theorem toNat_lfuPack (now : UInt16) (freq : UInt8) :
    (now.toUInt32 <<< 8 ||| freq.toUInt32).toNat = now.toNat * 256 + freq.toNat := by
  have low : freq.toNat < 2 ^ 8 := freq.toNat_lt
  have high := now.toNat_lt
  rw [UInt32.toNat_or, UInt32.toNat_shiftLeft, UInt16.toNat_toUInt32, UInt8.toNat_toUInt32,
    show UInt32.toNat 8 % 32 = 8 from rfl, Nat.shiftLeft_eq, Nat.mod_eq_of_lt (by omega), ← Nat.shiftLeft_eq,
    ← Nat.shiftLeft_add_eq_or_of_lt low, Nat.shiftLeft_eq]

theorem lfuTime_lfuPack (now : UInt16) (freq : UInt8) : lfuTime (now.toUInt32 <<< 8 ||| freq.toUInt32) = now := by
  have low := freq.toNat_lt
  have high := now.toNat_lt
  apply UInt16.toNat_inj.mp
  rw [lfuTime, UInt32.toNat_toUInt16, UInt32.toNat_shiftRight, toNat_lfuPack, show UInt32.toNat 8 % 32 = 8 from rfl,
    Nat.shiftRight_eq_div_pow]
  omega

theorem lfuFreq_lfuPack (now : UInt16) (freq : UInt8) : lfuFreq (now.toUInt32 <<< 8 ||| freq.toUInt32) = freq := by
  have low := freq.toNat_lt
  apply UInt8.toNat_inj.mp
  rw [lfuFreq, UInt32.toNat_toUInt8, toNat_lfuPack]
  omega

theorem lfuImport_fields (g : LruLfu) (freq : UInt8) :
    lfuTime (lfuImport g freq) = g.lfuClockMinutes ∧ lfuFreq (lfuImport g freq) = freq :=
  ⟨lfuTime_lfuPack _ _, lfuFreq_lfuPack _ _⟩

theorem lfuPack_lt (now : UInt16) (freq : UInt8) : (now.toUInt32 <<< 8 ||| freq.toUInt32).toNat < 2 ^ 24 := by
  have low := freq.toNat_lt
  have high := now.toNat_lt
  rw [toNat_lfuPack]
  omega

theorem lfuDecay_fields (g : LruLfu) (lfu : UInt32) :
    lfuTime (lfuDecay g lfu) = g.lfuClockMinutes ∧
      (lfuFreq (lfuDecay g lfu)).toNat =
        (lfuFreq lfu).toNat - lfuPeriods g.lfuConfigDecayTime (g.lfuClockMinutes - lfuTime lfu) := by
  -- the period count fits its 16 bits
  have periods : (if g.lfuConfigDecayTime ≠ 0 then
      ((lfuGetTimeInMinutes g - (lfu >>> 8).toUInt16).toNat / g.lfuConfigDecayTime).toUInt16 else 0).toNat =
      lfuPeriods g.lfuConfigDecayTime (g.lfuClockMinutes - lfuTime lfu) := by
    show (if g.lfuConfigDecayTime ≠ 0 then
      ((g.lfuClockMinutes - lfuTime lfu).toNat / g.lfuConfigDecayTime).toUInt16 else 0).toNat = _
    unfold lfuPeriods
    split
    · have := (g.lfuClockMinutes - lfuTime lfu).toNat_lt
      have := Nat.div_le_self (g.lfuClockMinutes - lfuTime lfu).toNat g.lfuConfigDecayTime
      rw [Nat.toUInt16, UInt16.toNat_ofNat', Nat.mod_eq_of_lt (by omega)]
    · rfl
  unfold lfuDecay
  refine ⟨lfuTime_lfuPack _ _, ?_⟩
  rw [lfuFreq_lfuPack]
  generalize (if g.lfuConfigDecayTime ≠ 0 then
      ((lfuGetTimeInMinutes g - (lfu >>> 8).toUInt16).toNat / g.lfuConfigDecayTime).toUInt16 else 0) = numPeriods
    at periods ⊢
  change (if numPeriods.toNat > (lfuFreq lfu).toNat then 0 else lfuFreq lfu - numPeriods.toUInt8).toNat = _
  rw [← periods]
  split
  · -- more periods than the counter: it stops at zero
    next more =>
    rw [UInt8.toNat_zero]
    omega
  · next within =>
    have narrow : numPeriods.toUInt8.toNat = numPeriods.toNat := by
      rw [UInt16.toNat_toUInt8, Nat.mod_eq_of_lt (by have := (lfuFreq lfu).toNat_lt; omega)]
    rw [UInt8.toNat_sub_of_le _ _ (by rw [UInt8.le_iff_toNat_le, narrow]; omega), narrow]

end Layout

section Readers

theorem toNat_and_lrulfuMask (x : UInt32) : (x &&& lrulfuMask).toNat = x.toNat % 2 ^ 24 := by
  rw [UInt32.toNat_and, show lrulfuMask.toNat = 2 ^ 24 - 1 from rfl, Nat.and_two_pow_sub_one_eq_mod]

theorem lrulfuGetIdleness_lfu (g : LruLfu) (lfu : g.isUsingLfuPolicy = true) (v : UInt32) :
    (lrulfuGetIdleness g v).1 = lfuDecay g v ∧
      (lrulfuGetIdleness g v).2.toNat = 255 - (lfuFreq (lfuDecay g v)).toNat := by
  have small : (lfuFreq (lfuDecay g v)).toUInt32 ≤ 255 := by
    rw [UInt32.le_iff_toNat_le, UInt8.toNat_toUInt32]
    exact Nat.le_of_lt_succ (lfuFreq (lfuDecay g v)).toNat_lt
  refine ⟨by simp [lrulfuGetIdleness, lfu, lfuGetFrequency], ?_⟩
  simp only [lrulfuGetIdleness, lfu, if_true, lfuGetFrequency]
  rw [← lfuFreq, UInt32.toNat_sub_of_le _ _ small, UInt8.toNat_toUInt32]
  rfl

theorem objectGetIdleness_lfu (g : LruLfu) (lfu : g.isUsingLfuPolicy = true) (lru : UInt32) :
    (objectGetIdleness g lru).2 = (objectGetLFUFrequency g lru).2 ∧
      (objectGetIdleness g lru).1.toNat = 255 - (objectGetLFUFrequency g lru).1.toNat :=
  lrulfuGetIdleness_lfu g lfu lru

theorem lrulfu_fits (g : LruLfu) (hit : Bool) {v : UInt32} (fits : v.toNat < 2 ^ 24) :
    (lrulfuInit g).toNat < 2 ^ 24 ∧ (lrulfuTouch g hit v).toNat < 2 ^ 24 ∧
      (lrulfuGetIdleness g v).1.toNat < 2 ^ 24 := by
  have lru (idleSecs : UInt32) : (lruImport g idleSecs).toNat < 2 ^ 24 := by
    rw [lruImport, toNat_and_lrulfuMask]
    exact Nat.mod_lt _ (by omega)
  have decayed (lfu : UInt32) : (lfuDecay g lfu).toNat < 2 ^ 24 := lfuPack_lt _ _
  refine ⟨?_, ?_, ?_⟩
  · unfold lrulfuInit lfuImport
    split
    · exact lfuPack_lt _ _
    · exact lru 0
  · unfold lrulfuTouch lfuTouch
    split
    · -- the touch keeps the decayed value's upper bits and puts a counter below them
      rw [UInt32.toNat_or, UInt32.toNat_and, UInt8.toNat_toUInt32]
      exact Nat.or_lt_two_pow (Nat.lt_of_le_of_lt Nat.and_le_left (decayed v)) (by
        have := (lfuLogIncr hit (lfuDecay g v).toUInt8).toNat_lt
        omega)
    · exact lru 0
  · unfold lrulfuGetIdleness
    split
    · exact decayed v
    · exact fits

end Readers

end Kv.Lrulfu
