import Kv.Foundations.Rounding
import Kv.Foundations.BitSpread

/-!
The geohash codec of geohash.c. A coordinate becomes two cell indices of
`step` bits, the latitude's and the longitude's: the offset from the bottom of
the range as a fraction of its width, times `2 ^ step`, truncated. The hash
interleaves the two, the latitude's bits in the even positions and the
longitude's in the odd ones; decoding splits them again and scales each index
back to the edges of its cell. The neighbour moves add or subtract one in one
lane of the interleaved word, letting the carry run through the other lane's
positions.
-/

namespace Kv.Geo

open Foundations Binary64

structure GeoHashBits where
  bits : UInt64
  step : UInt8
  deriving DecidableEq

structure GeoHashRange where
  min : Binary64
  max : Binary64
  deriving DecidableEq

structure GeoHashArea where
  hash : GeoHashBits
  longitude : GeoHashRange
  latitude : GeoHashRange
  deriving DecidableEq

def geoLongMin : Int := -180

def geoLongMax : Int := 180

def geoLatMax : Binary64 := roundToDouble false (8505112878 * 2 ^ 1074) (10 ^ 8)

def geoLatMin : Binary64 := negate geoLatMax

def doubleToUInt32 (x : Binary64) : UInt32 :=
  UInt32.ofNat (x.truncate % 2 ^ 32).toNat

def spreadStep (s B x : UInt64) : UInt64 :=
  (x ||| x <<< s) &&& B

def packStep (s B x : UInt64) : UInt64 :=
  (x ||| x >>> s) &&& B

def interleaveLane (x : UInt64) : UInt64 :=
  x |> spreadStep 16 0x0000FFFF0000FFFF |> spreadStep 8 0x00FF00FF00FF00FF
    |> spreadStep 4 0x0F0F0F0F0F0F0F0F |> spreadStep 2 0x3333333333333333
    |> spreadStep 1 0x5555555555555555

/-- `interleave64`: the bits of `xlo` in the even positions and those of `ylo`
in the odd ones. -/
def interleave64 (xlo ylo : UInt32) : UInt64 :=
  interleaveLane xlo.toUInt64 ||| interleaveLane ylo.toUInt64 <<< 1

def deinterleaveLane (x : UInt64) : UInt64 :=
  x |> packStep 0 0x5555555555555555 |> packStep 1 0x3333333333333333
    |> packStep 2 0x0F0F0F0F0F0F0F0F |> packStep 4 0x00FF00FF00FF00FF
    |> packStep 8 0x0000FFFF0000FFFF |> packStep 16 0x00000000FFFFFFFF

/-- `deinterleave64`: the even bits of the word in the low half of the result,
the odd ones in the high half. -/
def deinterleave64 (interleaved : UInt64) : UInt64 :=
  deinterleaveLane interleaved ||| deinterleaveLane (interleaved >>> 1) <<< 32

/-- `geohashGetCoordRange`: the longitude range and the latitude range. -/
def geohashGetCoordRange : GeoHashRange × GeoHashRange :=
  (⟨ofInt geoLongMin, ofInt geoLongMax⟩, ⟨geoLatMin, geoLatMax⟩)

def rangeIsZero (r : GeoHashRange) : Bool :=
  beq r.max posZero && beq r.min posZero

/-- `geohashEncode`: the returned code and the hash as the call leaves it. The
hash is written before the second range check, so a coordinate outside the
given ranges leaves it zeroed with the step set. -/
def geohashEncode (longRange latRange : GeoHashRange) (longitude latitude : Binary64) (step : UInt8)
    (hash : GeoHashBits) : Int × GeoHashBits :=
  if step > 32 || step == 0 || rangeIsZero latRange || rangeIsZero longRange then (0, hash)
  else if blt (ofInt geoLongMax) longitude || blt longitude (ofInt geoLongMin) ||
      blt geoLatMax latitude || blt latitude geoLatMin then (0, hash)
  else
    let hash : GeoHashBits := ⟨0, step⟩
    if blt latitude latRange.min || blt latRange.max latitude || blt longitude longRange.min ||
        blt longRange.max longitude then (0, hash)
    else
      let latOffset := div (sub latitude latRange.min) (sub latRange.max latRange.min)
      let longOffset := div (sub longitude longRange.min) (sub longRange.max longRange.min)
      -- convert to fixed point based on the step size
      let cells := ofNat ((1 : UInt64) <<< step.toUInt64).toNat
      let latOffset := mul latOffset cells
      let longOffset := mul longOffset cells
      (1, { hash with bits := interleave64 (doubleToUInt32 latOffset) (doubleToUInt32 longOffset) })

def geohashEncodeType (longitude latitude : Binary64) (step : UInt8) (hash : GeoHashBits) : Int × GeoHashBits :=
  geohashEncode geohashGetCoordRange.1 geohashGetCoordRange.2 longitude latitude step hash

def geohashEncodeWGS84 (longitude latitude : Binary64) (step : UInt8) (hash : GeoHashBits) : Int × GeoHashBits :=
  geohashEncodeType longitude latitude step hash

/-- `geohashDecode`: the cell of a hash, or nothing for a zero hash or a zero
range (the area is then left as it was). -/
def geohashDecode (longRange latRange : GeoHashRange) (hash : GeoHashBits) : Option GeoHashArea :=
  if (hash.bits == 0 && hash.step == 0) || rangeIsZero latRange || rangeIsZero longRange then none
  else
    let hashSep := deinterleave64 hash.bits
    let latScale := sub latRange.max latRange.min
    let longScale := sub longRange.max longRange.min
    let ilato : UInt32 := hashSep.toUInt32
    let ilono : UInt32 := (hashSep >>> 32).toUInt32
    -- divide by 2 ^ step, then scale to the range and add its bottom
    let cells := ofNat ((1 : UInt64) <<< hash.step.toUInt64).toNat
    let edge (bottom scale : Binary64) (index : UInt32) :=
      add bottom (mul (div (mul (ofNat index.toNat) (ofNat 1)) cells) scale)
    some { hash,
           latitude := ⟨edge latRange.min latScale ilato, edge latRange.min latScale (ilato + 1)⟩,
           longitude := ⟨edge longRange.min longScale ilono, edge longRange.min longScale (ilono + 1)⟩ }

def geohashDecodeType (hash : GeoHashBits) : Option GeoHashArea :=
  geohashDecode geohashGetCoordRange.1 geohashGetCoordRange.2 hash

def geohashDecodeWGS84 (hash : GeoHashBits) : Option GeoHashArea :=
  geohashDecodeType hash

/-- `geohash_move_x`: one cell east (`d > 0`) or west (`d < 0`). -/
def geohashMoveX (hash : GeoHashBits) (d : Int8) : GeoHashBits :=
  if d = 0 then hash
  else
    let x := hash.bits &&& 0xaaaaaaaaaaaaaaaa
    let y := hash.bits &&& 0x5555555555555555
    let zz : UInt64 := 0x5555555555555555 >>> (64 - hash.step.toUInt64 * 2)
    let x := if d > 0 then x + (zz + 1) else (x ||| zz) - (zz + 1)
    let x := x &&& (0xaaaaaaaaaaaaaaaa >>> (64 - hash.step.toUInt64 * 2))
    { hash with bits := x ||| y }

/-- `geohash_move_y`: one cell north (`d > 0`) or south (`d < 0`). -/
def geohashMoveY (hash : GeoHashBits) (d : Int8) : GeoHashBits :=
  if d = 0 then hash
  else
    let x := hash.bits &&& 0xaaaaaaaaaaaaaaaa
    let y := hash.bits &&& 0x5555555555555555
    let zz : UInt64 := 0xaaaaaaaaaaaaaaaa >>> (64 - hash.step.toUInt64 * 2)
    let y := if d > 0 then y + (zz + 1) else (y ||| zz) - (zz + 1)
    let y := y &&& (0x5555555555555555 >>> (64 - hash.step.toUInt64 * 2))
    { hash with bits := x ||| y }

/-- `geohashAlign52Bits`: the hash shifted up to 52 bits. -/
def geohashAlign52Bits (hash : GeoHashBits) : UInt64 :=
  hash.bits <<< (52 - hash.step.toUInt64 * 2)

section Lanes

variable {P : Nat → Bool} {g : Nat → Nat} {f : Nat → Bool}

theorem layout_spreadStep {x : UInt64} (s B : UInt64) {n : Nat} (amount : s.toNat = n)
    (layout : Layout x.toNat P g f) (pos : 0 < n) (small : n < 64) (within : ∀ j, P j = true → j / n / 2 % 2 = 0)
    (mask : ∀ j, B.toNat.testBit j = decide (j < 64 ∧ j / n % 2 = 0)) :
    Layout (spreadStep s B x).toNat (fun i => decide (i < 64 ∧ i / n % 2 = 0) && P (i - n * (i / n / 2 % 2)))
      (fun i => g (i - n * (i / n / 2 % 2))) f := by
  have word : (spreadStep s B x).toNat = (x.toNat ||| x.toNat <<< n % 2 ^ 64) &&& B.toNat := by
    simp [spreadStep, amount, Nat.mod_eq_of_lt small]
  rw [word]
  exact layout.spreadStage pos within mask

theorem layout_packStep {x : UInt64} (s B : UInt64) {n : Nat} (amount : s.toNat = n)
    (layout : Layout x.toNat P g f) (pos : 0 < n) (small : n < 64) (within : ∀ j, P j = true → j / n % 2 = 0)
    (mask : ∀ j, B.toNat.testBit j = decide (j < 64 ∧ j / n / 2 % 2 = 0)) :
    Layout (packStep s B x).toNat (fun i => decide (i < 64 ∧ i / n / 2 % 2 = 0) && P (i + n * (i / n % 2)))
      (fun i => g (i + n * (i / n % 2))) f := by
  have word : (packStep s B x).toNat = (x.toNat ||| x.toNat >>> n) &&& B.toNat := by
    simp [packStep, amount, Nat.mod_eq_of_lt small]
  rw [word]
  exact layout.packStage pos within mask

theorem interleaveLane_layout (x : UInt32) :
    Layout (interleaveLane x.toUInt64).toNat (fun i => decide (i < 64 ∧ i % 2 = 0)) (· / 2) x.toNat.testBit := by
  have start : Layout x.toUInt64.toNat (fun i => decide (i < 32)) id x.toNat.testBit := by
    simpa using Layout.of_lt x.toNat_lt
  have s16 := layout_spreadStep 16 0x0000FFFF0000FFFF (n := 16) rfl start (by decide) (by decide)
    (fun j set => by simp at set; omega) (testBit_of_low_bits (by decide) (by decide))
  have s8 := layout_spreadStep 8 0x00FF00FF00FF00FF (n := 8) rfl s16 (by decide) (by decide)
    (fun j set => by simp at set; omega) (testBit_of_low_bits (by decide) (by decide))
  have s4 := layout_spreadStep 4 0x0F0F0F0F0F0F0F0F (n := 4) rfl s8 (by decide) (by decide)
    (fun j set => by simp at set; omega) (testBit_of_low_bits (by decide) (by decide))
  have s2 := layout_spreadStep 2 0x3333333333333333 (n := 2) rfl s4 (by decide) (by decide)
    (fun j set => by simp at set; omega) (testBit_of_low_bits (by decide) (by decide))
  have s1 := layout_spreadStep 1 0x5555555555555555 (n := 1) rfl s2 (by decide) (by decide)
    (fun j set => by simp at set; omega) (testBit_of_low_bits (by decide) (by decide))
  -- where the five stages put each bit: a finite check over the 64 positions
  exact s1.congr_below 64 (by decide) (fun i beyond => by simp [beyond])

theorem deinterleaveLane_layout (v : UInt64) :
    Layout (deinterleaveLane v).toNat (fun i => decide (i < 32)) (2 * ·) v.toNat.testBit := by
  -- the first line shifts by zero: it only keeps the even bits
  have s0 : Layout (packStep 0 0x5555555555555555 v).toNat (fun i => decide (i < 64 ∧ i % 2 = 0)) id
      v.toNat.testBit := by
    intro i
    have word : (packStep 0 0x5555555555555555 v).toNat = v.toNat &&& 0x5555555555555555 := by
      simp [packStep]
    have mask := testBit_of_low_bits (m := 0x5555555555555555) (w := 64) (P := fun i => i % 2 = 0)
      (by decide) (by decide) i
    rw [word, Nat.testBit_and, mask, Bool.and_comm]
    rfl
  have s1 := layout_packStep 1 0x3333333333333333 (n := 1) rfl s0 (by decide) (by decide)
    (fun j set => by simp at set; omega) (testBit_of_low_bits (by decide) (by decide))
  have s2 := layout_packStep 2 0x0F0F0F0F0F0F0F0F (n := 2) rfl s1 (by decide) (by decide)
    (fun j set => by simp at set; omega) (testBit_of_low_bits (by decide) (by decide))
  have s4 := layout_packStep 4 0x00FF00FF00FF00FF (n := 4) rfl s2 (by decide) (by decide)
    (fun j set => by simp at set; omega) (testBit_of_low_bits (by decide) (by decide))
  have s8 := layout_packStep 8 0x0000FFFF0000FFFF (n := 8) rfl s4 (by decide) (by decide)
    (fun j set => by simp at set; omega) (testBit_of_low_bits (by decide) (by decide))
  have s16 := layout_packStep 16 0x00000000FFFFFFFF (n := 16) rfl s8 (by decide) (by decide)
    (fun j set => by simp at set; omega) (testBit_of_low_bits (by decide) (by decide))
  exact s16.congr_below 64 (by decide) (fun i beyond => ⟨by simp [beyond], by simp; omega⟩)

theorem testBit_halves (x y : UInt32) (k : Nat) :
    (x.toUInt64 ||| y.toUInt64 <<< 32).toNat.testBit k =
      (decide (k < 64) && if k < 32 then x.toNat.testBit k else y.toNat.testBit (k - 32)) := by
  have low : x.toNat < 2 ^ 32 := x.toNat_lt
  have high : y.toNat < 2 ^ 32 := y.toNat_lt
  simp only [UInt64.toNat_or, UInt64.toNat_shiftLeft, UInt32.toNat_toUInt64, Nat.testBit_or,
    Nat.testBit_mod_two_pow, Nat.testBit_shiftLeft]
  by_cases first : k < 32
  · have : y.toNat.testBit (k - 32) = false ∨ ¬ 32 ≤ k := .inr (by omega)
    simp [first, show k < 64 by omega, show ¬ 32 ≤ k by omega]
  · have gone : x.toNat.testBit k = false :=
      Nat.testBit_eq_false_of_lt (lt_of_lt_of_le low (Nat.pow_le_pow_right (by decide) (by omega)))
    by_cases inside : k < 64
    · simp [first, inside, gone, show 32 ≤ k by omega]
    · have past : y.toNat.testBit (k - 32) = false :=
        Nat.testBit_eq_false_of_lt (lt_of_lt_of_le high (Nat.pow_le_pow_right (by decide) (by omega)))
      simp [inside, gone, past]

theorem interleave64_layout (xlo ylo : UInt32) :
    Layout (interleave64 xlo ylo).toNat (fun i => decide (i < 64))
      (fun i => if i % 2 = 0 then i / 2 else 32 + i / 2) (xlo.toUInt64 ||| ylo.toUInt64 <<< 32).toNat.testBit := by
  intro i
  have word : (interleave64 xlo ylo).toNat.testBit i =
      ((interleaveLane xlo.toUInt64).toNat.testBit i ||
        (decide (i < 64 ∧ 1 ≤ i) && (interleaveLane ylo.toUInt64).toNat.testBit (i - 1))) := by
    simp only [interleave64, UInt64.toNat_or, UInt64.toNat_shiftLeft, Nat.testBit_or, Nat.testBit_mod_two_pow,
      Nat.testBit_shiftLeft]
    simp [Bool.and_assoc]
  rw [word, interleaveLane_layout xlo i, interleaveLane_layout ylo (i - 1), testBit_halves]
  by_cases inside : i < 64
  · rcases Nat.mod_two_eq_zero_or_one i with even | odd
    · -- an even position holds a bit of the first half
      have low : i / 2 < 32 := by omega
      by_cases zero : i = 0
      · subst zero
        simp
      · have before : ¬ (i - 1) % 2 = 0 := by omega
        simp [inside, even, low, before, show i / 2 < 64 by omega]
    · -- an odd position holds a bit of the second half
      have high : ¬ 32 + i / 2 < 32 := by omega
      have same : (i - 1) / 2 = i / 2 := by omega
      simp [inside, odd, high, same, show 1 ≤ i by omega, show (i - 1) % 2 = 0 by omega,
        show 32 + i / 2 < 64 by omega, show i - 1 < 64 by omega]
  · simp [inside]

theorem deinterleave64_layout (interleaved : UInt64) :
    Layout (deinterleave64 interleaved).toNat (fun i => decide (i < 64))
      (fun i => if i < 32 then 2 * i else 2 * (i - 32) + 1) interleaved.toNat.testBit := by
  intro i
  have word : (deinterleave64 interleaved).toNat.testBit i =
      ((deinterleaveLane interleaved).toNat.testBit i ||
        (decide (i < 64 ∧ 32 ≤ i) && (deinterleaveLane (interleaved >>> 1)).toNat.testBit (i - 32))) := by
    simp only [deinterleave64, UInt64.toNat_or, UInt64.toNat_shiftLeft, Nat.testBit_or, Nat.testBit_mod_two_pow,
      Nat.testBit_shiftLeft]
    simp [Bool.and_assoc]
  have odd : ∀ k, (interleaved >>> 1).toNat.testBit k = interleaved.toNat.testBit (k + 1) := by
    intro k
    simp [Nat.add_comm]
  rw [word, deinterleaveLane_layout interleaved i, deinterleaveLane_layout (interleaved >>> 1) (i - 32), odd]
  by_cases first : i < 32
  · simp [first, show i < 64 by omega]
  · by_cases inside : i < 64
    · simp [first, inside, show 32 ≤ i by omega, show i - 32 < 32 by omega]
    · simp [first, inside]

theorem deinterleave64_interleave64 (xlo ylo : UInt32) :
    deinterleave64 (interleave64 xlo ylo) = xlo.toUInt64 ||| ylo.toUInt64 <<< 32 := by
  apply UInt64.toNat_inj.mp
  apply Nat.eq_of_testBit_eq
  intro i
  rw [deinterleave64_layout, interleave64_layout]
  by_cases inside : i < 64
  · by_cases first : i < 32
    · simp [inside, first, show 2 * i < 64 by omega]
    · simp [inside, first, show 2 * (i - 32) + 1 < 64 by omega, show (2 * (i - 32) + 1) / 2 = i - 32 by omega,
        show 32 + (i - 32) = i by omega]
  · simp only [testBit_halves]
    simp [inside]

end Lanes

/-- At the inclusive upper end of the longitudes the encoder's offset is exactly
one, so the longitude index is `2 ^ step`, one past the last cell, and the hash
has a bit at `2 * step + 1`: it is not below `2 ^ (2 * step)`. -/
theorem geohashEncodeWGS84_longMax_outside (latitude : Binary64) (step : UInt8) (hash : GeoHashBits)
    (south : ble geoLatMin latitude = true) (north : ble latitude geoLatMax = true)
    (steps : 1 ≤ step.toNat ∧ step.toNat ≤ 26) :
    (geohashEncodeWGS84 (ofInt geoLongMax) latitude step hash).1 = 1 ∧
      2 ^ (2 * step.toNat) ≤ (geohashEncodeWGS84 (ofInt geoLongMax) latitude step hash).2.bits.toNat := by
  obtain ⟨low, high⟩ := steps
  -- every check of the encoder passes
  have stepOk : (step > 32 || step == 0) = false := by
    simp only [Bool.or_eq_false_iff, decide_eq_false_iff_not, beq_eq_false_iff_ne]
    constructor
    · exact fun above => by have := UInt8.lt_iff_toNat_lt.mp above; simp at this; omega
    · exact fun zero => by rw [zero] at low; simp at low
  have ranges : rangeIsZero ⟨geoLatMin, geoLatMax⟩ = false ∧
      rangeIsZero ⟨ofInt geoLongMin, ofInt geoLongMax⟩ = false := by decide +kernel
  have longitudes : blt (ofInt geoLongMax) (ofInt geoLongMax) = false ∧
      blt (ofInt geoLongMax) (ofInt geoLongMin) = false := by decide +kernel
  have north' : blt geoLatMax latitude = false := blt_eq_false_of_ble north
  have south' : blt latitude geoLatMin = false := blt_eq_false_of_ble south
  -- the longitude offset is exactly one, and so its index is exactly 2 ^ step
  have offset : div (sub (ofInt geoLongMax) (ofInt geoLongMin)) (sub (ofInt geoLongMax) (ofInt geoLongMin)) =
      ofNat 1 := by decide +kernel
  have cells : ((1 : UInt64) <<< step.toUInt64).toNat = 2 ^ step.toNat := by
    have small : 2 ^ step.toNat < 2 ^ 64 := Nat.pow_lt_pow_right (by decide) (by omega)
    simp only [UInt64.toNat_shiftLeft, UInt8.toNat_toUInt64, UInt64.toNat_one, Nat.one_shiftLeft,
      Nat.mod_eq_of_lt (show step.toNat < 64 by omega)]
    exact Nat.mod_eq_of_lt small
  have index : doubleToUInt32 (mul (ofNat 1) (ofNat (2 ^ step.toNat))) = UInt32.ofNat (2 ^ step.toNat) := by
    have every : ∀ n < 27, doubleToUInt32 (mul (ofNat 1) (ofNat (2 ^ n))) = UInt32.ofNat (2 ^ n) := by
      decide +kernel
    exact every _ (by omega)
  simp only [geohashEncodeWGS84, geohashEncodeType, geohashEncode, geohashGetCoordRange, stepOk, ranges,
    longitudes, north', south', offset, cells, index, Bool.or_false, Bool.false_eq_true, if_false]
  refine ⟨trivial, ?_⟩
  -- bit `step` of the longitude index lands at position `2 * step + 1`
  have fits : 2 ^ step.toNat < 4294967296 := Nat.pow_lt_pow_right (n := 32) (by decide) (by omega)
  have bit : (interleave64 (doubleToUInt32 (mul (div (sub latitude geoLatMin) (sub geoLatMax geoLatMin))
      (ofNat (2 ^ step.toNat)))) (UInt32.ofNat (2 ^ step.toNat))).toNat.testBit (2 * step.toNat + 1) = true := by
    rw [interleave64_layout, testBit_halves]
    simp [show (2 * step.toNat + 1) % 2 = 1 by omega, show (2 * step.toNat + 1) / 2 = step.toNat by omega,
      show 2 * step.toNat + 1 < 64 by omega, show 32 + step.toNat < 64 by omega, Nat.mod_eq_of_lt fits,
      Nat.testBit_two_pow_self]
  calc 2 ^ (2 * step.toNat)
      ≤ 2 ^ (2 * step.toNat + 1) := Nat.pow_le_pow_right (by decide) (by omega)
    _ ≤ _ := Nat.ge_two_pow_of_testBit bit

theorem geohashEncodeWGS84_longMax_outside_equator :
    ble geoLatMin posZero = true ∧ ble posZero geoLatMax = true ∧
      (1 ≤ (26 : UInt8).toNat ∧ (26 : UInt8).toNat ≤ 26) ∧
      ((geohashEncodeWGS84 (ofInt geoLongMax) posZero 26 ⟨0, 0⟩).1 = 1 ∧
        2 ^ (2 * (26 : UInt8).toNat) ≤ (geohashEncodeWGS84 (ofInt geoLongMax) posZero 26 ⟨0, 0⟩).2.bits.toNat) ∧
      (geohashEncodeWGS84 (ofInt geoLongMax) posZero 26 ⟨0, 0⟩).2.bits.toNat = 2 ^ 53 + 2 ^ 50 :=
  ⟨by decide +kernel, by decide +kernel, by decide,
    geohashEncodeWGS84_longMax_outside posZero 26 ⟨0, 0⟩ (by decide +kernel) (by decide +kernel) (by decide),
    by decide +kernel⟩

end Kv.Geo
