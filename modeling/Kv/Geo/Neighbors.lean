import Kv.Geo.Geohash
import Kv.Foundations.Lanes

/-!
The neighbour cells of geohash.c. A hash of `step` bits a coordinate holds the
two cell indices interleaved, the latitude's in the even positions and the
longitude's in the odd ones. `geohash_move_x` adds or subtracts one in the
longitude's positions without taking the word apart: it sets every latitude
position below `2 * step`, so that a carry or a borrow runs straight through
them, and masks the sum back to the longitude positions; `geohash_move_y` does
the same with the roles swapped. Read as lanes of two bits (`pairLanes` of
`Foundations.Lanes`) the move is the index one cell over on a ring of
`2 ^ step` cells, the grid wrapping at its edges, and the other index is kept.
`geohashNeighbors` applies the two moves to give the eight cells around a hash.
-/

namespace Kv.Geo

open Foundations

structure GeoHashNeighbors where
  north : GeoHashBits
  east : GeoHashBits
  west : GeoHashBits
  south : GeoHashBits
  northEast : GeoHashBits
  southEast : GeoHashBits
  northWest : GeoHashBits
  southWest : GeoHashBits
  deriving DecidableEq

/-- `geohashNeighbors`: every neighbour is a copy of the hash moved along x and then along y. -/
def geohashNeighbors (hash : GeoHashBits) : GeoHashNeighbors where
  east := geohashMoveY (geohashMoveX hash 1) 0
  west := geohashMoveY (geohashMoveX hash (-1)) 0
  south := geohashMoveY (geohashMoveX hash 0) (-1)
  north := geohashMoveY (geohashMoveX hash 0) 1
  northWest := geohashMoveY (geohashMoveX hash (-1)) 1
  northEast := geohashMoveY (geohashMoveX hash 1) 1
  southEast := geohashMoveY (geohashMoveX hash 1) (-1)
  southWest := geohashMoveY (geohashMoveX hash (-1)) (-1)

section Cells

def moveIndex (step index : Nat) (d : Int8) : Nat :=
  if d = 0 then index
  else if d > 0 then (index + 1) % 2 ^ step
  else (index + 2 ^ step - 1) % 2 ^ step

@[simp] theorem moveIndex_zero (step index : Nat) : moveIndex step index 0 = index := rfl

theorem moveIndex_lt {step index : Nat} (small : index < 2 ^ step) (d : Int8) : moveIndex step index d < 2 ^ step := by
  unfold moveIndex
  split
  · exact small
  · split <;> exact Nat.mod_lt _ (Nat.two_pow_pos step)

theorem moveIndex_inverse {step index : Nat} (small : index < 2 ^ step) :
    moveIndex step (moveIndex step index 1) (-1) = index ∧ moveIndex step (moveIndex step index (-1)) 1 = index := by
  have pos := Nat.two_pow_pos step
  simp only [moveIndex, show (1 : Int8) ≠ 0 by decide, show (-1 : Int8) ≠ 0 by decide, show (1 : Int8) > 0 by decide,
    show ¬ (-1 : Int8) > 0 by decide, if_false, if_true]
  constructor
  · -- on from the last cell wraps to the first, and back from it to the last
    by_cases last : index + 1 = 2 ^ step
    · have wrap : (index + 1) % 2 ^ step = 0 := by rw [last, Nat.mod_self]
      rw [wrap, Nat.zero_add, Nat.mod_eq_of_lt (by omega)]
      omega
    · have inner : (index + 1) % 2 ^ step = index + 1 := Nat.mod_eq_of_lt (by omega)
      rw [inner, show index + 1 + 2 ^ step - 1 = index + 2 ^ step by omega, Nat.add_mod_right,
        Nat.mod_eq_of_lt small]
  · by_cases first : index = 0
    · have wrap : (index + 2 ^ step - 1) % 2 ^ step = 2 ^ step - 1 := by
        rw [first, Nat.zero_add]
        exact Nat.mod_eq_of_lt (by omega)
      rw [wrap, Nat.sub_add_cancel pos, Nat.mod_self, first]
    · have inner : (index + 2 ^ step - 1) % 2 ^ step = index - 1 := by
        rw [show index + 2 ^ step - 1 = index - 1 + 2 ^ step by omega, Nat.add_mod_right]
        exact Nat.mod_eq_of_lt (by omega)
      rw [inner, Nat.sub_add_cancel (by omega), Nat.mod_eq_of_lt small]

structure GeoCell where
  step : UInt8
  lat : Nat
  lon : Nat
  stepPos : 0 < step.toNat
  stepLe : step.toNat ≤ 32
  latLt : lat < 2 ^ step.toNat
  lonLt : lon < 2 ^ step.toNat

namespace GeoCell

def hash (c : GeoCell) : GeoHashBits :=
  ⟨interleave64 (UInt32.ofNat c.lat) (UInt32.ofNat c.lon), c.step⟩

def move (c : GeoCell) (dx dy : Int8) : GeoCell where
  step := c.step
  lat := moveIndex c.step.toNat c.lat dy
  lon := moveIndex c.step.toNat c.lon dx
  stepPos := c.stepPos
  stepLe := c.stepLe
  latLt := moveIndex_lt c.latLt dy
  lonLt := moveIndex_lt c.lonLt dx

theorem hash_def (c : GeoCell) : c.hash = ⟨interleave64 (UInt32.ofNat c.lat) (UInt32.ofNat c.lon), c.step⟩ := rfl

@[simp] theorem hash_step (c : GeoCell) : c.hash.step = c.step := rfl

@[simp] theorem move_step (c : GeoCell) (dx dy : Int8) : (c.move dx dy).step = c.step := rfl

@[simp] theorem move_lat (c : GeoCell) (dx dy : Int8) : (c.move dx dy).lat = moveIndex c.step.toNat c.lat dy := rfl

@[simp] theorem move_lon (c : GeoCell) (dx dy : Int8) : (c.move dx dy).lon = moveIndex c.step.toNat c.lon dx := rfl

theorem ext_hash {c c' : GeoCell} (step : c.step = c'.step) (lat : c.lat = c'.lat) (lon : c.lon = c'.lon) :
    c.hash = c'.hash := by
  rw [hash_def, hash_def, step, lat, lon]

theorem move_move (c : GeoCell) (dx dy : Int8) : ((c.move dx 0).move 0 dy).hash = (c.move dx dy).hash :=
  ext_hash rfl rfl rfl

end GeoCell

end Cells

section Words

variable {step : UInt8}

theorem toNat_moveShift (pos : 0 < step.toNat) (le : step.toNat ≤ 32) :
    (64 - step.toUInt64 * 2).toNat % 64 = 64 - 2 * step.toNat := by
  have twice : (step.toUInt64 * 2).toNat = 2 * step.toNat := by
    rw [UInt64.toNat_mul, UInt8.toNat_toUInt64]
    simp only [UInt64.reduceToNat]
    omega
  have below : step.toUInt64 * 2 ≤ 64 := by
    rw [UInt64.le_iff_toNat_le, twice]
    simp only [UInt64.reduceToNat]
    omega
  rw [UInt64.toNat_sub_of_le _ _ below, twice]
  simp only [UInt64.reduceToNat]
  omega

theorem toNat_alternating_shiftRight {c : UInt64} {e : Nat} (pair : e = 1 ∨ e = 2)
    (bits : ∀ j, c.toNat.testBit j = decide (j < 64 ∧ e.testBit (j % 2) = true)) (pos : 0 < step.toNat)
    (le : step.toNat ≤ 32) :
    (c >>> (64 - step.toUInt64 * 2)).toNat = ofLanes 2 (List.replicate step.toNat e) := by
  apply Nat.eq_of_testBit_eq
  intro k
  have parity : (64 - 2 * step.toNat + k) % 2 = k % 2 := by omega
  have inside : 64 - 2 * step.toNat + k < 64 ↔ k / 2 < step.toNat := by omega
  rw [UInt64.toNat_shiftRight, toNat_moveShift pos le, Nat.testBit_shiftRight, bits, parity,
    testBit_ofLanes_replicate (by decide) (by omega)]
  simp only [inside, Bool.decide_and, Bool.decide_eq_true]

theorem testBit_weightOne (j : Nat) :
    (0x5555555555555555 : UInt64).toNat.testBit j = decide (j < 64 ∧ (1 : Nat).testBit (j % 2) = true) :=
  testBit_of_low_bits (w := 64) (P := fun j => (1 : Nat).testBit (j % 2) = true) (by decide) (by decide) j

theorem testBit_weightTwo (j : Nat) :
    (0xaaaaaaaaaaaaaaaa : UInt64).toNat.testBit j = decide (j < 64 ∧ (2 : Nat).testBit (j % 2) = true) :=
  testBit_of_low_bits (w := 64) (P := fun j => (2 : Nat).testBit (j % 2) = true) (by decide) (by decide) j

theorem testBit_interleave64 (xlo ylo : UInt32) (k : Nat) :
    (interleave64 xlo ylo).toNat.testBit k =
      (decide (k < 64) && if k % 2 = 0 then xlo.toNat.testBit (k / 2) else ylo.toNat.testBit (k / 2)) := by
  rw [interleave64_layout xlo ylo k, testBit_halves]
  by_cases inside : k < 64
  · rcases Nat.mod_two_eq_zero_or_one k with even | odd
    · simp [inside, even, show k / 2 < 32 by omega, show k / 2 < 64 by omega]
    · simp [inside, odd, show 32 + k / 2 < 64 by omega]
  · simp [inside]

end Words

theorem testBit_one_one : Nat.testBit 1 1 = false := by decide

theorem testBit_two_one : Nat.testBit 2 1 = true := by decide

namespace GeoCell

variable (c : GeoCell)

theorem toNat_hash : c.hash.bits.toNat = pairLanes 1 c.step.toNat c.lat ||| pairLanes 2 c.step.toNat c.lon := by
  have lat : (UInt32.ofNat c.lat).toNat = c.lat :=
    Nat.mod_eq_of_lt (lt_of_lt_of_le c.latLt (Nat.pow_le_pow_right (by decide) c.stepLe))
  have lon : (UInt32.ofNat c.lon).toNat = c.lon :=
    Nat.mod_eq_of_lt (lt_of_lt_of_le c.lonLt (Nat.pow_le_pow_right (by decide) c.stepLe))
  apply Nat.eq_of_testBit_eq
  intro k
  rw [hash_def, testBit_interleave64, lat, lon, Nat.testBit_or, testBit_pairLanes (by decide),
    testBit_pairLanes (by decide), Layout.of_lt c.latLt (k / 2), Layout.of_lt c.lonLt (k / 2)]
  have := c.stepLe
  by_cases inside : k / 2 < c.step.toNat
  · rcases Nat.mod_two_eq_zero_or_one k with even | odd
    · simp [inside, even, show k < 64 by omega]
    · simp [inside, odd, show k < 64 by omega, testBit_one_one, testBit_two_one]
  · simp [inside]

theorem eq_hash {h : GeoHashBits}
    (bits : h.bits.toNat = pairLanes 1 c.step.toNat c.lat ||| pairLanes 2 c.step.toNat c.lon) (step : h.step = c.step) :
    h = c.hash := by
  have word : h.bits = c.hash.bits := UInt64.toNat_inj.mp (by rw [bits, toNat_hash])
  cases h
  rw [hash_def]
  simp only at word step
  rw [word, step, hash_def]

theorem toNat_hash_and_weightOne : (c.hash.bits &&& 0x5555555555555555).toNat = pairLanes 1 c.step.toNat c.lat := by
  apply Nat.eq_of_testBit_eq
  intro k
  rw [UInt64.toNat_and, Nat.testBit_and, toNat_hash, Nat.testBit_or, testBit_pairLanes (by decide),
    testBit_pairLanes (by decide), testBit_weightOne]
  have := c.stepLe
  rcases Nat.mod_two_eq_zero_or_one k with even | odd
  · by_cases inside : k / 2 < c.step.toNat
    · simp [even, inside, show k < 64 by omega]
    · simp [even, inside]
  · simp [odd, testBit_one_one]

theorem toNat_hash_and_weightTwo : (c.hash.bits &&& 0xaaaaaaaaaaaaaaaa).toNat = pairLanes 2 c.step.toNat c.lon := by
  apply Nat.eq_of_testBit_eq
  intro k
  rw [UInt64.toNat_and, Nat.testBit_and, toNat_hash, Nat.testBit_or, testBit_pairLanes (by decide),
    testBit_pairLanes (by decide), testBit_weightTwo]
  have := c.stepLe
  rcases Nat.mod_two_eq_zero_or_one k with even | odd
  · simp [even]
  · by_cases inside : k / 2 < c.step.toNat
    · simp [odd, inside, show k < 64 by omega, testBit_one_one, testBit_two_one]
    · simp [odd, inside]

end GeoCell

section Moves

theorem toNat_moveLane {e s a : Nat} (pair : e = 1 ∨ e = 2) (le : s ≤ 32) (small : a < 2 ^ s) {x zz m : UInt64}
    (lane : x.toNat = pairLanes e s a) (fill : zz.toNat = ofLanes 2 (List.replicate s (3 - e)))
    (mask : m.toNat = ofLanes 2 (List.replicate s e)) {d : Int8} (nz : d ≠ 0) :
    ((if d > 0 then x + (zz + 1) else (x ||| zz) - (zz + 1)) &&& m).toNat = pairLanes e s (moveIndex s a d) := by
  have maskLt : m.toNat < 2 ^ 64 := m.toNat_lt
  rw [moveIndex, if_neg nz]
  by_cases up : d > 0
  · -- the carry out of the top lane falls off with the positions above the mask
    rw [if_pos up, if_pos up, UInt64.toNat_and, UInt64.toNat_add, UInt64.toNat_add, UInt64.toNat_one, Nat.add_mod_mod,
      ← and_eq_mod_and maskLt, lane, fill, mask, ← Nat.add_assoc, pairLanes_add_fill_succ pair small]
  · -- the other lane's positions are clear, so setting them adds them, and the difference is a decrement
    have set : x ||| zz = x + zz := by
      apply UInt64.toNat_inj.mp
      have sum : x.toNat ||| zz.toNat = x.toNat + zz.toNat := by rw [lane, fill, pairLanes_or_fill pair]
      rw [UInt64.toNat_or, UInt64.toNat_add, ← sum, Nat.mod_eq_of_lt (Nat.or_lt_two_pow x.toNat_lt zz.toNat_lt)]
    have down : (x ||| zz) - (zz + 1) = x - 1 := by
      rw [set]
      grind
    -- `2 ^ 64 - 1` is a row of threes in the lanes of the mask, with more threes above them
    have threes : 2 ^ 64 - 1 = ofLanes 2 (List.replicate s 3) + 2 ^ (2 * s) * (2 ^ (64 - 2 * s) - 1) := by
      have top := ofLanes_replicate_three_add_one s
      have split : 2 ^ (2 * s) * 2 ^ (64 - 2 * s) = 2 ^ 64 := by rw [← Nat.pow_add]; congr 1; omega
      have above : 2 ^ (2 * s) ≤ 2 ^ (2 * s) * 2 ^ (64 - 2 * s) := Nat.le_mul_of_pos_right _ (Nat.two_pow_pos _)
      rw [Nat.mul_sub_one, split]
      rw [split] at above
      omega
    have regroup : ofLanes 2 (List.replicate s 3) + 2 ^ (2 * s) * (2 ^ (64 - 2 * s) - 1) + pairLanes e s a =
        pairLanes e s a + ofLanes 2 (List.replicate s 3) + 2 ^ (2 * s) * (2 ^ (64 - 2 * s) - 1) := by omega
    rw [if_neg up, if_neg up, down, UInt64.toNat_and, UInt64.toNat_sub, UInt64.toNat_one, ← and_eq_mod_and maskLt,
      threes, lane, mask, regroup, add_two_pow_mul_and (ofLanes_replicate_lt (weight_lt pair) s),
      pairLanes_add_threes pair small]

namespace GeoCell

variable (c : GeoCell)

theorem geohashMoveX_hash (d : Int8) : geohashMoveX c.hash d = (c.move d 0).hash := by
  by_cases zero : d = 0
  · rw [geohashMoveX, if_pos zero, zero]
    exact ext_hash rfl rfl rfl
  · have lon := toNat_moveLane (.inr rfl) c.stepLe c.lonLt c.toNat_hash_and_weightTwo
      (toNat_alternating_shiftRight (.inl rfl) testBit_weightOne c.stepPos c.stepLe)
      (toNat_alternating_shiftRight (.inr rfl) testBit_weightTwo c.stepPos c.stepLe) zero
    rw [geohashMoveX, if_neg zero]
    apply (c.move d 0).eq_hash
    · simp only [UInt64.toNat_or, hash_step, move_step, move_lat, move_lon, moveIndex_zero]
      rw [lon, toNat_hash_and_weightOne, Nat.or_comm]
    · rfl

theorem geohashMoveY_hash (d : Int8) : geohashMoveY c.hash d = (c.move 0 d).hash := by
  by_cases zero : d = 0
  · rw [geohashMoveY, if_pos zero, zero]
    exact ext_hash rfl rfl rfl
  · have lat := toNat_moveLane (.inl rfl) c.stepLe c.latLt c.toNat_hash_and_weightOne
      (toNat_alternating_shiftRight (.inr rfl) testBit_weightTwo c.stepPos c.stepLe)
      (toNat_alternating_shiftRight (.inl rfl) testBit_weightOne c.stepPos c.stepLe) zero
    rw [geohashMoveY, if_neg zero]
    apply (c.move 0 d).eq_hash
    · simp only [UInt64.toNat_or, hash_step, move_step, move_lat, move_lon, moveIndex_zero]
      rw [lat, toNat_hash_and_weightTwo, Nat.or_comm]
    · rfl

/-- The eight neighbours of a cell are the eight cells around it on the grid, which wraps at its edges. -/
theorem geohashNeighbors_cells :
    geohashNeighbors c.hash =
      { north := (c.move 0 1).hash, east := (c.move 1 0).hash, west := (c.move (-1) 0).hash,
        south := (c.move 0 (-1)).hash, northEast := (c.move 1 1).hash, southEast := (c.move 1 (-1)).hash,
        northWest := (c.move (-1) 1).hash, southWest := (c.move (-1) (-1)).hash } := by
  simp only [geohashNeighbors, geohashMoveX_hash, geohashMoveY_hash, move_move]

/-- A move east undoes a move west and the other way round, and so do the moves north and south. -/
theorem geohashMove_undo :
    geohashMoveX (geohashMoveX c.hash 1) (-1) = c.hash ∧ geohashMoveX (geohashMoveX c.hash (-1)) 1 = c.hash ∧
      geohashMoveY (geohashMoveY c.hash 1) (-1) = c.hash ∧ geohashMoveY (geohashMoveY c.hash (-1)) 1 = c.hash := by
  have lon := moveIndex_inverse c.lonLt
  have lat := moveIndex_inverse c.latLt
  simp only [geohashMoveX_hash, geohashMoveY_hash]
  exact ⟨ext_hash rfl rfl lon.1, ext_hash rfl rfl lon.2, ext_hash rfl lat.1 rfl, ext_hash rfl lat.2 rfl⟩

end GeoCell

end Moves

end Kv.Geo
