import Kv.Foundations.Bytes
import Mathlib.Data.List.TakeDrop

/-!
LZ77 back references. `copyBack history distance count` appends `count`
elements, each the one `distance` places before it, so a reference may overlap
what it writes. A reference whose elements agree with the input at that
distance reproduces the next piece of the input. In a buffer, the forward copy
of a decompressor computes it, and so does a memmove when source and target do
not overlap.
-/

namespace Foundations

section CopyBack

variable {α : Type} [Inhabited α]

def copyBack (history : List α) (distance : Nat) : Nat → List α
  | 0 => history
  | count + 1 => copyBack (history ++ [history[history.length - distance]!]) distance count

@[simp] theorem length_copyBack (history : List α) (distance count : Nat) :
    (copyBack history distance count).length = history.length + count := by
  induction count generalizing history with
  | zero => rfl
  | succ count ih =>
    rw [copyBack, ih, List.length_append, List.length_singleton]
    omega

theorem prefix_copyBack (history : List α) (distance count : Nat) : history <+: copyBack history distance count := by
  induction count generalizing history with
  | zero => exact List.prefix_refl history
  | succ count ih => exact (List.prefix_append history _).trans (ih _)

theorem copyBack_of_le (history : List α) {distance count : Nat} (short : count ≤ distance)
    (inside : distance ≤ history.length) :
    copyBack history distance count = history ++ (history.drop (history.length - distance)).take count := by
  induction count generalizing history with
  | zero => simp [copyBack]
  | succ count ih =>
    have first : history.length - distance < history.length := by omega
    -- the rest of the reference reads the history one place further on, past the element just copied
    have later : ((history ++ [history[history.length - distance]!]).drop
        ((history ++ [history[history.length - distance]!]).length - distance)).take count =
        (history.drop (history.length - distance + 1)).take count := by
      rw [List.length_append, List.length_singleton, show history.length + 1 - distance =
        history.length - distance + 1 by omega, List.drop_append_of_le_length (by omega),
        List.take_append_of_le_length (by simp; omega)]
    rw [copyBack, ih _ (by omega) (by simp; omega), later, List.append_assoc,
      getElem!_pos history _ first, List.singleton_append, ← List.take_succ_cons,
      ← List.drop_eq_getElem_cons first]

theorem copyBack_of_agree (input : List α) {position distance count : Nat} (reaches : 1 ≤ distance)
    (inside : distance ≤ position) (fits : position + count ≤ input.length)
    (agree : ∀ k < count, input[position + k - distance]? = input[position + k]?) :
    copyBack (input.take position) distance count = input.take (position + count) := by
  induction count generalizing position with
  | zero => rfl
  | succ count ih =>
    have below : position < input.length := by omega
    -- the first element copied is the input's next one
    have first : (input.take position)[(input.take position).length - distance]! = input[position] := by
      have same := agree 0 (by omega)
      rw [Nat.add_zero, List.getElem?_eq_getElem below, List.getElem?_eq_getElem (by omega)] at same
      rw [List.length_take, Nat.min_eq_left below.le, getElem!_pos _ _ (by simp; omega),
        List.getElem_take, Option.some.inj same]
    have next : input.take position ++ [input[position]] = input.take (position + 1) :=
      (List.take_concat_get' input position below)
    rw [copyBack, first, next, ih (by omega) (by omega) fun k lt => by
      simpa [Nat.add_assoc, Nat.add_comm 1 k] using agree (k + 1) (by omega)]
    rw [Nat.add_assoc, Nat.add_comm 1 count]

end CopyBack

section Buffers

def copyForward (buffer : List UInt8) (source target : Nat) : Nat → Option (List UInt8)
  | 0 => some buffer
  | count + 1 => do
    let byte ← buffer[source]?
    let buffer ← writeBytes buffer target [byte]
    copyForward buffer (source + 1) (target + 1) count

theorem copyForward_history (history rest : List UInt8) {distance count : Nat} (reaches : 1 ≤ distance)
    (inside : distance ≤ history.length) (fits : count ≤ rest.length) :
    copyForward (history ++ rest) (history.length - distance) history.length count =
      some (copyBack history distance count ++ rest.drop count) := by
  induction count generalizing history rest with
  | zero => rfl
  | succ count ih =>
    obtain ⟨byte, rest, rfl⟩ : ∃ byte tail, rest = byte :: tail :=
      List.exists_cons_of_length_pos (by omega)
    have read : (history ++ byte :: rest)[history.length - distance]? = some history[history.length - distance]! := by
      rw [List.getElem?_append_left (by omega), getElem!_pos history _ (by omega), List.getElem?_eq_getElem]
    have written : writeBytes (history ++ byte :: rest) history.length [history[history.length - distance]!] =
        some ((history ++ [history[history.length - distance]!]) ++ rest) := by
      rw [writeBytes_append rfl (by simp)]
      simp
    have moved := ih (history ++ [history[history.length - distance]!]) rest (by simp; omega) (by simp at fits; omega)
    rw [List.length_append, List.length_singleton, show history.length + 1 - distance =
      history.length - distance + 1 by omega] at moved
    rw [copyForward, read]
    simp only [Option.bind_eq_bind, Option.bind_some, written, moved]
    rw [copyBack, List.drop_succ_cons]

theorem moveBytes_history (history rest : List UInt8) {distance count : Nat} (short : count ≤ distance)
    (inside : distance ≤ history.length) (fits : count ≤ rest.length) :
    moveBytes (history ++ rest) history.length (history.length - distance) count =
      some (copyBack history distance count ++ rest.drop count) := by
  have slice : ((history ++ rest).drop (history.length - distance)).take count =
      (history.drop (history.length - distance)).take count := by
    rw [List.drop_append_of_le_length (by omega), List.take_append_of_le_length (by simp; omega)]
  rw [moveBytes, readBytes, if_pos (by simp; omega), slice, Option.bind_eq_bind, Option.bind_some,
    writeBytes_append rfl (by simp; omega), copyBack_of_le history short inside, List.length_take,
    Nat.min_eq_left (by simp; omega), List.append_assoc]

end Buffers

end Foundations
