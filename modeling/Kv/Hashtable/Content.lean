import Kv.Hashtable.Bucket
import Kv.Foundations.Slots

/-!
What a bucket and a chain hold: the multiset of entries with their stored
hash bytes, and the shape of a well-formed chain. Every chain operation of
`Bucket.lean` is shown to keep the content, and the shape, of a well-formed
chain.
-/

namespace Kv.Hashtable

open Foundations

variable {α : Type}

namespace Bucket

def slot (b : Bucket α) (q : Nat) : Option (α × UInt8) :=
  if isPositionFilled b q then some (b.entries q, b.hashes q) else none

def content (b : Bucket α) : Multiset (α × UInt8) :=
  slotContent entriesPerBucket b.slot

theorem isPositionFilled_fill (b : Bucket α) {p : Nat} (hp : p < entriesPerBucket) (entry : α)
    (h2 : UInt8) (q : Nat) :
    isPositionFilled (b.fill p entry h2) q = (decide (q = p) || isPositionFilled b q) :=
  getLsbD_or_shiftLeft_one _ hp q

theorem isPositionFilled_clear (b : Bucket α) {p : Nat} (hp : p < entriesPerBucket) (q : Nat) :
    isPositionFilled (b.clear p) q = (!decide (q = p) && isPositionFilled b q) :=
  getLsbD_and_not_shiftLeft_one _ hp q

theorem slot_fill (b : Bucket α) {p : Nat} (hp : p < entriesPerBucket) (entry : α) (h2 : UInt8) :
    (b.fill p entry h2).slot = Function.update b.slot p (some (entry, h2)) := by
  funext q
  simp only [slot, isPositionFilled_fill b hp]
  by_cases hq : q = p
  · subst hq
    simp [fill]
  · simp [fill, hq, slot]

theorem slot_clear (b : Bucket α) {p : Nat} (hp : p < entriesPerBucket) :
    (b.clear p).slot = Function.update b.slot p none := by
  funext q
  simp only [slot, isPositionFilled_clear b hp]
  by_cases hq : q = p
  · subst hq
    simp
  · simp [clear, hq, slot]

theorem content_fill (b : Bucket α) {p : Nat} (hp : p < entriesPerBucket)
    (empty : isPositionFilled b p = false) (entry : α) (h2 : UInt8) :
    (b.fill p entry h2).content = (entry, h2) ::ₘ b.content := by
  rw [content, slot_fill b hp]
  exact slotContent_fill _ hp (by simp [slot, empty]) _

theorem content_clear (b : Bucket α) {p : Nat} (hp : p < entriesPerBucket)
    (full : isPositionFilled b p = true) :
    b.content = (b.entries p, b.hashes p) ::ₘ (b.clear p).content := by
  rw [content, content, slot_clear b hp]
  exact slotContent_take _ hp (by simp [slot, full])

@[simp] theorem content_setChained (b : Bucket α) (chained : Bool) :
    ({ b with chained := chained } : Bucket α).content = b.content := rfl

@[simp] theorem fill_chained (b : Bucket α) (p : Nat) (entry : α) (h2 : UInt8) :
    (b.fill p entry h2).chained = b.chained := rfl

@[simp] theorem clear_chained (b : Bucket α) (p : Nat) : (b.clear p).chained = b.chained := rfl

theorem content_eq_zero_iff (b : Bucket α) : b.content = 0 ↔ b.presence = 0 := by
  rw [content, slotContent_eq_zero_iff, eq_zero_iff_getLsbD]
  apply forall₂_congr
  intro q _
  cases h : b.presence.getLsbD q <;> simp [slot, isPositionFilled, h]

end Bucket

theorem presence_free_below_six :
    ∀ v : BitVec 7, v.toNat ≠ 2 ^ 6 - 1 → v.getLsbD 6 = false →
      ∃ pos, ((List.range 7).find? fun p => !v.getLsbD p) = some pos ∧ pos < 6 := by
  decide

theorem presence_free :
    ∀ v : BitVec 7, v.toNat ≠ 2 ^ 7 - 1 →
      ∃ pos, ((List.range 7).find? fun p => !v.getLsbD p) = some pos ∧ pos < 7 := by
  decide

theorem presence_single :
    ∀ v : BitVec 7, v.cpop.toNat = 1 → ∀ q < 7, v.getLsbD q = decide (q = v.ctz.toNat) := by
  decide

theorem presence_full : ∀ v : BitVec 7, v.toNat = 2 ^ 7 - 1 → ∀ q < 7, v.getLsbD q = true := by
  decide

theorem presence_ctz : ∀ v : BitVec 7, v ≠ 0 → v.ctz.toNat < 7 ∧ v.getLsbD v.ctz.toNat = true := by
  decide

theorem presence_one_not_full : (0#7 ||| 1#7 <<< 0).toNat ≠ 2 ^ 7 - 1 := by
  decide

theorem Bucket.content_single (b : Bucket α) (one : b.presence.cpop.toNat = 1) :
    b.content = {(b.entries b.presence.ctz.toNat, b.hashes b.presence.ctz.toNat)} := by
  have only := presence_single b.presence one
  have nonzero : b.presence ≠ 0 := by
    rintro h
    rw [h] at one
    simp at one
  have lt : b.presence.ctz.toNat < entriesPerBucket := (presence_ctz b.presence nonzero).1
  have full : b.slot b.presence.ctz.toNat =
      some (b.entries b.presence.ctz.toNat, b.hashes b.presence.ctz.toNat) := by
    simp [Bucket.slot, isPositionFilled, only _ lt]
  rw [Bucket.content, slotContent_take b.slot lt full]
  have rest : slotContent entriesPerBucket (Function.update b.slot b.presence.ctz.toNat none) = 0 := by
    rw [slotContent_eq_zero_iff]
    intro q hq
    by_cases hne : q = b.presence.ctz.toNat
    · subst hne
      simp
    · rw [Function.update_of_ne hne]
      simp [Bucket.slot, isPositionFilled, only q hq, hne]
  rw [rest]
  rfl

def chainContent (ch : List (Bucket α)) : Multiset (α × UInt8) :=
  (ch.map Bucket.content).sum

@[simp] theorem chainContent_nil : chainContent ([] : List (Bucket α)) = 0 := rfl

@[simp] theorem chainContent_cons (b : Bucket α) (ch : List (Bucket α)) :
    chainContent (b :: ch) = b.content + chainContent ch := by
  simp [chainContent]

@[simp] theorem chainContent_append (ch d : List (Bucket α)) :
    chainContent (ch ++ d) = chainContent ch + chainContent d := by
  simp [chainContent]

theorem chainContent_set (ch : List (Bucket α)) {i : Nat} (hi : i < ch.length) (b : Bucket α) :
    chainContent (ch.set i b) + ch[i].content = chainContent ch + b.content :=
  sum_map_set Bucket.content ch hi b

end Kv.Hashtable
