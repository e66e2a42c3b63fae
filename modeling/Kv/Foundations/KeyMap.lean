import Mathlib.Data.Multiset.Filter
import Mathlib.Order.SetNotation

/-!
A finite map whose keys are compared by an equivalence, represented as the bag
of its entries, each entry carrying its key. The bag never holds two entries
with equivalent keys; the structure carries that as a field, so the operations
are stated once and every map they build keeps it.
-/

namespace Foundations

-- entries need not have decidable equality: the map is a specification
open Classical

variable {α κ : Type} (s : Setoid κ) (key : α → κ)

def KeysUnique (m : Multiset α) : Prop :=
  ∀ x ∈ m, ∀ y ∈ m.erase x, ¬s.r (key x) (key y)

section Unique

variable {s key}

theorem keysUnique_zero : KeysUnique s key 0 := by
  simp [KeysUnique]

theorem KeysUnique.of_le {m m' : Multiset α} (unique : KeysUnique s key m) (le : m' ≤ m) :
    KeysUnique s key m' := by
  intro x mem y other
  exact unique x (Multiset.mem_of_le le mem) y (Multiset.mem_of_le (Multiset.erase_le_erase x le) other)

theorem KeysUnique.cons {m : Multiset α} {e : α} (unique : KeysUnique s key m)
    (fresh : ∀ y ∈ m, ¬s.r (key e) (key y)) : KeysUnique s key (e ::ₘ m) := by
  intro x mem y other
  by_cases same : x = e
  · subst same
    rw [Multiset.erase_cons_head] at other
    exact fresh y other
  · have xm : x ∈ m := (Multiset.mem_cons.mp mem).resolve_left same
    rw [Multiset.erase_cons_tail _ (Ne.symm same)] at other
    rcases Multiset.mem_cons.mp other with rfl | inRest
    · exact fun equiv => fresh x xm (s.symm equiv)
    · exact unique x xm y inRest

theorem KeysUnique.eq_of_rel {m : Multiset α} (unique : KeysUnique s key m) {x y : α} (hx : x ∈ m) (hy : y ∈ m)
    (rel : s.r (key x) (key y)) : x = y := by
  by_contra ne
  exact unique x hx y ((Multiset.mem_erase_of_ne (Ne.symm ne)).mpr hy) rel

end Unique

structure KeyMap where
  entries : Multiset α
  unique : KeysUnique s key entries

namespace KeyMap

variable {s key}

def empty : KeyMap s key :=
  ⟨0, keysUnique_zero⟩

def size (m : KeyMap s key) : Nat :=
  Multiset.card m.entries

def Mem (m : KeyMap s key) (k : κ) : Prop :=
  ∃ e ∈ m.entries, s.r (key e) k

noncomputable def lookup (m : KeyMap s key) (k : κ) : Option α :=
  if h : m.Mem k then some h.choose else none

noncomputable def add (m : KeyMap s key) (e : α) : Bool × KeyMap s key :=
  if h : m.Mem (key e) then (false, m)
  else (true, ⟨e ::ₘ m.entries, m.unique.cons fun y mem rel => h ⟨y, mem, s.symm rel⟩⟩)

noncomputable def erase (m : KeyMap s key) (k : κ) : KeyMap s key :=
  ⟨m.entries.filter fun e => ¬s.r (key e) k, m.unique.of_le (Multiset.filter_le _ _)⟩

theorem lookup_eq_some {m : KeyMap s key} {k : κ} {e : α} :
    m.lookup k = some e ↔ e ∈ m.entries ∧ s.r (key e) k := by
  unfold lookup
  split
  · rename_i h
    obtain ⟨mem, rel⟩ := h.choose_spec
    constructor
    · rintro ⟨⟩
      exact ⟨mem, rel⟩
    · rintro ⟨mem', rel'⟩
      rw [m.unique.eq_of_rel mem mem' (s.trans rel (s.symm rel'))]
  · rename_i h
    simp only [reduceCtorEq, false_iff]
    exact fun ⟨mem, rel⟩ => h ⟨e, mem, rel⟩

theorem lookup_eq_none {m : KeyMap s key} {k : κ} : m.lookup k = none ↔ ¬m.Mem k := by
  unfold lookup
  split <;> simp_all

theorem mem_iff_isSome {m : KeyMap s key} {k : κ} : m.Mem k ↔ (m.lookup k).isSome := by
  cases h : m.lookup k with
  | none => simpa using lookup_eq_none.mp h
  | some e =>
    obtain ⟨mem, rel⟩ := lookup_eq_some.mp h
    simpa using ⟨e, mem, rel⟩

theorem add_of_mem {m : KeyMap s key} {e : α} (h : m.Mem (key e)) : m.add e = (false, m) := by
  simp [add, h]

theorem add_of_not_mem {m : KeyMap s key} {e : α} (h : ¬m.Mem (key e)) :
    (m.add e).1 = true ∧ (m.add e).2.entries = e ::ₘ m.entries := by
  simp [add, h]

theorem erase_of_not_mem {m : KeyMap s key} {k : κ} (h : ¬m.Mem k) : (m.erase k).entries = m.entries :=
  Multiset.filter_eq_self.mpr fun y mem rel => h ⟨y, mem, rel⟩

theorem entries_eq_cons_erase {m : KeyMap s key} {k : κ} {e : α} (found : m.lookup k = some e) :
    m.entries = e ::ₘ (m.erase k).entries := by
  obtain ⟨mem, rel⟩ := lookup_eq_some.mp found
  -- the other entries have keys that are not equivalent to the key of `e`
  have others : ∀ y ∈ m.entries.erase e, ¬s.r (key y) k := fun y other rel' =>
    m.unique e mem y other (s.trans rel (s.symm rel'))
  have rest : (m.erase k).entries = m.entries.erase e := by
    simp only [erase]
    conv_lhs => rw [← Multiset.cons_erase mem]
    rw [Multiset.filter_cons_of_neg (p := fun e => ¬s.r (key e) k) _ (not_not.mpr rel),
      Multiset.filter_eq_self.mpr others]
  rw [rest, Multiset.cons_erase mem]

end KeyMap

end Foundations
