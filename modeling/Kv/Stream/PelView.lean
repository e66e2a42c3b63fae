import Kv.Stream.Pel

/-!
A consumer group read through its lookups, and what it means for its PELs to
be consistent: every pending entry's NACK is live and points to a consumer of
the group, whose own PEL holds the entry with that very NACK; every entry a
consumer holds is pending with a NACK that points back to it; and no NACK is
pending for two entries.
-/

namespace Kv.Stream

open Foundations Function

structure PelView where
  pel : Nat → Option Addr
  consumers : List Char → Option Addr
  /-- The consumer pointer of each live NACK. -/
  owner : Addr → Option (Option Addr)
  /-- The name and the PEL of each live consumer. -/
  consumer : Addr → Option (List Char × (Nat → Option Addr))

attribute [ext] PelView

def StreamCG.view (group : StreamCG) : PelView where
  pel key := group.pel.lookup key
  consumers name := group.consumers.lookup name
  owner nack := (group.nack nack).map (·.consumer)
  consumer consumer := (group.consumer consumer).map fun value => (value.name, fun key => value.pel.lookup key)

namespace PelView

structure Consistent (view : PelView) : Prop where
  pending : ∀ key nack, view.pel key = some nack → ∃ owner name pel, view.owner nack = some (some owner) ∧
    view.consumers name = some owner ∧ view.consumer owner = some (name, pel) ∧ pel key = some nack
  members : ∀ name consumer, view.consumers name = some consumer → ∃ pel, view.consumer consumer = some (name, pel)
  owned : ∀ name consumer pel, view.consumers name = some consumer → view.consumer consumer = some (name, pel) →
    ∀ key nack, pel key = some nack → view.pel key = some nack ∧ view.owner nack = some (some consumer)
  injective : ∀ key key' nack, view.pel key = some nack → view.pel key' = some nack → key = key'


/-- An entry made pending with a new NACK for a consumer. -/
@[simps]
def add (view : PelView) (key : Nat) (nack consumer : Addr) (name : List Char) (pel : Nat → Option Addr) :
    PelView :=
  { view with
    pel := update view.pel key (some nack)
    owner := update view.owner nack (some (some consumer))
    consumer := update view.consumer consumer (some (name, update pel key (some nack))) }

/-- A pending entry handed over from its owner to another consumer. -/
@[simps]
def move (view : PelView) (key : Nat) (nack owner : Addr) (ownerName : List Char) (ownerPel : Nat → Option Addr)
    (consumer : Addr) (name : List Char) (pel : Nat → Option Addr) : PelView :=
  { view with
    owner := update view.owner nack (some (some consumer))
    consumer := update (update view.consumer owner (some (ownerName, update ownerPel key none))) consumer
      (some (name, update pel key (some nack))) }

/-- A pending entry released: out of both PELs, its NACK freed. -/
@[simps]
def release (view : PelView) (key : Nat) (nack owner : Addr) (ownerName : List Char)
    (ownerPel : Nat → Option Addr) : PelView :=
  { view with
    pel := update view.pel key none
    owner := update view.owner nack none
    consumer := update view.consumer owner (some (ownerName, update ownerPel key none)) }

/-- A consumer created with an empty PEL. -/
@[simps]
def create (view : PelView) (name : List Char) (consumer : Addr) : PelView :=
  { view with
    consumers := update view.consumers name (some consumer)
    consumer := update view.consumer consumer (some (name, fun _ => none)) }

open Classical in
/-- A consumer deleted: the entries it holds leave the group's PEL and their NACKs are freed, then its name
and its object go. -/
@[simps]
noncomputable def remove (view : PelView) (name : List Char) (consumer : Addr) (pel : Nat → Option Addr) :
    PelView where
  pel key := if (pel key).isSome then none else view.pel key
  consumers := update view.consumers name none
  owner nack := if ∃ key, pel key = some nack then none else view.owner nack
  consumer := update view.consumer consumer none

open Classical in
/-- The view without the entries of `unowned` in the group PEL: while `streamDup` builds a copy, the entries
no consumer of the copy holds yet. -/
@[simps]
noncomputable def restrict (view : PelView) (unowned : Nat → Prop) : PelView :=
  { view with pel := fun key => if unowned key then none else view.pel key }

/-- An entry made pending with a new NACK that points to no consumer yet, as `streamDup` first copies a
group PEL. -/
@[simps]
def wait (view : PelView) (key : Nat) (nack : Addr) : PelView :=
  { view with pel := update view.pel key (some nack), owner := update view.owner nack (some none) }

structure Distinct (view : PelView) : Prop where
  live : ∀ key nack, view.pel key = some nack → ∃ owner, view.owner nack = some owner
  injective : ∀ key key' nack, view.pel key = some nack → view.pel key' = some nack → key = key'

structure Assembling (view : PelView) (unowned : Nat → Prop) : Prop where
  consistent : (view.restrict unowned).Consistent
  distinct : view.Distinct

def empty : PelView :=
  ⟨fun _ => none, fun _ => none, fun _ => none, fun _ => none⟩

theorem Consistent.empty : PelView.empty.Consistent := by
  constructor
  · intro key nack pending
    cases pending
  · intro name consumer member
    cases member
  · intro name consumer pel member
    cases member
  · intro key key' nack pending
    cases pending

section Moves

variable {view : PelView}

theorem Consistent.owner_of_pel (consistent : view.Consistent) {key : Nat} {nack : Addr}
    (pending : view.pel key = some nack) : ∃ owner, view.owner nack = some (some owner) := by
  obtain ⟨owner, -, -, live, -⟩ := consistent.pending key nack pending
  exact ⟨owner, live⟩

theorem Consistent.holds (consistent : view.Consistent) {key : Nat} {nack owner : Addr} {name : List Char}
    {pel : Nat → Option Addr} (pending : view.pel key = some nack) (live : view.owner nack = some (some owner))
    (object : view.consumer owner = some (name, pel)) : view.consumers name = some owner ∧ pel key = some nack := by
  obtain ⟨owner', name', pel', live', member', object', held⟩ := consistent.pending key nack pending
  rw [live, Option.some.injEq, Option.some.injEq] at live'
  subst live'
  rw [object, Option.some.injEq, Prod.mk.injEq] at object'
  obtain ⟨rfl, rfl⟩ := object'
  exact ⟨member', held⟩

theorem Consistent.nack_ne (consistent : view.Consistent) {key key' : Nat} {nack nack' : Addr}
    (pending : view.pel key = some nack) (pending' : view.pel key' = some nack') (distinct : key ≠ key') :
    nack ≠ nack' := by
  rintro rfl
  exact distinct (consistent.injective key key' nack pending pending')

theorem nack_ne_of_owner_ne {view : PelView} {nack nack' owner owner' : Addr}
    (live : view.owner nack = some (some owner)) (live' : view.owner nack' = some (some owner'))
    (distinct : owner ≠ owner') : nack ≠ nack' := by
  rintro rfl
  rw [live, Option.some.injEq, Option.some.injEq] at live'
  exact distinct live'

theorem Consistent.disjoint (consistent : view.Consistent) {name name' : List Char} {consumer consumer' : Addr}
    {pel pel' : Nat → Option Addr} (member : view.consumers name = some consumer)
    (object : view.consumer consumer = some (name, pel)) (member' : view.consumers name' = some consumer')
    (object' : view.consumer consumer' = some (name', pel')) (distinct : name ≠ name') (key : Nat) :
    pel key = none ∨ pel' key = none := by
  cases held : pel key with
  | none => exact .inl rfl
  | some nack =>
    cases held' : pel' key with
    | none => exact .inr rfl
    | some nack' =>
      -- the entry's one NACK would point to both consumers
      obtain ⟨pending, live⟩ := consistent.owned name consumer pel member object key nack held
      obtain ⟨pending', live'⟩ := consistent.owned name' consumer' pel' member' object' key nack' held'
      rw [pending, Option.some.injEq] at pending'
      subst pending'
      rw [live, Option.some.injEq, Option.some.injEq] at live'
      subst live'
      rw [object, Option.some.injEq, Prod.mk.injEq] at object'
      exact absurd object'.1 distinct

theorem Consistent.unused_of_owner_none (consistent : view.Consistent) {nack : Addr}
    (fresh : view.owner nack = none) (key : Nat) : view.pel key ≠ some nack := by
  intro pending
  obtain ⟨owner, live⟩ := consistent.owner_of_pel pending
  rw [fresh] at live
  cases live

theorem Consistent.add (consistent : view.Consistent) {key : Nat} {nack consumer : Addr} {name : List Char}
    {pel : Nat → Option Addr} (notPending : view.pel key = none) (unused : ∀ key', view.pel key' ≠ some nack)
    (member : view.consumers name = some consumer) (object : view.consumer consumer = some (name, pel)) :
    (view.add key nack consumer name pel).Consistent := by
  have otherNack : ∀ key' nack', view.pel key' = some nack' → nack' ≠ nack := by
    rintro key' nack' pending rfl
    exact unused key' pending
  constructor
  · intro key' nack' pending
    by_cases same : key' = key
    · obtain rfl := same
      simp only [add_pel, update_self, Option.some.injEq] at pending
      obtain rfl := pending
      exact ⟨consumer, name, update pel key' (some nack), by simp, by simp [member], by simp, by simp⟩
    · rw [add_pel, update_of_ne same] at pending
      obtain ⟨owner, ownerName, ownerPel, live, ownerMember, ownerObject, held⟩ :=
        consistent.pending key' nack' pending
      have ownerLive : (view.add key nack consumer name pel).owner nack' = some (some owner) := by
        simp [update_of_ne (otherNack _ _ pending), live]
      by_cases ownerIsConsumer : owner = consumer
      · subst ownerIsConsumer
        rw [object, Option.some.injEq, Prod.mk.injEq] at ownerObject
        obtain ⟨rfl, rfl⟩ := ownerObject
        exact ⟨owner, name, update pel key (some nack), ownerLive, ownerMember, by simp,
          by simp [update_of_ne same, held]⟩
      · exact ⟨owner, ownerName, ownerPel, ownerLive, ownerMember, by simp [update_of_ne ownerIsConsumer, ownerObject],
          held⟩
  · intro name' consumer' member'
    obtain ⟨pel', object'⟩ := consistent.members name' consumer' member'
    by_cases same : consumer' = consumer
    · subst same
      rw [object, Option.some.injEq, Prod.mk.injEq] at object'
      obtain ⟨rfl, -⟩ := object'
      exact ⟨update pel key (some nack), by simp⟩
    · exact ⟨pel', by simp [update_of_ne same, object']⟩
  · intro name' consumer' pel' member' object' key' nack' held
    by_cases same : consumer' = consumer
    · subst same
      simp only [add_consumer, update_self, Option.some.injEq, Prod.mk.injEq] at object'
      obtain ⟨rfl, rfl⟩ := object'
      by_cases sameKey : key' = key
      · subst sameKey
        simp only [update_self, Option.some.injEq] at held
        subst held
        simp
      · rw [update_of_ne sameKey] at held
        obtain ⟨pending, owned⟩ := consistent.owned name consumer' pel member object key' nack' held
        exact ⟨by simp [update_of_ne sameKey, pending], by simp [update_of_ne (otherNack _ _ pending), owned]⟩
    · rw [add_consumer, update_of_ne same] at object'
      obtain ⟨pending, owned⟩ := consistent.owned name' consumer' pel' member' object' key' nack' held
      have sameKey : key' ≠ key := by rintro rfl; rw [notPending] at pending; cases pending
      exact ⟨by simp [update_of_ne sameKey, pending], by simp [update_of_ne (otherNack _ _ pending), owned]⟩
  · intro key₁ key₂ nack' pending₁ pending₂
    rw [add_pel] at pending₁ pending₂
    by_cases first : key₁ = key <;> by_cases second : key₂ = key
    · rw [first, second]
    · rw [first, update_self, Option.some.injEq] at pending₁
      rw [update_of_ne second] at pending₂
      exact absurd pending₁.symm (otherNack _ _ pending₂)
    · rw [second, update_self, Option.some.injEq] at pending₂
      rw [update_of_ne first] at pending₁
      exact absurd pending₂.symm (otherNack _ _ pending₁)
    · rw [update_of_ne first] at pending₁
      rw [update_of_ne second] at pending₂
      exact consistent.injective key₁ key₂ nack' pending₁ pending₂

theorem Consistent.move (consistent : view.Consistent) {key : Nat} {nack owner consumer : Addr}
    {ownerName name : List Char} {ownerPel pel : Nat → Option Addr} (pending : view.pel key = some nack)
    (live : view.owner nack = some (some owner)) (ownerObject : view.consumer owner = some (ownerName, ownerPel))
    (member : view.consumers name = some consumer) (object : view.consumer consumer = some (name, pel))
    (distinct : owner ≠ consumer) :
    (view.move key nack owner ownerName ownerPel consumer name pel).Consistent := by
  constructor
  · intro key' nack' pending'
    rw [move_pel] at pending'
    by_cases same : key' = key
    · subst same
      rw [pending, Option.some.injEq] at pending'
      subst pending'
      exact ⟨consumer, name, update pel key' (some nack), by simp, member, by simp, by simp⟩
    · obtain ⟨owner', name', pel', live', member', object', held⟩ := consistent.pending key' nack' pending'
      have ownerLive : (view.move key nack owner ownerName ownerPel consumer name pel).owner nack' =
          some (some owner') := by
        simp [update_of_ne (consistent.nack_ne pending' pending same), live']
      by_cases toConsumer : owner' = consumer
      · subst toConsumer
        rw [object, Option.some.injEq, Prod.mk.injEq] at object'
        obtain ⟨rfl, rfl⟩ := object'
        exact ⟨owner', name, update pel key (some nack), ownerLive, member', by simp,
          by simp [update_of_ne same, held]⟩
      by_cases fromOwner : owner' = owner
      · subst fromOwner
        rw [ownerObject, Option.some.injEq, Prod.mk.injEq] at object'
        obtain ⟨rfl, rfl⟩ := object'
        exact ⟨owner', ownerName, update ownerPel key none, ownerLive, member',
          by simp [update_of_ne toConsumer], by simp [update_of_ne same, held]⟩
      · exact ⟨owner', name', pel', ownerLive, member',
          by simp [update_of_ne toConsumer, update_of_ne fromOwner, object'], held⟩
  · intro name' consumer' member'
    obtain ⟨pel', object'⟩ := consistent.members name' consumer' member'
    by_cases toConsumer : consumer' = consumer
    · subst toConsumer
      rw [object, Option.some.injEq, Prod.mk.injEq] at object'
      obtain ⟨rfl, -⟩ := object'
      exact ⟨update pel key (some nack), by simp⟩
    by_cases fromOwner : consumer' = owner
    · subst fromOwner
      rw [ownerObject, Option.some.injEq, Prod.mk.injEq] at object'
      obtain ⟨rfl, -⟩ := object'
      exact ⟨update ownerPel key none, by simp [update_of_ne toConsumer]⟩
    · exact ⟨pel', by simp [update_of_ne toConsumer, update_of_ne fromOwner, object']⟩
  · intro name' consumer' pel' member' object' key' nack' held
    rw [move_consumers] at member'
    by_cases toConsumer : consumer' = consumer
    · subst toConsumer
      simp only [move_consumer, update_self, Option.some.injEq, Prod.mk.injEq] at object'
      obtain ⟨rfl, rfl⟩ := object'
      by_cases same : key' = key
      · subst same
        simp only [update_self, Option.some.injEq] at held
        subst held
        exact ⟨pending, by simp⟩
      · rw [update_of_ne same] at held
        obtain ⟨pending', owned'⟩ := consistent.owned name consumer' pel member' object key' nack' held
        exact ⟨pending', by simp [update_of_ne (nack_ne_of_owner_ne owned' live (Ne.symm distinct)), owned']⟩
    by_cases fromOwner : consumer' = owner
    · subst fromOwner
      simp only [move_consumer, update_of_ne toConsumer, update_self, Option.some.injEq,
        Prod.mk.injEq] at object'
      obtain ⟨rfl, rfl⟩ := object'
      have same : key' ≠ key := by rintro rfl; simp at held
      rw [update_of_ne same] at held
      obtain ⟨pending', owned'⟩ := consistent.owned ownerName consumer' ownerPel member' ownerObject key' nack' held
      exact ⟨pending', by simp [update_of_ne (consistent.nack_ne pending' pending same), owned']⟩
    · rw [move_consumer, update_of_ne toConsumer, update_of_ne fromOwner] at object'
      obtain ⟨pending', owned'⟩ := consistent.owned name' consumer' pel' member' object' key' nack' held
      exact ⟨pending', by simp [update_of_ne (nack_ne_of_owner_ne owned' live fromOwner), owned']⟩
  · exact consistent.injective

theorem Consistent.release (consistent : view.Consistent) {key : Nat} {nack owner : Addr} {ownerName : List Char}
    {ownerPel : Nat → Option Addr} (pending : view.pel key = some nack) (live : view.owner nack = some (some owner))
    (ownerObject : view.consumer owner = some (ownerName, ownerPel)) :
    (view.release key nack owner ownerName ownerPel).Consistent := by
  -- what is pending after the release was pending before
  have below : ∀ key' nack', (view.release key nack owner ownerName ownerPel).pel key' = some nack' →
      key' ≠ key ∧ view.pel key' = some nack' := by
    intro key' nack' released
    have same : key' ≠ key := by rintro rfl; simp at released
    rw [release_pel, update_of_ne same] at released
    exact ⟨same, released⟩
  constructor
  · intro key' nack' released
    obtain ⟨same, pending'⟩ := below key' nack' released
    obtain ⟨owner', name', pel', live', member', object', held⟩ := consistent.pending key' nack' pending'
    have ownerLive : (view.release key nack owner ownerName ownerPel).owner nack' = some (some owner') := by
      simp [update_of_ne (consistent.nack_ne pending' pending same), live']
    by_cases fromOwner : owner' = owner
    · subst fromOwner
      rw [ownerObject, Option.some.injEq, Prod.mk.injEq] at object'
      obtain ⟨rfl, rfl⟩ := object'
      exact ⟨owner', ownerName, update ownerPel key none, ownerLive, member', by simp,
        by simp [update_of_ne same, held]⟩
    · exact ⟨owner', name', pel', ownerLive, member', by simp [update_of_ne fromOwner, object'], held⟩
  · intro name' consumer' member'
    obtain ⟨pel', object'⟩ := consistent.members name' consumer' member'
    by_cases fromOwner : consumer' = owner
    · subst fromOwner
      rw [ownerObject, Option.some.injEq, Prod.mk.injEq] at object'
      obtain ⟨rfl, -⟩ := object'
      exact ⟨update ownerPel key none, by simp⟩
    · exact ⟨pel', by simp [update_of_ne fromOwner, object']⟩
  · intro name' consumer' pel' member' object' key' nack' held
    rw [release_consumers] at member'
    by_cases fromOwner : consumer' = owner
    · subst fromOwner
      simp only [release_consumer, update_self, Option.some.injEq, Prod.mk.injEq] at object'
      obtain ⟨rfl, rfl⟩ := object'
      have same : key' ≠ key := by rintro rfl; simp at held
      rw [update_of_ne same] at held
      obtain ⟨pending', owned'⟩ := consistent.owned ownerName consumer' ownerPel member' ownerObject key' nack' held
      exact ⟨by simp [update_of_ne same, pending'],
        by simp [update_of_ne (consistent.nack_ne pending' pending same), owned']⟩
    · rw [release_consumer, update_of_ne fromOwner] at object'
      obtain ⟨pending', owned'⟩ := consistent.owned name' consumer' pel' member' object' key' nack' held
      have otherNack := nack_ne_of_owner_ne owned' live fromOwner
      have same : key' ≠ key := by
        rintro rfl
        rw [pending, Option.some.injEq] at pending'
        exact otherNack pending'.symm
      exact ⟨by simp [update_of_ne same, pending'], by simp [update_of_ne otherNack, owned']⟩
  · intro key₁ key₂ nack' released₁ released₂
    exact consistent.injective key₁ key₂ nack' (below key₁ nack' released₁).2 (below key₂ nack' released₂).2

theorem Consistent.create (consistent : view.Consistent) {name : List Char} {consumer : Addr}
    (absent : view.consumers name = none) (fresh : view.consumer consumer = none) :
    (view.create name consumer).Consistent := by
  -- every member's object is live, so no member is at the new address
  have other : ∀ name' consumer', view.consumers name' = some consumer' → consumer' ≠ consumer := by
    rintro name' consumer' member' rfl
    obtain ⟨pel', object'⟩ := consistent.members name' consumer' member'
    rw [fresh] at object'
    cases object'
  have otherName : ∀ name' consumer', view.consumers name' = some consumer' → name' ≠ name := by
    rintro name' consumer' member' rfl
    rw [absent] at member'
    cases member'
  constructor
  · intro key nack pending
    obtain ⟨owner, name', pel, live, member, object, held⟩ := consistent.pending key nack pending
    exact ⟨owner, name', pel, live, by simp [update_of_ne (otherName _ _ member), member],
      by simp [update_of_ne (other _ _ member), object], held⟩
  · intro name' consumer' member'
    by_cases same : name' = name
    · subst same
      simp only [create_consumers, update_self, Option.some.injEq] at member'
      subst member'
      exact ⟨fun _ => none, by simp⟩
    · rw [create_consumers, update_of_ne same] at member'
      obtain ⟨pel, object⟩ := consistent.members name' consumer' member'
      exact ⟨pel, by simp [update_of_ne (other _ _ member'), object]⟩
  · intro name' consumer' pel member' object' key nack held
    by_cases same : name' = name
    · subst same
      simp only [create_consumers, update_self, Option.some.injEq] at member'
      subst member'
      simp only [create_consumer, update_self, Option.some.injEq, Prod.mk.injEq, true_and] at object'
      subst object'
      cases held
    · rw [create_consumers, update_of_ne same] at member'
      rw [create_consumer, update_of_ne (other _ _ member')] at object'
      exact consistent.owned name' consumer' pel member' object' key nack held
  · exact consistent.injective

theorem Consistent.remove (consistent : view.Consistent) {name : List Char} {consumer : Addr}
    {pel : Nat → Option Addr} (member : view.consumers name = some consumer)
    (object : view.consumer consumer = some (name, pel)) :
    (view.remove name consumer pel).Consistent := by
  have owned := consistent.owned name consumer pel member object
  -- the other members have other names and other objects
  have otherName : ∀ name' consumer', view.consumers name' = some consumer' → consumer' ≠ consumer →
      name' ≠ name := by
    rintro name' consumer' member' distinct rfl
    rw [member, Option.some.injEq] at member'
    exact distinct member'.symm
  have otherAddr : ∀ name' consumer', view.consumers name' = some consumer' → name' ≠ name →
      consumer' ≠ consumer := by
    rintro name' consumer' member' distinct rfl
    obtain ⟨pel', object'⟩ := consistent.members name' consumer' member'
    rw [object, Option.some.injEq, Prod.mk.injEq] at object'
    exact distinct object'.1.symm
  -- a NACK that points to another consumer is not one the deleted consumer holds
  have notOwned : ∀ nack owner', view.owner nack = some (some owner') → owner' ≠ consumer →
      ¬∃ key, pel key = some nack := by
    rintro nack owner' live distinct ⟨key, held⟩
    rw [(owned key nack held).2, Option.some.injEq, Option.some.injEq] at live
    exact distinct live.symm
  -- what is pending after the deletion was pending before, for an entry the consumer did not hold
  have below : ∀ key nack, (view.remove name consumer pel).pel key = some nack →
      pel key = none ∧ view.pel key = some nack := by
    intro key nack removed
    cases held : pel key with
    | none => simpa [held] using removed
    | some nack' => simp [held] at removed
  -- the remaining members' names and objects are untouched
  have remaining : ∀ name' consumer', (view.remove name consumer pel).consumers name' = some consumer' →
      view.consumers name' = some consumer' ∧ consumer' ≠ consumer := by
    intro name' consumer' member'
    have same : name' ≠ name := by rintro rfl; simp at member'
    rw [remove_consumers, update_of_ne same] at member'
    exact ⟨member', otherAddr _ _ member' same⟩
  constructor
  · intro key nack removed
    obtain ⟨free, pending⟩ := below key nack removed
    obtain ⟨owner, name', pel', live, member', object', held⟩ := consistent.pending key nack pending
    have distinct : owner ≠ consumer := by
      rintro rfl
      rw [object, Option.some.injEq, Prod.mk.injEq] at object'
      obtain ⟨-, rfl⟩ := object'
      rw [free] at held
      cases held
    exact ⟨owner, name', pel', by simp [notOwned nack owner live distinct, live],
      by simp [update_of_ne (otherName _ _ member' distinct), member'],
      by simp [update_of_ne distinct, object'], held⟩
  · intro name' consumer' member'
    obtain ⟨member', distinct⟩ := remaining name' consumer' member'
    obtain ⟨pel', object'⟩ := consistent.members name' consumer' member'
    exact ⟨pel', by simp [update_of_ne distinct, object']⟩
  · intro name' consumer' pel' member' object' key nack held
    obtain ⟨member', distinct⟩ := remaining name' consumer' member'
    rw [remove_consumer, update_of_ne distinct] at object'
    obtain ⟨pending, live⟩ := consistent.owned name' consumer' pel' member' object' key nack held
    have free : pel key = none := by
      cases heldHere : pel key with
      | none => rfl
      | some nack' =>
        obtain ⟨pending', live'⟩ := owned key nack' heldHere
        rw [pending, Option.some.injEq] at pending'
        subst pending'
        exact absurd (nack_ne_of_owner_ne live live' distinct) (fun ne => ne rfl)
    exact ⟨by simp [free, pending], by simp [notOwned nack consumer' live distinct, live]⟩
  · intro key₁ key₂ nack removed₁ removed₂
    exact consistent.injective key₁ key₂ nack (below key₁ nack removed₁).2 (below key₂ nack removed₂).2

section Assembly

/-! The copy `streamDup` makes is consistent once every entry has its consumer: before, it is consistent
without the entries still waiting for theirs, whose NACKs are pending for them alone. -/

variable {view : PelView} {unowned : Nat → Prop}

theorem restrict_create (name : List Char) (consumer : Addr) :
    (view.create name consumer).restrict unowned = (view.restrict unowned).create name consumer :=
  rfl

theorem restrict_add {key : Nat} {nack : Addr} (pending : view.pel key = some nack) (consumer : Addr)
    (name : List Char) (pel : Nat → Option Addr) :
    (view.add key nack consumer name pel).restrict (fun key' => unowned key' ∧ key' ≠ key) =
      (view.restrict unowned).add key nack consumer name pel := by
  classical
  ext1
  · funext key'
    by_cases same : key' = key
    · subst same
      simp
    · simp [same]
  all_goals rfl

theorem restrict_of_owned (owned : ∀ key, (view.pel key).isSome → ¬unowned key) : view.restrict unowned = view := by
  ext1
  · funext key
    by_cases waiting : unowned key
    · cases pending : view.pel key with
      | none => simp [pending]
      | some nack => exact absurd waiting (owned key (by simp [pending]))
    · simp [waiting]
  all_goals rfl

theorem Consistent.assign (consistent : (view.restrict unowned).Consistent)
    (injective : ∀ key key' nack, view.pel key = some nack → view.pel key' = some nack → key = key')
    {key : Nat} {nack consumer : Addr} {name : List Char} {pel : Nat → Option Addr}
    (pending : view.pel key = some nack) (waiting : unowned key) (member : view.consumers name = some consumer)
    (object : view.consumer consumer = some (name, pel)) :
    ((view.add key nack consumer name pel).restrict (fun key' => unowned key' ∧ key' ≠ key)).Consistent := by
  -- the waiting entry's NACK is pending for it alone, and it is out of the restricted PEL
  have unused : ∀ key', (view.restrict unowned).pel key' ≠ some nack := by
    intro key' restricted
    by_cases waiting' : unowned key'
    · simp [waiting'] at restricted
    · simp only [restrict_pel, waiting', if_false] at restricted
      rw [injective key' key nack restricted pending] at waiting'
      exact waiting' waiting
  rw [restrict_add pending]
  exact consistent.add (by simp [waiting]) unused member object

theorem Distinct.wait (distinct : view.Distinct) {nack : Addr} (fresh : view.owner nack = none) (key : Nat) :
    (view.wait key nack).Distinct := by
  -- the NACKs already pending are live, so the new one is none of them
  have other : ∀ key' nack', view.pel key' = some nack' → nack' ≠ nack := by
    rintro key' nack' pending rfl
    obtain ⟨owner, live⟩ := distinct.live key' nack' pending
    rw [fresh] at live
    cases live
  constructor
  · intro key' nack' pending
    by_cases same : key' = key
    · subst same
      simp only [wait_pel, update_self, Option.some.injEq] at pending
      subst pending
      exact ⟨none, by simp⟩
    · rw [wait_pel, update_of_ne same] at pending
      obtain ⟨owner, live⟩ := distinct.live key' nack' pending
      exact ⟨owner, by rw [wait_owner, update_of_ne (other key' nack' pending), live]⟩
  · intro key₁ key₂ nack' pending₁ pending₂
    rw [wait_pel] at pending₁ pending₂
    by_cases first : key₁ = key <;> by_cases second : key₂ = key
    · rw [first, second]
    · rw [first, update_self, Option.some.injEq] at pending₁
      rw [update_of_ne second] at pending₂
      exact absurd pending₁.symm (other _ _ pending₂)
    · rw [second, update_self, Option.some.injEq] at pending₂
      rw [update_of_ne first] at pending₁
      exact absurd pending₂.symm (other _ _ pending₁)
    · rw [update_of_ne first] at pending₁
      rw [update_of_ne second] at pending₂
      exact distinct.injective key₁ key₂ nack' pending₁ pending₂

theorem add_pel_of_pending {key : Nat} {nack : Addr} (pending : view.pel key = some nack) (consumer : Addr)
    (name : List Char) (pel : Nat → Option Addr) : (view.add key nack consumer name pel).pel = view.pel := by
  funext key'
  rw [add_pel, ← pending, update_eq_self]

theorem Distinct.add_pending (distinct : view.Distinct) {key : Nat} {nack : Addr} (pending : view.pel key = some nack)
    (consumer : Addr) (name : List Char) (pel : Nat → Option Addr) :
    (view.add key nack consumer name pel).Distinct := by
  constructor
  · intro key' nack' pending'
    rw [add_pel_of_pending pending] at pending'
    by_cases same : nack' = nack
    · exact ⟨some consumer, by rw [same, add_owner, update_self]⟩
    · obtain ⟨owner, live⟩ := distinct.live key' nack' pending'
      exact ⟨owner, by rw [add_owner, update_of_ne same, live]⟩
  · rw [add_pel_of_pending pending]
    exact distinct.injective

theorem Assembling.create (assembling : view.Assembling unowned) {name : List Char} {consumer : Addr}
    (absent : view.consumers name = none) (fresh : view.consumer consumer = none) :
    (view.create name consumer).Assembling unowned where
  consistent := by
    rw [restrict_create]
    exact assembling.consistent.create absent fresh
  distinct := ⟨assembling.distinct.live, assembling.distinct.injective⟩

theorem Assembling.assign (assembling : view.Assembling unowned) {key : Nat} {nack consumer : Addr}
    {name : List Char} {pel : Nat → Option Addr} (pending : view.pel key = some nack) (waiting : unowned key)
    (member : view.consumers name = some consumer) (object : view.consumer consumer = some (name, pel)) :
    (view.add key nack consumer name pel).Assembling (fun key' => unowned key' ∧ key' ≠ key) where
  consistent := assembling.consistent.assign assembling.distinct.injective pending waiting member object
  distinct := assembling.distinct.add_pending pending consumer name pel

theorem Assembling.congr (assembling : view.Assembling unowned) {unowned' : Nat → Prop}
    (same : ∀ key, unowned key ↔ unowned' key) : view.Assembling unowned' := by
  have equal : unowned = unowned' := funext fun key => propext (same key)
  exact equal ▸ assembling

theorem Assembling.start (distinct : view.Distinct) (noConsumers : ∀ name, view.consumers name = none) :
    view.Assembling (fun _ => True) where
  consistent := by
    constructor
    · intro key nack restricted
      simp at restricted
    · intro name consumer member
      rw [restrict_consumers, noConsumers] at member
      cases member
    · intro name consumer pel member
      rw [restrict_consumers, noConsumers] at member
      cases member
    · intro key key' nack restricted
      simp at restricted
  distinct := distinct

theorem Assembling.consistent_of_owned (assembling : view.Assembling unowned)
    (owned : ∀ key, (view.pel key).isSome → ¬unowned key) : view.Consistent := by
  rw [← restrict_of_owned owned]
  exact assembling.consistent

end Assembly

end Moves

end PelView

namespace StreamCG

/-! How the group's own updates move its view. -/

variable (group : StreamCG)

theorem view_setPel (pel : Rax Nat Addr) : (group.setPel pel).view = { group.view with pel := fun key => pel.lookup key } :=
  rfl

theorem view_setConsumers (consumers : Rax (List Char) Addr) :
    { group with consumers }.view = { group.view with consumers := fun name => consumers.lookup name } :=
  rfl

theorem view_setNack (nack : Addr) (value : StreamNACK) :
    (group.setNack nack value).view = { group.view with owner := update group.view.owner nack (some value.consumer) } := by
  have owner : (fun nack' => ((group.nackHeap.insert nack value).lookup nack').map (·.consumer)) =
      update group.view.owner nack (some value.consumer) := by
    funext nack'
    rw [lookup_insert_ite, update_apply]
    split <;> rfl
  exact congrArg (fun owner => { group.view with owner }) owner

theorem view_freeNack (nack : Addr) :
    (group.freeNack nack).view = { group.view with owner := update group.view.owner nack none } := by
  have owner : (fun nack' => ((group.nackHeap.erase nack).lookup nack').map (·.consumer)) =
      update group.view.owner nack none := by
    funext nack'
    rw [lookup_erase_ite, update_apply]
    split <;> rfl
  exact congrArg (fun owner => { group.view with owner }) owner

theorem view_setConsumer (consumer : Addr) (value : StreamConsumer) :
    (group.setConsumer consumer value).view = { group.view with
      consumer := update group.view.consumer consumer (some (value.name, fun key => value.pel.lookup key)) } := by
  have object : (fun consumer' => ((group.consumerHeap.insert consumer value).lookup consumer').map
      fun value => (value.name, fun key => value.pel.lookup key)) =
      update group.view.consumer consumer (some (value.name, fun key => value.pel.lookup key)) := by
    funext consumer'
    rw [lookup_insert_ite, update_apply]
    split <;> rfl
  exact congrArg (fun consumer => { group.view with consumer }) object

theorem view_freeConsumer (consumer : Addr) :
    (group.freeConsumer consumer).view = { group.view with consumer := update group.view.consumer consumer none } := by
  have object : (fun consumer' => ((group.consumerHeap.erase consumer).lookup consumer').map
      fun value => (value.name, fun key => value.pel.lookup key)) = update group.view.consumer consumer none := by
    funext consumer'
    rw [lookup_erase_ite, update_apply]
    split <;> rfl
  exact congrArg (fun consumer => { group.view with consumer }) object

theorem view_created (consumer : Addr) (seenTime activeTime : Int) (name : List Char) :
    { group.setConsumer consumer ⟨seenTime, activeTime, name, ∅⟩ with
      consumers := raxInsert group.consumers name consumer }.view = group.view.create name consumer := by
  simp only [view_setConsumers, view_setConsumer, raxInsert, lookup_insert_fun, AList.lookup_empty]
  rfl

theorem view_streamCreateCG (lastId : StreamID) (entriesRead : Int) :
    (streamCreateCG lastId entriesRead).view = PelView.empty := by
  simp only [streamCreateCG, view, nack, StreamCG.consumer, AList.lookup_empty, Option.map_none]
  rfl

end StreamCG

end Kv.Stream
