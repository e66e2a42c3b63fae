import Kv.Stream.PelConsistency

/-!
The copy COPY makes of a consumer group (`streamDupCG`): the copy of a
consistent group is consistent. The group PEL is copied first, each entry with
a new NACK that points to no consumer; then each consumer is created and given
its entries, whose NACKs it takes over one by one. In between, the copy is
consistent without the entries still waiting for their consumer
(`PelView.Assembling`).
-/

namespace Kv.Stream

open Foundations Function

section Dup

variable (allocator : Allocator)

theorem streamDupPel_distinct (group : StreamCG) (now : Int) :
    ∀ (entries : List (Σ _ : Nat, Addr)) (copy : StreamCG),
      (∀ entry ∈ entries, ∃ value, group.nack entry.2 = some value) → copy.view.Distinct →
      ∃ copy', streamDupPel allocator group now entries copy = some copy' ∧ copy'.view.Distinct ∧
        (∀ key, (copy'.pel.lookup key).isSome ↔ (copy.pel.lookup key).isSome ∨ ∃ entry ∈ entries, entry.1 = key) ∧
        copy'.consumers = copy.consumers
  | [], copy, _, distinct => ⟨copy, rfl, distinct, fun key => by simp, rfl⟩
  | entry :: entries, copy, live, distinct => by
    obtain ⟨nackValue, nackLive⟩ := live entry List.mem_cons_self
    let newNack := allocator.alloc copy.nackHeap.keys
    let copied := (copy.setNack newNack ⟨now, 1, none⟩).setNack newNack { nackValue with consumer := none }
    let next := copied.setPel (raxInsert copied.pel entry.1 newNack)
    have view : next.view = copy.view.wait entry.1 newNack := by
      simp only [next, copied, StreamCG.view_setPel, StreamCG.view_setNack, update_idem, StreamCG.setNack_pel,
        raxInsert, lookup_insert_fun]
      rfl
    have nextDistinct := distinct.wait (StreamCG.view_owner_alloc allocator) entry.1
    rw [← view] at nextDistinct
    rcases streamDupPel_distinct group now entries next (fun other mem => live other (List.mem_cons_of_mem _ mem))
      nextDistinct with ⟨copy', run, distinct', domain, consumers⟩
    refine ⟨copy', ?_, distinct', fun key => ?_, consumers⟩
    · simp only [streamDupPel, nackLive, Option.bind_eq_bind, Option.bind_some, streamCreateNACK]
      exact run
    · -- the entry copied first, the others after it
      rw [domain key]
      by_cases same : key = entry.1
      · subst same
        simp [next, copied, raxInsert]
      · have other : entry.1 ≠ key := Ne.symm same
        simp [next, copied, raxInsert, same, other]

theorem streamDupConsumerPel_assembling {name : List Char} {consumer : Addr} :
    ∀ (entries : List (Σ _ : Nat, Addr)) (copy : StreamCG) (unowned : Nat → Prop) (pel : Nat → Option Addr),
      copy.view.Assembling unowned → copy.view.consumers name = some consumer →
      copy.view.consumer consumer = some (name, pel) → (entries.map Sigma.fst).Nodup →
      (∀ entry ∈ entries, unowned entry.1 ∧ (copy.pel.lookup entry.1).isSome) →
      ∃ copy', streamDupConsumerPel consumer entries copy = some copy' ∧
        copy'.view.Assembling (fun key => unowned key ∧ ∀ entry ∈ entries, entry.1 ≠ key) ∧
        copy'.pel = copy.pel ∧ copy'.consumers = copy.consumers
  | [], copy, unowned, _, assembling, _, _, _, _ => ⟨copy, rfl, assembling.congr (by simp), rfl, rfl⟩
  | entry :: entries, copy, unowned, pel, assembling, member, object, nodup, waiting => by
    rcases waiting entry List.mem_cons_self with ⟨waitingHere, present⟩
    rcases Option.isSome_iff_exists.mp present with ⟨newNack, found⟩
    have pending : copy.view.pel entry.1 = some newNack := found
    rcases assembling.distinct.live entry.1 newNack pending with ⟨owner, live⟩
    rcases StreamCG.nack_of_view live with ⟨nackValue, nackLive, -⟩
    rcases StreamCG.consumer_of_view object with ⟨value, valueLive, rfl, rfl⟩
    let given := (copy.setNack newNack { nackValue with consumer := some consumer }).setConsumer consumer
      { value with pel := raxInsert value.pel entry.1 newNack }
    have view : given.view =
        copy.view.add entry.1 newNack consumer value.name (fun key => value.pel.lookup key) := by
      rw [StreamCG.view_setConsumer, StreamCG.view_setNack]
      ext1
      · exact (PelView.add_pel_of_pending pending consumer value.name _).symm
      · rfl
      · rfl
      · funext consumer'
        simp only [PelView.add_consumer, raxInsert, lookup_insert_fun]
    have assigned := assembling.assign pending waitingHere member object
    rw [← view] at assigned
    rcases List.nodup_cons.mp nodup with ⟨fresh, nodup'⟩
    have givenObject : given.view.consumer consumer =
        some (value.name, update (fun key => value.pel.lookup key) entry.1 (some newNack)) := by
      rw [view, PelView.add_consumer, update_self]
    have rest : ∀ other ∈ entries, (unowned other.1 ∧ other.1 ≠ entry.1) ∧ (given.pel.lookup other.1).isSome := by
      intro other mem
      refine ⟨⟨(waiting other (List.mem_cons_of_mem _ mem)).1, ?_⟩, (waiting other (List.mem_cons_of_mem _ mem)).2⟩
      rintro same
      exact fresh (same ▸ List.mem_map_of_mem mem)
    rcases streamDupConsumerPel_assembling entries given _ _ assigned member givenObject nodup' rest with
      ⟨copy', run, assembling', samePel, sameConsumers⟩
    refine ⟨copy', ?_, assembling'.congr fun key => ?_, samePel, sameConsumers⟩
    · have stillLive : (copy.setNack newNack { nackValue with consumer := some consumer }).consumer consumer =
          some value := by
        rw [StreamCG.setNack_consumer, valueLive]
      simp only [streamDupConsumerPel, raxFind, found, nackLive, Option.bind_eq_bind, Option.bind_some,
        StreamCG.modifyConsumer_of_consumer _ stillLive]
      exact run
    · simp only [List.forall_mem_cons]
      constructor
      · rintro ⟨⟨waitingKey, other⟩, later⟩
        exact ⟨waitingKey, fun same => other same.symm, later⟩
      · rintro ⟨waitingKey, other, later⟩
        exact ⟨⟨waitingKey, fun same => other same.symm⟩, later⟩

theorem StreamCG.member_name {group : StreamCG} (consistent : group.view.Consistent) {name : List Char}
    {consumer : Addr} {value : StreamConsumer} (member : group.consumers.lookup name = some consumer)
    (live : group.consumer consumer = some value) : value.name = name := by
  obtain ⟨pel, object⟩ := consistent.members name consumer member
  rw [StreamCG.view_consumer_of_consumer live, Option.some.injEq, Prod.mk.injEq] at object
  exact object.1

theorem StreamCG.member_pel_disjoint {group : StreamCG} (consistent : group.view.Consistent)
    {name name' : List Char} {consumer consumer' : Addr} {value value' : StreamConsumer}
    (member : group.consumers.lookup name = some consumer) (live : group.consumer consumer = some value)
    (member' : group.consumers.lookup name' = some consumer') (live' : group.consumer consumer' = some value')
    (distinct : name ≠ name') (key : Nat) : value.pel.lookup key = none ∨ value'.pel.lookup key = none := by
  have object := StreamCG.view_consumer_of_consumer live
  have object' := StreamCG.view_consumer_of_consumer live'
  rw [StreamCG.member_name consistent member live] at object
  rw [StreamCG.member_name consistent member' live'] at object'
  exact consistent.disjoint member object member' object' distinct key

theorem streamDupConsumers_assembling {group : StreamCG} (consistent : group.view.Consistent) :
    ∀ (entries : List (Σ _ : List Char, Addr)) (copy : StreamCG) (unowned : Nat → Prop),
      (∀ entry ∈ entries, group.consumers.lookup entry.1 = some entry.2) → (entries.map Sigma.fst).Nodup →
      copy.view.Assembling unowned → (∀ key, (copy.pel.lookup key).isSome ↔ (group.pel.lookup key).isSome) →
      (∀ entry ∈ entries, copy.consumers.lookup entry.1 = none) →
      (∀ entry ∈ entries, ∀ value, group.consumer entry.2 = some value →
        ∀ key, (value.pel.lookup key).isSome → unowned key) →
      ∃ copy', streamDupConsumers allocator group entries copy = some copy' ∧
        copy'.view.Assembling (fun key => unowned key ∧
          ∀ entry ∈ entries, ∀ value, group.consumer entry.2 = some value → value.pel.lookup key = none) ∧
        (∀ key, (copy'.pel.lookup key).isSome ↔ (group.pel.lookup key).isSome)
  | [], copy, unowned, _, _, assembling, domain, _, _ => ⟨copy, rfl, assembling.congr (by simp), domain⟩
  | entry :: entries, copy, unowned, members, nodup, assembling, domain, absent, waiting => by
    have member := members entry List.mem_cons_self
    rcases consistent.members entry.1 entry.2 member with ⟨pel, object⟩
    rcases StreamCG.consumer_of_view object with ⟨value, valueLive, named, rfl⟩
    rcases List.nodup_cons.mp nodup with ⟨fresh, nodup'⟩
    let newConsumer := allocator.alloc copy.consumerHeap.keys
    let created := { copy.setConsumer newConsumer ⟨value.seenTime, value.activeTime, value.name, ∅⟩ with
      consumers := raxInsert copy.consumers value.name newConsumer }
    have view : created.view = copy.view.create value.name newConsumer := StreamCG.view_created _ _ _ _ _
    have createdAssembling : created.view.Assembling unowned := by
      rw [view, named]
      exact assembling.create (absent entry List.mem_cons_self) (StreamCG.view_consumer_alloc allocator)
    have createdMember : created.view.consumers value.name = some newConsumer := by
      rw [view, PelView.create_consumers, update_self]
    have createdObject : created.view.consumer newConsumer = some (value.name, fun _ => none) := by
      rw [view, PelView.create_consumer, update_self]
    -- the entries the consumer holds are pending in the copy, waiting for it
    have held : ∀ other ∈ value.pel.entries, unowned other.1 ∧ (created.pel.lookup other.1).isSome := by
      intro other mem
      have holds : value.pel.lookup other.1 = some other.2 := AList.mem_lookup_iff.mpr mem
      refine ⟨waiting entry List.mem_cons_self value valueLive other.1 (by simp [holds]), ?_⟩
      rcases consistent.owned entry.1 entry.2 _ member object other.1 other.2 holds with ⟨pending, -⟩
      have found : group.pel.lookup other.1 = some other.2 := pending
      exact (domain other.1).mpr (by simp [found])
    rcases streamDupConsumerPel_assembling value.pel.entries created unowned (fun _ => none) createdAssembling
      createdMember createdObject value.pel.nodupKeys held with ⟨given, run, givenAssembling, samePel, sameConsumers⟩
    have others : ∀ other ∈ entries, given.consumers.lookup other.1 = none := by
      intro other mem
      have differ : other.1 ≠ value.name := by
        rw [named]
        rintro same
        exact fresh (same ▸ List.mem_map_of_mem mem)
      rw [sameConsumers]
      simp only [created, raxInsert, lookup_insert_ite, differ, if_false]
      exact absent other (List.mem_cons_of_mem _ mem)
    -- what the later consumers hold, this one does not
    have later : ∀ other ∈ entries, ∀ value', group.consumer other.2 = some value' →
        ∀ key, (value'.pel.lookup key).isSome → unowned key ∧ ∀ held ∈ value.pel.entries, held.1 ≠ key := by
      intro other mem value' live' key present
      refine ⟨waiting other (List.mem_cons_of_mem _ mem) value' live' key present, ?_⟩
      rintro ⟨key', nack⟩ heldMem rfl
      have differ : entry.1 ≠ other.1 := by
        rintro same
        exact fresh (same ▸ List.mem_map_of_mem mem)
      rcases StreamCG.member_pel_disjoint consistent member valueLive (members other (List.mem_cons_of_mem _ mem))
        live' differ key' with unheld | unheld
      · rw [AList.mem_lookup_iff.mpr heldMem] at unheld
        cases unheld
      · rw [unheld] at present
        cases present
    rcases streamDupConsumers_assembling consistent entries given _ (fun other mem => members other
        (List.mem_cons_of_mem _ mem)) nodup' givenAssembling (fun key => samePel ▸ domain key) others later with
      ⟨copy', run', assembling', domain'⟩
    refine ⟨copy', ?_, assembling'.congr fun key => ?_, domain'⟩
    · simp only [streamDupConsumers, valueLive, Option.bind_eq_bind, Option.bind_some]
      exact Option.bind_eq_some_iff.mpr ⟨given, run, run'⟩
    · have head : (∀ held ∈ value.pel.entries, held.1 ≠ key) ↔
          ∀ value', group.consumer entry.2 = some value' → value'.pel.lookup key = none := by
        constructor
        · rintro unheld value' live'
          rw [valueLive, Option.some.injEq] at live'
          subst live'
          cases found : value.pel.lookup key with
          | none => rfl
          | some nack => exact absurd rfl (unheld ⟨key, nack⟩ (AList.mem_lookup_iff.mp found))
        · rintro unheld ⟨key', nack⟩ heldMem rfl
          have found : value.pel.lookup key' = some nack := AList.mem_lookup_iff.mpr heldMem
          rw [unheld value valueLive] at found
          cases found
      simp only [List.forall_mem_cons, head, and_assoc]

theorem streamDupCG_consistent {group : StreamCG} (now : Int) (consistent : group.view.Consistent) :
    ∃ copy, streamDupCG allocator group now = some copy ∧ copy.view.Consistent := by
  let start := streamCreateCG group.lastId group.entriesRead
  have live : ∀ entry ∈ group.pel.entries, ∃ value, group.nack entry.2 = some value := by
    intro entry mem
    have pending : group.view.pel entry.1 = some entry.2 := AList.mem_lookup_iff.mpr mem
    rcases consistent.owner_of_pel pending with ⟨owner, live⟩
    rcases StreamCG.nack_of_view live with ⟨value, found, -⟩
    exact ⟨value, found⟩
  have startDistinct : start.view.Distinct := by
    rw [StreamCG.view_streamCreateCG]
    constructor
    · intro key nack pending
      cases pending
    · intro key key' nack pending
      cases pending
  rcases streamDupPel_distinct allocator group now group.pel.entries start live startDistinct with
    ⟨copied, copying, distinct, domain, noConsumers⟩
  have assembling : copied.view.Assembling (fun _ => True) :=
    PelView.Assembling.start distinct fun name => by simp [StreamCG.view, noConsumers, start, streamCreateCG]
  have sameDomain : ∀ key, (copied.pel.lookup key).isSome ↔ (group.pel.lookup key).isSome := by
    intro key
    rw [domain key, exists_entry_fst_iff]
    simp [start, streamCreateCG]
  rcases streamDupConsumers_assembling allocator consistent group.consumers.entries copied (fun _ => True)
      (fun entry mem => AList.mem_lookup_iff.mpr mem) group.consumers.nodupKeys assembling sameDomain
      (fun entry _ => by simp [noConsumers, start, streamCreateCG]) (fun _ _ _ _ _ _ => trivial) with
    ⟨copy, run, assembling', domain'⟩
  refine ⟨copy, ?_, assembling'.consistent_of_owned fun key pending => ?_⟩
  · simp only [streamDupCG, Option.bind_eq_bind]
    exact Option.bind_eq_some_iff.mpr ⟨copied, copying, run⟩
  · -- every entry pending in the group is held by a member, who was given it
    rintro ⟨-, unheld⟩
    rcases Option.isSome_iff_exists.mp ((domain' key).mp pending) with ⟨nack, found⟩
    rcases consistent.pending key nack found with ⟨owner, name, pel, -, member, object, held⟩
    rcases StreamCG.consumer_of_view object with ⟨value, valueLive, -, rfl⟩
    exact Option.some_ne_none nack (held.symm.trans (unheld ⟨name, owner⟩ (AList.mem_lookup_iff.mp member) value
      valueLive))

end Dup

end Kv.Stream
