import Kv.Foundations.Run
import Kv.Stream.Groups
import Kv.Stream.PelView

/-!
Every command keeps a group's PELs consistent and never crashes on a
consistent group: each one moves the group's view by the moves of the previous
module, with the pointers it follows live.
-/

namespace Kv.Stream

open Foundations Function

namespace StreamCG

variable {group : StreamCG}

theorem consumer_of_view {consumer : Addr} {name : List Char} {pel : Nat → Option Addr}
    (object : group.view.consumer consumer = some (name, pel)) :
    ∃ value, group.consumer consumer = some value ∧ value.name = name ∧ (fun key => value.pel.lookup key) = pel := by
  obtain ⟨value, live, same⟩ := Option.map_eq_some_iff.mp object
  rw [Prod.mk.injEq] at same
  exact ⟨value, live, same.1, same.2⟩

theorem nack_of_view {nack : Addr} {owner : Option Addr} (live : group.view.owner nack = some owner) :
    ∃ value, group.nack nack = some value ∧ value.consumer = owner :=
  Option.map_eq_some_iff.mp live

theorem view_consumer_of_consumer {consumer : Addr} {value : StreamConsumer}
    (live : group.consumer consumer = some value) :
    group.view.consumer consumer = some (value.name, fun key => value.pel.lookup key) := by
  simp only [view, live, Option.map_some]

theorem view_owner_of_nack {nack : Addr} {value : StreamNACK} (live : group.nack nack = some value) :
    group.view.owner nack = some value.consumer := by
  simp only [view, live, Option.map_some]

theorem view_owner_alloc (allocator : Allocator) : group.view.owner (allocator.alloc group.nackHeap.keys) = none := by
  simp only [view, nack, Allocator.lookup_alloc, Option.map_none]

theorem view_consumer_alloc (allocator : Allocator) :
    group.view.consumer (allocator.alloc group.consumerHeap.keys) = none := by
  simp only [view, StreamCG.consumer, Allocator.lookup_alloc, Option.map_none]

theorem view_setConsumer_same {consumer : Addr} {value value' : StreamConsumer}
    (live : group.consumer consumer = some value) (sameName : value'.name = value.name)
    (samePel : value'.pel = value.pel) : (group.setConsumer consumer value').view = group.view := by
  rw [view_setConsumer, sameName, samePel, ← view_consumer_of_consumer live, update_eq_self]

theorem view_setConsumer_times {consumer : Addr} {value : StreamConsumer} (live : group.consumer consumer = some value)
    (seenTime activeTime : Int) :
    (group.setConsumer consumer ⟨seenTime, activeTime, value.name, value.pel⟩).view = group.view :=
  view_setConsumer_same live rfl rfl

theorem view_setNack_same {nack : Addr} {value value' : StreamNACK} (live : group.nack nack = some value)
    (sameConsumer : value'.consumer = value.consumer) : (group.setNack nack value').view = group.view := by
  rw [view_setNack, sameConsumer, ← view_owner_of_nack live, update_eq_self]

end StreamCG

section Commands

variable (allocator : Allocator)

theorem streamCreateConsumer_new {group : StreamCG} {name : List Char} (now : Int)
    (absent : group.consumers.lookup name = none) :
    ∃ created, streamCreateConsumer allocator group name now =
        (some (allocator.alloc group.consumerHeap.keys), created) ∧
      created.view = group.view.create name (allocator.alloc group.consumerHeap.keys) ∧
      created.consumer (allocator.alloc group.consumerHeap.keys) = some ⟨now, -1, name, ∅⟩ := by
  let consumer := allocator.alloc group.consumerHeap.keys
  refine ⟨{ group.setConsumer consumer ⟨now, -1, name, ∅⟩ with consumers := raxInsert group.consumers name consumer },
    by rw [streamCreateConsumer, raxTryInsert_of_none absent]; rfl,
    StreamCG.view_created group consumer now (-1) name, StreamCG.setConsumer_consumer_self group _ _⟩

theorem streamLookupOrCreateConsumer_consistent (group : StreamCG) (name : List Char) (now : Int)
    (consistent : group.view.Consistent) :
    ∃ consumer group', streamLookupOrCreateConsumer allocator group name now = some (consumer, group') ∧
      group'.view.Consistent ∧ group'.view.consumers name = some consumer := by
  cases member : group.consumers.lookup name with
  | some consumer =>
    obtain ⟨pel, object⟩ := consistent.members name consumer member
    obtain ⟨value, live, -, -⟩ := StreamCG.consumer_of_view object
    have seen := StreamCG.view_setConsumer_times live now value.activeTime
    refine ⟨consumer, _, ?_, seen ▸ consistent, seen ▸ member⟩
    simp only [streamLookupOrCreateConsumer, streamLookupConsumer, raxFind, member, Option.bind_eq_bind,
      Option.bind_some, StreamCG.modifyConsumer_of_consumer _ live, Option.pure_def]
  | none =>
    obtain ⟨created, create, view, live⟩ := streamCreateConsumer_new allocator now member
    have seen := StreamCG.view_setConsumer_times live now (-1)
    refine ⟨allocator.alloc group.consumerHeap.keys,
      created.setConsumer (allocator.alloc group.consumerHeap.keys) ⟨now, -1, name, ∅⟩, ?_, ?_, ?_⟩
    · simp only [streamLookupOrCreateConsumer, streamLookupConsumer, raxFind, member, create, Option.bind_eq_bind,
        Option.bind_some, StreamCG.modifyConsumer_of_consumer _ live, Option.pure_def]
    · rw [seen, view]
      exact consistent.create member (StreamCG.view_consumer_alloc allocator)
    · rw [seen, view]
      simp

section Deliver

variable {group : StreamCG} {consumer : Addr} {key : Nat} {value : StreamConsumer}

theorem nack_alloc_ne {nack : Addr} {nackValue : StreamNACK} (live : group.nack nack = some nackValue) :
    nack ≠ allocator.alloc group.nackHeap.keys := by
  rintro rfl
  rw [StreamCG.nack, Allocator.lookup_alloc] at live
  cases live

theorem streamDeliverEntry_new (now : Int) (notPending : group.pel.lookup key = none)
    (live : group.consumer consumer = some value) (notHeld : value.pel.lookup key = none) :
    (streamDeliverEntry allocator group consumer key now).map StreamCG.view =
      some (group.view.add key (allocator.alloc group.nackHeap.keys) consumer value.name
        (fun key => value.pel.lookup key)) := by
  simp only [streamDeliverEntry, streamCreateNACK, StreamCG.setNack_pel, raxTryInsert_of_none notPending,
    StreamCG.setPel_consumer, StreamCG.setNack_consumer, live, Option.bind_eq_bind, Option.bind_some,
    raxTryInsert_of_none notHeld, Bool.not_true, Bool.false_eq_true, if_false, Option.pure_def]
  rw [StreamCG.modifyConsumer_of_consumer _ (StreamCG.setConsumer_consumer_self _ _ _)]
  simp only [Option.map_some, StreamCG.view_setConsumer, StreamCG.view_setPel, StreamCG.view_setNack, update_idem,
    lookup_insert_fun]
  rfl

theorem streamDeliverEntry_same (now : Int) {nack : Addr} {nackValue : StreamNACK}
    (pending : group.pel.lookup key = some nack) (nackLive : group.nack nack = some nackValue)
    (owner : nackValue.consumer = some consumer) (live : group.consumer consumer = some value)
    (held : value.pel.lookup key = some nack) :
    (streamDeliverEntry allocator group consumer key now).map StreamCG.view = some group.view := by
  have other := nack_alloc_ne allocator nackLive
  simp only [streamDeliverEntry, streamCreateNACK, StreamCG.setNack_pel, raxTryInsert_of_some pending,
    StreamCG.setPel_consumer, StreamCG.setNack_consumer, live, Option.bind_eq_bind, Option.bind_some,
    raxTryInsert_of_some held, Bool.not_false, if_true, StreamCG.freeNack_pel, StreamCG.setConsumer_pel,
    StreamCG.setPel_pel, raxFind, pending, StreamCG.freeNack_nack, other, if_false, StreamCG.setConsumer_nack,
    StreamCG.setPel_nack, StreamCG.setNack_nack, nackLive, owner, Option.pure_def, StreamCG.modifyConsumer,
    StreamCG.freeNack_consumer, StreamCG.setConsumer_consumer, StreamCG.setNack_consumer, if_true,
    Option.map_some, raxRemove, raxInsert]
  simp only [StreamCG.view_setConsumer, StreamCG.view_setNack, StreamCG.view_freeNack, StreamCG.view_setPel,
    lookup_insert_fun, lookup_erase_fun, update_idem]
  -- the new NACK was freed, and the pending one was already the consumer's
  have freed : update group.view.owner (allocator.alloc group.nackHeap.keys) none = group.view.owner :=
    update_eq_self_iff.mpr (StreamCG.view_owner_alloc allocator).symm
  have kept : update (fun key => value.pel.lookup key) key (some nack) = fun key => value.pel.lookup key :=
    update_eq_self_iff.mpr held.symm
  rw [freed, kept, ← owner, ← StreamCG.view_owner_of_nack nackLive, update_eq_self,
    ← StreamCG.view_consumer_of_consumer live, update_eq_self]
  rfl

theorem streamDeliverEntry_handover (now : Int) {nack owner : Addr} {nackValue : StreamNACK}
    {ownerValue : StreamConsumer} (pending : group.pel.lookup key = some nack)
    (nackLive : group.nack nack = some nackValue) (ownedBy : nackValue.consumer = some owner)
    (ownerLive : group.consumer owner = some ownerValue) (distinct : owner ≠ consumer)
    (live : group.consumer consumer = some value) (notHeld : value.pel.lookup key = none) :
    (streamDeliverEntry allocator group consumer key now).map StreamCG.view =
      some (group.view.move key nack owner ownerValue.name (fun key => ownerValue.pel.lookup key) consumer value.name
        (fun key => value.pel.lookup key)) := by
  have other := nack_alloc_ne allocator nackLive
  simp only [streamDeliverEntry, streamCreateNACK, StreamCG.setNack_pel, raxTryInsert_of_some pending,
    StreamCG.setPel_consumer, StreamCG.setNack_consumer, live, Option.bind_eq_bind, Option.bind_some,
    raxTryInsert_of_none notHeld, Bool.not_false, if_true, StreamCG.freeNack_pel, StreamCG.setConsumer_pel,
    StreamCG.setPel_pel, raxFind, pending, StreamCG.freeNack_nack, other, if_false, StreamCG.setConsumer_nack,
    StreamCG.setPel_nack, StreamCG.setNack_nack, nackLive, ownedBy, Option.pure_def, StreamCG.modifyConsumer,
    StreamCG.freeNack_consumer, StreamCG.setConsumer_consumer, StreamCG.setNack_consumer, distinct,
    Ne.symm distinct, if_true, ownerLive, Option.map_some, raxRemove, raxInsert]
  simp only [StreamCG.view_setConsumer, StreamCG.view_setNack, StreamCG.view_freeNack, StreamCG.view_setPel,
    lookup_insert_fun, lookup_erase_fun, update_idem]
  have freed : update group.view.owner (allocator.alloc group.nackHeap.keys) none = group.view.owner :=
    update_eq_self_iff.mpr (StreamCG.view_owner_alloc allocator).symm
  -- the consumer's first write (the new NACK) is overwritten by its last
  rw [freed, update_comm (Ne.symm distinct), update_idem]
  rfl

end Deliver

theorem streamDeliverEntry_consistent {group : StreamCG} {name : List Char} {consumer : Addr} (key : Nat) (now : Int)
    (consistent : group.view.Consistent) (member : group.view.consumers name = some consumer) :
    ∃ group', streamDeliverEntry allocator group consumer key now = some group' ∧ group'.view.Consistent ∧
      group'.view.consumers = group.view.consumers := by
  obtain ⟨pel, object⟩ := consistent.members name consumer member
  obtain ⟨value, live, rfl, rfl⟩ := StreamCG.consumer_of_view object
  suffices ∃ view, (streamDeliverEntry allocator group consumer key now).map StreamCG.view = some view ∧
      view.Consistent ∧ view.consumers = group.view.consumers by
    obtain ⟨view, mapped, consistent', consumers⟩ := this
    obtain ⟨group', run, rfl⟩ := Option.map_eq_some_iff.mp mapped
    exact ⟨group', run, consistent', consumers⟩
  cases pending : group.pel.lookup key with
  | none =>
    -- what the consumer holds is pending, so it does not hold the entry
    have notHeld : value.pel.lookup key = none := by
      cases held : value.pel.lookup key with
      | none => rfl
      | some nack =>
        have pending' := (consistent.owned _ consumer _ member object key nack held).1
        exact absurd (pending.symm.trans pending') (by simp)
    exact ⟨_, streamDeliverEntry_new allocator now pending live notHeld,
      consistent.add pending (consistent.unused_of_owner_none (StreamCG.view_owner_alloc allocator)) member object,
      rfl⟩
  | some nack =>
    obtain ⟨owner, ownerName, ownerPel, ownerLive, -, ownerObject, held⟩ := consistent.pending key nack pending
    obtain ⟨nackValue, nackLive, ownedBy⟩ := StreamCG.nack_of_view ownerLive
    obtain ⟨ownerValue, ownerValueLive, rfl, rfl⟩ := StreamCG.consumer_of_view ownerObject
    by_cases same : owner = consumer
    · subst same
      rw [live, Option.some.injEq] at ownerValueLive
      subst ownerValueLive
      exact ⟨_, streamDeliverEntry_same allocator now pending nackLive ownedBy live held, consistent, rfl⟩
    · -- the entry is the owner's, so not the consumer's
      have notHeld : value.pel.lookup key = none := by
        cases heldHere : value.pel.lookup key with
        | none => rfl
        | some nack' =>
          obtain ⟨pending', owned⟩ := consistent.owned _ consumer _ member object key nack' heldHere
          have sameNack : nack' = nack := Option.some.inj (pending'.symm.trans pending)
          subst sameNack
          exact absurd (Option.some.inj (Option.some.inj (ownerLive.symm.trans owned))) same
      exact ⟨_, streamDeliverEntry_handover allocator now pending nackLive ownedBy ownerValueLive same live notHeld,
        consistent.move pending ownerLive ownerObject member object same, rfl⟩

theorem streamServeEntries_consistent {name : List Char} {consumer : Addr} (noack : Bool) (now : Int) :
    ∀ (ids : List StreamID) (group : StreamCG), group.view.Consistent → group.view.consumers name = some consumer →
      ∃ group', streamServeEntries allocator group consumer noack now ids = some group' ∧ group'.view.Consistent
  | [], group, consistent, _ => ⟨group, rfl, consistent⟩
  | id :: ids, group, consistent, member => by
    -- the last delivered ID moves, which the view does not see
    let moved := if streamIDGreater id group.lastId then { group with lastId := id } else group
    have sameView : moved.view = group.view := by
      dsimp only [moved]
      split <;> rfl
    rw [← sameView] at consistent member
    cases noack with
    | true =>
      obtain ⟨group', run, consistent'⟩ := streamServeEntries_consistent true now ids moved consistent member
      exact ⟨group', run, consistent'⟩
    | false =>
      obtain ⟨delivered, deliver, deliveredConsistent, consumers⟩ :=
        streamDeliverEntry_consistent allocator (streamEncodeID id) now consistent member
      rw [← consumers] at member
      obtain ⟨group', run, consistent'⟩ :=
        streamServeEntries_consistent false now ids delivered deliveredConsistent member
      refine ⟨group', ?_, consistent'⟩
      simp only [streamServeEntries, Bool.false_eq_true, if_false, Option.bind_eq_bind]
      rw [deliver, Option.bind_some, run]

theorem xreadgroup_consistent (name : List Char) (noack : Bool) (now : Int) (ids : List StreamID) {group : StreamCG}
    (consistent : group.view.Consistent) :
    ∃ group', xreadgroup allocator name noack now group ids = some group' ∧ group'.view.Consistent := by
  obtain ⟨consumer, found, lookup, foundConsistent, member⟩ :=
    streamLookupOrCreateConsumer_consistent allocator group name now consistent
  obtain ⟨group', run, consistent'⟩ :=
    streamServeEntries_consistent allocator noack now ids found foundConsistent member
  refine ⟨group', ?_, consistent'⟩
  simp only [xreadgroup, Option.bind_eq_bind, lookup, Option.bind_some, run]

theorem streamReplyWithRangeFromConsumerPEL_view (entryExists : Nat → Bool) {group : StreamCG} {name : List Char}
    {consumer : Addr} (start count : Nat) (now : Int) (consistent : group.view.Consistent)
    (member : group.view.consumers name = some consumer) :
    ∃ group', streamReplyWithRangeFromConsumerPEL entryExists group consumer start count now = some group' ∧
      group'.view = group.view := by
  obtain ⟨pel, object⟩ := consistent.members name consumer member
  obtain ⟨value, live, rfl, rfl⟩ := StreamCG.consumer_of_view object
  simp only [streamReplyWithRangeFromConsumerPEL, live, Option.bind_eq_bind, Option.bind_some]
  apply foldlM_of_invariant (fun group' : StreamCG => group'.view = group.view) _ _ group rfl
  intro key mem group' sameView
  -- the key comes from the consumer's PEL, whose NACKs point back to it
  have inPel : key ∈ value.pel.keys := by
    split at mem
    · exact List.mem_mergeSort.mp mem |> List.mem_of_mem_filter
    · exact List.mem_mergeSort.mp (List.mem_of_mem_take mem) |> List.mem_of_mem_filter
  obtain ⟨nack, held⟩ := Option.isSome_iff_exists.mp (AList.lookup_isSome.mpr (AList.mem_keys.mpr inPel))
  have owned := (consistent.owned _ consumer _ member object key nack held).2
  rw [← sameView] at owned
  obtain ⟨nackValue, nackLive, -⟩ := StreamCG.nack_of_view owned
  split
  · let redelivered := { nackValue with deliveryTime := now, deliveryCount := nackValue.deliveryCount + 1 }
    refine ⟨group'.setNack nack redelivered, ?_, (StreamCG.view_setNack_same nackLive
      (rfl : redelivered.consumer = nackValue.consumer)).trans sameView⟩
    simp only [raxFind, held, nackLive, Option.bind_some, Option.pure_def, redelivered]
  · exact ⟨group', rfl, sameView⟩

theorem xreadgroupHistory_consistent (entryExists : Nat → Bool) (name : List Char) (start count : Nat) (now : Int)
    {group : StreamCG} (consistent : group.view.Consistent) :
    ∃ group', xreadgroupHistory allocator entryExists name start count now group = some group' ∧
      group'.view.Consistent := by
  obtain ⟨consumer, found, lookup, foundConsistent, member⟩ :=
    streamLookupOrCreateConsumer_consistent allocator group name now consistent
  obtain ⟨group', run, sameView⟩ :=
    streamReplyWithRangeFromConsumerPEL_view entryExists start count now foundConsistent member
  refine ⟨group', ?_, sameView ▸ foundConsistent⟩
  simp only [xreadgroupHistory, Option.bind_eq_bind, lookup, Option.bind_some, run]

section Release

variable {group : StreamCG} {key : Nat}

theorem streamReleaseNACK_view {nack owner : Addr} {nackValue : StreamNACK} {ownerValue : StreamConsumer}
    (nackLive : group.nack nack = some nackValue) (ownedBy : nackValue.consumer = some owner)
    (ownerLive : group.consumer owner = some ownerValue) :
    (streamReleaseNACK group key nack).map StreamCG.view =
      some (group.view.release key nack owner ownerValue.name (fun key => ownerValue.pel.lookup key)) := by
  simp only [streamReleaseNACK, nackLive, ownedBy, Option.bind_eq_bind, Option.bind_some, StreamCG.setPel_consumer,
    ownerLive, StreamCG.modifyConsumer, Option.map_some, Option.pure_def, raxRemove, StreamCG.view_freeNack,
    StreamCG.view_setConsumer, StreamCG.view_setPel, lookup_erase_fun]
  rfl

theorem streamReleaseNACK_consistent {nack : Addr} (consistent : group.view.Consistent)
    (pending : group.pel.lookup key = some nack) :
    ∃ group', streamReleaseNACK group key nack = some group' ∧ group'.view.Consistent ∧
      group'.view.consumers = group.view.consumers := by
  obtain ⟨owner, ownerName, ownerPel, ownerLive, -, ownerObject, -⟩ := consistent.pending key nack pending
  obtain ⟨nackValue, nackLive, ownedBy⟩ := StreamCG.nack_of_view ownerLive
  obtain ⟨ownerValue, ownerValueLive, rfl, rfl⟩ := StreamCG.consumer_of_view ownerObject
  obtain ⟨group', run, view⟩ :=
    Option.map_eq_some_iff.mp (@streamReleaseNACK_view group key nack owner nackValue ownerValue nackLive ownedBy
      ownerValueLive)
  refine ⟨group', run, ?_, by rw [view]; rfl⟩
  rw [view]
  exact consistent.release pending ownerLive ownerObject

end Release

theorem xack_consistent : ∀ (keys : List Nat) {group : StreamCG}, group.view.Consistent →
    ∃ acknowledged group', xack group keys = some (acknowledged, group') ∧ group'.view.Consistent
  | [], group, consistent => ⟨0, group, rfl, consistent⟩
  | key :: keys, group, consistent => by
    cases pending : group.pel.lookup key with
    | none =>
      obtain ⟨acknowledged, group', run, consistent'⟩ := xack_consistent keys consistent
      exact ⟨acknowledged, group', by rw [xack, raxFind, pending, run], consistent'⟩
    | some nack =>
      obtain ⟨released, release, releasedConsistent, -⟩ := streamReleaseNACK_consistent consistent pending
      obtain ⟨acknowledged, group', run, consistent'⟩ := xack_consistent keys releasedConsistent
      refine ⟨acknowledged + 1, group', ?_, consistent'⟩
      simp only [xack, raxFind, pending, release, run, Option.bind_eq_bind, Option.bind_some, Option.pure_def]

theorem bind_of_map_view {β : Type} {P : β → Prop} {step : Option StreamCG} {rest : StreamCG → Option β}
    {view : PelView} (mapped : step.map StreamCG.view = some view)
    (continues : ∀ group, group.view = view → ∃ result, rest group = some result ∧ P result) :
    ∃ result, step.bind rest = some result ∧ P result := by
  obtain ⟨group, run, rfl⟩ := Option.map_eq_some_iff.mp mapped
  obtain ⟨result, restRun, holds⟩ := continues group rfl
  exact ⟨result, by rw [run, Option.bind_some, restRun], holds⟩

section Claim

variable {group : StreamCG} {consumer : Addr} {key : Nat} {value : StreamConsumer}

theorem streamClaimNACK_handover {nack owner : Addr} {nackValue : StreamNACK} {ownerValue : StreamConsumer}
    (deliveryTime : Int) (deliveryCount : Nat) (now : Int) (ownedBy : nackValue.consumer = some owner)
    (ownerLive : group.consumer owner = some ownerValue) (distinct : owner ≠ consumer)
    (live : group.consumer consumer = some value) :
    (streamClaimNACK group consumer key nack nackValue deliveryTime deliveryCount now).map StreamCG.view =
      some (group.view.move key nack owner ownerValue.name (fun key => ownerValue.pel.lookup key) consumer value.name
        (fun key => value.pel.lookup key)) := by
  simp only [streamClaimNACK, ownedBy, ne_eq, distinct, not_false_eq_true, StreamCG.modifyConsumer,
    ownerLive, Option.map_some, Option.bind_eq_bind, Option.bind_some, Option.some.injEq,
    StreamCG.setConsumer_consumer, Ne.symm distinct, if_false, live, Option.pure_def, StreamCG.setNack_consumer,
    if_pos, raxRemove, raxInsert, StreamCG.view_setConsumer, StreamCG.view_setNack, lookup_erase_fun,
    lookup_insert_fun, update_idem]
  rfl

theorem streamClaimNACK_same {nack : Addr} {nackValue : StreamNACK} (deliveryTime : Int) (deliveryCount : Nat)
    (now : Int) (nackLive : group.nack nack = some nackValue) (ownedBy : nackValue.consumer = some consumer)
    (live : group.consumer consumer = some value) :
    (streamClaimNACK group consumer key nack nackValue deliveryTime deliveryCount now).map StreamCG.view =
      some group.view := by
  simp only [streamClaimNACK, ownedBy, ne_eq, not_true_eq_false, if_false, Option.bind_eq_bind, Option.pure_def,
    Option.bind_some, StreamCG.modifyConsumer, StreamCG.setNack_consumer, live, Option.map_some]
  have stillLive : (group.setNack nack { deliveryTime, deliveryCount, consumer := some consumer }).consumer consumer =
      some value := by
    rw [StreamCG.setNack_consumer, live]
  rw [StreamCG.view_setConsumer_times stillLive, StreamCG.view_setNack_same nackLive ownedBy.symm]

theorem streamClaimNACK_created (deliveryTime : Int) (deliveryCount : Nat) (now : Int)
    (live : group.consumer consumer = some value) :
    (streamClaimNACK ((group.setNack (allocator.alloc group.nackHeap.keys) ⟨now, 1, none⟩).setPel
        (raxInsert group.pel key (allocator.alloc group.nackHeap.keys))) consumer key
        (allocator.alloc group.nackHeap.keys) ⟨now, 1, none⟩ deliveryTime deliveryCount now).map StreamCG.view =
      some (group.view.add key (allocator.alloc group.nackHeap.keys) consumer value.name
        (fun key => value.pel.lookup key)) := by
  simp only [streamClaimNACK, ne_eq, reduceCtorEq, not_false_eq_true, Option.bind_eq_bind, Option.pure_def,
    Option.bind_some, StreamCG.modifyConsumer, StreamCG.setPel_consumer, StreamCG.setNack_consumer, live,
    Option.map_some, StreamCG.setConsumer_consumer, if_pos, raxInsert, StreamCG.view_setConsumer,
    StreamCG.view_setNack, StreamCG.view_setPel, lookup_insert_fun, update_idem]
  rfl

end Claim

theorem xclaimLoop_consistent (entryExists : Nat → Bool) (options : XclaimOptions) {name : List Char}
    {consumer : Addr} (now : Int) :
    ∀ (keys : List Nat) (group : StreamCG), group.view.Consistent → group.view.consumers name = some consumer →
      ∃ result, xclaimLoop allocator entryExists options consumer now group keys = some result ∧
        result.2.view.Consistent
  | [], group, consistent, _ => ⟨([], group), rfl, consistent⟩
  | key :: keys, group, consistent, member => by
    obtain ⟨pel, object⟩ := consistent.members name consumer member
    obtain ⟨value, live, rfl, rfl⟩ := StreamCG.consumer_of_view object
    -- the rest of the loop, once this key is claimed
    have claimed : ∀ group' : StreamCG, group'.view.Consistent → group'.view.consumers value.name = some consumer →
        ∃ result, ((xclaimLoop allocator entryExists options consumer now group' keys).bind fun result =>
          pure (key :: result.1, result.2)) = some result ∧ result.2.view.Consistent := by
      intro group' consistent' member'
      obtain ⟨⟨claimed, group''⟩, run, consistent''⟩ :=
        xclaimLoop_consistent entryExists options now keys group' consistent' member'
      exact ⟨(key :: claimed, group''), by rw [run]; rfl, consistent''⟩
    cases present : entryExists key with
    | false =>
      cases pending : group.pel.lookup key with
      | none =>
        simp only [xclaimLoop, present, Bool.not_false, if_true, raxFind, pending]
        exact xclaimLoop_consistent entryExists options now keys group consistent member
      | some nack =>
        obtain ⟨released, release, releasedConsistent, consumers⟩ := streamReleaseNACK_consistent consistent pending
        rw [← consumers] at member
        simp only [xclaimLoop, present, Bool.not_false, if_true, raxFind, pending, release, Option.bind_eq_bind,
          Option.bind_some]
        exact xclaimLoop_consistent entryExists options now keys released releasedConsistent member
    | true =>
      cases pending : group.pel.lookup key with
      | none =>
        cases force : options.force with
        | false =>
          simp only [xclaimLoop, present, Bool.not_true, Bool.false_eq_true, if_false, raxFind, pending, force]
          exact xclaimLoop_consistent entryExists options now keys group consistent member
        | true =>
          -- the new NACK has no consumer, so no idle time is checked
          simp only [xclaimLoop, present, Bool.not_true, Bool.false_eq_true, if_false, raxFind, pending, force,
            if_true, streamCreateNACK, StreamCG.setPel_nack, StreamCG.setNack_nack, Option.bind_eq_bind,
            Option.bind_some, Option.isSome_none, Bool.false_and, StreamCG.setNack_pel]
          refine bind_of_map_view (streamClaimNACK_created allocator _ _ now live) fun claimedGroup view => ?_
          have added := consistent.add pending
            (consistent.unused_of_owner_none (StreamCG.view_owner_alloc allocator)) member object
          rw [← view] at added
          exact claimed claimedGroup added (by rw [view]; exact member)
      | some nack =>
        obtain ⟨owner, ownerName, ownerPel, ownerLive, -, ownerObject, -⟩ := consistent.pending key nack pending
        obtain ⟨nackValue, nackLive, ownedBy⟩ := StreamCG.nack_of_view ownerLive
        obtain ⟨ownerValue, ownerValueLive, rfl, rfl⟩ := StreamCG.consumer_of_view ownerObject
        simp only [xclaimLoop, present, Bool.not_true, Bool.false_eq_true, if_false, raxFind, pending, nackLive,
          Option.bind_eq_bind, Option.bind_some]
        split
        · -- idle for less than MINIDLE: skipped
          exact xclaimLoop_consistent entryExists options now keys group consistent member
        · by_cases same : owner = consumer
          · subst same
            refine bind_of_map_view (streamClaimNACK_same _ _ now nackLive ownedBy live) fun claimedGroup view => ?_
            exact claimed claimedGroup (view ▸ consistent) (view ▸ member)
          · refine bind_of_map_view (streamClaimNACK_handover _ _ now ownedBy ownerValueLive same live)
              fun claimedGroup view => ?_
            have moved := consistent.move pending ownerLive ownerObject member object same
            rw [← view] at moved
            exact claimed claimedGroup moved (by rw [view]; exact member)
theorem xclaim_consistent (entryExists : Nat → Bool) (options : XclaimOptions) (lastId : StreamID)
    (name : List Char) (now : Int) (keys : List Nat) {group : StreamCG} (consistent : group.view.Consistent) :
    ∃ result, xclaim allocator entryExists options lastId name now group keys = some result ∧
      result.2.view.Consistent := by
  -- LASTID moves the last delivered ID, which the view does not see
  let moved := if streamIDGreater lastId group.lastId then { group with lastId } else group
  have sameView : moved.view = group.view := by
    dsimp only [moved]
    split <;> rfl
  rw [← sameView] at consistent
  obtain ⟨consumer, found, lookup, foundConsistent, member⟩ :=
    streamLookupOrCreateConsumer_consistent allocator moved name now consistent
  obtain ⟨result, run, consistent'⟩ :=
    xclaimLoop_consistent allocator entryExists options now keys found foundConsistent member
  refine ⟨result, ?_, consistent'⟩
  simp only [xclaim, Option.bind_eq_bind]
  rw [lookup, Option.bind_some, run]

theorem raxSeekGE_mem {α : Type} {rax : Rax Nat α} {bound key : Nat} (found : raxSeekGE rax bound = some key) :
    key ∈ rax.keys :=
  List.mem_of_mem_filter (List.min?_mem found)

theorem xautoclaimLoop_consistent (entryExists : Nat → Bool) (minidle : Int) (justid : Bool) {name : List Char}
    {consumer : Addr} (now : Int) :
    ∀ (attempts count bound : Nat) (group : StreamCG) (claimed deleted : List Nat), group.view.Consistent →
      group.view.consumers name = some consumer →
      ∃ result, xautoclaimLoop entryExists minidle justid consumer now attempts count bound group claimed deleted =
        some result ∧ result.2.2.2.view.Consistent
  | 0, _, bound, group, claimed, deleted, consistent, _ => ⟨(bound, claimed, deleted, group), rfl, consistent⟩
  | attempts + 1, count, bound, group, claimed, deleted, consistent, member => by
    obtain ⟨pel, object⟩ := consistent.members name consumer member
    obtain ⟨value, live, rfl, rfl⟩ := StreamCG.consumer_of_view object
    by_cases done : count = 0
    · exact ⟨(bound, claimed, deleted, group), by simp [xautoclaimLoop, done], consistent⟩
    cases seek : raxSeekGE group.pel bound with
    | none => exact ⟨(bound, claimed, deleted, group), by simp [xautoclaimLoop, done, seek], consistent⟩
    | some key =>
      obtain ⟨nack, pending⟩ :=
        Option.isSome_iff_exists.mp (AList.lookup_isSome.mpr (AList.mem_keys.mpr (raxSeekGE_mem seek)))
      simp only [xautoclaimLoop, done, if_false, seek, raxFind, pending, Option.bind_eq_bind, Option.bind_some]
      cases present : entryExists key with
      | false =>
        obtain ⟨released, release, releasedConsistent, consumers⟩ := streamReleaseNACK_consistent consistent pending
        rw [← consumers] at member
        simp only [Bool.not_false, if_true, release, Option.bind_some]
        exact xautoclaimLoop_consistent entryExists minidle justid now attempts _ _ released _ _ releasedConsistent
          member
      | true =>
        obtain ⟨owner, ownerName, ownerPel, ownerLive, -, ownerObject, -⟩ := consistent.pending key nack pending
        obtain ⟨nackValue, nackLive, ownedBy⟩ := StreamCG.nack_of_view ownerLive
        obtain ⟨ownerValue, ownerValueLive, rfl, rfl⟩ := StreamCG.consumer_of_view ownerObject
        simp only [Bool.not_true, Bool.false_eq_true, if_false, nackLive, Option.bind_some]
        split
        · -- idle for less than MINIDLE: skipped
          exact xautoclaimLoop_consistent entryExists minidle justid now attempts _ _ group _ _ consistent member
        · by_cases same : owner = consumer
          · subst same
            refine bind_of_map_view (streamClaimNACK_same _ _ now nackLive ownedBy live) fun claimedGroup view => ?_
            exact xautoclaimLoop_consistent entryExists minidle justid now attempts _ _ claimedGroup _ _
              (view ▸ consistent) (view ▸ member)
          · refine bind_of_map_view (streamClaimNACK_handover _ _ now ownedBy ownerValueLive same live)
              fun claimedGroup view => ?_
            have moved := consistent.move pending ownerLive ownerObject member object same
            rw [← view] at moved
            exact xautoclaimLoop_consistent entryExists minidle justid now attempts _ _ claimedGroup _ _ moved
              (by rw [view]; exact member)

theorem xautoclaim_consistent (entryExists : Nat → Bool) (minidle : Int) (justid : Bool) (count : Nat)
    (name : List Char) (now : Int) (start : Nat) {group : StreamCG} (consistent : group.view.Consistent) :
    ∃ result, xautoclaim allocator entryExists minidle justid count name now group start = some result ∧
      result.2.view.Consistent := by
  obtain ⟨consumer, found, lookup, foundConsistent, member⟩ :=
    streamLookupOrCreateConsumer_consistent allocator group name now consistent
  obtain ⟨⟨bound, claimed, deleted, group'⟩, run, consistent'⟩ :=
    xautoclaimLoop_consistent entryExists minidle justid now (count * 10) count start found [] [] foundConsistent
      member
  refine ⟨(⟨(raxSeekGE group'.pel bound).getD 0, claimed, deleted⟩, group'), ?_, consistent'⟩
  simp only [xautoclaim, Option.bind_eq_bind, lookup, Option.bind_some, run, Option.pure_def]

end Commands

theorem view_foldl_release (entries : List (Σ _ : Nat, Addr)) (group : StreamCG) :
    (entries.foldl (fun group entry => (group.setPel (raxRemove group.pel entry.1)).freeNack entry.2) group).view =
      { group.view with
        pel := fun key => if ∃ entry ∈ entries, entry.1 = key then none else group.view.pel key
        owner := fun nack => if ∃ entry ∈ entries, entry.2 = nack then none else group.view.owner nack } := by
  induction entries generalizing group with
  | nil => simp
  | cons entry entries ih =>
    rw [List.foldl_cons, ih, StreamCG.view_freeNack, StreamCG.view_setPel]
    simp only [raxRemove]
    -- the first entry is released first, the others after it
    refine PelView.ext ?_ rfl ?_ rfl
    · funext key
      by_cases first : entry.1 = key
      · simp [first]
      · simp only [List.mem_cons, or_and_right, exists_or, exists_eq_left, first, false_or, Ne.symm first,
          lookup_erase_ite, if_false]
        rfl
    · funext nack
      by_cases first : entry.2 = nack
      · simp [first]
      · simp only [List.mem_cons, or_and_right, exists_or, exists_eq_left, first, false_or, Ne.symm first,
          update_apply, if_false]

theorem foldl_release_consumers (entries : List (Σ _ : Nat, Addr)) (group : StreamCG) :
    (entries.foldl (fun group entry => (group.setPel (raxRemove group.pel entry.1)).freeNack entry.2) group).consumers =
      group.consumers := by
  induction entries generalizing group with
  | nil => rfl
  | cons entry entries ih => exact ih _

theorem streamDelConsumer_view {group : StreamCG} {consumer : Addr} {value : StreamConsumer}
    (live : group.consumer consumer = some value) :
    (streamDelConsumer group consumer).map StreamCG.view =
      some (group.view.remove value.name consumer (fun key => value.pel.lookup key)) := by
  simp only [streamDelConsumer, live, Option.bind_eq_bind, Option.bind_some, Option.pure_def, Option.map_some,
    StreamCG.view_freeConsumer, StreamCG.view_setConsumers, view_foldl_release, foldl_release_consumers]
  -- the NACKs the consumer holds are freed: a condition the view states without deciding it
  classical
  simp only [raxRemove, lookup_erase_fun, exists_entry_fst_iff, exists_entry_snd_iff]
  rfl

theorem xgroupDelconsumer_consistent (name : List Char) {group : StreamCG} (consistent : group.view.Consistent) :
    ∃ result, xgroupDelconsumer group name = some result ∧ result.2.view.Consistent := by
  cases member : group.consumers.lookup name with
  | none => exact ⟨(0, group), by simp [xgroupDelconsumer, streamLookupConsumer, raxFind, member], consistent⟩
  | some consumer =>
    obtain ⟨pel, object⟩ := consistent.members name consumer member
    obtain ⟨value, live, rfl, rfl⟩ := StreamCG.consumer_of_view object
    obtain ⟨group', run, view⟩ := Option.map_eq_some_iff.mp (streamDelConsumer_view live)
    refine ⟨(value.pel.entries.length, group'), ?_, ?_⟩
    · simp only [xgroupDelconsumer, streamLookupConsumer, raxFind, member, live, run, Option.bind_eq_bind,
        Option.bind_some, Option.pure_def]
    · rw [view]
      exact consistent.remove member object

end Kv.Stream
