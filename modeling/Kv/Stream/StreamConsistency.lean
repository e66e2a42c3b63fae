import Kv.Stream.Dup

/-!
The groups of a stream over whole runs of the group commands: from a stream
whose groups are consistent, every command succeeds and leaves them
consistent, so any run does. Read back on the group's own raxes and heaps, the
group PEL is then the disjoint union of its consumers' PELs, with the same
NACKs, each pointing to the member that holds it.
-/

namespace Kv.Stream

open Foundations Function

def StreamObj.Consistent (s : StreamObj) : Prop :=
  ∀ name group, s.cgroups.lookup name = some group → group.view.Consistent

namespace StreamObj

variable {s : StreamObj}

theorem Consistent.insert (consistent : s.Consistent) (name : List Char) {group : StreamCG}
    (groupConsistent : group.view.Consistent) : { s with cgroups := raxInsert s.cgroups name group }.Consistent := by
  intro name' group' found
  rw [raxInsert, lookup_insert_ite] at found
  split at found
  · cases found
    exact groupConsistent
  · exact consistent name' group' found

theorem Consistent.erase (consistent : s.Consistent) (name : List Char) :
    { s with cgroups := raxRemove s.cgroups name }.Consistent := by
  intro name' group' found
  rw [raxRemove, lookup_erase_ite] at found
  split at found
  · cases found
  · exact consistent name' group' found

end StreamObj

section Commands

variable (allocator : Allocator)

theorem streamUpdateCG_consistent {s : StreamObj} (consistent : s.Consistent) (name : List Char)
    {command : StreamCG → Option StreamCG}
    (keeps : ∀ group, group.view.Consistent → ∃ group', command group = some group' ∧ group'.view.Consistent) :
    ∃ s', streamUpdateCG s name command = some s' ∧ s'.Consistent := by
  cases found : s.cgroups.lookup name with
  | none => exact ⟨s, by simp [streamUpdateCG, streamLookupCG, raxFind, found], consistent⟩
  | some group =>
    obtain ⟨group', run, consistent'⟩ := keeps group (consistent name group found)
    exact ⟨_, by simp [streamUpdateCG, streamLookupCG, raxFind, found, run], consistent.insert name consistent'⟩

theorem map_snd_consistent {α : Type} {result : Option (α × StreamCG)}
    (holds : ∃ reply, result = some reply ∧ reply.2.view.Consistent) :
    ∃ group', result.map (·.2) = some group' ∧ group'.view.Consistent := by
  obtain ⟨reply, run, consistent⟩ := holds
  exact ⟨reply.2, by rw [run]; rfl, consistent⟩

theorem xgroupCreateconsumer_consistent {group : StreamCG} (name : List Char) (now : Int)
    (consistent : group.view.Consistent) : (xgroupCreateconsumer allocator group name now).2.view.Consistent := by
  cases member : group.consumers.lookup name with
  | none =>
    obtain ⟨created, create, view, -⟩ := streamCreateConsumer_new allocator now member
    simp only [xgroupCreateconsumer, create]
    rw [view]
    exact consistent.create member (StreamCG.view_consumer_alloc allocator)
  | some consumer =>
    simp only [xgroupCreateconsumer, streamCreateConsumer, raxTryInsert_of_some member]
    exact consistent

theorem streamDup_consistent {s : StreamObj} (now : Int) (consistent : s.Consistent) :
    ∃ s', streamDup allocator s now = some s' ∧ s'.Consistent := by
  -- the groups copied so far, under the stream's last ID, are consistent
  have step : ∀ entry ∈ s.cgroups.entries, ∀ cgroups, StreamObj.Consistent ⟨s.lastId, cgroups⟩ →
      ∃ cgroups', (do
        let copy ← streamDupCG allocator entry.2 now
        pure (raxInsert cgroups entry.1 copy)) = some cgroups' ∧
        StreamObj.Consistent ⟨s.lastId, cgroups'⟩ := by
    intro entry mem cgroups holds
    rcases streamDupCG_consistent allocator now (consistent entry.1 entry.2 (AList.mem_lookup_iff.mpr mem)) with
      ⟨copy, run, copyConsistent⟩
    exact ⟨_, by rw [run]; rfl, holds.insert entry.1 copyConsistent⟩
  rcases foldlM_of_invariant (fun cgroups => StreamObj.Consistent ⟨s.lastId, cgroups⟩) s.cgroups.entries step ∅
      (fun name group found => by cases found) with ⟨cgroups, run, holds⟩
  refine ⟨⟨s.lastId, cgroups⟩, ?_, holds⟩
  simp only [streamDup, Option.bind_eq_bind]
  exact Option.bind_eq_some_iff.mpr ⟨cgroups, run, rfl⟩

theorem groupStep_consistent {s : StreamObj} (consistent : s.Consistent) (command : GroupCommand) :
    ∃ s', groupStep allocator s command = some s' ∧ s'.Consistent := by
  cases command with
  | create group id entriesRead =>
    refine ⟨_, rfl, ?_⟩
    simp only [xgroupCreate]
    split
    · exact consistent
    · refine consistent.insert group ?_
      rw [StreamCG.view_streamCreateCG]
      exact PelView.Consistent.empty
  | setid group id entriesRead =>
    -- the last delivered ID and the read counter are not part of the view
    exact streamUpdateCG_consistent consistent group fun cg consistent' => ⟨_, rfl, consistent'⟩
  | destroy group =>
    refine ⟨_, rfl, ?_⟩
    simp only [xgroupDestroy]
    split
    · exact consistent
    · exact consistent.erase group
  | createconsumer group consumer now =>
    exact streamUpdateCG_consistent consistent group fun cg consistent' =>
      ⟨_, rfl, xgroupCreateconsumer_consistent allocator consumer now consistent'⟩
  | delconsumer group consumer =>
    exact streamUpdateCG_consistent consistent group fun cg consistent' =>
      map_snd_consistent (xgroupDelconsumer_consistent consumer consistent')
  | readgroup group consumer noack now ids =>
    exact streamUpdateCG_consistent consistent group fun cg consistent' =>
      xreadgroup_consistent allocator consumer noack now ids consistent'
  | readgroupHistory group consumer entryExists start count now =>
    exact streamUpdateCG_consistent consistent group fun cg consistent' =>
      xreadgroupHistory_consistent allocator entryExists consumer start count now consistent'
  | ack group keys =>
    exact streamUpdateCG_consistent consistent group fun cg consistent' => by
      obtain ⟨acknowledged, group', run, consistent''⟩ := xack_consistent keys consistent'
      exact ⟨group', by rw [run]; rfl, consistent''⟩
  | claim group consumer entryExists options lastId now keys =>
    exact streamUpdateCG_consistent consistent group fun cg consistent' =>
      map_snd_consistent (xclaim_consistent allocator entryExists options lastId consumer now keys consistent')
  | autoclaim group consumer entryExists minidle justid count now start =>
    exact streamUpdateCG_consistent consistent group fun cg consistent' =>
      map_snd_consistent
        (xautoclaim_consistent allocator entryExists minidle justid count consumer now start consistent')
  | copy now => exact streamDup_consistent allocator now consistent

theorem groupRuns_consistent (commands : List GroupCommand) {s : StreamObj} (consistent : s.Consistent) :
    ∃ s', runSteps (groupStep allocator) s commands = some s' ∧ s'.Consistent :=
  runSteps_of_invariant StreamObj.Consistent (fun _ command holds => groupStep_consistent allocator holds command)
    commands s consistent

end Commands

structure StreamCG.PelsAgree (group : StreamCG) : Prop where
  held : ∀ key nack, group.pel.lookup key = some nack → ∃ owner nackValue value, group.nack nack = some nackValue ∧
    nackValue.consumer = some owner ∧ group.consumer owner = some value ∧
    group.consumers.lookup value.name = some owner ∧ value.pel.lookup key = some nack
  pending : ∀ name consumer value key nack, group.consumers.lookup name = some consumer →
    group.consumer consumer = some value → value.pel.lookup key = some nack → group.pel.lookup key = some nack
  disjoint : ∀ name name' consumer consumer' value value' key, group.consumers.lookup name = some consumer →
    group.consumer consumer = some value → group.consumers.lookup name' = some consumer' →
    group.consumer consumer' = some value' → name ≠ name' → value.pel.lookup key = none ∨ value'.pel.lookup key = none

namespace StreamCG

variable {group : StreamCG}

theorem PelsAgree.of_consistent (consistent : group.view.Consistent) : group.PelsAgree where
  held key nack pending := by
    rcases consistent.pending key nack pending with ⟨owner, name, pel, live, member, object, held⟩
    rcases nack_of_view live with ⟨nackValue, found, pointed⟩
    rcases consumer_of_view object with ⟨value, valueLive, named, rfl⟩
    exact ⟨owner, nackValue, value, found, pointed, valueLive, named ▸ member, held⟩
  pending name consumer value key nack member live held := by
    have object := view_consumer_of_consumer live
    rw [member_name consistent member live] at object
    exact (consistent.owned name consumer _ member object key nack held).1
  disjoint _ _ _ _ _ _ key member live member' live' distinct :=
    member_pel_disjoint consistent member live member' live' distinct key

theorem PelsAgree.pending_iff (agree : group.PelsAgree) (key : Nat) :
    (group.pel.lookup key).isSome ↔
      ∃ name consumer value, group.consumers.lookup name = some consumer ∧ group.consumer consumer = some value ∧
        (value.pel.lookup key).isSome := by
  constructor
  · intro present
    rcases Option.isSome_iff_exists.mp present with ⟨nack, pending⟩
    rcases agree.held key nack pending with ⟨owner, -, value, -, -, live, member, held⟩
    exact ⟨value.name, owner, value, member, live, by simp [held]⟩
  · rintro ⟨name, consumer, value, member, live, present⟩
    rcases Option.isSome_iff_exists.mp present with ⟨nack, held⟩
    simp [agree.pending name consumer value key nack member live held]

end StreamCG

/-- From a stream with no groups, any run of group commands does not crash and leaves the PELs of every group
agreeing. -/
theorem groupRuns_pels_agree (allocator : Allocator) (lastId : StreamID) (commands : List GroupCommand) :
    ∃ s, runSteps (groupStep allocator) ⟨lastId, ∅⟩ commands = some s ∧
      ∀ name group, s.cgroups.lookup name = some group → group.PelsAgree := by
  have start : StreamObj.Consistent ⟨lastId, ∅⟩ := fun name group found => by cases found
  rcases groupRuns_consistent allocator commands start with ⟨s, run, consistent⟩
  exact ⟨s, run, fun name group found => StreamCG.PelsAgree.of_consistent (consistent name group found)⟩

end Kv.Stream
