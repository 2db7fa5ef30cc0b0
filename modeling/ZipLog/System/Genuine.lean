import ZipLog.Subscriber.Carry
import ZipLog.Subscriber.Process
import ZipLog.System.Deployment
import ZipLog.System.Links

set_option autoImplicit false

namespace ZipLog.System

open Storage

-- What an entry of a storage server looks like to a subscriber: it lies in a
-- slot of its client, and either an insert of the client has put its data there
-- or the client had left before the slot was used.
def Genuine (replicas : Nat → List Nat) (s : Service) (entry : SubscriberLogEntry) : Prop :=
  ∃ r ∈ replicas entry.shardId, ∃ rank : Nat,
    (gsns (slotsIn (s.cluster.seen (entry.shardId, r))) entry.clientId)[rank]? = some entry.gsn ∧
    ((filledBy (s.cluster.received (entry.shardId, r) entry.clientId))[rank]? = some entry.data ∨
      (entry.data = [] ∧ ∃ p, s.clients entry.clientId = some p ∧ p.loop.stopped = true ∧
        (filledBy (p.sent.map Prod.fst)).length ≤ rank))

theorem genuine_blind (replicas : Nat → List Nat) (s : Service) (entry : SubscriberLogEntry) (count : Nat)
    (genuine : Genuine replicas s entry) : Genuine replicas s { entry with replicaId := count } := genuine

theorem genuine_extends (replicas : Nat → List Nat) (s next : Service) (entry : SubscriberLogEntry) (grows : Extends s next)
    (genuine : Genuine replicas s entry) : Genuine replicas next entry := by
  obtain ⟨r, member, rank, slot, fill⟩ := genuine
  refine ⟨r, member, rank, prefix_access _ _ (gsns_grow _ _ _ (slots_in_grow _ _ (grows.seen _))) _ _ slot, ?_⟩
  cases fill with
  | inl data => exact Or.inl (prefix_access _ _ (filled_by_grows _ _ (grows.received _ _)) _ _ data)
  | inr closed =>
      obtain ⟨empty, p, present, stopped, beyond⟩ := closed
      obtain ⟨q, there, _, _, kept⟩ := grows.clients _ p present
      obtain ⟨still, same⟩ := kept stopped
      exact Or.inr ⟨empty, q, there, still, by rw [same]; exact beyond⟩

theorem genuine_history (replicas : Nat → List Nat) (s : Service) (history : Nat → List StorageControl) (inv : s.Inv replicas history)
    (entry : SubscriberLogEntry) (r rank : Nat) (member : r ∈ replicas entry.shardId)
    (slot : (gsns (slotsIn (s.cluster.seen (entry.shardId, r))) entry.clientId)[rank]? = some entry.gsn) :
    (gsns (slotsIn (history entry.shardId)) entry.clientId)[rank]? = some entry.gsn :=
  prefix_access _ _ (gsns_grow _ _ _ (slots_in_grow _ _ (seen_history replicas _ history _ r inv.calm.ordered member))) _ _ slot

theorem genuine_small (replicas : Nat → List Nat) (s : Service) (history : Nat → List StorageControl) (inv : s.Inv replicas history)
    (entry : SubscriberLogEntry) (genuine : Genuine replicas s entry) : entry.gsn < uint64Max := by
  obtain ⟨r, member, rank, slot, _⟩ := genuine
  exact gsn_small replicas s.cluster history inv.calm.ordered _ _ rank _ (genuine_history replicas s history inv entry r rank member slot)

-- An entry that reads as set is not one of the spare ones behind the log.
theorem set_entry_cell (log : Log) (contents : Contents) (rep : Represents log contents) (at_ptr : Ptr) (entry : Entry)
    (slot : at_ptr.slot < numEntriesPerBlock) (read : log.read at_ptr = some entry) (set : entry.set = true) :
    ∃ rank index, Cell contents entry.clientId rank index entry ∧ (chain contents.slots entry.clientId)[rank]? = some index := by
  obtain ⟨block, at_slot⟩ := at_ptr
  have inside : block < log.blocks.length := by
    obtain ⟨cells, found, _⟩ := Option.map_eq_some_iff.mp read
    exact (List.getElem?_eq_some_iff.mp found).1
  rw [rep.blocks] at inside
  have used : block * numEntriesPerBlock + at_slot < contents.slots.length := by
    rw [rep.size]
    rcases Nat.lt_or_eq_of_le (Nat.le_of_lt_succ inside) with earlier | last
    · have full : (block + 1) * numEntriesPerBlock ≤ log.block * numEntriesPerBlock := Nat.mul_le_mul_right _ earlier
      rw [Nat.add_mul, Nat.one_mul] at full
      simp only at slot
      omega
    · subst last
      by_contra spare
      have zero := rep.spare at_slot (by omega) slot
      rw [read] at zero
      cases zero
      cases set
  obtain ⟨rank, access⟩ := chain_rank_exists contents.slots _ _ _ (List.getElem?_eq_getElem used)
  obtain ⟨found, same, cell⟩ := rep.cells _ rank _ access
  rw [ptr_mul_add block at_slot slot, read] at same
  cases same
  rw [← cell.owner] at access
  exact ⟨rank, _, cell.owner ▸ cell, access⟩

-- A server answers a subscriber thread out of its log.
theorem server_genuine (replicas : Nat → List Nat) (s : Service) (history : Nat → List StorageControl) (inv : s.Inv replicas history)
    (place : Place) (index : Nat) (at_ptr : Ptr) (entry : Entry) (member : place.2 ∈ replicas place.1)
    (slot : at_ptr.slot < numEntriesPerBlock) (read : (s.cluster.servers place).log.read at_ptr = some entry) (set : entry.set = true) :
    Genuine replicas s (subscriberMessage (s.cluster.servers place) index entry) := by
  have serving := inv.calm.serving place member
  obtain ⟨rank, log_index, cell, access⟩ := set_entry_cell _ _ serving.follows.tracks.rep at_ptr entry slot read set
  have gsn := gsns_access _ _ rank log_index access
  rw [cell.slot, Option.map_some] at gsn
  have filled : rank < ((contentsAfter (s.cluster.seen place) (s.cluster.received place)).fills entry.clientId).length := by
    rw [cell.set] at set
    exact of_decide_eq_true set
  have data := cell.payload
  rw [List.getD_eq_getElem _ _ filled] at data
  simp only [Genuine, subscriberMessage]
  rw [serving.shard]
  refine ⟨place.2, member, rank, gsn, ?_⟩
  rcases Nat.lt_or_ge rank (filledBy (s.cluster.received place entry.clientId)).length with inserted | closed
  · left
    rw [List.getElem?_eq_getElem inserted, data]
    congr 1
    simp only [contentsAfter]
    split
    · simp only [padded]
      rw [List.getElem_append_left inserted]
    · rfl
  · right
    have final : .clientFinalize entry.clientId ∈ s.cluster.seen place := by
      by_contra open_
      simp only [contentsAfter, if_neg open_] at filled
      omega
    have whole := (seen_history replicas _ history _ place.2 inv.calm.ordered member).subset final
    cases present : s.clients entry.clientId with
    | none => exact absurd whole ((inv.fresh _ present).final _)
    | some p =>
        have bound := inv.bound _ p present
        obtain ⟨stopped, parted⟩ := finalized_parted replicas _ history _ p bound _ whole
        have home : p.loop.shardId = place.1 := by
          have owned := (inv.calm.ordered.finalized _ _ whole).1
          cases bound.home with
          | inl none =>
              rw [owned] at none
              cases none
          | inr same => exact (Option.some.inj (owned.symm.trans same)).symm
        have all := (bound.served place.2 (home ▸ member)).received
        rw [home, List.take_of_length_le (by rw [List.length_map]; exact Nat.le_of_lt (parted place.2 (home ▸ member)))] at all
        refine ⟨?_, p, rfl, stopped, ?_⟩
        · rw [data]
          simp only [contentsAfter, if_pos final, padded]
          rw [List.getElem_append_right closed, List.getElem_replicate]
        · rw [← all]
          exact closed

theorem next_entry_reads (log : Log) (it moved : Storage.Iterator) (found : Option Entry)
    (bounded : ∀ at_ptr, it.entry = some at_ptr → at_ptr.slot < numEntriesPerBlock) (ran : it.nextEntry log = .ok (moved, found)) :
    (∀ at_ptr, moved.entry = some at_ptr → at_ptr.slot < numEntriesPerBlock) ∧
      ∀ entry, found = some entry → ∃ at_ptr : Ptr, at_ptr.slot < numEntriesPerBlock ∧ log.read at_ptr = some entry ∧ entry.set = true := by
  have picked : ∀ at_ptr, (if it.entry = none then it.pick log else it).entry = some at_ptr → at_ptr.slot < numEntriesPerBlock := by
    intro at_ptr here
    split at here
    · rename_i free
      unfold Storage.Iterator.pick at here
      split at here
      · rw [free] at here
        cases here
      · cases here
        exact Nat.mod_lt _ entries_per_block_pos
    · exact bounded at_ptr here
  unfold Storage.Iterator.nextEntry at ran
  dsimp only at ran
  split at ran
  · cases ran
    exact ⟨picked, fun entry none => by cases none⟩
  · rename_i at_ptr held
    split at ran
    · cases ran
    · rename_i entry read
      split at ran
      · rename_i set
        cases ran
        constructor
        · intro other none
          cases none
        · intro other same
          cases same
          exact ⟨at_ptr, picked at_ptr held, read, set⟩
      · cases ran
        exact ⟨picked, fun entry none => by cases none⟩

-- A subscriber. With one application thread what it has taken are the GSNs
-- below next, and all of these are in its log.
structure Reader.Inv (genuine : SubscriberLogEntry → Prop) (reader : Reader) : Prop where
  carries : ∀ queue, (reader.pollers queue).Carries genuine
  stands : ∀ queue, (reader.pollers queue).Stands reader.log
  sound : Subscriber.Sound reader.log reader.stored
  stored : ∀ entry ∈ reader.stored, genuine entry
  passed : ∀ entry ∈ reader.passed, genuine entry
  order : reader.applicationThreads = 1 → ∃ next, Subscriber.InOrder (reader.iterators 0) next ∧
    (∀ item ∈ reader.taken, item.2.gsn < next) ∧ ∀ gsn, gsn < next → ∃ entry ∈ reader.stored, entry.gsn = gsn

theorem reader_mono (genuine other : SubscriberLogEntry → Prop) (reader : Reader) (more : ∀ entry, genuine entry → other entry)
    (inv : reader.Inv genuine) : reader.Inv other :=
  ⟨fun queue => Subscriber.carries_mono genuine other _ more (inv.carries queue), inv.stands, inv.sound,
    fun entry member => more entry (inv.stored entry member), fun entry member => more entry (inv.passed entry member), inv.order⟩

theorem init_reader (genuine : SubscriberLogEntry → Prop) (pollingThreads applicationThreads : Nat) (sequential : Bool) (unset : Nat → Nat) :
    (Reader.init pollingThreads applicationThreads sequential unset).Inv genuine := by
  constructor
  · intro queue
    exact Subscriber.init_carries genuine
  · intro queue
    exact Subscriber.init_stands _
  · exact Subscriber.init_sound applicationThreads
  · intro entry member
    cases member
  · intro entry member
    cases member
  · intro single
    change applicationThreads = 1 at single
    subst single
    refine ⟨0, Subscriber.process_iterator_in_order sequential (unset 0), ?_, fun gsn less => absurd less (Nat.not_lt_zero gsn)⟩
    intro item member
    cases member

section

variable (genuine : SubscriberLogEntry → Prop) (reader : Reader) (inv : reader.Inv genuine)

include inv

theorem poll_reader (blind : ∀ entry count, genuine entry → genuine { entry with replicaId := count }) (failures queue : Nat)
    (message : SubscriberLogEntry) (idle : (reader.pollers queue).inserting = none) (received : genuine message) :
    (reader.poll failures queue message).Inv genuine := by
  have carries := Subscriber.poll_carries genuine blind failures _ message idle received (inv.carries queue)
  have stands := Subscriber.poll_stands genuine reader.log failures _ message idle (inv.carries queue) (inv.stands queue)
  refine ⟨?_, ?_, inv.sound, inv.stored, ?_, inv.order⟩
  · intro other
    simp only [Reader.poll]
    by_cases same : other = queue
    · subst same
      rw [Function.update_self]
      exact carries
    · rw [Function.update_of_ne same]
      exact inv.carries other
  · intro other
    simp only [Reader.poll]
    by_cases same : other = queue
    · subst same
      rw [Function.update_self]
      exact stands
    · rw [Function.update_of_ne same]
      exact inv.stands other
  · intro entry member
    cases List.mem_append.mp member with
    | inl old => exact inv.passed entry old
    | inr new => exact carries.inserting entry (Option.mem_toList.mp new)

theorem store_reader (small : ∀ entry, genuine entry → entry.gsn < uint64Max) (queue : Nat) (next : Reader)
    (ran : reader.store queue = some next) : next.Inv genuine := by
  obtain ⟨⟨log, poller⟩, stored, result⟩ := Option.map_eq_some_iff.mp ran
  subst result
  cases busy : (reader.pollers queue).inserting with
  | none =>
      rw [Subscriber.Poller.store, busy] at stored
      cases stored
  | some entry =>
      obtain ⟨sound, stands, carries, blocks⟩ := Subscriber.store_stands genuine small reader.log log reader.stored _ poller entry busy
        (inv.carries queue) (inv.stands queue) inv.sound stored
      have genuine_entry := (inv.carries queue).inserting entry busy
      refine ⟨?_, ?_, sound, ?_, inv.passed, ?_⟩
      · intro other
        by_cases same : other = queue
        · subst same
          simp only [Function.update_self]
          exact carries
        · simp only [Function.update_of_ne same]
          exact inv.carries other
      · intro other
        by_cases same : other = queue
        · subst same
          simp only [Function.update_self]
          exact stands
        · simp only [Function.update_of_ne same]
          exact Subscriber.stands_grow reader.log log _ (Nat.le_of_eq blocks.symm) (inv.stands other)
      · intro other member
        cases List.mem_append.mp member with
        | inl old => exact inv.stored other old
        | inr new =>
            rw [List.mem_singleton.mp new]
            exact genuine_entry
      · intro single
        obtain ⟨next, order, taken, complete⟩ := inv.order single
        refine ⟨next, order, taken, ?_⟩
        intro gsn less
        obtain ⟨other, member, same⟩ := complete gsn less
        exact ⟨other, List.mem_append_left _ member, same⟩

theorem process_reader (small : ∀ entry, genuine entry → entry.gsn < uint64Max) (index : Nat) (inside : index < reader.applicationThreads)
    (next : Reader) (ran : reader.process index = some next) : next.Inv genuine := by
  obtain ⟨⟨log, it, found⟩, advanced, result⟩ := Option.map_eq_some_iff.mp ran
  subst result
  have sound := Subscriber.next_entry_sound reader.log log reader.stored _ it found inv.sound advanced
  obtain ⟨counters, same⟩ := Subscriber.next_entry_log reader.log log _ it found advanced
  refine ⟨inv.carries, ?_, sound, inv.stored, inv.passed, ?_⟩
  · intro queue
    exact Subscriber.stands_grow reader.log log _ (by rw [same]) (inv.stands queue)
  · intro single
    change reader.applicationThreads = 1 at single
    rw [single] at inside
    obtain rfl : index = 0 := Nat.lt_one_iff.mp inside
    obtain ⟨next, order, taken, complete⟩ := inv.order single
    simp only [Function.update_self]
    obtain ⟨none, standing⟩ | ⟨entry, some, member, gsn, further⟩ := Subscriber.next_entry_takes reader.log log reader.stored _ it next found
      inv.sound (fun entry member => small entry (inv.stored entry member)) order advanced
    · refine ⟨next, standing, ?_, complete⟩
      rw [none]
      simpa using taken
    · refine ⟨next + 1, further, ?_, ?_⟩
      · intro item member'
        rw [some] at member'
        cases List.mem_append.mp member' with
        | inl old => exact Nat.lt_succ_of_lt (taken item old)
        | inr new =>
            have last : item = (0, entry) := by simpa using new
            rw [last, gsn]
            exact Nat.lt_succ_self next
      · intro below less
        rcases Nat.lt_or_eq_of_le (Nat.le_of_lt_succ less) with old | last
        · exact complete below old
        · exact ⟨entry, member, gsn.trans last.symm⟩

theorem recycle_reader : reader.recycle.Inv genuine :=
  ⟨inv.carries, fun queue => Subscriber.stands_grow reader.log _ _ (Subscriber.recycle_grows reader.log) (inv.stands queue),
    Subscriber.recycle_sound reader.log reader.stored inv.sound, inv.stored, inv.passed, inv.order⟩

end

structure Deployment.Inv (replicas : Nat → List Nat) (s : Deployment) (history : Nat → List StorageControl) : Prop where
  service : s.service.Inv replicas history
  feeders : ∀ place index at_ptr, (s.feeders place index).log.entry = some at_ptr → at_ptr.slot < numEntriesPerBlock
  wires : ∀ wire, ∀ message ∈ s.wires wire, Genuine replicas s.service message
  readers : ∀ subscriberId reader, s.readers subscriberId = some reader → reader.Inv (Genuine replicas s.service)

theorem init_deployment (config : Config) : (Deployment.init config).Inv config.replicas (fun _ => []) := by
  refine ⟨init_service config.numShards config.replicas, ?_, ?_, ?_⟩
  · intro place index at_ptr held
    cases held
  · intro wire message member
    cases member
  · intro subscriberId reader present
    cases present

section

variable (config : Config) (s : Deployment) (history : Nat → List StorageControl) (inv : s.Inv config.replicas history)

include inv

theorem reader_inv (subscriberId : Nat) (reader : Reader) (polled : Wire → Nat)
    (good : reader.Inv (Genuine config.replicas s.service)) :
    ({ s with polled := polled }.setReader subscriberId reader).Inv config.replicas history := by
  refine ⟨inv.service, inv.feeders, inv.wires, ?_⟩
  intro other found present
  by_cases same : other = subscriberId
  · subst same
    simp only [Deployment.setReader, Function.update_self] at present
    cases present
    exact good
  · simp only [Deployment.setReader, Function.update_of_ne same] at present
    exact inv.readers other found present

theorem feeder_inv (place : Place) (index : Nat) (feeder : Feeder)
    (good : ∀ at_ptr, feeder.log.entry = some at_ptr → at_ptr.slot < numEntriesPerBlock) :
    (s.setFeeder place index feeder).Inv config.replicas history := by
  refine ⟨inv.service, ?_, inv.wires, inv.readers⟩
  intro at_place at_index at_ptr held
  simp only [Deployment.setFeeder] at held
  by_cases same : at_place = place
  · subst same
    rw [Function.update_self] at held
    by_cases mine : at_index = index
    · subst mine
      rw [Function.update_self] at held
      exact good at_ptr held
    · rw [Function.update_of_ne mine] at held
      exact inv.feeders at_place at_index at_ptr held
  · rw [Function.update_of_ne same] at held
    exact inv.feeders at_place at_index at_ptr held

theorem send_inv (place : Place) (index : Nat) (feeder : Feeder) (message : SubscriberLogEntry)
    (genuine : Genuine config.replicas s.service message) : (s.send place index feeder message).Inv config.replicas history := by
  refine ⟨inv.service, inv.feeders, ?_, inv.readers⟩
  intro wire other member
  cases List.mem_append.mp member with
  | inl old => exact inv.wires wire other old
  | inr new =>
      obtain ⟨_, _, same⟩ := List.mem_map.mp new
      exact same ▸ genuine

theorem feed_inv (place : Place) (index : Nat) (next : Deployment) (enabled : s.service.cluster.serves place = true)
    (ran : s.feed config place index = some next) : next.Inv config.replicas history ∧ next.service = s.service := by
  have member := serves_member config.replicas _ history inv.service.calm place enabled
  simp only [Deployment.feed] at ran
  split at ran
  · cases ran
  · rename_i log advanced
    cases ran
    obtain ⟨bounded, _⟩ := next_entry_reads _ _ log _ (inv.feeders place index) advanced
    exact ⟨feeder_inv config s history inv place index _ bounded, rfl⟩
  · rename_i log entry advanced
    cases ran
    obtain ⟨bounded, source⟩ := next_entry_reads _ _ log _ (inv.feeders place index) advanced
    obtain ⟨at_ptr, slot, read, set⟩ := source entry rfl
    have genuine := server_genuine config.replicas s.service history inv.service place index at_ptr entry member slot read set
    exact ⟨feeder_inv config _ history (send_inv config s history inv place index _ _ genuine) place index _ bounded, rfl⟩

theorem deployment_step (nodup : ∀ shard, (config.replicas shard).Nodup) (next : Deployment) (action : Action)
    (stepped : s.step config action = some next) :
    ∃ after, next.Inv config.replicas after ∧ (∀ shard, history shard <+: after shard) ∧ Extends s.service next.service := by
  have blind := genuine_blind config.replicas s.service
  have small := genuine_small config.replicas s.service history inv.service
  have same_history : ∀ shard, history shard <+: history shard := fun _ => List.prefix_rfl
  cases action with
  | service move =>
      obtain ⟨service, moved, result⟩ := Option.map_eq_some_iff.mp stepped
      subst result
      obtain ⟨after, service_inv, grows, extended⟩ :=
        service_step config.replicas nodup config.failures s.service history inv.service service move moved
      have more := fun entry => genuine_extends config.replicas s.service service entry extended
      exact ⟨after, ⟨service_inv, inv.feeders, fun wire message member => more message (inv.wires wire message member),
        fun id reader present => reader_mono _ _ reader more (inv.readers id reader present)⟩, grows, extended⟩
  | launch subscriberId pollingThreads applicationThreads sequential unset =>
      simp only [Deployment.step] at stepped
      split at stepped
      · cases stepped
        exact ⟨history, reader_inv config s history inv subscriberId _ s.polled
          (init_reader _ pollingThreads applicationThreads sequential unset), same_history, extends_refl _⟩
      · cases stepped
  | addSubscriber place subscriberId =>
      simp only [Deployment.step] at stepped
      split at stepped
      · cases stepped
      · split at stepped
        · cases stepped
          exact ⟨history, inv, same_history, extends_refl _⟩
        · cases stepped
          exact ⟨history, ⟨inv.service, inv.feeders, inv.wires, inv.readers⟩, same_history, extends_refl _⟩
  | subscriberFinished place subscriberId =>
      simp only [Deployment.step] at stepped
      split at stepped
      · cases stepped
        exact ⟨history, ⟨inv.service, inv.feeders, inv.wires, inv.readers⟩, same_history, extends_refl _⟩
      · cases stepped
        exact ⟨history, inv, same_history, extends_refl _⟩
  | change place index =>
      simp only [Deployment.step] at stepped
      split at stepped
      · obtain ⟨change, _, result⟩ := Option.map_eq_some_iff.mp stepped
        subst result
        have kept : ((s.feeders place index).change change).log = (s.feeders place index).log := by
          cases change with
          | added subscriberId numQueues =>
              simp only [Feeder.change]
              split
              · rfl
              · rfl
          | removed subscriberId => rfl
        exact ⟨history, feeder_inv config s history inv place index _ (by rw [kept]; exact inv.feeders place index), same_history,
          extends_refl _⟩
      · cases stepped
  | feed place index =>
      simp only [Deployment.step] at stepped
      split at stepped
      · rename_i enabled
        obtain ⟨good, service⟩ := feed_inv config s history inv place index next enabled.1 stepped
        exact ⟨history, good, same_history, service ▸ extends_refl _⟩
      · cases stepped
  | poll wire =>
      simp only [Deployment.step] at stepped
      split at stepped
      · cases stepped
      · rename_i reader present
        split at stepped
        · rename_i idle
          obtain ⟨message, access, result⟩ := Option.map_eq_some_iff.mp stepped
          subst result
          have received := inv.wires wire message (List.mem_of_getElem? access)
          exact ⟨history, reader_inv config s history inv wire.subscriberId _ _
            (poll_reader _ reader (inv.readers _ reader present) blind config.failures wire.queue message idle received), same_history,
            extends_refl _⟩
        · cases stepped
  | store subscriberId queue =>
      simp only [Deployment.step] at stepped
      split at stepped
      · cases stepped
      · rename_i reader present
        obtain ⟨stored, ran, result⟩ := Option.map_eq_some_iff.mp stepped
        subst result
        exact ⟨history, reader_inv config s history inv subscriberId _ s.polled
          (store_reader _ reader (inv.readers _ reader present) small queue stored ran), same_history, extends_refl _⟩
  | process subscriberId index =>
      simp only [Deployment.step] at stepped
      split at stepped
      · cases stepped
      · rename_i reader present
        split at stepped
        · rename_i inside
          obtain ⟨processed, ran, result⟩ := Option.map_eq_some_iff.mp stepped
          subst result
          exact ⟨history, reader_inv config s history inv subscriberId _ s.polled
            (process_reader _ reader (inv.readers _ reader present) small index inside processed ran), same_history, extends_refl _⟩
        · cases stepped
  | recycle subscriberId =>
      obtain ⟨reader, present, result⟩ := Option.map_eq_some_iff.mp stepped
      subst result
      exact ⟨history, reader_inv config s history inv subscriberId _ s.polled
        (recycle_reader _ reader (inv.readers _ reader present)), same_history, extends_refl _⟩

-- A run from a state that is good already only adds to what has happened.
theorem deployment_extends (nodup : ∀ shard, (config.replicas shard).Nodup) (actions : List Action) (final : Deployment)
    (ran : Machine.run (Deployment.step config) s actions = some final) :
    ∃ after, final.Inv config.replicas after ∧ (∀ shard, history shard <+: after shard) ∧ Extends s.service final.service := by
  refine Machine.run_preserves (Deployment.step config)
    (fun now => ∃ after, now.Inv config.replicas after ∧ (∀ shard, history shard <+: after shard) ∧ Extends s.service now.service)
    ?_ s final ⟨history, inv, fun _ => List.prefix_rfl, extends_refl _⟩ actions ran
  intro now action next before stepped
  obtain ⟨middle, good, grows, extended⟩ := before
  obtain ⟨after, better, more, further⟩ := deployment_step config now middle good nodup next action stepped
  exact ⟨after, better, fun shard => (grows shard).trans (more shard), extends_trans _ _ _ extended further⟩

end

theorem deployment_run (config : Config) (nodup : ∀ shard, (config.replicas shard).Nodup) (actions : List Action) (s : Deployment)
    (ran : Machine.run (Deployment.step config) (Deployment.init config) actions = some s) :
    ∃ history, s.Inv config.replicas history := by
  obtain ⟨history, inv, _⟩ := deployment_extends config _ _ (init_deployment config) nodup actions s ran
  exact ⟨history, inv⟩

end ZipLog.System
