import ZipLog.Subscriber.Quorum

set_option autoImplicit false

namespace ZipLog.Subscriber

open Quorum

def lastGsn (stream : Stream) (stored : List (Nat × SubscriberLogEntry)) : Option Nat :=
  (ofStream stream stored).getLast?.map (fun entry => entry.2.gsn)

-- What a polling thread has passed on is in the log, the last one perhaps not
-- yet, and its positions stand where they inserted last.
structure Placement (s : Subscription) : Prop where
  holds : Holds s.log (s.stored.map Prod.snd)
  placed : ∀ stream : Stream, Placed s.log ((s.pollers stream.queue).shardInfo (stream.shard, stream.thread)).2 (lastGsn stream s.stored)
  order : ∀ queue, s.passed.filter (fun entry => entry.1 = queue) = s.stored.filter (fun entry => entry.1 = queue) ++
    (s.pollers queue).inserting.toList.map (fun entry => (queue, entry))

theorem init_placement (threads : Nat) (iterators : Nat → Iterator) : Placement (Subscription.init threads iterators) := by
  constructor
  · exact init_holds threads
  · intro stream
    exact init_placed _
  · intro queue
    rfl

theorem poll_position (failures : Nat) (poller : Poller) (current : SubscriberLogEntry) (at_key : Nat × Nat) :
    ((poller.poll failures current).shardInfo at_key).2 = (poller.shardInfo at_key).2 := by
  have kept : ∀ entry, ((poller.counted failures current entry).shardInfo at_key).2 = (poller.shardInfo at_key).2 := by
    intro entry
    rw [counted_info]
    split
    · by_cases same : at_key = key current
      · subst same
        rw [Function.update_self]
      · rw [Function.update_of_ne same]
    · rfl
  simp only [Poller.poll]
  split
  · rfl
  · split
    · exact kept _
    · split
      · rfl
      · exact kept _

theorem arrived_placement (top : Topology) (s : Subscription) (stream : Stream) (replica : Nat) (message : SubscriberLogEntry)
    (placement : Placement s) (idle : (s.pollers stream.queue).inserting = none) : Placement (s.arrived top stream replica message) := by
  constructor
  · exact placement.holds
  · intro other
    have placed := placement.placed other
    simp only [Subscription.arrived]
    by_cases queue : other.queue = stream.queue
    · rw [queue] at placed ⊢
      rw [Function.update_self, poll_position]
      exact placed
    · rw [Function.update_of_ne queue]
      exact placed
  · intro queue
    have order := placement.order queue
    simp only [Subscription.arrived, List.filter_append]
    by_cases same : queue = stream.queue
    · subst same
      have own : (((s.pollers stream.queue).poll top.failures { message with replicaId := replica }).inserting.toList.map
          (fun entry => (stream.queue, entry))).filter (fun entry => decide (entry.1 = stream.queue)) =
          ((s.pollers stream.queue).poll top.failures { message with replicaId := replica }).inserting.toList.map
            (fun entry => (stream.queue, entry)) := List.filter_eq_self.mpr (by simp)
      rw [order, idle, Function.update_self, own]
      simp
    · have foreign : (((s.pollers stream.queue).poll top.failures { message with replicaId := replica }).inserting.toList.map
          (fun entry => (stream.queue, entry))).filter (fun entry => decide (entry.1 = queue)) = [] := by
        apply List.filter_eq_nil_iff.mpr
        intro entry member
        obtain ⟨_, _, rfl⟩ := List.mem_map.mp member
        simpa using Ne.symm same
      rw [order, foreign, Function.update_of_ne same, List.append_nil]

-- The entry that is being inserted is the next of its stream.
theorem inserting_fresh (top : Topology) (s : Subscription) (reached : Stream → Nat) (queue : Nat) (entry : SubscriberLogEntry)
    (valid : top.Valid) (ledger : Ledger top s reached) (placement : Placement s) (busy : (s.pollers queue).inserting = some entry) :
    (∀ other ∈ s.stored.map Prod.snd, other.gsn ≠ entry.gsn) ∧
      above (lastGsn ⟨entry.shardId, entry.threadId, queue⟩ s.stored) entry.gsn := by
  have order := placement.order queue
  rw [busy, Option.toList_some, List.map_singleton] at order
  have passed : (queue, entry) ∈ s.passed := by
    have last : (queue, entry) ∈ s.passed.filter (fun entry => entry.1 = queue) := by rw [order]; simp
    exact (List.mem_filter.mp last).1
  constructor
  · intro other stored same
    obtain ⟨⟨queue', other⟩, inside, rfl⟩ := List.mem_map.mp stored
    have present : (queue', other) ∈ s.passed := by
      have first : (queue', other) ∈ s.passed.filter (fun entry => entry.1 = queue') := by
        rw [placement.order queue']
        exact List.mem_append_left _ (List.mem_filter.mpr ⟨inside, by simp⟩)
      exact (List.mem_filter.mp first).1
    have equal : (queue', other) = (queue, entry) := List.inj_on_of_nodup_map ledger.once present passed same
    simp only [Prod.mk.injEq] at equal
    obtain ⟨rfl, rfl⟩ := equal
    have twice : (s.passed.filter (fun entry => entry.1 = queue')).Nodup := (List.Nodup.of_map _ ledger.once).filter _
    rw [order] at twice
    exact (List.nodup_append.mp twice).2.2 _ (List.mem_filter.mpr ⟨inside, by simp⟩) _ (List.mem_singleton_self _) rfl
  · intro before last
    obtain ⟨previous, final, rfl⟩ := Option.map_eq_some_iff.mp last
    have streams : ofStream ⟨entry.shardId, entry.threadId, queue⟩ s.passed =
        ofStream ⟨entry.shardId, entry.threadId, queue⟩ s.stored ++ [(queue, entry)] := by
      have narrowed : ∀ passed : List (Nat × SubscriberLogEntry), ofStream ⟨entry.shardId, entry.threadId, queue⟩ passed =
          ofStream ⟨entry.shardId, entry.threadId, queue⟩ (passed.filter (fun entry => entry.1 = queue)) := by
        intro passed
        rw [ofStream, ofStream, List.filter_filter]
        apply List.filter_congr
        intro other _
        by_cases own : other.1 = queue
        · simp [streamOf, own]
        · simp [streamOf, own]
      rw [narrowed, order, narrowed s.stored, ofStream, List.filter_append, ← ofStream]
      simp [streamOf]
    have sorted : (ofStream ⟨entry.shardId, entry.threadId, queue⟩ s.passed).Pairwise (fun first second => first.2.gsn < second.2.gsn) := by
      rw [(ledger.tallied _).passed]
      exact List.Pairwise.map _ (fun _ _ less => less) ((messages_increasing top valid _).sublist (List.take_sublist _ _))
    rw [streams] at sorted
    exact (List.pairwise_append.mp sorted).2.2 previous (List.mem_of_getLast? final) _ (List.mem_singleton_self _)

theorem log_placement (s : Subscription) (log : Log) (iterators : Nat → Iterator) (placement : Placement s)
    (holds : Holds log (s.stored.map Prod.snd)) (more : s.log.numBlocks ≤ log.numBlocks) :
    Placement { s with log := log, iterators := iterators } :=
  ⟨holds, fun stream => placed_grow s.log log _ _ more (placement.placed stream), placement.order⟩

theorem poller_store_cases (log after : Log) (poller moved : Poller) (entry : SubscriberLogEntry) (busy : poller.inserting = some entry)
    (ran : poller.store log = some (after, moved)) : ∃ position, (poller.shardInfo (key entry)).2.ready log entry.gsn ∧
      (poller.shardInfo (key entry)).2.insert log entry = some (after, position) ∧
      moved = { poller with
        shardInfo := Function.update poller.shardInfo (key entry) ((poller.shardInfo (key entry)).1, position)
        inserting := none } := by
  simp only [Poller.store, busy] at ran
  split at ran
  · rename_i ready
    split at ran
    · cases ran
    · rename_i log' position inserted
      cases ran
      exact ⟨position, ready, inserted, rfl⟩
  · cases ran

def Subscription.saved (s : Subscription) (queue : Nat) (entry : SubscriberLogEntry) (log : Log) (poller : Poller) : Subscription :=
  { s with log := log, pollers := Function.update s.pollers queue poller, stored := s.stored ++ [(queue, entry)] }

theorem saved_placement (top : Topology) (valid : top.Valid) (s : Subscription) (reached : Stream → Nat) (queue : Nat)
    (entry : SubscriberLogEntry) (log : Log) (poller : Poller) (ledger : Ledger top s reached) (placement : Placement s)
    (busy : (s.pollers queue).inserting = some entry) (ran : (s.pollers queue).store s.log = some (log, poller)) :
    Placement (s.saved queue entry log poller) := by
  obtain ⟨position, ready, inserted, rfl⟩ := poller_store_cases s.log log _ poller entry busy ran
  obtain ⟨fresh, later⟩ := inserting_fresh top s reached queue entry valid ledger placement busy
  have placed := placement.placed ⟨entry.shardId, entry.threadId, queue⟩
  obtain ⟨holds, moved, blocks, _⟩ := insert_holds s.log log _ _ position _ entry placement.holds placed later fresh ready inserted
  constructor
  · simpa [Subscription.saved] using holds
  · intro stream
    simp only [Subscription.saved, lastGsn, ofStream, List.filter_append]
    by_cases own : stream = ⟨entry.shardId, entry.threadId, queue⟩
    · subst own
      simpa [key, streamOf] using moved
    · have other := placed_grow s.log log _ _ (Nat.le_of_eq blocks.symm) (placement.placed stream)
      have foreign : ¬ streamOf (queue, entry) = stream := fun same => own same.symm
      rw [List.filter_cons_of_neg (by simpa using foreign), List.filter_nil, List.append_nil]
      by_cases here : stream.queue = queue
      · subst here
        have apart : (stream.shard, stream.thread) ≠ key entry := by
          intro same
          apply own
          simp only [key, Prod.mk.injEq] at same
          cases stream
          simp_all
        rw [Function.update_self]
        simp only [Function.update_of_ne apart]
        exact other
      · rw [Function.update_of_ne here]
        exact other
  · intro at_queue
    have order := placement.order at_queue
    simp only [Subscription.saved, List.filter_append]
    by_cases here : at_queue = queue
    · subst here
      rw [order, busy, Function.update_self]
      simp
    · have foreign : ¬ queue = at_queue := fun same => here same.symm
      rw [order, Function.update_of_ne here]
      simp [foreign]

theorem saved_ledger (top : Topology) (s : Subscription) (reached : Stream → Nat) (queue : Nat) (entry : SubscriberLogEntry) (log : Log)
    (poller : Poller) (ledger : Ledger top s reached) (busy : (s.pollers queue).inserting = some entry)
    (ran : (s.pollers queue).store s.log = some (log, poller)) : Ledger top (s.saved queue entry log poller) reached := by
  obtain ⟨position, _, _, rfl⟩ := poller_store_cases s.log log _ poller entry busy ran
  refine ledger_congr top s _ reached rfl rfl ?_ ?_ ledger
  · intro at_queue at_key
    by_cases here : at_queue = queue
    · subst here
      simp only [Subscription.saved, Function.update_self]
      by_cases same : at_key = key entry
      · subst same
        rw [Function.update_self]
      · rw [Function.update_of_ne same]
    · simp only [Subscription.saved, Function.update_of_ne here]
  · intro at_queue
    by_cases here : at_queue = queue
    · subst here
      simp only [Subscription.saved, Function.update_self]
    · simp only [Subscription.saved, Function.update_of_ne here]

-- What a step can do.
theorem subscription_step_cases (top : Topology) (s next : Subscription) (label : Step) (ran : s.step top label = some next) :
    (∃ stream replica message, label = .arrive stream replica ∧ replica ∈ top.replicas stream.shard ∧
      (s.pollers stream.queue).inserting = none ∧ (top.messages stream)[s.progress stream replica]? = some message ∧
      next = s.arrived top stream replica message) ∨
    (∃ queue entry log poller, label = .store queue ∧ (s.pollers queue).inserting = some entry ∧
      (s.pollers queue).store s.log = some (log, poller) ∧ next = s.saved queue entry log poller) ∨
    (∃ log iterators, (∀ queue, label ≠ .store queue) ∧ next = { s with log := log, iterators := iterators } ∧
      s.log.numBlocks ≤ log.numBlocks ∧ ∀ inserted, Holds s.log inserted → Holds log inserted) := by
  cases label with
  | arrive stream replica =>
      left
      simp only [Subscription.step] at ran
      split at ran
      · rename_i enabled
        obtain ⟨message, access, rfl⟩ := Option.map_eq_some_iff.mp ran
        exact ⟨stream, replica, message, rfl, enabled.1, enabled.2, access, rfl⟩
      · cases ran
  | store queue =>
      right
      left
      simp only [Subscription.step] at ran
      split at ran
      · cases ran
      · rename_i entry busy
        split at ran
        · cases ran
        · rename_i log poller stored
          cases ran
          exact ⟨queue, entry, log, poller, rfl, busy, stored, rfl⟩
  | process thread =>
      right
      right
      simp only [Subscription.step] at ran
      split at ran
      · cases ran
      · rename_i log it found advanced
        cases ran
        obtain ⟨counters, rfl⟩ := next_entry_log s.log log _ it found advanced
        exact ⟨_, _, fun queue => by simp, rfl, Nat.le_refl _, fun inserted holds => counters_hold s.log inserted counters holds⟩
  | recycle =>
      right
      right
      cases ran
      exact ⟨_, s.iterators, fun queue => by simp, rfl, recycle_grows s.log, fun inserted holds => recycle_holds s.log inserted holds⟩

theorem subscription_step (top : Topology) (valid : top.Valid) (s next : Subscription) (label : Step)
    (inv : (∃ reached, Ledger top s reached) ∧ Placement s) (ran : s.step top label = some next) :
    (∃ reached, Ledger top next reached) ∧ Placement next := by
  obtain ⟨⟨reached, ledger⟩, placement⟩ := inv
  obtain ⟨stream, replica, message, rfl, member, idle, access, rfl⟩ | ⟨queue, entry, log, poller, rfl, busy, stored, rfl⟩ |
    ⟨log, iterators, _, rfl, more, holds⟩ := subscription_step_cases top s next label ran
  · exact ⟨⟨_, arrived_ledger top valid s stream reached replica message ledger access member idle⟩,
      arrived_placement top s stream replica message placement idle⟩
  · exact ⟨⟨reached, saved_ledger top s reached queue entry log poller ledger busy stored⟩,
      saved_placement top valid s reached queue entry log poller ledger placement busy stored⟩
  · exact ⟨⟨reached, ledger_congr top s _ reached rfl rfl (fun _ _ => rfl) (fun _ => rfl) ledger⟩,
      log_placement s log iterators placement (holds _ placement.holds) more⟩

theorem subscription_run (top : Topology) (valid : top.Valid) (threads : Nat) (iterators : Nat → Iterator) (labels : List Step)
    (s : Subscription) (ran : Machine.run (Subscription.step top) (Subscription.init threads iterators) labels = some s) :
    (∃ reached, Ledger top s reached) ∧ Placement s :=
  Machine.run_preserves (Subscription.step top) _ (fun s label next inv step => subscription_step top valid s next label inv step)
    (Subscription.init threads iterators) s
    ⟨⟨fun _ => 0, fun stream => init_tallied top threads iterators stream, List.nodup_nil⟩, init_placement threads iterators⟩ labels ran

-- The main result. passed lists the calls of position::insert with the polling
-- queue that made them; a message counts as arrived when its thread handles it.
theorem quorum_delivery (top : Topology) (valid : top.Valid) (threads : Nat) (iterators : Nat → Iterator) (labels : List Step)
    (s : Subscription) (ran : Machine.run (Subscription.step top) (Subscription.init threads iterators) labels = some s) :
    (s.passed.map (fun entry => entry.2.gsn)).Nodup ∧
    (∀ entry ∈ s.passed, ∃ message ∈ top.messages (streamOf entry), entry.2 = { message with replicaId := top.failures + 1 }) ∧
    (∀ (stream : Stream) (k : Nat) (message : SubscriberLogEntry), (top.messages stream)[k]? = some message →
      ((∃ entry ∈ s.passed, entry.2.gsn = message.gsn) ↔
        top.failures < count (top.replicas stream.shard) (s.progress stream) k)) ∧
    (∀ stream, (ofStream stream s.passed).Pairwise (fun first second => first.2.gsn < second.2.gsn)) ∧
    (∀ (queue : Nat) (entry : SubscriberLogEntry), (s.pollers queue).inserting = some entry →
      (((s.pollers queue).shardInfo (key entry)).2.seek s.log entry.gsn).iterator = entry.gsn / numEntriesPerBlock) ∧
    (∀ (queue : Nat) (next : Subscription), s.step top (.store queue) = some next → ∃ entry,
      (s.pollers queue).inserting = some entry ∧ next.stored = s.stored ++ [(queue, entry)] ∧
      next.log.load (entry.gsn / numEntriesPerBlock) (entry.gsn % numEntriesPerBlock) = some (some entry)) := by
  obtain ⟨⟨reached, ledger⟩, placement⟩ := subscription_run top valid threads iterators labels s ran
  refine ⟨ledger.once, ?_, ?_, ?_, ?_, ?_⟩
  · intro entry member
    obtain ⟨k, message, _, access, copy⟩ := passed_message top s reached entry ledger.tallied member
    exact ⟨message, List.mem_of_getElem? access, copy⟩
  · intro stream k message access
    have tallied := ledger.tallied stream
    rw [← tallied.quorum]
    constructor
    · intro found
      obtain ⟨entry, member, same⟩ := found
      obtain ⟨k', message', less, access', copy⟩ := passed_message top s reached entry ledger.tallied member
      have equal : message'.gsn = message.gsn := by rw [← same, copy]
      have streams := message_stream top valid _ stream message' message (List.mem_of_getElem? access') (List.mem_of_getElem? access) equal
      rw [streams] at access' less
      have index := message_index top valid stream k' k message' message access' access equal
      omega
    · intro less
      have taken : (stream.queue, { message with replicaId := top.failures + 1 }) ∈ ofStream stream s.passed := by
        rw [tallied.passed]
        apply List.mem_map_of_mem
        apply List.mem_of_getElem? (i := k)
        rw [List.getElem?_take, if_pos less]
        exact access
      exact ⟨_, (List.mem_filter.mp taken).1, rfl⟩
  · intro stream
    rw [(ledger.tallied stream).passed]
    exact List.Pairwise.map _ (fun _ _ less => less) ((messages_increasing top valid stream).sublist (List.take_sublist _ _))
  · intro queue entry busy
    obtain ⟨_, later⟩ := inserting_fresh top s reached queue entry valid ledger placement busy
    exact (seek_place s.log _ _ entry.gsn (placement.placed ⟨entry.shardId, entry.threadId, queue⟩) later).1
  · intro queue next stored
    obtain ⟨_, _, _, impossible, _⟩ | ⟨queue', entry, log, poller, same, busy, saved, rfl⟩ | ⟨_, _, elsewhere, _⟩ :=
      subscription_step_cases top s next (.store queue) stored
    · cases impossible
    · cases same
      obtain ⟨position, _, inserted, rfl⟩ := poller_store_cases s.log log _ poller entry busy saved
      obtain ⟨_, later⟩ := inserting_fresh top s reached queue entry valid ledger placement busy
      exact ⟨entry, busy, rfl, insert_load s.log log _ position _ entry (placement.placed ⟨entry.shardId, entry.threadId, queue⟩) later inserted⟩
    · exact absurd rfl (elsewhere queue)

def threeReplicas : Topology :=
  { replicas := fun _ => [0, 1, 2]
    entries := fun shard => if shard = 0 then
      [⟨0, 0, 0, 7, 0, [1]⟩, ⟨0, 0, 0, 8, 2, []⟩, ⟨0, 0, 0, 7, 3, [2, 3]⟩] else []
    subscriberThreads := 2
    pollingThreads := 2
    failures := 1 }

theorem three_replicas_valid : threeReplicas.Valid := by
  constructor
  · intro shard
    simp [threeReplicas]
  · intro shard
    by_cases first : shard = 0 <;> simp [threeReplicas, first]
  · intro shard
    by_cases first : shard = 0 <;> simp [threeReplicas, first]
  · intro shard other entry left entry' right _
    by_cases first : shard = 0
    · by_cases second : other = 0
      · rw [first, second]
      · simp [threeReplicas, second] at right
    · simp [threeReplicas, first] at left
  · intro shard
    by_cases first : shard = 0 <;> simp [threeReplicas, first, uint64Max]

-- Replica 2 runs ahead of replica 0 and replica 1 comes too late.
def aheadAndLate : List Step :=
  [.arrive ⟨0, 0, 1⟩ 2, .arrive ⟨0, 0, 1⟩ 2, .arrive ⟨0, 0, 1⟩ 0, .store 1, .arrive ⟨0, 0, 1⟩ 1, .arrive ⟨0, 1, 2⟩ 1, .process 0,
    .arrive ⟨0, 0, 1⟩ 1]

theorem quorum_delivery_three_replicas : ∃ s,
    Machine.run (Subscription.step threeReplicas) (Subscription.init 1 (fun _ => Iterator.init 0 1 0)) aheadAndLate = some s ∧
    s.passed.map (fun entry => entry.2.gsn) = [0, 3] ∧ (s.passed.map (fun entry => entry.2.gsn)).Nodup := by
  have enabled : ((Machine.run (Subscription.step threeReplicas) (Subscription.init 1 (fun _ => Iterator.init 0 1 0)) aheadAndLate).map
      (fun s => s.passed.map (fun entry => entry.2.gsn))) = some [0, 3] := by decide +kernel
  obtain ⟨s, ran, passed⟩ := Option.map_eq_some_iff.mp enabled
  exact ⟨s, ran, passed, (quorum_delivery threeReplicas three_replicas_valid 1 _ aheadAndLate s ran).1⟩

end ZipLog.Subscriber
