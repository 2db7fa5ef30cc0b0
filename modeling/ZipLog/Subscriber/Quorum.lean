import ZipLog.Lib.Quorum
import ZipLog.Lib.Run
import ZipLog.Subscriber.Contents
import ZipLog.Subscriber.Poll
import Mathlib.Data.List.GetD

set_option autoImplicit false

namespace ZipLog.Subscriber

open Quorum

-- Who sends what: the replicas of each shard, the entries of its log in log
-- order, the subscriber threads of each storage server and the polling queues.
structure Topology where
  replicas : Nat → List Nat
  entries : Nat → List SubscriberLogEntry
  subscriberThreads : Nat
  pollingThreads : Nat
  failures : Nat

-- GSNs grow along each log, belong to one shard and are never the sentinel.
structure Topology.Valid (top : Topology) : Prop where
  nodup : ∀ shard, (top.replicas shard).Nodup
  increasing : ∀ shard, (top.entries shard).Pairwise (fun first second => first.gsn < second.gsn)
  owner : ∀ shard, ∀ entry ∈ top.entries shard, entry.shardId = shard
  apart : ∀ shard other, ∀ entry ∈ top.entries shard, ∀ entry' ∈ top.entries other, entry.gsn = entry'.gsn → shard = other
  small : ∀ shard, ∀ entry ∈ top.entries shard, entry.gsn < uint64Max

-- A stream is what one thread of one replica writes to one polling queue.
structure Stream where
  shard : Nat
  thread : Nat
  queue : Nat
deriving DecidableEq, Repr

-- num_sent is the log index of the entry.
def Topology.sends (top : Topology) (stream : Stream) (index : Nat) : Bool :=
  index % top.subscriberThreads = stream.thread ∧ 1 + index % top.pollingThreads = stream.queue

def Topology.messages (top : Topology) (stream : Stream) : List SubscriberLogEntry :=
  ((top.entries stream.shard).zipIdx.filter (fun sent => top.sends stream sent.2)).map
    (fun sent => { sent.1 with threadId := stream.thread })

structure Subscription where
  log : Log
  pollers : Nat → Poller
  progress : Stream → Nat → Nat
  passed : List (Nat × SubscriberLogEntry)
  stored : List (Nat × SubscriberLogEntry)
  iterators : Nat → Iterator

inductive Step where
  | arrive (stream : Stream) (replica : Nat)
  | store (queue : Nat)
  | process (thread : Nat)
  | recycle
deriving DecidableEq, Repr

def Subscription.init (threads : Nat) (iterators : Nat → Iterator) : Subscription :=
  ⟨Log.init threads, fun _ => Poller.init, fun _ _ => 0, [], [], iterators⟩

def Subscription.arrived (top : Topology) (s : Subscription) (stream : Stream) (replica : Nat) (message : SubscriberLogEntry) : Subscription :=
  let poller := (s.pollers stream.queue).poll top.failures { message with replicaId := replica }
  { s with
    pollers := Function.update s.pollers stream.queue poller
    progress := Function.update s.progress stream (advance (s.progress stream) replica)
    passed := s.passed ++ poller.inserting.toList.map (fun entry => (stream.queue, entry)) }

-- A thread handles its next message when it is not inside position::insert.
def Subscription.step (top : Topology) (s : Subscription) : Step → Option Subscription
  | .arrive stream replica =>
      if replica ∈ top.replicas stream.shard ∧ (s.pollers stream.queue).inserting = none then
        ((top.messages stream)[s.progress stream replica]?).map (s.arrived top stream replica)
      else none
  | .store queue =>
      match (s.pollers queue).inserting with
      | none => none
      | some entry =>
          match (s.pollers queue).store s.log with
          | none => none
          | some (log, poller) => some { s with
              log := log
              pollers := Function.update s.pollers queue poller
              stored := s.stored ++ [(queue, entry)] }
  | .process thread =>
      match (s.iterators thread).nextEntry s.log with
      | none => none
      | some (log, it, _) => some { s with log := log, iterators := Function.update s.iterators thread it }
  | .recycle => some { s with log := s.log.recycleBlocks }

theorem message_source (top : Topology) (stream : Stream) (message : SubscriberLogEntry)
    (member : message ∈ top.messages stream) : ∃ (index : Nat) (entry : SubscriberLogEntry),
      (top.entries stream.shard)[index]? = some entry ∧ top.sends stream index = true ∧
      message = { entry with threadId := stream.thread } := by
  obtain ⟨⟨entry, index⟩, kept, rfl⟩ := List.mem_map.mp member
  obtain ⟨inside, sent⟩ := List.mem_filter.mp kept
  exact ⟨index, entry, List.mk_mem_zipIdx_iff_getElem?.mp inside, sent, rfl⟩

theorem messages_increasing (top : Topology) (valid : top.Valid) (stream : Stream) :
    (top.messages stream).Pairwise (fun first second => first.gsn < second.gsn) := by
  have indexed : (top.entries stream.shard).zipIdx.Pairwise (fun first second => first.1.gsn < second.1.gsn) := by
    apply List.Pairwise.of_map (S := fun first second : SubscriberLogEntry => first.gsn < second.gsn) Prod.fst (fun _ _ less => less)
    rw [List.zipIdx_map_fst]
    exact valid.increasing stream.shard
  exact List.Pairwise.map _ (fun _ _ less => less) (indexed.filter _)

theorem message_fields (top : Topology) (valid : top.Valid) (stream : Stream) (message : SubscriberLogEntry)
    (member : message ∈ top.messages stream) :
    message.shardId = stream.shard ∧ message.threadId = stream.thread ∧ message.gsn < uint64Max := by
  obtain ⟨index, entry, access, _, rfl⟩ := message_source top stream message member
  have inside := List.mem_of_getElem? access
  exact ⟨valid.owner stream.shard entry inside, rfl, valid.small stream.shard entry inside⟩

-- A GSN comes on one stream only.
theorem message_stream (top : Topology) (valid : top.Valid) (stream other : Stream) (message message' : SubscriberLogEntry)
    (left : message ∈ top.messages stream) (right : message' ∈ top.messages other) (same : message.gsn = message'.gsn) :
    stream = other := by
  obtain ⟨index, entry, access, sent, rfl⟩ := message_source top stream message left
  obtain ⟨index', entry', access', sent', rfl⟩ := message_source top other message' right
  obtain ⟨shard, thread, queue⟩ := stream
  obtain ⟨shard', thread', queue'⟩ := other
  obtain rfl : shard = shard' := valid.apart _ _ entry (List.mem_of_getElem? access) entry' (List.mem_of_getElem? access') same
  obtain ⟨bound, rfl⟩ := List.getElem?_eq_some_iff.mp access
  obtain ⟨bound', rfl⟩ := List.getElem?_eq_some_iff.mp access'
  have sorted := List.pairwise_iff_getElem.mp (valid.increasing shard)
  have sameIndex : index = index' := by
    rcases Nat.lt_trichotomy index index' with less | equal | more
    · have := sorted index index' bound bound' less
      simp only at same
      omega
    · exact equal
    · have := sorted index' index bound' bound more
      simp only at same
      omega
  subst sameIndex
  simp only [Topology.sends, decide_eq_true_eq] at sent sent'
  rw [← sent.1, ← sent.2, ← sent'.1, ← sent'.2]

theorem message_index (top : Topology) (valid : top.Valid) (stream : Stream) (first second : Nat) (message message' : SubscriberLogEntry)
    (left : (top.messages stream)[first]? = some message) (right : (top.messages stream)[second]? = some message')
    (same : message.gsn = message'.gsn) : first = second := by
  obtain ⟨bound, rfl⟩ := List.getElem?_eq_some_iff.mp left
  obtain ⟨bound', rfl⟩ := List.getElem?_eq_some_iff.mp right
  have sorted := List.pairwise_iff_getElem.mp (messages_increasing top valid stream)
  rcases Nat.lt_trichotomy first second with less | equal | more
  · have := sorted first second bound bound' less
    omega
  · exact equal
  · have := sorted second first bound' bound more
    omega

def streamOf (passed : Nat × SubscriberLogEntry) : Stream := ⟨passed.2.shardId, passed.2.threadId, passed.1⟩

def ofStream (stream : Stream) (passed : List (Nat × SubscriberLogEntry)) : List (Nat × SubscriberLogEntry) :=
  passed.filter (fun entry => streamOf entry = stream)

def latest (entries : List SubscriberLogEntry) : Nat := (entries.getLast?.map SubscriberLogEntry.gsn).getD uint64Max

-- The messages of a stream that have been passed on are its first ones.
structure Tallied (top : Topology) (s : Subscription) (stream : Stream) (reached : Nat) : Prop where
  bounded : ∀ replica, s.progress stream replica ≤ (top.messages stream).length
  quorum : ∀ k, k < reached ↔ top.failures < count (top.replicas stream.shard) (s.progress stream) k
  latest : ((s.pollers stream.queue).shardInfo (stream.shard, stream.thread)).1 = latest ((top.messages stream).take reached)
  requests : ∀ (k : Nat) message, (top.messages stream)[k]? = some message →
    (s.pollers stream.queue).currentRequests message.gsn =
      if reached ≤ k ∧ 0 < count (top.replicas stream.shard) (s.progress stream) k then
        some { message with replicaId := count (top.replicas stream.shard) (s.progress stream) k }
      else none
  passed : ofStream stream s.passed =
    ((top.messages stream).take reached).map (fun message => (stream.queue, { message with replicaId := top.failures + 1 }))

theorem init_tallied (top : Topology) (threads : Nat) (iterators : Nat → Iterator) (stream : Stream) :
    Tallied top (Subscription.init threads iterators) stream 0 := by
  constructor
  · intro replica
    exact Nat.zero_le _
  · intro k
    rw [show (Subscription.init threads iterators).progress stream = fun _ => 0 from rfl, count_none]
    omega
  · rfl
  · intro k message _
    rw [show (Subscription.init threads iterators).progress stream = fun _ => 0 from rfl, count_none]
    simp [Subscription.init, Poller.init]
  · simp [Subscription.init, ofStream]

theorem tallied_reached (top : Topology) (s : Subscription) (stream : Stream) (reached : Nat) (tallied : Tallied top s stream reached) :
    reached ≤ (top.messages stream).length := by
  apply Nat.le_of_not_lt
  intro beyond
  have enough := (tallied.quorum _).mp beyond
  rw [count_zero _ _ _ (fun replica _ => tallied.bounded replica)] at enough
  omega

theorem tallied_stale (top : Topology) (valid : top.Valid) (s : Subscription) (stream : Stream) (reached k : Nat)
    (message : SubscriberLogEntry) (tallied : Tallied top s stream reached) (access : (top.messages stream)[k]? = some message) :
    (((s.pollers stream.queue).shardInfo (stream.shard, stream.thread)).1 ≠ uint64Max ∧
      message.gsn ≤ ((s.pollers stream.queue).shardInfo (stream.shard, stream.thread)).1) ↔ k < reached := by
  have least := tallied_reached top s stream reached tallied
  rw [tallied.latest]
  cases reached with
  | zero => simp [latest]
  | succ before =>
      have bound : before < (top.messages stream).length := least
      have last : latest ((top.messages stream).take (before + 1)) = (top.messages stream)[before].gsn := by
        rw [List.take_add_one, List.getElem?_eq_getElem bound, latest, Option.toList_some, List.getLast?_concat]
        rfl
      have small := (message_fields top valid stream _ (List.getElem_mem bound)).2.2
      obtain ⟨inside, rfl⟩ := List.getElem?_eq_some_iff.mp access
      have sorted := List.pairwise_iff_getElem.mp (messages_increasing top valid stream)
      rw [last]
      constructor
      · intro stale
        apply Nat.lt_of_not_le
        intro beyond
        have := sorted before k bound inside beyond
        omega
      · intro old
        refine ⟨by omega, ?_⟩
        rcases Nat.lt_or_eq_of_le (Nat.le_of_lt_succ old) with less | same
        · exact Nat.le_of_lt (sorted k before inside bound less)
        · subst same
          exact Nat.le_refl _

-- A message that is not stale adds one to the count of its entry.
theorem poll_tallied (top : Topology) (valid : top.Valid) (s : Subscription) (stream : Stream) (reached replica : Nat)
    (message : SubscriberLogEntry) (tallied : Tallied top s stream reached)
    (access : (top.messages stream)[s.progress stream replica]? = some message) :
    (s.pollers stream.queue).poll top.failures { message with replicaId := replica } =
      if s.progress stream replica < reached then s.pollers stream.queue
      else (s.pollers stream.queue).counted top.failures { message with replicaId := replica }
        { message with replicaId := count (top.replicas stream.shard) (s.progress stream) (s.progress stream replica) } := by
  obtain ⟨shard, thread, _⟩ := message_fields top valid stream message (List.mem_of_getElem? access)
  have key_eq : key { message with replicaId := replica } = (stream.shard, stream.thread) := by
    rw [key, shard, thread]
  have stale := tallied_stale top valid s stream reached _ message tallied access
  have request := tallied.requests _ message access
  by_cases old : s.progress stream replica < reached
  · simp only [Poller.poll, key_eq, if_pos (stale.mpr old), if_pos old]
  · simp only [Poller.poll, key_eq, if_neg (fun now => old (stale.mp now)), if_neg old, request]
    by_cases first : 0 < count (top.replicas stream.shard) (s.progress stream) (s.progress stream replica)
    · simp only [if_pos (And.intro (Nat.le_of_not_lt old) first)]
      simp
    · have none_yet : count (top.replicas stream.shard) (s.progress stream) (s.progress stream replica) = 0 := by omega
      simp [none_yet]

theorem counted_inserting (failures : Nat) (poller : Poller) (current entry : SubscriberLogEntry) (idle : poller.inserting = none) :
    (poller.counted failures current entry).inserting =
      if failures < entry.replicaId + 1 then some { entry with replicaId := entry.replicaId + 1 } else none := by
  simp only [Poller.counted]
  split <;> simp [idle]

theorem counted_requests (failures : Nat) (poller : Poller) (current entry : SubscriberLogEntry) :
    (poller.counted failures current entry).currentRequests = Function.update poller.currentRequests current.gsn
      (if failures < entry.replicaId + 1 then none else some { entry with replicaId := entry.replicaId + 1 }) := by
  simp only [Poller.counted]
  split <;> rfl

theorem counted_info (failures : Nat) (poller : Poller) (current entry : SubscriberLogEntry) :
    (poller.counted failures current entry).shardInfo = if failures < entry.replicaId + 1 then
      Function.update poller.shardInfo (key current) (current.gsn, (poller.shardInfo (key current)).2) else poller.shardInfo := by
  simp only [Poller.counted]
  split <;> rfl

section Arrival

set_option linter.unusedSectionVars false

variable (top : Topology) (valid : top.Valid) (s : Subscription) (stream : Stream) (reached replica : Nat)
  (message : SubscriberLogEntry) (tallied : Tallied top s stream reached)
  (access : (top.messages stream)[s.progress stream replica]? = some message)

-- How many replicas have sent the message before this one.
def seen : Nat := count (top.replicas stream.shard) (s.progress stream) (s.progress stream replica)

include valid tallied access

theorem arrived_poller : (s.arrived top stream replica message).pollers stream.queue =
    if s.progress stream replica < reached then s.pollers stream.queue
    else (s.pollers stream.queue).counted top.failures { message with replicaId := replica }
      { message with replicaId := seen top s stream replica } := by
  simp only [Subscription.arrived, Function.update_self, poll_tallied top valid s stream reached replica message tallied access, seen]

theorem arrived_passed (idle : (s.pollers stream.queue).inserting = none) :
    (s.arrived top stream replica message).passed = s.passed ++
      if seen top s stream replica = top.failures then [(stream.queue, { message with replicaId := top.failures + 1 })] else [] := by
  have quorum := tallied.quorum (s.progress stream replica)
  simp only [Subscription.arrived, poll_tallied top valid s stream reached replica message tallied access]
  by_cases old : s.progress stream replica < reached
  · have enough := quorum.mp old
    rw [if_pos old, idle, if_neg (by simp only [seen]; omega)]
    rfl
  · have few : ¬ top.failures < seen top s stream replica := fun enough => old (quorum.mpr enough)
    rw [if_neg old, counted_inserting _ _ _ _ idle]
    simp only [← seen.eq_1]
    by_cases completes : seen top s stream replica = top.failures
    · rw [if_pos (by omega), if_pos completes, completes]
      rfl
    · rw [if_neg (by omega), if_neg completes]
      rfl

theorem arrived_key : key { message with replicaId := replica } = (stream.shard, stream.thread) := by
  obtain ⟨shard, thread, _⟩ := message_fields top valid stream message (List.mem_of_getElem? access)
  rw [key, shard, thread]

theorem arrived_few (new : ¬ s.progress stream replica < reached) : seen top s stream replica ≤ top.failures := by
  apply Nat.le_of_not_lt
  intro enough
  exact new ((tallied.quorum _).mpr enough)

theorem arrived_bounded (other : Nat) : (s.arrived top stream replica message).progress stream other ≤ (top.messages stream).length := by
  obtain ⟨inside, _⟩ := List.getElem?_eq_some_iff.mp access
  simp only [Subscription.arrived, Function.update_self, advance]
  by_cases same : other = replica
  · subst same
    rw [Function.update_self]
    exact inside
  · rw [Function.update_of_ne same]
    exact tallied.bounded other

variable (nodup : (top.replicas stream.shard).Nodup) (member : replica ∈ top.replicas stream.shard)

include nodup member

theorem arrived_oldest (completes : seen top s stream replica = top.failures) : reached = s.progress stream replica :=
  threshold_oldest _ _ replica _ reached nodup member tallied.quorum completes

theorem arrived_latest : (((s.arrived top stream replica message).pollers stream.queue).shardInfo (stream.shard, stream.thread)).1 =
    latest ((top.messages stream).take (reached + if seen top s stream replica = top.failures then 1 else 0)) := by
  rw [arrived_poller top valid s stream reached replica message tallied access]
  by_cases completes : seen top s stream replica = top.failures
  · have oldest := arrived_oldest top valid s stream reached replica message tallied access nodup member completes
    rw [if_neg (by omega), if_pos completes, counted_info, if_pos (by simp only; omega),
      arrived_key top valid s stream reached replica message tallied access, Function.update_self, oldest, List.take_add_one, access,
      latest, Option.toList_some, List.getLast?_concat]
    rfl
  · rw [if_neg completes, Nat.add_zero, ← tallied.latest]
    by_cases old : s.progress stream replica < reached
    · rw [if_pos old]
    · have few := arrived_few top valid s stream reached replica message tallied access old
      rw [if_neg old, counted_info, if_neg (by simp only; omega)]

theorem arrived_request : ((s.arrived top stream replica message).pollers stream.queue).currentRequests message.gsn =
    if reached + (if seen top s stream replica = top.failures then 1 else 0) ≤ s.progress stream replica then
      some { message with replicaId := seen top s stream replica + 1 } else none := by
  rw [arrived_poller top valid s stream reached replica message tallied access]
  by_cases old : s.progress stream replica < reached
  · rw [if_pos old, tallied.requests _ message access, if_neg (by omega), if_neg (by omega)]
  · have few := arrived_few top valid s stream reached replica message tallied access old
    rw [if_neg old, counted_requests, Function.update_self]
    by_cases completes : seen top s stream replica = top.failures
    · have oldest := arrived_oldest top valid s stream reached replica message tallied access nodup member completes
      rw [if_pos (by simp only; omega), if_pos completes, if_neg (by omega)]
    · rw [if_neg (by simp only; omega), if_neg completes, if_pos (by omega)]

theorem arrived_requests (k : Nat) (other : SubscriberLogEntry) (present : (top.messages stream)[k]? = some other) :
    ((s.arrived top stream replica message).pollers stream.queue).currentRequests other.gsn =
      if reached + (if seen top s stream replica = top.failures then 1 else 0) ≤ k ∧
          0 < count (top.replicas stream.shard) (advance (s.progress stream) replica) k then
        some { other with replicaId := count (top.replicas stream.shard) (advance (s.progress stream) replica) k }
      else none := by
  rw [count_advance _ _ replica k nodup member]
  by_cases here : k = s.progress stream replica
  · subst here
    obtain rfl : message = other := Option.some.inj (access.symm.trans present)
    rw [arrived_request top valid s stream reached replica message tallied access nodup member, if_pos rfl, ← seen.eq_1]
    simp
  · have different : other.gsn ≠ message.gsn := by
      intro same
      exact here (message_index top valid stream _ _ other message present access same)
    have window : reached + (if seen top s stream replica = top.failures then 1 else 0) ≤ k ↔ reached ≤ k := by
      by_cases completes : seen top s stream replica = top.failures
      · have := arrived_oldest top valid s stream reached replica message tallied access nodup member completes
        rw [if_pos completes]
        omega
      · rw [if_neg completes, Nat.add_zero]
    simp only [window, if_neg here, Nat.add_zero]
    rw [← tallied.requests k other present, arrived_poller top valid s stream reached replica message tallied access]
    by_cases old : s.progress stream replica < reached
    · rw [if_pos old]
    · rw [if_neg old, counted_requests, Function.update_of_ne different]

theorem arrived_stream (idle : (s.pollers stream.queue).inserting = none) :
    ofStream stream (s.arrived top stream replica message).passed =
      ((top.messages stream).take (reached + if seen top s stream replica = top.failures then 1 else 0)).map
        (fun message => (stream.queue, { message with replicaId := top.failures + 1 })) := by
  rw [arrived_passed top valid s stream reached replica message tallied access idle, ofStream, List.filter_append, ← ofStream,
    tallied.passed]
  by_cases completes : seen top s stream replica = top.failures
  · have oldest := arrived_oldest top valid s stream reached replica message tallied access nodup member completes
    have own : streamOf (stream.queue, { message with replicaId := top.failures + 1 }) = stream := by
      have same := arrived_key top valid s stream reached replica message tallied access
      simp only [key, Prod.mk.injEq] at same
      simp only [streamOf, same]
    rw [if_pos completes, if_pos completes, List.filter_cons_of_pos (by simpa using own), oldest, List.take_add_one, access]
    simp
  · rw [if_neg completes, if_neg completes]
    simp

theorem arrived_tallied (idle : (s.pollers stream.queue).inserting = none) :
    Tallied top (s.arrived top stream replica message) stream
      (reached + if seen top s stream replica = top.failures then 1 else 0) := by
  have progress : (s.arrived top stream replica message).progress stream = advance (s.progress stream) replica := by
    simp [Subscription.arrived]
  constructor
  · exact arrived_bounded top valid s stream reached replica message tallied access
  · intro k
    rw [progress]
    exact threshold_step _ _ replica _ reached nodup member tallied.quorum k
  · exact arrived_latest top valid s stream reached replica message tallied access nodup member
  · rw [progress]
    exact arrived_requests top valid s stream reached replica message tallied access nodup member
  · exact arrived_stream top valid s stream reached replica message tallied access nodup member idle

end Arrival

theorem arrived_other (top : Topology) (valid : top.Valid) (s : Subscription) (stream other : Stream) (reached reached' replica : Nat)
    (message : SubscriberLogEntry) (tallied : Tallied top s stream reached) (tallied' : Tallied top s other reached')
    (access : (top.messages stream)[s.progress stream replica]? = some message) (different : other ≠ stream)
    (idle : (s.pollers stream.queue).inserting = none) :
    Tallied top (s.arrived top stream replica message) other reached' := by
  have progress : (s.arrived top stream replica message).progress other = s.progress other := by
    simp only [Subscription.arrived, Function.update_of_ne different]
  have key_eq := arrived_key top valid s stream reached replica message tallied access
  have poller := arrived_poller top valid s stream reached replica message tallied access
  constructor
  · rw [progress]
    exact tallied'.bounded
  · rw [progress]
    exact tallied'.quorum
  · rw [← tallied'.latest]
    by_cases queue : other.queue = stream.queue
    · have apart : (other.shard, other.thread) ≠ (stream.shard, stream.thread) := by
        intro same
        simp only [Prod.mk.injEq] at same
        apply different
        cases other
        cases stream
        simp_all
      rw [queue, poller]
      split
      · rfl
      · rw [counted_info]
        split
        · rw [key_eq, Function.update_of_ne apart]
        · rfl
    · simp only [Subscription.arrived, Function.update_of_ne queue]
  · intro k entry present
    rw [progress, ← tallied'.requests k entry present]
    by_cases queue : other.queue = stream.queue
    · have apart : entry.gsn ≠ message.gsn := by
        intro same
        exact different (message_stream top valid other stream entry message (List.mem_of_getElem? present)
          (List.mem_of_getElem? access) same)
      rw [queue, poller]
      split
      · rfl
      · rw [counted_requests, Function.update_of_ne apart]
    · simp only [Subscription.arrived, Function.update_of_ne queue]
  · rw [arrived_passed top valid s stream reached replica message tallied access idle, ofStream, List.filter_append, ← ofStream,
      tallied'.passed]
    split
    · have foreign : ¬ streamOf (stream.queue, { message with replicaId := top.failures + 1 }) = other := by
        simp only [key, Prod.mk.injEq] at key_eq
        simp only [streamOf, key_eq]
        exact Ne.symm different
      rw [List.filter_cons_of_neg (by simpa using foreign)]
      simp
    · simp

-- What the polling threads have passed on over all streams.
structure Ledger (top : Topology) (s : Subscription) (reached : Stream → Nat) : Prop where
  tallied : ∀ stream, Tallied top s stream (reached stream)
  once : (s.passed.map (fun entry => entry.2.gsn)).Nodup

theorem passed_message (top : Topology) (s : Subscription) (reached : Stream → Nat) (entry : Nat × SubscriberLogEntry)
    (tallied : ∀ stream, Tallied top s stream (reached stream)) (member : entry ∈ s.passed) :
    ∃ (k : Nat) (message : SubscriberLogEntry), k < reached (streamOf entry) ∧ (top.messages (streamOf entry))[k]? = some message ∧
      entry.2 = { message with replicaId := top.failures + 1 } := by
  have own : entry ∈ ofStream (streamOf entry) s.passed := List.mem_filter.mpr ⟨member, by simp⟩
  rw [(tallied (streamOf entry)).passed] at own
  obtain ⟨message, taken, same⟩ := List.mem_map.mp own
  obtain ⟨k, access⟩ := List.getElem?_of_mem taken
  rw [List.getElem?_take] at access
  split at access
  · rename_i less
    exact ⟨k, message, less, access, by rw [← same]⟩
  · cases access

theorem arrived_ledger (top : Topology) (valid : top.Valid) (s : Subscription) (stream : Stream) (reached : Stream → Nat) (replica : Nat)
    (message : SubscriberLogEntry) (ledger : Ledger top s reached)
    (access : (top.messages stream)[s.progress stream replica]? = some message) (member : replica ∈ top.replicas stream.shard)
    (idle : (s.pollers stream.queue).inserting = none) :
    Ledger top (s.arrived top stream replica message)
      (Function.update reached stream (reached stream + if seen top s stream replica = top.failures then 1 else 0)) := by
  have own := ledger.tallied stream
  have nodup := valid.nodup stream.shard
  constructor
  · intro other
    by_cases same : other = stream
    · subst same
      rw [Function.update_self]
      exact arrived_tallied top valid s other _ replica message own access nodup member idle
    · rw [Function.update_of_ne same]
      exact arrived_other top valid s stream other _ _ replica message own (ledger.tallied other) access same idle
  · rw [arrived_passed top valid s stream _ replica message own access idle]
    split
    · rename_i completes
      have oldest := arrived_oldest top valid s stream _ replica message own access nodup member completes
      rw [List.map_append, List.map_singleton]
      apply List.nodup_append.mpr
      refine ⟨ledger.once, List.nodup_singleton _, ?_⟩
      intro gsn before gsn' new same
      rw [List.mem_singleton.mp new] at same
      obtain ⟨entry, passed, rfl⟩ := List.mem_map.mp before
      obtain ⟨k, source, old, present, copy⟩ := passed_message top s reached entry ledger.tallied passed
      have equal : source.gsn = message.gsn := by rw [← same, copy]
      have streams := message_stream top valid _ stream source message (List.mem_of_getElem? present) (List.mem_of_getElem? access) equal
      rw [streams] at present old
      have index := message_index top valid stream k _ source message present access equal
      omega
    · simpa using ledger.once

theorem ledger_congr (top : Topology) (s next : Subscription) (reached : Stream → Nat) (progress : next.progress = s.progress)
    (passed : next.passed = s.passed) (info : ∀ queue key, ((next.pollers queue).shardInfo key).1 = ((s.pollers queue).shardInfo key).1)
    (requests : ∀ queue, (next.pollers queue).currentRequests = (s.pollers queue).currentRequests) (ledger : Ledger top s reached) :
    Ledger top next reached := by
  constructor
  · intro stream
    have tallied := ledger.tallied stream
    constructor
    · rw [progress]
      exact tallied.bounded
    · rw [progress]
      exact tallied.quorum
    · rw [info]
      exact tallied.latest
    · rw [requests, progress]
      exact tallied.requests
    · rw [passed]
      exact tallied.passed
  · rw [passed]
    exact ledger.once

end ZipLog.Subscriber
