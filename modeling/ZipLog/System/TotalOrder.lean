import ZipLog.Lib.Streams
import ZipLog.System.Integrity

set_option autoImplicit false

namespace ZipLog.System

open Storage Streams

-- What next_entry has given the application threads, in order, and the calls
-- of the callback: entries without data are passed over.
def Reader.stream (reader : Reader) : List (Nat × Nat × Bytes) :=
  reader.taken.map (fun item => (item.2.gsn, item.2.clientId, item.2.data))

def Reader.calls (reader : Reader) : List (Nat × Nat × Bytes) := reader.stream.filter (fun item => 0 < item.2.2.length)

def Slotted (it : Subscriber.Iterator) : Prop := ∀ place, it.entry = some place → place.2 < numEntriesPerBlock

theorem check_slotted (log after : Subscriber.Log) (inserted : List SubscriberLogEntry) (it moved : Subscriber.Iterator) (place : Nat × Nat)
    (found : Option SubscriberLogEntry) (sound : Subscriber.Sound log inserted) (slotted : Slotted it) (inside : place.2 < numEntriesPerBlock)
    (ran : it.check log place = some (after, moved, found)) : Slotted moved ∧ ∀ entry, found = some entry → entry ∈ inserted := by
  unfold Subscriber.Iterator.check at ran
  split at ran
  · cases ran
  · cases ran
    exact ⟨slotted, fun entry none => by cases none⟩
  · rename_i read loaded
    cases ran
    refine ⟨fun other none => (by cases none), ?_⟩
    intro entry same
    rw [← Option.some.inj same]
    exact (Subscriber.load_sound log inserted _ _ read sound inside loaded).1

-- Whatever an iterator returns has been inserted.
theorem next_entry_inserted (log after : Subscriber.Log) (inserted : List SubscriberLogEntry) (it moved : Subscriber.Iterator)
    (found : Option SubscriberLogEntry) (sound : Subscriber.Sound log inserted) (slotted : Slotted it)
    (ran : it.nextEntry log = some (after, moved, found)) : Slotted moved ∧ ∀ entry, found = some entry → entry ∈ inserted := by
  unfold Subscriber.Iterator.nextEntry at ran
  split at ran
  · rename_i place held
    exact check_slotted log after inserted it moved place found sound slotted (slotted place held) ran
  · split at ran
    · cases ran
      exact ⟨slotted, fun entry none => by cases none⟩
    · have inside : it.place.2 < numEntriesPerBlock := Nat.mod_lt _ (by decide)
      have advanced : Slotted (it.advance log).2 := by
        intro place there
        rw [← Option.some.inj there]
        exact inside
      exact check_slotted _ after inserted _ moved it.place found (Subscriber.counters_sound log inserted _ sound) advanced inside ran

-- A single application thread has taken one entry for each GSN below next.
structure Reader.InTurn (reader : Reader) : Prop where
  slotted : ∀ index, Slotted (reader.iterators index)
  taken : ∀ item ∈ reader.taken, item.2 ∈ reader.stored
  kept : ∀ entry ∈ reader.stored, entry ∈ reader.passed
  pending : ∀ queue, ∀ entry, (reader.pollers queue).inserting = some entry → entry ∈ reader.passed
  order : reader.applicationThreads = 1 →
    Subscriber.InOrder (reader.iterators 0) reader.taken.length ∧ Numbered (fun item => item.2.gsn) reader.taken

theorem init_in_turn (pollingThreads applicationThreads : Nat) (sequential : Bool) (unset : Nat → Nat) :
    (Reader.init pollingThreads applicationThreads sequential unset).InTurn := by
  have started : ∀ index, (Subscriber.processIterator sequential index applicationThreads (unset index)).entry = none := by
    intro index
    cases sequential with
    | false => rfl
    | true => rfl
  constructor
  · intro index place there
    change (Subscriber.processIterator sequential index applicationThreads (unset index)).entry = some place at there
    rw [started index] at there
    cases there
  · intro item member
    cases member
  · intro entry member
    cases member
  · intro queue entry none
    cases none
  · intro single
    change applicationThreads = 1 at single
    subst single
    exact ⟨Subscriber.process_iterator_in_order sequential (unset 0), numbered_nil _⟩

section

variable (reader : Reader) (turn : reader.InTurn)

include turn

theorem poll_in_turn (failures queue : Nat) (message : SubscriberLogEntry) : (reader.poll failures queue message).InTurn := by
  refine ⟨turn.slotted, turn.taken, ?_, ?_, turn.order⟩
  · intro entry member
    exact List.mem_append_left _ (turn.kept entry member)
  · intro other entry busy
    simp only [Reader.poll] at busy ⊢
    by_cases same : other = queue
    · subst same
      rw [Function.update_self] at busy
      exact List.mem_append_right _ (Option.mem_toList.mpr busy)
    · rw [Function.update_of_ne same] at busy
      exact List.mem_append_left _ (turn.pending other entry busy)

theorem store_in_turn (queue : Nat) (next : Reader) (ran : reader.store queue = some next) : next.InTurn := by
  obtain ⟨⟨log, poller⟩, stored, result⟩ := Option.map_eq_some_iff.mp ran
  subst result
  have free : poller.inserting = none := by
    cases busy : (reader.pollers queue).inserting with
    | none =>
        rw [Subscriber.Poller.store, busy] at stored
        cases stored
    | some entry =>
        obtain ⟨_, _, _, moved⟩ := Subscriber.poller_store_cases reader.log log _ poller entry busy stored
        rw [moved]
  refine ⟨turn.slotted, ?_, ?_, ?_, turn.order⟩
  · intro item member
    exact List.mem_append_left _ (turn.taken item member)
  · intro entry member
    cases List.mem_append.mp member with
    | inl old => exact turn.kept entry old
    | inr new => exact turn.pending queue entry (Option.mem_toList.mp new)
  · intro other entry busy
    by_cases same : other = queue
    · subst same
      simp only [Function.update_self, free] at busy
      cases busy
    · simp only [Function.update_of_ne same] at busy
      exact turn.pending other entry busy

theorem process_in_turn (genuine : SubscriberLogEntry → Prop) (small : ∀ entry, genuine entry → entry.gsn < uint64Max)
    (inv : reader.Inv genuine) (index : Nat) (inside : index < reader.applicationThreads) (next : Reader)
    (ran : reader.process index = some next) : next.InTurn := by
  obtain ⟨⟨log, it, found⟩, advanced, result⟩ := Option.map_eq_some_iff.mp ran
  subst result
  obtain ⟨slotted, member⟩ := next_entry_inserted reader.log log reader.stored _ it found inv.sound (turn.slotted index) advanced
  refine ⟨?_, ?_, turn.kept, turn.pending, ?_⟩
  · intro other
    by_cases same : other = index
    · subst same
      simp only [Function.update_self]
      exact slotted
    · simp only [Function.update_of_ne same]
      exact turn.slotted other
  · intro item new
    cases List.mem_append.mp new with
    | inl old => exact turn.taken item old
    | inr last =>
        obtain ⟨entry, there, same⟩ := List.mem_map.mp last
        rw [← same]
        exact member entry (Option.mem_toList.mp there)
  · intro single
    change reader.applicationThreads = 1 at single
    rw [single] at inside
    obtain rfl : index = 0 := Nat.lt_one_iff.mp inside
    obtain ⟨order, numbered⟩ := turn.order single
    simp only [Function.update_self]
    obtain ⟨none, standing⟩ | ⟨entry, some, _, gsn, further⟩ := Subscriber.next_entry_takes reader.log log reader.stored _ it _ found
      inv.sound (fun entry member => small entry (inv.stored entry member)) order advanced
    · rw [none]
      simpa using ⟨standing, numbered⟩
    · rw [some]
      refine ⟨?_, numbered_snoc _ reader.taken (0, entry) numbered gsn⟩
      simpa using further

theorem recycle_in_turn : reader.recycle.InTurn := ⟨turn.slotted, turn.taken, turn.kept, turn.pending, turn.order⟩

end

-- What a step does to the subscribers: each is as before, is new, or has taken
-- one step of one of its threads.
theorem reader_cases (config : Config) (s next : Deployment) (action : Action) (stepped : s.step config action = some next)
    (subscriberId : Nat) (after : Reader) (present : next.readers subscriberId = some after) :
    s.readers subscriberId = some after ∨
    (∃ pollingThreads applicationThreads sequential unset, after = Reader.init pollingThreads applicationThreads sequential unset) ∨
    ∃ before, s.readers subscriberId = some before ∧
      ((∃ queue message, after = before.poll config.failures queue message) ∨ (∃ queue, before.store queue = some after) ∨
        (∃ index, index < before.applicationThreads ∧ before.process index = some after) ∨ after = before.recycle) := by
  have set : ∀ (at_id : Nat) (reader : Reader) (polled : Wire → Nat),
      ({ s with polled := polled }.setReader at_id reader).readers subscriberId = some after →
      s.readers subscriberId = some after ∨ at_id = subscriberId ∧ after = reader := by
    intro at_id reader polled there
    simp only [Deployment.setReader] at there
    by_cases same : subscriberId = at_id
    · subst same
      rw [Function.update_self] at there
      exact Or.inr ⟨rfl, (Option.some.inj there).symm⟩
    · rw [Function.update_of_ne same] at there
      exact Or.inl there
  cases action with
  | service move =>
      obtain ⟨service, _, result⟩ := Option.map_eq_some_iff.mp stepped
      subst result
      exact Or.inl present
  | launch at_id pollingThreads applicationThreads sequential unset =>
      simp only [Deployment.step] at stepped
      split at stepped
      · cases stepped
        cases set at_id _ s.polled present with
        | inl old => exact Or.inl old
        | inr new => exact Or.inr (Or.inl ⟨pollingThreads, applicationThreads, sequential, unset, new.2⟩)
      · cases stepped
  | addSubscriber place at_id =>
      simp only [Deployment.step] at stepped
      split at stepped
      · cases stepped
      · split at stepped
        · cases stepped
          exact Or.inl present
        · cases stepped
          exact Or.inl present
  | subscriberFinished place at_id =>
      simp only [Deployment.step] at stepped
      split at stepped
      · cases stepped
        exact Or.inl present
      · cases stepped
        exact Or.inl present
  | change place index =>
      simp only [Deployment.step] at stepped
      split at stepped
      · obtain ⟨_, _, result⟩ := Option.map_eq_some_iff.mp stepped
        subst result
        exact Or.inl present
      · cases stepped
  | feed place index =>
      simp only [Deployment.step] at stepped
      split at stepped
      · simp only [Deployment.feed] at stepped
        split at stepped
        · cases stepped
        · cases stepped
          exact Or.inl present
        · cases stepped
          exact Or.inl present
      · cases stepped
  | poll wire =>
      simp only [Deployment.step] at stepped
      split at stepped
      · cases stepped
      · rename_i reader there
        split at stepped
        · obtain ⟨message, _, result⟩ := Option.map_eq_some_iff.mp stepped
          subst result
          cases set wire.subscriberId _ _ present with
          | inl old => exact Or.inl old
          | inr new =>
              obtain ⟨same, step⟩ := new
              exact Or.inr (Or.inr ⟨reader, same ▸ there, Or.inl ⟨wire.queue, message, step⟩⟩)
        · cases stepped
  | store at_id queue =>
      simp only [Deployment.step] at stepped
      split at stepped
      · cases stepped
      · rename_i reader there
        obtain ⟨stored, ran, result⟩ := Option.map_eq_some_iff.mp stepped
        subst result
        cases set at_id _ s.polled present with
        | inl old => exact Or.inl old
        | inr new =>
            obtain ⟨same, step⟩ := new
            exact Or.inr (Or.inr ⟨reader, same ▸ there, Or.inr (Or.inl ⟨queue, step ▸ ran⟩)⟩)
  | process at_id index =>
      simp only [Deployment.step] at stepped
      split at stepped
      · cases stepped
      · rename_i reader there
        split at stepped
        · rename_i inside
          obtain ⟨processed, ran, result⟩ := Option.map_eq_some_iff.mp stepped
          subst result
          cases set at_id _ s.polled present with
          | inl old => exact Or.inl old
          | inr new =>
              obtain ⟨same, step⟩ := new
              exact Or.inr (Or.inr ⟨reader, same ▸ there, Or.inr (Or.inr (Or.inl ⟨index, inside, step ▸ ran⟩))⟩)
        · cases stepped
  | recycle at_id =>
      obtain ⟨reader, there, result⟩ := Option.map_eq_some_iff.mp stepped
      subst result
      cases set at_id _ s.polled present with
      | inl old => exact Or.inl old
      | inr new =>
          obtain ⟨same, step⟩ := new
          exact Or.inr (Or.inr ⟨reader, same ▸ there, Or.inr (Or.inr (Or.inr step))⟩)

def Deployment.InTurn (s : Deployment) : Prop := ∀ subscriberId reader, s.readers subscriberId = some reader → reader.InTurn

theorem in_turn_step (config : Config) (s next : Deployment) (history : Nat → List StorageControl) (inv : s.Inv config.replicas history)
    (turn : s.InTurn) (action : Action) (stepped : s.step config action = some next) : next.InTurn := by
  intro subscriberId after present
  obtain old | ⟨_, _, _, _, rfl⟩ | ⟨before, there, moved⟩ := reader_cases config s next action stepped subscriberId after present
  · exact turn subscriberId after old
  · exact init_in_turn _ _ _ _
  · have good := turn subscriberId before there
    obtain ⟨queue, message, rfl⟩ | ⟨queue, ran⟩ | ⟨index, inside, ran⟩ | rfl := moved
    · exact poll_in_turn before good config.failures queue message
    · exact store_in_turn before good queue after ran
    · exact process_in_turn before good _ (genuine_small config.replicas s.service history inv.service)
        (inv.readers subscriberId before there) index inside after ran
    · exact recycle_in_turn before good

theorem in_turn_run (config : Config) (nodup : ∀ shard, (config.replicas shard).Nodup) (s final : Deployment)
    (history : Nat → List StorageControl) (inv : s.Inv config.replicas history) (turn : s.InTurn) (actions : List Action)
    (ran : Machine.run (Deployment.step config) s actions = some final) : final.InTurn := by
  have both := Machine.run_preserves (Deployment.step config) (fun now => (∃ history, now.Inv config.replicas history) ∧ now.InTurn)
    (fun now action next before stepped => by
      obtain ⟨⟨history, good⟩, order⟩ := before
      obtain ⟨after, better, _, _⟩ := deployment_step config now history good nodup next action stepped
      exact ⟨⟨after, better⟩, in_turn_step config now next history good order action stepped⟩)
    s final ⟨⟨history, inv⟩, turn⟩ actions ran
  exact both.2

theorem init_deployment_in_turn (config : Config) : (Deployment.init config).InTurn := by
  intro subscriberId reader present
  cases present

section

variable (replicas : Nat → List Nat) (s : Service) (history : Nat → List StorageControl) (inv : s.Inv replicas history)

include inv

-- A slot belongs to a client of the shard.
theorem slot_home (clientId shard rank gsn : Nat) (caller : Caller) (present : s.clients clientId = some caller)
    (slot : (gsns (slotsIn (history shard)) clientId)[rank]? = some gsn) : caller.loop.shardId = shard := by
  obtain ⟨⟨at_gsn, owner⟩, inside, _⟩ := List.mem_map.mp (List.mem_of_getElem? slot)
  obtain ⟨member, mine⟩ := List.mem_filter.mp inside
  have owned := inv.calm.ordered.owned _ _ member
  rw [show owner = clientId by simpa using mine] at owned
  cases (inv.bound clientId caller present).home with
  | inl none =>
      rw [owned] at none
      cases none
  | inr same => exact (Option.some.inj (owned.symm.trans same)).symm

-- What a client has put into its slots, whichever replica tells of it.
def Content (entry : SubscriberLogEntry) (rank : Nat) : Prop :=
  (∃ p, s.clients entry.clientId = some p ∧ (filledBy (p.sent.map Prod.fst))[rank]? = some entry.data) ∨
    entry.data = [] ∧ ∃ p, s.clients entry.clientId = some p ∧ (filledBy (p.sent.map Prod.fst)).length ≤ rank

omit inv in
theorem content_unique (first second : SubscriberLogEntry) (rank : Nat) (client : first.clientId = second.clientId)
    (left : Content s first rank) (right : Content s second rank) : first.data = second.data := by
  have written : ∀ (a b : SubscriberLogEntry), a.clientId = b.clientId →
      (∃ p, s.clients a.clientId = some p ∧ (filledBy (p.sent.map Prod.fst))[rank]? = some a.data) →
      (∃ p, s.clients b.clientId = some p ∧ (filledBy (p.sent.map Prod.fst)).length ≤ rank) → False := by
    intro a b same full beyond
    obtain ⟨p, there, access⟩ := full
    obtain ⟨q, also, outside⟩ := beyond
    rw [same, also] at there
    cases there
    exact absurd (List.getElem?_eq_some_iff.mp access).1 (Nat.not_lt_of_le outside)
  cases left with
  | inl full =>
      cases right with
      | inl full' =>
          obtain ⟨p, there, access⟩ := full
          obtain ⟨q, also, access'⟩ := full'
          rw [client, also] at there
          cases there
          exact Option.some.inj (access.symm.trans access')
      | inr empty => exact (written first second client full empty.2).elim
  | inr empty =>
      cases right with
      | inl full => exact (written second first client.symm full empty.2).elim
      | inr empty' => exact empty.1.trans empty'.1.symm

theorem genuine_content (entry : SubscriberLogEntry) (genuine : Genuine replicas s entry) : ∃ rank,
    (gsns (slotsIn (history entry.shardId)) entry.clientId)[rank]? = some entry.gsn ∧ Content s entry rank := by
  obtain ⟨r, member, rank, slot, fill⟩ := genuine
  have whole := genuine_history replicas s history inv entry r rank member slot
  refine ⟨rank, whole, ?_⟩
  cases fill with
  | inl data =>
      cases present : s.clients entry.clientId with
      | none =>
          rw [(inv.fresh _ present).received] at data
          cases data
      | some caller =>
          have home := slot_home replicas s history inv _ _ rank _ caller present whole
          rw [← home, ((inv.bound _ caller present).served r (home ▸ member)).received] at data
          exact Or.inl ⟨caller, present, prefix_access _ _ (filled_by_grows _ _ (List.take_prefix _ _)) _ _ data⟩
  | inr closed =>
      obtain ⟨empty, p, present, _, beyond⟩ := closed
      exact Or.inr ⟨empty, p, present, beyond⟩

-- Agreement: there is one entry for each GSN.
theorem genuine_agree (first second : SubscriberLogEntry) (left : Genuine replicas s first) (right : Genuine replicas s second)
    (same : first.gsn = second.gsn) : first.clientId = second.clientId ∧ first.data = second.data := by
  obtain ⟨rank, slot, content⟩ := genuine_content replicas s history inv first left
  obtain ⟨rank', slot', content'⟩ := genuine_content replicas s history inv second right
  obtain ⟨_, client, ranks⟩ := slot_unique replicas s.cluster history inv.calm.ordered _ _ _ _ rank rank' first.gsn slot (same ▸ slot')
  exact ⟨client, content_unique s first second rank client content (ranks ▸ content')⟩

end

-- Two subscribers, or one at two times.
structure Reader.Agrees (reader other : Reader) : Prop where
  entries : ∀ entry entry', entry ∈ reader.passed → entry' ∈ other.passed → entry.gsn = entry'.gsn →
    entry.clientId = entry'.clientId ∧ entry.data = entry'.data
  gapless : reader.applicationThreads = 1 → reader.stream.map Prod.fst = List.range reader.stream.length
  streams : reader.applicationThreads = 1 → other.applicationThreads = 1 → Comparable reader.stream other.stream
  calls : reader.applicationThreads = 1 → other.applicationThreads = 1 → Comparable reader.calls other.calls

theorem stream_numbered (reader : Reader) (turn : reader.InTurn) (single : reader.applicationThreads = 1) :
    Numbered Prod.fst reader.stream := by
  unfold Numbered Reader.stream
  rw [List.map_map, List.length_map]
  exact (turn.order single).2

-- What every subscriber hands to its log is one entry for each GSN.
theorem passed_agree (config : Config) (s now : Deployment) (history after : Nat → List StorageControl)
    (inv : s.Inv config.replicas history) (later : now.Inv config.replicas after) (extended : Extends s.service now.service)
    (subscriberId otherId : Nat) (reader other : Reader) (present : s.readers subscriberId = some reader)
    (there : now.readers otherId = some other) (entry entry' : SubscriberLogEntry) (member : entry ∈ reader.passed)
    (member' : entry' ∈ other.passed) (same : entry.gsn = entry'.gsn) : entry.clientId = entry'.clientId ∧ entry.data = entry'.data := by
  have genuine := genuine_extends config.replicas s.service now.service entry extended
    ((inv.readers subscriberId reader present).passed entry member)
  exact genuine_agree config.replicas now.service after later.service entry entry' genuine
    ((later.readers otherId other there).passed entry' member') same

theorem streams_comparable (reader other : Reader) (turn : reader.InTurn) (turn' : other.InTurn) (single : reader.applicationThreads = 1)
    (single' : other.applicationThreads = 1)
    (agree : ∀ entry entry', entry ∈ reader.passed → entry' ∈ other.passed → entry.gsn = entry'.gsn →
      entry.clientId = entry'.clientId ∧ entry.data = entry'.data) :
    Comparable reader.stream other.stream ∧ Comparable reader.calls other.calls := by
  have streams : Comparable reader.stream other.stream := by
    refine numbered_comparable (fun item => item.2.gsn) _ reader.taken other.taken (turn.order single).2 (turn'.order single').2 ?_
    intro item member item' member' same
    obtain ⟨client, data⟩ := agree item.2 item'.2 (turn.kept _ (turn.taken item member)) (turn'.kept _ (turn'.taken item' member')) same
    rw [same, client, data]
  exact ⟨streams, comparable_filter _ _ _ streams⟩

-- Two subscribers get the entry of one request; the second one later.
def twoSubscribers (data : Bytes) : List Action :=
  [.service (.join 7 0 3), .service (.connect (0, 0) 7), .service (.connect (0, 1) 7), .service (.epoch 0), .service (.control (0, 0)),
    .service (.control (0, 1)), .service (.enqueue 7 data 40), .service (.notice 7), .service (.notice 7),
    .service (.switchEpoch 7 5000000), .service (.send 7 6700000), .service (.serve 7 0 []), .service (.serve 7 1 [9]),
    .service (.reply 7 1), .service (.reply 7 0), .launch 5 1 1 true (fun _ => 0), .launch 6 1 1 false (fun _ => 0),
    .addSubscriber (0, 0) 5, .addSubscriber (0, 1) 5, .addSubscriber (0, 0) 6, .addSubscriber (0, 1) 6, .change (0, 0) 0, .change (0, 1) 0,
    .change (0, 0) 0, .change (0, 1) 0, .feed (0, 1) 0, .feed (0, 0) 0, .poll ⟨(0, 1), 0, 5, 1⟩, .poll ⟨(0, 0), 0, 5, 1⟩, .store 5 1,
    .process 5 0]

def secondSubscriber : List Action := [.poll ⟨(0, 0), 0, 6, 1⟩, .poll ⟨(0, 1), 0, 6, 1⟩, .store 6 1, .recycle 6, .process 6 0]

theorem two_subscribers_run : ∃ s now reader other,
    Machine.run (Deployment.step twoReplicas) (Deployment.init twoReplicas) (twoSubscribers [1, 2, 3]) = some s ∧
    Machine.run (Deployment.step twoReplicas) s secondSubscriber = some now ∧
    s.readers 5 = some reader ∧ reader.applicationThreads = 1 ∧ reader.stream = [(0, 7, [1, 2, 3])] ∧
    now.readers 6 = some other ∧ other.applicationThreads = 1 ∧ other.stream = [(0, 7, [1, 2, 3])] := by
  have enabled : (Machine.run (Deployment.step twoReplicas) (Deployment.init twoReplicas) (twoSubscribers [1, 2, 3])).bind (fun s =>
      (Machine.run (Deployment.step twoReplicas) s secondSubscriber).bind (fun now => (s.readers 5).bind (fun reader =>
        (now.readers 6).map (fun other => decide (reader.applicationThreads = 1 ∧ reader.stream = [(0, 7, [1, 2, 3])] ∧
          other.applicationThreads = 1 ∧ other.stream = [(0, 7, [1, 2, 3])]))))) = some true := by
    decide +kernel
  obtain ⟨s, ran, rest⟩ := Option.bind_eq_some_iff.mp enabled
  obtain ⟨now, continued, rest⟩ := Option.bind_eq_some_iff.mp rest
  obtain ⟨reader, present, rest⟩ := Option.bind_eq_some_iff.mp rest
  obtain ⟨other, there, seen⟩ := Option.map_eq_some_iff.mp rest
  obtain ⟨single, stream, single', stream'⟩ := of_decide_eq_true seen
  exact ⟨s, now, reader, other, ran, continued, present, single, stream, there, single', stream'⟩

theorem two_replicas_nodup (shard : Nat) : (twoReplicas.replicas shard).Nodup := by
  change [0, 1].Nodup
  decide

-- What a client was told in the first state is where its request stands in the
-- streams of the second one.
def Deployment.Indexes (told read : Deployment) : Prop :=
  ∀ clientId caller (index response gsn : Nat), told.service.clients clientId = some caller →
    caller.loop.stored[index]? = some (response, gsn) → ∃ data, caller.requested[index]? = some (data, response) ∧
      ∀ subscriberId reader, read.readers subscriberId = some reader → reader.applicationThreads = 1 → gsn < reader.stream.length →
        reader.stream[gsn]? = some (gsn, clientId, data)

theorem stream_access (reader : Reader) (turn : reader.InTurn) (single : reader.applicationThreads = 1) (gsn : Nat)
    (reached : gsn < reader.stream.length) :
    ∃ entry ∈ reader.passed, entry.gsn = gsn ∧ reader.stream[gsn]? = some (gsn, entry.clientId, entry.data) := by
  have inside : gsn < reader.taken.length := by rwa [Reader.stream, List.length_map] at reached
  have access := List.getElem?_eq_getElem inside
  have same := numbered_access _ reader.taken (turn.order single).2 gsn _ access
  refine ⟨reader.taken[gsn].2, turn.kept _ (turn.taken _ (List.getElem_mem inside)), same, ?_⟩
  rw [Reader.stream, List.getElem?_map, access, Option.map_some, same]

theorem rank_of_longer (first second : List StorageInsert) (turn : Nat) (before : first <+: second) (inside : turn < first.length) :
    rankOf second turn = rankOf first turn := by
  obtain ⟨more, rfl⟩ := before
  exact rank_of_append first more turn inside

-- The slot of a request stays its slot.
theorem response_lasts (replicas : Nat → List Nat) (s now : Service) (history after : Nat → List StorageControl) (inv : s.Inv replicas history)
    (later : now.Inv replicas after) (grows : ∀ shard, history shard <+: after shard) (extended : Extends s now)
    (clientId index response gsn : Nat) (caller : Caller) (present : s.clients clientId = some caller)
    (told : caller.loop.stored[index]? = some (response, gsn)) : ∃ data, caller.requested[index]? = some (data, response) ∧
      ∀ entry, Genuine replicas now entry → entry.gsn = gsn → entry.clientId = clientId ∧ entry.data = data := by
  obtain ⟨data, requested, assigned, _⟩ := response_request replicas s history inv clientId index response gsn caller present told
  refine ⟨data, requested, ?_⟩
  obtain ⟨turn, item, answer, access, same, number, slot⟩ := assigned_slot replicas s history inv clientId index gsn caller present assigned
  have bytes : item.1.data = data := by
    have held : caller.requested[index]? = some (item.1.data, answer) := by
      rw [(inv.bound clientId caller present).steady.requested, ← number]
      exact prefix_access _ _ (List.prefix_append _ _) _ _ (carried_access caller.sent turn item answer access same)
    rw [requested] at held
    exact (Prod.mk.inj (Option.some.inj held)).1.symm
  obtain ⟨moved, there, home, sent, _⟩ := extended.clients clientId caller present
  intro entry genuine equal
  rw [← bytes]
  refine genuine_insert replicas now after later clientId gsn turn moved item entry there (prefix_access _ _ sent _ _ access) ?_ genuine equal
  have inside := (List.getElem?_eq_some_iff.mp access).1
  rw [rank_of_longer _ _ turn (sent.map Prod.fst) (by rwa [List.length_map]), home]
  exact prefix_access _ _ (gsns_grow _ _ _ (slots_in_grow _ _ (grows _))) _ _ slot

end ZipLog.System
