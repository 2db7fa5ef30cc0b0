import Mathlib.Data.List.Sort
import ZipLog.System.TotalOrder

set_option autoImplicit false

namespace ZipLog.System

open Storage Quorum Streams

-- The data that the calls of client::insert have brought, in order.
def Service.requests (s : Service) (clientId : Nat) : List Bytes :=
  match s.clients clientId with
  | none => []
  | some caller => caller.requested.map Prod.fst

-- What a subscriber has delivered of a client, no-ops included.
def Reader.own (reader : Reader) (clientId : Nat) : List (Nat × Nat × Bytes) :=
  reader.stream.filter (fun item => item.2.1 = clientId)

theorem calls_own (reader : Reader) (clientId : Nat) :
    (reader.calls.filter (fun item => item.2.1 = clientId)).map (fun item => item.2.2) =
      ((reader.own clientId).map (fun item => item.2.2)).filter (fun data => 0 < data.length) := by
  rw [Reader.calls, Reader.own, List.filter_map, List.filter_filter, List.filter_filter]
  congr 2
  funext item
  exact Bool.and_comm _ _

-- No-ops aside, the slots of a client hold what it was given.
theorem filled_carried (sent : List (StorageInsert × Option Nat)) (noOps : ∀ item ∈ sent, item.2 = none → item.1.data = []) :
    (filledBy (sent.map Prod.fst)).filter (fun data => 0 < data.length) =
      ((carried sent).map Prod.fst).filter (fun data => 0 < data.length) := by
  induction sent with
  | nil => rfl
  | cons item rest ih =>
      obtain ⟨message, answer⟩ := item
      have later := ih (fun other member => noOps other (List.mem_cons_of_mem _ member))
      have filled : (filledBy (((message, answer) :: rest).map Prod.fst)).filter (fun data => 0 < data.length) =
          [message.data].filter (fun data => 0 < data.length) ++
            (filledBy (rest.map Prod.fst)).filter (fun data => 0 < data.length) := by
        rw [List.map_cons, filledBy, List.flatMap_cons, List.filter_append, payloads, List.filter_append, List.filter_replicate]
        rfl
      rw [filled, later]
      cases answer with
      | none =>
          rw [noOps (message, none) List.mem_cons_self rfl]
          rfl
      | some response => exact (List.filter_append [message.data] _).symm

section

variable (replicas : Nat → List Nat) (s : Deployment) (history : Nat → List StorageControl) (inv : s.Inv replicas history)
  (subscriberId : Nat) (reader : Reader) (present : s.readers subscriberId = some reader) (turn : reader.InTurn)
  (single : reader.applicationThreads = 1)

include inv present turn

theorem stream_genuine (item : Nat × Nat × Bytes) (member : item ∈ reader.stream) : ∃ entry, Genuine replicas s.service entry ∧
    entry.gsn = item.1 ∧ entry.clientId = item.2.1 ∧ entry.data = item.2.2 := by
  obtain ⟨taken, inside, rfl⟩ := List.mem_map.mp member
  exact ⟨taken.2, (inv.readers subscriberId reader present).passed _ (turn.kept _ (turn.taken taken inside)), rfl, rfl, rfl⟩

theorem own_known (clientId : Nat) (item : Nat × Nat × Bytes) (member : item ∈ reader.own clientId) :
    ∃ caller rank, s.service.clients clientId = some caller ∧
      (gsns (slotsIn (history caller.loop.shardId)) clientId)[rank]? = some item.1 ∧
      ((filledBy (caller.sent.map Prod.fst))[rank]? = some item.2.2 ∨
        item.2.2 = [] ∧ (filledBy (caller.sent.map Prod.fst)).length ≤ rank) := by
  obtain ⟨streamed, mine⟩ := List.mem_filter.mp member
  have owner : item.2.1 = clientId := of_decide_eq_true mine
  obtain ⟨entry, genuine, gsn, client, data⟩ := stream_genuine replicas s history inv subscriberId reader present turn item streamed
  obtain ⟨rank, slot, content⟩ := genuine_content replicas s.service history inv.service entry genuine
  rw [client, owner, gsn] at slot
  have found : ∃ caller, s.service.clients clientId = some caller ∧ ((filledBy (caller.sent.map Prod.fst))[rank]? = some item.2.2 ∨
      item.2.2 = [] ∧ (filledBy (caller.sent.map Prod.fst)).length ≤ rank) := by
    unfold Content at content
    rw [client, owner, data] at content
    cases content with
    | inl full =>
        obtain ⟨caller, there, access⟩ := full
        exact ⟨caller, there, Or.inl access⟩
    | inr empty =>
        obtain ⟨nothing, caller, there, beyond⟩ := empty
        exact ⟨caller, there, Or.inr ⟨nothing, beyond⟩⟩
  obtain ⟨caller, there, fill⟩ := found
  rw [← slot_home replicas s.service history inv.service clientId _ rank _ caller there slot] at slot
  exact ⟨caller, rank, there, slot, fill⟩

include single

-- The subscriber has delivered all slots up to some GSN, so of a client's slots it has
-- the first ones.
theorem own_gsns (clientId : Nat) (caller : System.Caller) (there : s.service.clients clientId = some caller) :
    (reader.own clientId).map Prod.fst =
      (gsns (slotsIn (history caller.loop.shardId)) clientId).filter (fun gsn => gsn < reader.stream.length) := by
  have numbered := stream_numbered reader turn single
  have increasing := gsns_increasing _ clientId (inv.service.calm.ordered.increasing caller.loop.shardId)
  refine List.Pairwise.eq_of_mem_iff (r := (· < ·)) ?_ (increasing.filter _) ?_
  · rw [Reader.own]
    have sorted : (reader.stream.map Prod.fst).Pairwise (· < ·) := by
      rw [show reader.stream.map Prod.fst = List.range reader.stream.length from numbered]
      exact List.pairwise_lt_range
    exact sorted.sublist (List.filter_sublist.map Prod.fst)
  · intro gsn
    constructor
    · intro member
      obtain ⟨item, mine, rfl⟩ := List.mem_map.mp member
      obtain ⟨other, rank, also, slot, _⟩ := own_known replicas s history inv subscriberId reader present turn clientId item mine
      rw [there] at also
      cases also
      refine List.mem_filter.mpr ⟨List.mem_of_getElem? slot, ?_⟩
      have inside : item.1 ∈ reader.stream.map Prod.fst := List.mem_map_of_mem (List.mem_filter.mp mine).1
      rw [show reader.stream.map Prod.fst = List.range reader.stream.length from numbered] at inside
      exact decide_eq_true (List.mem_range.mp inside)
    · intro member
      obtain ⟨slot, reached⟩ := List.mem_filter.mp member
      obtain ⟨entry, passed, same, access⟩ := stream_access reader turn single gsn (of_decide_eq_true reached)
      obtain ⟨rank, at_rank⟩ := List.getElem?_of_mem slot
      obtain ⟨rank', slot', _⟩ := genuine_content replicas s.service history inv.service entry
        ((inv.readers subscriberId reader present).passed entry passed)
      obtain ⟨_, owner, _⟩ := slot_unique replicas s.service.cluster history inv.service.calm.ordered _ _ _ _ rank rank' gsn at_rank (same ▸ slot')
      refine List.mem_map.mpr ⟨(gsn, entry.clientId, entry.data), List.mem_filter.mpr ⟨List.mem_of_getElem? access, ?_⟩, rfl⟩
      exact decide_eq_true owner.symm

-- What it has of them is what the client has put there, and no-ops behind that.
theorem own_filled (clientId : Nat) (caller : System.Caller) (there : s.service.clients clientId = some caller) :
    (reader.own clientId).map (fun item => item.2.2) <+:
      filledBy (caller.sent.map Prod.fst) ++ List.replicate (reader.own clientId).length [] := by
  have increasing := gsns_increasing _ clientId (inv.service.calm.ordered.increasing caller.loop.shardId)
  have first := below_prefix reader.stream.length _ increasing
  rw [← own_gsns replicas s history inv subscriberId reader present turn single clientId caller there] at first
  refine prefix_of_agree _ _ (by simp) ?_
  intro n left right access access'
  obtain ⟨item, at_item, rfl⟩ := Option.map_eq_some_iff.mp ((List.getElem?_map ..).symm.trans access)
  obtain ⟨other, rank, also, slot, fill⟩ := own_known replicas s history inv subscriberId reader present turn clientId item
    (List.mem_of_getElem? at_item)
  rw [there] at also
  cases also
  have place : (gsns (slotsIn (history caller.loop.shardId)) clientId)[n]? = some item.1 :=
    prefix_access _ _ first n _ (by rw [List.getElem?_map, at_item]; rfl)
  obtain ⟨_, _, same⟩ := slot_unique replicas s.service.cluster history inv.service.calm.ordered _ _ _ _ rank n item.1 slot place
  subst same
  cases fill with
  | inl data =>
      rw [List.getElem?_append_left (List.getElem?_eq_some_iff.mp data).1, data] at access'
      exact Option.some.inj access'
  | inr empty =>
      rw [List.getElem?_append_right empty.2] at access'
      rw [empty.1, List.eq_of_mem_replicate (List.mem_of_getElem? access')]

-- What a subscriber calls back for a client.
theorem own_requests (clientId : Nat) :
    (reader.calls.filter (fun item => item.2.1 = clientId)).map (fun item => item.2.2) <+:
      (s.service.requests clientId).filter (fun data => 0 < data.length) := by
  rw [calls_own]
  cases there : s.service.clients clientId with
  | none =>
      have nothing : reader.own clientId = [] := by
        refine List.eq_nil_iff_forall_not_mem.mpr (fun item member => ?_)
        obtain ⟨_, _, known, _⟩ := own_known replicas s history inv subscriberId reader present turn clientId item member
        rw [there] at known
        cases known
      rw [nothing]
      exact List.nil_prefix
  | some caller =>
      have steady := (inv.service.bound clientId caller there).steady
      have filled := (own_filled replicas s history inv subscriberId reader present turn single clientId caller there).filter
        (fun data => 0 < data.length)
      rw [List.filter_append, List.filter_replicate, filled_carried caller.sent (fun item member => (steady.inserts item member).2.2)] at filled
      rw [Service.requests, there]
      dsimp only
      rw [steady.requested, List.map_append, List.filter_append]
      exact List.IsPrefix.trans (by simpa using filled) (List.prefix_append _ _)

end

-- A client that changes and has been given nothing.
theorem set_client_requests (s : Service) (clientId : Nat) (caller next : Caller) (present : s.clients clientId = some caller)
    (same : next.requested = caller.requested) : (s.setClient clientId next).requests = s.requests := by
  funext other
  unfold Service.requests
  by_cases mine : other = clientId
  · subst mine
    simp only [Service.setClient, Function.update_self, present, same]
  · simp only [Service.setClient, Function.update_of_ne mine]

theorem turn_requests (s next : Service) (clientId : Nat) (act : Caller → Option Caller)
    (same : ∀ p q, act p = some q → q.requested = p.requested) (stepped : s.turn clientId act = some next) : next.requests = s.requests := by
  obtain ⟨p, q, present, acted, result⟩ := turn_cases s next clientId act stepped
  rw [result]
  exact set_client_requests s clientId p q present (same p q acted)

theorem enqueue_requests (failures : Nat) (s next : Service) (clientId : Nat) (data : Bytes) (response : Nat)
    (stepped : s.step failures (.enqueue clientId data response) = some next) (other : Nat) :
    next.requests other = if other = clientId then s.requests clientId ++ [data] else s.requests other := by
  obtain ⟨_, queued⟩ := Option.ite_none_right_eq_some.mp stepped
  obtain ⟨caller, present, rfl⟩ := Option.map_eq_some_iff.mp queued
  unfold Service.requests
  by_cases mine : other = clientId
  · subst mine
    simp [Service.setClient, present, Caller.enqueue]
  · simp only [Service.setClient, Function.update_of_ne mine, if_neg mine]

-- Only client::insert brings requests.
theorem step_requests (failures : Nat) (s next : Service) (move : Move) (others : ∀ clientId data response, move ≠ .enqueue clientId data response)
    (stepped : s.step failures move = some next) : next.requests = s.requests := by
  cases move with
  | join clientId shardId numSlots =>
      obtain ⟨absent, joined⟩ := Option.ite_none_left_eq_some.mp stepped
      obtain ⟨cluster, _, rfl⟩ := Option.map_eq_some_iff.mp joined
      funext other
      unfold Service.requests
      by_cases mine : other = clientId
      · subst mine
        simp only [Service.setClient, Function.update_self, Option.not_isSome_iff_eq_none.mp absent]
        rfl
      · simp only [Service.setClient, Function.update_of_ne mine]
  | clientRate clientId numSlots =>
      simp only [Service.step] at stepped
      obtain ⟨cluster, _, rfl⟩ := Option.map_eq_some_iff.mp stepped
      rfl
  | epoch now =>
      simp only [Service.step] at stepped
      obtain ⟨cluster, _, rfl⟩ := Option.map_eq_some_iff.mp stepped
      rfl
  | connect place clientId =>
      simp only [Service.step] at stepped
      obtain ⟨cluster, _, rfl⟩ := Option.map_eq_some_iff.mp stepped
      rfl
  | control place =>
      simp only [Service.step] at stepped
      obtain ⟨cluster, _, rfl⟩ := Option.map_eq_some_iff.mp stepped
      rfl
  | enqueue clientId data response => exact absurd rfl (others clientId data response)
  | notice clientId =>
      refine turn_requests s next clientId _ ?_ stepped
      intro p q acted
      obtain ⟨message, _, rfl⟩ := Option.map_eq_some_iff.mp acted
      rfl
  | switchEpoch clientId now =>
      refine turn_requests s next clientId _ ?_ stepped
      intro p q acted
      cases acted
      rfl
  | send clientId now =>
      refine turn_requests s next clientId _ ?_ stepped
      intro p q acted
      cases acted
      unfold Caller.send
      split <;> rfl
  | stop clientId =>
      refine turn_requests s next clientId _ ?_ stepped
      intro p q acted
      cases acted
      unfold Caller.stop
      split <;> rfl
  | reply clientId replica =>
      refine turn_requests s next clientId _ ?_ stepped
      intro p q acted
      obtain ⟨message, _, rfl⟩ := Option.map_eq_some_iff.mp acted
      unfold Caller.reply
      cases message with
      | insertAck ack => rfl
      | storageFinished shardId replicaId => rfl
  | serve clientId replica beyond =>
      simp only [Service.step] at stepped
      split at stepped
      · cases stepped
      · rename_i caller present
        split at stepped
        · cases stepped
        · obtain ⟨cluster, _, rfl⟩ := Option.map_eq_some_iff.mp stepped
          exact set_client_requests { s with cluster := cluster } clientId caller _ present rfl
  | farewell clientId =>
      simp only [Service.step] at stepped
      split at stepped
      · cases stepped
      · rename_i caller present
        obtain ⟨_, stepped⟩ := Option.ite_none_right_eq_some.mp stepped
        obtain ⟨cluster, _, rfl⟩ := Option.map_eq_some_iff.mp stepped
        exact set_client_requests { s with cluster := cluster } clientId caller _ present rfl

-- What a step does to the subscribers.
inductive Deployment.Reads (s next : Deployment) (action : Action) : Prop where
  | same (readers : next.readers = s.readers)
  | launched (subscriberId pollingThreads applicationThreads : Nat) (sequential : Bool) (unset : Nat → Nat)
      (launch : action = .launch subscriberId pollingThreads applicationThreads sequential unset) (absent : s.readers subscriberId = none)
      (readers : next.readers = Function.update s.readers subscriberId
        (some (Reader.init pollingThreads applicationThreads sequential unset)))
  | turned (subscriberId : Nat) (reader new : Reader) (present : s.readers subscriberId = some reader)
      (readers : next.readers = Function.update s.readers subscriberId (some new))
      (threads : new.applicationThreads = reader.applicationThreads) (items : List (Nat × Nat × Bytes)) (one : items.length ≤ 1)
      (calls : new.calls = reader.calls ++ items)

theorem process_calls (reader next : Reader) (index : Nat) (ran : reader.process index = some next) :
    next.applicationThreads = reader.applicationThreads ∧ ∃ items, items.length ≤ 1 ∧ next.calls = reader.calls ++ items := by
  obtain ⟨result, _, rfl⟩ := Option.map_eq_some_iff.mp ran
  refine ⟨rfl, ?_⟩
  cases found : result.2.2 with
  | none => exact ⟨[], Nat.zero_le 1, by simp [Reader.calls, Reader.stream]⟩
  | some entry =>
      refine ⟨[(entry.gsn, entry.clientId, entry.data)].filter (fun item => 0 < item.2.2.length), List.length_filter_le _ _, ?_⟩
      simp [Reader.calls, Reader.stream]

theorem step_reads (config : Config) (s next : Deployment) (action : Action) (stepped : s.step config action = some next) :
    s.Reads next action := by
  have kept : ∀ subscriberId reader new, s.readers subscriberId = some reader →
      next.readers = Function.update s.readers subscriberId (some new) → new.applicationThreads = reader.applicationThreads →
      new.taken = reader.taken → s.Reads next action := by
    intro subscriberId reader new present readers threads same
    refine .turned subscriberId reader new present readers threads [] (Nat.zero_le 1) ?_
    rw [Reader.calls, Reader.calls, Reader.stream, Reader.stream, same, List.append_nil]
  cases action with
  | service move =>
      obtain ⟨service, _, rfl⟩ := Option.map_eq_some_iff.mp stepped
      exact .same rfl
  | launch subscriberId pollingThreads applicationThreads sequential unset =>
      obtain ⟨⟨_, _, absent⟩, result⟩ := Option.ite_none_right_eq_some.mp stepped
      cases result
      exact .launched subscriberId pollingThreads applicationThreads sequential unset rfl absent rfl
  | addSubscriber place subscriberId =>
      simp only [Deployment.step] at stepped
      split at stepped
      · cases stepped
      · split at stepped
        · cases stepped
          exact .same rfl
        · cases stepped
          exact .same rfl
  | subscriberFinished place subscriberId =>
      simp only [Deployment.step] at stepped
      split at stepped
      · cases stepped
        exact .same rfl
      · cases stepped
        exact .same rfl
  | change place index =>
      obtain ⟨_, changed⟩ := Option.ite_none_right_eq_some.mp stepped
      obtain ⟨change, _, rfl⟩ := Option.map_eq_some_iff.mp changed
      exact .same rfl
  | feed place index =>
      obtain ⟨_, fed⟩ := Option.ite_none_right_eq_some.mp stepped
      simp only [Deployment.feed] at fed
      split at fed
      · cases fed
      · cases fed
        exact .same rfl
      · cases fed
        exact .same rfl
  | poll wire =>
      simp only [Deployment.step] at stepped
      split at stepped
      · cases stepped
      · rename_i reader present
        obtain ⟨_, polled⟩ := Option.ite_none_right_eq_some.mp stepped
        obtain ⟨message, _, rfl⟩ := Option.map_eq_some_iff.mp polled
        exact kept wire.subscriberId reader _ present rfl rfl rfl
  | store subscriberId queue =>
      simp only [Deployment.step] at stepped
      split at stepped
      · cases stepped
      · rename_i reader present
        obtain ⟨new, stored, rfl⟩ := Option.map_eq_some_iff.mp stepped
        obtain ⟨result, _, rfl⟩ := Option.map_eq_some_iff.mp stored
        exact kept subscriberId reader _ present rfl rfl rfl
  | process subscriberId index =>
      simp only [Deployment.step] at stepped
      split at stepped
      · cases stepped
      · rename_i reader present
        obtain ⟨_, processed⟩ := Option.ite_none_right_eq_some.mp stepped
        obtain ⟨new, taken, rfl⟩ := Option.map_eq_some_iff.mp processed
        obtain ⟨threads, items, one, calls⟩ := process_calls reader new index taken
        exact .turned subscriberId reader new present rfl threads items one calls
  | recycle subscriberId =>
      obtain ⟨reader, present, rfl⟩ := Option.map_eq_some_iff.mp stepped
      exact kept subscriberId reader _ present rfl rfl rfl

-- The calls of the callback at a subscriber.
def Deployment.calls (s : Deployment) (subscriberId : Nat) : List (Nat × Nat × Bytes) :=
  match s.readers subscriberId with
  | none => []
  | some reader => reader.calls

-- A step makes one call at most.
theorem reads_calls (s next : Deployment) (action : Action) (reads : s.Reads next action) :
    ∃ subscriberId items, items.length ≤ 1 ∧
      ∀ other, next.calls other = s.calls other ++ if other = subscriberId then items else [] := by
  unfold Deployment.calls
  cases reads with
  | same readers => exact ⟨0, [], Nat.zero_le 1, fun other => by rw [readers, ite_self, List.append_nil]⟩
  | launched subscriberId pollingThreads applicationThreads sequential unset launch absent readers =>
      refine ⟨subscriberId, [], Nat.zero_le 1, fun other => ?_⟩
      rw [readers, ite_self, List.append_nil]
      by_cases mine : other = subscriberId
      · subst mine
        simp only [Function.update_self, absent]
        rfl
      · simp only [Function.update_of_ne mine]
  | turned subscriberId reader new present readers threads items one calls =>
      refine ⟨subscriberId, items, one, fun other => ?_⟩
      rw [readers]
      by_cases mine : other = subscriberId
      · subst mine
        simp only [Function.update_self, present, calls, if_true]
      · simp only [Function.update_of_ne mine, if_neg mine, List.append_nil]

-- The number of application threads is that of the start.
theorem reads_threads (s next : Deployment) (action : Action) (reads : s.Reads next action) (threads : Nat)
    (all : ∀ subscriberId reader, s.readers subscriberId = some reader → reader.applicationThreads = threads)
    (launched : ∀ subscriberId pollingThreads applicationThreads sequential unset,
      action = .launch subscriberId pollingThreads applicationThreads sequential unset → applicationThreads = threads)
    (subscriberId : Nat) (reader : Reader) (there : next.readers subscriberId = some reader) : reader.applicationThreads = threads := by
  cases reads with
  | same readers =>
      rw [readers] at there
      exact all subscriberId reader there
  | launched newcomer pollingThreads applicationThreads sequential unset launch absent readers =>
      rw [readers] at there
      by_cases mine : subscriberId = newcomer
      · subst mine
        rw [Function.update_self] at there
        cases there
        exact launched subscriberId pollingThreads applicationThreads sequential unset launch
      · rw [Function.update_of_ne mine] at there
        exact all subscriberId reader there
  | turned turning before new present readers same items one calls =>
      rw [readers] at there
      by_cases mine : subscriberId = turning
      · subst mine
        rw [Function.update_self] at there
        cases there
        exact same.trans (all subscriberId before present)
      · rw [Function.update_of_ne mine] at there
        exact all subscriberId reader there

-- The main result. What a subscriber with one application thread calls back for a
-- client are the requests of this client, from the first one on, each once and in the
-- order in which client::insert was called.
theorem requests_in_order (config : Config) (nodup : ∀ shard, (config.replicas shard).Nodup) (actions : List Action) (s : Deployment)
    (ran : Machine.run (Deployment.step config) (Deployment.init config) actions = some s) (subscriberId : Nat) (reader : Reader)
    (present : s.readers subscriberId = some reader) (single : reader.applicationThreads = 1) (clientId : Nat) :
    (reader.calls.filter (fun item => item.2.1 = clientId)).map (fun item => item.2.2) <+:
      (s.service.requests clientId).filter (fun data => 0 < data.length) := by
  obtain ⟨history, inv⟩ := deployment_run config nodup actions s ran
  have turns := in_turn_run config nodup _ s _ (init_deployment config) (init_deployment_in_turn config) actions ran
  exact own_requests config.replicas s history inv subscriberId reader present (turns subscriberId reader present) single clientId

theorem requests_in_order_one_request : ∃ s reader,
    Machine.run (Deployment.step twoReplicas) (Deployment.init twoReplicas) (twoSubscribers [1, 2, 3]) = some s ∧
    s.readers 5 = some reader ∧ [[1, 2, 3]] <+: (s.service.requests 7).filter (fun data => 0 < data.length) := by
  obtain ⟨s, _, reader, _, ran, _, present, single, stream, _⟩ := two_subscribers_run
  have ordered := requests_in_order twoReplicas two_replicas_nodup _ s ran 5 reader present single 7
  rw [Reader.calls, stream] at ordered
  exact ⟨s, reader, ran, present, ordered⟩

end ZipLog.System
