import ZipLog.Order.Rollforward

set_option autoImplicit false

namespace ZipLog.Order

def heartbeatIntervalNs : Nat := 300000

inductive SubscriberControl where
  | storageInfo (servers : List (Nat × Nat))
  | orderFinished
deriving DecidableEq, Repr

inductive Output where
  | order (sent : Sent)
  | heartbeat (clientId id : Nat)
  | subscriber (subscriberId : Nat) (message : SubscriberControl)
deriving DecidableEq, Repr

-- All of class order with the locals of order::loop. A timer that stands at
-- time_point::min() is none. sent lists what has been sent.
structure Loop where
  state : State
  subscribers : List Nat
  suspicious : List Nat
  epoch : Option Nat
  heartbeat : Option Nat
  heartbeatId : Nat
  sent : List Output

def Loop.init (numShards : Nat) : Loop := ⟨State.init numShards, [], [], none, none, 0, []⟩

def Loop.emit (loop : Loop) (result : State × List Sent) : Loop :=
  { loop with state := result.1, sent := loop.sent ++ result.2.map Output.order }

-- The three lambdas of the loop with what they do to suspicious_clients.
def Loop.failed (loop : Loop) (clientId : Nat) (client : ClientState) : Loop :=
  { loop.emit (loop.state.failed clientId client) with
    suspicious := if clientId ∈ loop.suspicious then loop.suspicious else loop.suspicious ++ [clientId] }

def Loop.requested (loop : Loop) (clientId : Nat) (client : ClientState) (minCut : Nat) : Loop :=
  loop.emit (loop.state.requested clientId client minCut)

def Loop.finalized (loop : Loop) (clientId : Nat) (client : ClientState) : Loop :=
  { loop.emit (loop.state.finalized clientId client) with suspicious := loop.suspicious.filter (fun other => other ≠ clientId) }

-- The assertion of add_storage is checked after the duplicates are turned away.
def Loop.addStorage (loop : Loop) (shardId replicaId : Nat) : Option Loop :=
  if loop.state.numShards ≤ shardId ∨ maxReplicas ≤ replicaId ∨ replicaId ∈ loop.state.storageQueues shardId then some loop
  else if loop.state.clients = [] ∧ loop.subscribers = [] then some { loop with state := loop.state.addStorage shardId replicaId }
  else none

def Loop.addClient (loop : Loop) (clientId shardId numSlots : Nat) : Loop := loop.emit (loop.state.addClient clientId shardId numSlots)

-- storage_addresses_ has the keys of storage_queues_.
def State.servers (state : State) : List (Nat × Nat) :=
  (List.range state.numShards).flatMap (fun shardId => (state.storageQueues shardId).map (fun replicaId => (shardId, replicaId)))

def Loop.addSubscriber (loop : Loop) (subscriberId : Nat) : Loop :=
  if subscriberId ∈ loop.subscribers then loop
  else { loop with
    subscribers := loop.subscribers ++ [subscriberId]
    sent := loop.sent ++ [.subscriber subscriberId (.storageInfo loop.state.servers)] }

def Loop.clientRate (loop : Loop) (clientId numSlots : Nat) : Loop := { loop with state := loop.state.clientRate clientId numSlots }

def Loop.clientFinished (loop : Loop) (clientId : Nat) : Loop :=
  match loop.state.clientState clientId with
  | none => loop
  | some client => { loop with sent := loop.sent ++ [Output.order (.client clientId .orderFinished)] }.finalized clientId client

def Loop.subscriberFinished (loop : Loop) (subscriberId : Nat) : Loop :=
  if subscriberId ∈ loop.subscribers then
    { loop with
      subscribers := loop.subscribers.filter (fun other => other ≠ subscriberId)
      sent := loop.sent ++ [.subscriber subscriberId .orderFinished] }
  else loop

-- The handler of failure_apply and that of order_client_freeze.
def Loop.clientFreeze (loop : Loop) (clientId : Nat) : Loop :=
  match loop.state.clientState clientId with
  | none => loop
  | some client => if client.failed then loop else loop.failed clientId client

def Loop.clientCut (loop : Loop) (cut : OrderClientCut) : Loop :=
  match loop.state.clientState cut.clientId with
  | none => loop
  | some client =>
      if client.failed = false then loop
      else if client.shardId ≠ cut.shardId ∨ cut.replicaId ∈ client.cuts.map Prod.fst then loop
      else
        let client := { client with cuts := insertKey cut.replicaId cut.latestGsn client.cuts }
        let loop := { loop with state := loop.state.setClientState cut.clientId (some client) }
        if client.requested = false ∧ client.cuts.length = (loop.state.storageQueues client.shardId).length then
          if minCut client.cuts = maxCut client.cuts then loop.finalized cut.clientId client
          else loop.requested cut.clientId client (minCut client.cuts)
        else loop

def Loop.clientData (loop : Loop) (data : OrderClientData) : Loop :=
  match loop.state.clientState data.clientId with
  | none => loop
  | some client =>
      if client.requested = false then loop
      else if client.shardId ≠ data.shardId ∨ data.replicaId ∈ client.flushed then loop
      else if data.gsn = uint64Max then
        let client := { client with flushed := client.flushed ++ [data.replicaId] }
        let loop := { loop with state := loop.state.setClientState data.clientId (some client) }
        if client.flushed.length = (loop.state.storageQueues client.shardId).length then loop.finalized data.clientId client
        else loop
      else if data.gsn ∈ client.data.map Prod.fst then loop
      else
        let client := { client with data := insertKey data.gsn data.data client.data }
        { loop with state := loop.state.setClientState data.clientId (some client) }

def due (timer : Option Nat) (now : Nat) : Bool :=
  match timer with
  | none => true
  | some deadline => decide (deadline < now)

def Loop.beats (loop : Loop) : List Nat := (loop.state.clients.map Prod.fst).filter (fun clientId => clientId ∉ loop.suspicious)

-- The timers at the end of an iteration: at most one of them is served.
def Loop.timer (loop : Loop) (now : Nat) : Loop :=
  if due loop.heartbeat now then
    { loop with
      heartbeatId := uint64 (loop.heartbeatId + 1)
      heartbeat := some (now + heartbeatIntervalNs)
      sent := loop.sent ++ loop.beats.map (fun clientId => .heartbeat clientId loop.heartbeatId) }
  else if due loop.epoch now then { loop.emit (loop.state.epoch now) with epoch := some (now + epochDurationNs) }
  else loop

-- Each handler and the timers take the lock, and so do the three calls of the
-- accepting thread.
inductive Event where
  | addStorage (shardId replicaId : Nat)
  | addClient (clientId shardId numSlots : Nat)
  | addSubscriber (subscriberId : Nat)
  | clientRate (clientId numSlots : Nat)
  | clientFinished (clientId : Nat)
  | subscriberFinished (subscriberId : Nat)
  | clientFreeze (clientId : Nat)
  | clientCut (cut : OrderClientCut)
  | clientData (data : OrderClientData)
  | timer (now : Nat)
deriving DecidableEq, Repr

def Loop.step (loop : Loop) : Event → Option Loop
  | .addStorage shardId replicaId => loop.addStorage shardId replicaId
  | .addClient clientId shardId numSlots => some (loop.addClient clientId shardId numSlots)
  | .addSubscriber subscriberId => some (loop.addSubscriber subscriberId)
  | .clientRate clientId numSlots => some (loop.clientRate clientId numSlots)
  | .clientFinished clientId => some (loop.clientFinished clientId)
  | .subscriberFinished subscriberId => some (loop.subscriberFinished subscriberId)
  | .clientFreeze clientId => some (loop.clientFreeze clientId)
  | .clientCut cut => some (loop.clientCut cut)
  | .clientData data => some (loop.clientData data)
  | .timer now => some (loop.timer now)

-- What an event is to the handlers alone. The timer is an epoch or nothing.
def Loop.input (loop : Loop) : Event → Option Input
  | .addClient clientId shardId numSlots => some (.addClient clientId shardId numSlots)
  | .clientRate clientId numSlots => some (.clientRate clientId numSlots)
  | .clientFinished clientId => some (.clientFinished clientId)
  | .clientFreeze clientId => some (.clientFreeze clientId)
  | .clientCut cut => some (.clientCut cut)
  | .clientData data => some (.clientData data)
  | .timer now => if due loop.heartbeat now = false ∧ due loop.epoch now = true then some (.epoch now) else none
  | _ => none

def ordered (sent : List Output) : List Sent :=
  sent.filterMap (fun output => match output with
    | .order sent => some sent
    | _ => none)

@[simp] theorem ordered_append (first second : List Output) : ordered (first ++ second) = ordered first ++ ordered second := by
  rw [ordered, ordered, ordered, List.filterMap_append]

@[simp] theorem ordered_order (sent : List Sent) : ordered (sent.map Output.order) = sent := by
  rw [ordered, List.filterMap_map]
  exact List.filterMap_some

-- after is loop with the effect of a handler on the state and on what is sent.
def Loop.Follows (loop after : Loop) (result : State × List Sent) : Prop :=
  after.state = result.1 ∧ ordered after.sent = ordered loop.sent ++ result.2

theorem emit_follows (loop : Loop) (result : State × List Sent) : loop.Follows (loop.emit result) result := by
  refine ⟨rfl, ?_⟩
  simp only [Loop.emit, ordered_append, ordered_order]

theorem client_finished_follows (loop : Loop) (clientId : Nat) :
    loop.Follows (loop.clientFinished clientId) (loop.state.clientFinished clientId) := by
  unfold Loop.clientFinished State.clientFinished
  cases loop.state.clientState clientId with
  | none => exact ⟨rfl, (List.append_nil _).symm⟩
  | some client =>
      refine ⟨rfl, ?_⟩
      simp only [Loop.finalized, Loop.emit, ordered_append, ordered_order, List.append_assoc]
      rfl

theorem client_freeze_follows (loop : Loop) (clientId : Nat) :
    loop.Follows (loop.clientFreeze clientId) (loop.state.clientFreeze clientId) := by
  unfold Loop.clientFreeze State.clientFreeze
  cases loop.state.clientState clientId with
  | none => exact ⟨rfl, (List.append_nil _).symm⟩
  | some client =>
      dsimp only
      split
      · exact ⟨rfl, (List.append_nil _).symm⟩
      · exact emit_follows loop (loop.state.failed clientId client)

theorem client_cut_follows (loop : Loop) (cut : OrderClientCut) : loop.Follows (loop.clientCut cut) (loop.state.clientCut cut) := by
  unfold Loop.clientCut State.clientCut
  cases loop.state.clientState cut.clientId with
  | none => exact ⟨rfl, (List.append_nil _).symm⟩
  | some client =>
      dsimp only
      split
      · exact ⟨rfl, (List.append_nil _).symm⟩
      · split
        · exact ⟨rfl, (List.append_nil _).symm⟩
        · split
          · split
            · exact emit_follows { loop with state := loop.state.setClientState cut.clientId _ } _
            · exact emit_follows { loop with state := loop.state.setClientState cut.clientId _ } _
          · exact ⟨rfl, (List.append_nil _).symm⟩

theorem client_data_follows (loop : Loop) (data : OrderClientData) : loop.Follows (loop.clientData data) (loop.state.clientData data) := by
  unfold Loop.clientData State.clientData
  cases loop.state.clientState data.clientId with
  | none => exact ⟨rfl, (List.append_nil _).symm⟩
  | some client =>
      dsimp only
      split
      · exact ⟨rfl, (List.append_nil _).symm⟩
      · split
        · exact ⟨rfl, (List.append_nil _).symm⟩
        · split
          · split
            · exact emit_follows { loop with state := loop.state.setClientState data.clientId _ } _
            · exact ⟨rfl, (List.append_nil _).symm⟩
          · split
            · exact ⟨rfl, (List.append_nil _).symm⟩
            · exact ⟨rfl, (List.append_nil _).symm⟩

theorem beats_silent (loop : Loop) : ordered (loop.beats.map (fun clientId => .heartbeat clientId loop.heartbeatId)) = [] := by
  rw [ordered, List.filterMap_map]
  exact List.filterMap_eq_nil_iff.mpr (fun _ _ => rfl)

-- One event: the handlers see their input, or nothing of it.
theorem step_follows (loop next : Loop) (event : Event) (storage : ∀ shardId replicaId, event ≠ .addStorage shardId replicaId)
    (stepped : loop.step event = some next) : loop.Follows next ((loop.input event).elim (loop.state, []) loop.state.handle) := by
  have same : ∀ after : Loop, after.state = loop.state → ordered after.sent = ordered loop.sent → loop.Follows after (loop.state, []) :=
    fun after state sent => ⟨state, sent.trans (List.append_nil _).symm⟩
  cases event with
  | addStorage shardId replicaId => exact absurd rfl (storage shardId replicaId)
  | addClient clientId shardId numSlots =>
      rw [← Option.some.inj stepped]
      exact emit_follows loop _
  | addSubscriber subscriberId =>
      rw [← Option.some.inj stepped]
      unfold Loop.addSubscriber
      split
      · exact same loop rfl rfl
      · exact same _ rfl ((ordered_append _ _).trans (List.append_nil _))
  | clientRate clientId numSlots =>
      rw [← Option.some.inj stepped]
      exact ⟨rfl, (List.append_nil _).symm⟩
  | clientFinished clientId =>
      rw [← Option.some.inj stepped]
      exact client_finished_follows loop clientId
  | subscriberFinished subscriberId =>
      rw [← Option.some.inj stepped]
      unfold Loop.subscriberFinished
      split
      · exact same _ rfl ((ordered_append _ _).trans (List.append_nil _))
      · exact same loop rfl rfl
  | clientFreeze clientId =>
      rw [← Option.some.inj stepped]
      exact client_freeze_follows loop clientId
  | clientCut cut =>
      rw [← Option.some.inj stepped]
      exact client_cut_follows loop cut
  | clientData data =>
      rw [← Option.some.inj stepped]
      exact client_data_follows loop data
  | timer now =>
      rw [← Option.some.inj stepped]
      simp only [Loop.timer, Loop.input]
      cases beat : due loop.heartbeat now with
      | true => exact same _ rfl (by rw [if_pos rfl, ordered_append, beats_silent, List.append_nil])
      | false =>
          cases late : due loop.epoch now with
          | true => exact emit_follows loop (loop.state.epoch now)
          | false => exact same loop rfl rfl

-- Everything but the list of the storage servers that a newcomer is told.
def silent : Output → Bool
  | .order (.client _ (.storageInfo _)) => false
  | .subscriber _ (.storageInfo _) => false
  | _ => true

theorem broadcast_silent (state : State) (shardId : Nat) (message : StorageControl) (output : Output)
    (member : output ∈ (state.broadcast shardId message).map Output.order) : silent output = true := by
  obtain ⟨sent, broadcast, rfl⟩ := List.mem_map.mp member
  obtain ⟨replicaId, _, rfl⟩ := List.mem_map.mp broadcast
  rfl

theorem finalized_silent (state : State) (clientId : Nat) (client : ClientState) (output : Output)
    (member : output ∈ (state.finalized clientId client).2.map Output.order) : silent output = true := by
  obtain ⟨sent, inside, rfl⟩ := List.mem_map.mp member
  cases List.mem_append.mp inside with
  | inl patch =>
      split at patch
      · obtain ⟨data, _, there⟩ := List.mem_flatMap.mp patch
        exact broadcast_silent state client.shardId _ _ (List.mem_map_of_mem there)
      · cases patch
  | inr last => exact broadcast_silent state client.shardId _ _ (List.mem_map_of_mem last)

theorem epoch_silent (state : State) (now : Nat) (output : Output) (member : output ∈ (state.epoch now).2.map Output.order) :
    silent output = true := by
  obtain ⟨sent, inside, rfl⟩ := List.mem_map.mp member
  cases List.mem_append.mp inside with
  | inl announced =>
      obtain ⟨slot, _, rfl⟩ := List.mem_map.mp announced
      rfl
  | inr slots =>
      obtain ⟨shardId, _, there⟩ := List.mem_flatMap.mp slots
      exact broadcast_silent state shardId _ _ (List.mem_map_of_mem there)

-- What an event other than add_storage can do to the clients.
inductive Loop.Changes (loop after : Loop) : Prop where
  | kept (clients : after.state.clientState = loop.state.clientState) (suspicious : after.suspicious = loop.suspicious)
  | updated (clientId : Nat) (client new : ClientState) (present : loop.state.clientState clientId = some client)
      (clients : after.state.clientState = Function.update loop.state.clientState clientId (some new))
      (shard : new.shardId = client.shardId) (failed : new.failed = client.failed) (suspicious : after.suspicious = loop.suspicious)
  | failed (clientId : Nat) (client : ClientState) (present : loop.state.clientState clientId = some client)
      (clients : after.state.clientState = Function.update loop.state.clientState clientId (some { client with failed := true }))
      (suspicious : ∀ other, other ∈ after.suspicious ↔ other ∈ loop.suspicious ∨ other = clientId)
  | erased (clientId : Nat) (clients : after.state.clientState = Function.update loop.state.clientState clientId none)
      (suspicious : ∀ other, other ∈ after.suspicious ↔ other ∈ loop.suspicious ∧ other ≠ clientId)

theorem finalized_changes (loop middle : Loop) (clientId : Nat) (client new : ClientState) (suspicious : middle.suspicious = loop.suspicious)
    (clients : middle.state.clientState = loop.state.clientState ∨
      middle.state.clientState = Function.update loop.state.clientState clientId (some client)) :
    loop.Changes (middle.finalized clientId new) := by
  refine .erased clientId ?_ ?_
  · change Function.update middle.state.clientState clientId none = _
    cases clients with
    | inl same => rw [same]
    | inr saved => rw [saved, Function.update_idem]
  · intro other
    simp only [Loop.finalized, suspicious, List.mem_filter, decide_eq_true_eq]

theorem client_freeze_changes (loop : Loop) (clientId : Nat) : loop.Changes (loop.clientFreeze clientId) := by
  unfold Loop.clientFreeze
  split
  · exact .kept rfl rfl
  · rename_i client present
    split
    · exact .kept rfl rfl
    · refine .failed clientId client present rfl ?_
      intro other
      unfold Loop.failed
      dsimp only
      split
      · rename_i inside
        constructor
        · exact Or.inl
        · intro either
          cases either with
          | inl old => exact old
          | inr same => rw [same]; exact inside
      · rw [List.mem_append, List.mem_singleton]

theorem client_cut_changes (loop : Loop) (cut : OrderClientCut) : loop.Changes (loop.clientCut cut) := by
  unfold Loop.clientCut
  split
  · exact .kept rfl rfl
  · rename_i client present
    split
    · exact .kept rfl rfl
    · split
      · exact .kept rfl rfl
      · dsimp only
        split
        · split
          · exact finalized_changes loop _ cut.clientId _ _ rfl (Or.inr rfl)
          · refine .updated cut.clientId client
              { client with cuts := insertKey cut.replicaId cut.latestGsn client.cuts, requested := true } present ?_ rfl rfl rfl
            change Function.update (Function.update loop.state.clientState cut.clientId _) cut.clientId _ = _
            rw [Function.update_idem]
        · exact .updated cut.clientId client _ present rfl rfl rfl rfl

theorem client_data_changes (loop : Loop) (data : OrderClientData) : loop.Changes (loop.clientData data) := by
  unfold Loop.clientData
  split
  · exact .kept rfl rfl
  · rename_i client present
    split
    · exact .kept rfl rfl
    · split
      · exact .kept rfl rfl
      · split
        · dsimp only
          split
          · exact finalized_changes loop _ data.clientId _ _ rfl (Or.inr rfl)
          · exact .updated data.clientId client _ present rfl rfl rfl rfl
        · split
          · exact .kept rfl rfl
          · exact .updated data.clientId client _ present rfl rfl rfl rfl

theorem timer_clients (loop : Loop) (now : Nat) : (loop.timer now).state.clientState = loop.state.clientState ∧
    (loop.timer now).suspicious = loop.suspicious := by
  unfold Loop.timer
  split
  · exact ⟨rfl, rfl⟩
  · split
    · exact ⟨rfl, rfl⟩
    · exact ⟨rfl, rfl⟩

-- suspicious_clients is the set of the clients that have failed.
def Loop.Watches (loop : Loop) : Prop :=
  ∀ clientId, clientId ∈ loop.suspicious ↔ ∃ client, loop.state.clientState clientId = some client ∧ client.failed = true

theorem changes_watches (loop after : Loop) (watches : loop.Watches) (changes : loop.Changes after) : after.Watches := by
  intro other
  cases changes with
  | kept clients suspicious =>
      rw [suspicious, clients]
      exact watches other
  | updated clientId client new present clients shard failed suspicious =>
      rw [suspicious, watches other, clients]
      by_cases same : other = clientId
      · subst same
        simp only [present, Function.update_self, Option.some.injEq, exists_eq_left', failed]
      · rw [Function.update_of_ne same]
  | failed clientId client present clients suspicious =>
      rw [suspicious other, watches other, clients]
      by_cases same : other = clientId
      · subst same
        simp
      · simp [same]
  | erased clientId clients suspicious =>
      rw [suspicious other, watches other, clients]
      by_cases same : other = clientId
      · subst same
        simp
      · simp [same]

theorem add_client_watches (loop : Loop) (watches : loop.Watches) (clientId shardId numSlots : Nat) :
    (loop.addClient clientId shardId numSlots).Watches := by
  unfold Loop.addClient State.addClient
  split
  · exact watches
  · rename_i accepted
    push Not at accepted
    have absent : loop.state.clientState clientId = none := Option.not_isSome_iff_eq_none.mp accepted.2.2.1
    intro other
    refine (watches other).trans ?_
    simp only [Loop.emit, State.setClientState]
    by_cases same : other = clientId
    · subst same
      simp [absent, ClientState.init]
    · rw [Function.update_of_ne same]

theorem step_changes (loop next : Loop) (event : Event) (storage : ∀ shardId replicaId, event ≠ .addStorage shardId replicaId)
    (client : ∀ clientId shardId numSlots, event ≠ .addClient clientId shardId numSlots) (stepped : loop.step event = some next) :
    loop.Changes next := by
  cases event with
  | addStorage shardId replicaId => exact absurd rfl (storage shardId replicaId)
  | addClient clientId shardId numSlots => exact absurd rfl (client clientId shardId numSlots)
  | addSubscriber subscriberId =>
      rw [← Option.some.inj stepped]
      unfold Loop.addSubscriber
      split
      · exact .kept rfl rfl
      · exact .kept rfl rfl
  | clientRate clientId numSlots =>
      rw [← Option.some.inj stepped]
      unfold Loop.clientRate State.clientRate
      split
      · exact .kept rfl rfl
      · rename_i client present
        exact .updated clientId client _ present rfl rfl rfl rfl
  | clientFinished clientId =>
      rw [← Option.some.inj stepped]
      unfold Loop.clientFinished
      split
      · exact .kept rfl rfl
      · rename_i client present
        exact finalized_changes loop _ clientId client client rfl (Or.inl rfl)
  | subscriberFinished subscriberId =>
      rw [← Option.some.inj stepped]
      unfold Loop.subscriberFinished
      split
      · exact .kept rfl rfl
      · exact .kept rfl rfl
  | clientFreeze clientId =>
      rw [← Option.some.inj stepped]
      exact client_freeze_changes loop clientId
  | clientCut cut =>
      rw [← Option.some.inj stepped]
      exact client_cut_changes loop cut
  | clientData data =>
      rw [← Option.some.inj stepped]
      exact client_data_changes loop data
  | timer now =>
      rw [← Option.some.inj stepped]
      exact .kept (timer_clients loop now).1 (timer_clients loop now).2

theorem add_storage_cases (loop next : Loop) (shardId replicaId : Nat) (stepped : loop.addStorage shardId replicaId = some next) :
    next = loop ∨ loop.state.clients = [] ∧ loop.subscribers = [] ∧
      next = { loop with state := loop.state.addStorage shardId replicaId } := by
  unfold Loop.addStorage at stepped
  split at stepped
  · exact Or.inl (Option.some.inj stepped).symm
  · split at stepped
    · rename_i empty
      exact Or.inr ⟨empty.1, empty.2, (Option.some.inj stepped).symm⟩
    · cases stepped

theorem add_storage_clients (state : State) (shardId replicaId : Nat) :
    (state.addStorage shardId replicaId).clientState = state.clientState := by
  unfold State.addStorage
  split
  · rfl
  · rfl

theorem step_watches (loop next : Loop) (event : Event) (watches : loop.Watches) (stepped : loop.step event = some next) : next.Watches := by
  cases event with
  | addStorage shardId replicaId =>
      cases add_storage_cases loop next shardId replicaId stepped with
      | inl same => rw [same]; exact watches
      | inr added =>
          rw [added.2.2]
          intro clientId
          rw [add_storage_clients]
          exact watches clientId
  | addClient clientId shardId numSlots =>
      rw [← Option.some.inj stepped]
      exact add_client_watches loop watches clientId shardId numSlots
  | addSubscriber _ => exact changes_watches loop next watches (step_changes loop next _ (by simp) (by simp) stepped)
  | clientRate _ _ => exact changes_watches loop next watches (step_changes loop next _ (by simp) (by simp) stepped)
  | clientFinished _ => exact changes_watches loop next watches (step_changes loop next _ (by simp) (by simp) stepped)
  | subscriberFinished _ => exact changes_watches loop next watches (step_changes loop next _ (by simp) (by simp) stepped)
  | clientFreeze _ => exact changes_watches loop next watches (step_changes loop next _ (by simp) (by simp) stepped)
  | clientCut _ => exact changes_watches loop next watches (step_changes loop next _ (by simp) (by simp) stepped)
  | clientData _ => exact changes_watches loop next watches (step_changes loop next _ (by simp) (by simp) stepped)
  | timer _ => exact changes_watches loop next watches (step_changes loop next _ (by simp) (by simp) stepped)

theorem watches_run (numShards : Nat) (events : List Event) (loop : Loop) (ran : Machine.run Loop.step (Loop.init numShards) events = some loop) :
    loop.Watches := by
  refine Machine.run_preserves Loop.step Loop.Watches (fun loop event next before stepped => step_watches loop next event before stepped)
    _ loop ?_ events ran
  intro clientId
  simp [Loop.init, State.init]

-- Heartbeats go to the clients that an epoch is for.
theorem beats_active (loop : Loop) (watches : loop.Watches) : loop.beats = (active loop.state.clients).map Slots.clientId := by
  unfold Loop.beats active
  rw [List.filter_map, List.map_map]
  congr 1
  apply List.filter_congr
  intro entry member
  obtain ⟨_, present⟩ := (clients_member loop.state entry.1 entry.2).mp member
  have watched := watches entry.1
  rw [present] at watched
  simp only [Function.comp, Option.some.injEq, exists_eq_left'] at watched ⊢
  cases failed : entry.2.failed with
  | true => simp [watched, failed]
  | false => simp [watched, failed]

-- What the iterations of the loop amount to for the handlers, were each timer
-- to start an epoch.
def Event.input : Event → Option Input
  | .addClient clientId shardId numSlots => some (.addClient clientId shardId numSlots)
  | .clientRate clientId numSlots => some (.clientRate clientId numSlots)
  | .clientFinished clientId => some (.clientFinished clientId)
  | .clientFreeze clientId => some (.clientFreeze clientId)
  | .clientCut cut => some (.clientCut cut)
  | .clientData data => some (.clientData data)
  | .timer now => some (.epoch now)
  | _ => none

def epochs (input : Input) : Bool :=
  match input with
  | .epoch _ => true
  | _ => false

theorem loop_input_cases (loop : Loop) (event : Event) : loop.input event = event.input ∨
    loop.input event = none ∧ ∃ now, event.input = some (.epoch now) := by
  cases event with
  | timer now =>
      simp only [Loop.input, Event.input]
      split
      · exact Or.inl rfl
      · exact Or.inr ⟨rfl, now, rfl⟩
  | _ => exact Or.inl rfl

-- The main result. order::loop is the handlers on the same messages in the same
-- order, with an epoch at some of the readings of the clock, and its heartbeats
-- go to exactly the clients that an epoch would be for.
theorem loop_refines_handlers (numShards : Nat) (earlier events : List Event) (loop final : Loop)
    (started : Machine.run Loop.step (Loop.init numShards) earlier = some loop)
    (storage : ∀ event ∈ events, ∀ shardId replicaId, event ≠ .addStorage shardId replicaId)
    (ran : Machine.run Loop.step loop events = some final) :
    (∃ inputs : List Input, inputs.Sublist (events.filterMap Event.input) ∧
      inputs.filter (fun input => epochs input = false) = (events.filterMap Event.input).filter (fun input => epochs input = false) ∧
      final.state = (loop.state.handleAll inputs).1 ∧ ordered final.sent = ordered loop.sent ++ (loop.state.handleAll inputs).2) ∧
    ∀ now, due final.heartbeat now = true → (final.timer now).sent = final.sent ++
      (active final.state.clients).map (fun slot => .heartbeat slot.clientId final.heartbeatId) := by
  constructor
  · induction events using List.reverseRecOn generalizing final with
    | nil =>
        cases ran
        exact ⟨[], List.Sublist.refl _, rfl, rfl, (List.append_nil _).symm⟩
    | append_singleton events event ih =>
        obtain ⟨before, ran, stepped⟩ := Machine.run_snoc_some ran
        obtain ⟨inputs, sub, same, state, sent⟩ := ih before (fun event member => storage event (List.mem_append_left _ member)) ran
        obtain ⟨after, output⟩ := step_follows before final event (storage event (List.mem_append_right _ (List.mem_singleton_self event))) stepped
        have split : (events ++ [event]).filterMap Event.input = events.filterMap Event.input ++ event.input.toList := by
          rw [List.filterMap_append]
          cases taken : event.input with
          | none => simp [taken]
          | some input => simp [taken]
        refine ⟨inputs ++ (before.input event).toList, ?_, ?_, ?_, ?_⟩
        · rw [split]
          cases loop_input_cases before event with
          | inl equal => rw [equal]; exact sub.append (List.Sublist.refl _)
          | inr idle => rw [idle.1]; exact sub.append (List.nil_sublist _)
        · rw [split, List.filter_append, List.filter_append, same]
          cases loop_input_cases before event with
          | inl equal => rw [equal]
          | inr idle =>
              obtain ⟨none, now, epoch⟩ := idle
              rw [none, epoch]
              rfl
        · cases taken : before.input event with
          | none =>
              rw [taken] at after
              simpa [state] using after
          | some input =>
              rw [taken] at after
              rw [Option.toList_some, handle_all_snoc, ← state]
              exact after
        · cases taken : before.input event with
          | none =>
              rw [taken] at output
              simpa [sent] using output
          | some input =>
              rw [taken] at output
              rw [Option.toList_some, handle_all_snoc, ← state, ← List.append_assoc, ← sent]
              exact output
  · intro now beat
    have watches := watches_run numShards (earlier ++ events) final (by rw [Machine.run_append, started]; exact ran)
    unfold Loop.timer
    rw [if_pos beat, beats_active final watches, List.map_map]
    rfl

-- A storage server and a client; a heartbeat, an epoch, a failure and one more
-- heartbeat, which goes to nobody.
def startUp : List Event := [.addStorage 0 0, .addClient 7 0 100]

def firstTurns : List Event := [.timer 1000, .timer 2000, .clientFreeze 7, .timer 6000000]

theorem loop_refines_handlers_first_turns : ∃ loop final, Machine.run Loop.step (Loop.init 1) startUp = some loop ∧
    Machine.run Loop.step loop firstTurns = some final ∧ final.heartbeatId = 2 ∧ final.state.gsnBase = 100 ∧
    ∃ inputs : List Input, inputs.Sublist [.epoch 1000, .epoch 2000, .clientFreeze 7, .epoch 6000000] ∧
      final.state = (loop.state.handleAll inputs).1 ∧ ordered final.sent = ordered loop.sent ++ (loop.state.handleAll inputs).2 := by
  have enabled : (Machine.run Loop.step (Loop.init 1) startUp).bind (fun loop => (Machine.run Loop.step loop firstTurns).map (fun final =>
      (final.heartbeatId, final.state.gsnBase))) = some (2, 100) := by
    decide +kernel
  obtain ⟨loop, started, rest⟩ := Option.bind_eq_some_iff.mp enabled
  obtain ⟨final, ran, seen⟩ := Option.map_eq_some_iff.mp rest
  obtain ⟨inputs, sub, _, state, sent⟩ := (loop_refines_handlers 1 startUp firstTurns loop final started (by simp [firstTurns]) ran).1
  exact ⟨loop, final, started, ran, (Prod.mk.inj seen).1, (Prod.mk.inj seen).2, inputs, sub, state, sent⟩

end ZipLog.Order
