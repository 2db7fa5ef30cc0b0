import ZipLog.Order.Loop

set_option autoImplicit false

namespace ZipLog.Order

-- The lists of storage servers that a client and a subscriber have been told.
def clientInfos (clientId : Nat) (sent : List Output) : List (List Nat) :=
  sent.filterMap (fun output => match output with
    | .order (.client other (.storageInfo replicas)) => if other = clientId then some replicas else none
    | _ => none)

def subscriberInfos (subscriberId : Nat) (sent : List Output) : List (List (Nat × Nat)) :=
  sent.filterMap (fun output => match output with
    | .subscriber other (.storageInfo servers) => if other = subscriberId then some servers else none
    | _ => none)

theorem silent_infos (more : List Output) (quiet : ∀ output ∈ more, silent output = true) :
    (∀ clientId, clientInfos clientId more = []) ∧ ∀ subscriberId, subscriberInfos subscriberId more = [] := by
  constructor
  · intro clientId
    apply List.filterMap_eq_nil_iff.mpr
    intro output member
    have nothing := quiet output member
    split
    · cases nothing
    · rfl
  · intro subscriberId
    apply List.filterMap_eq_nil_iff.mpr
    intro output member
    have nothing := quiet output member
    split
    · cases nothing
    · rfl

-- What an event adds to what has been sent.
structure Loop.Tells (loop after : Loop) (more : List Output) : Prop where
  sent : after.sent = loop.sent ++ more
  shards : after.state.numShards = loop.state.numShards
  queues : after.state.storageQueues = loop.state.storageQueues

theorem tells_nothing (loop after : Loop) (sent : after.sent = loop.sent) (shards : after.state.numShards = loop.state.numShards)
    (queues : after.state.storageQueues = loop.state.storageQueues) : loop.Tells after [] :=
  ⟨sent.trans (List.append_nil _).symm, shards, queues⟩

-- The handlers of what a client and its storage servers send answer to clients
-- and storage servers only, and they hand out no list of storage servers.
structure Loop.Hands (loop after : Loop) (more : List Sent) : Prop where
  tells : loop.Tells after (more.map Output.order)
  beat : after.heartbeatId = loop.heartbeatId
  subscribers : after.subscribers = loop.subscribers
  quiet : ∀ output ∈ more.map Output.order, silent output = true

theorem hands_nothing (loop after : Loop) (tells : loop.Tells after []) (beat : after.heartbeatId = loop.heartbeatId)
    (subscribers : after.subscribers = loop.subscribers) : ∃ more, loop.Hands after more :=
  ⟨[], tells, beat, subscribers, fun output member => (by cases member)⟩

theorem finalized_hands (loop : Loop) (saved : Option ClientState) (clientId : Nat) (client : ClientState) :
    ∃ more, loop.Hands ({ loop with state := loop.state.setClientState clientId saved }.finalized clientId client) more :=
  ⟨_, ⟨rfl, rfl, rfl⟩, rfl, rfl, finalized_silent (loop.state.setClientState clientId saved) clientId client⟩

theorem client_finished_hands (loop : Loop) (clientId : Nat) : ∃ more, loop.Hands (loop.clientFinished clientId) more := by
  unfold Loop.clientFinished
  split
  · exact hands_nothing loop loop (tells_nothing loop loop rfl rfl rfl) rfl rfl
  · rename_i client present
    refine ⟨.client clientId .orderFinished :: (loop.state.finalized clientId client).2, ⟨List.append_assoc _ _ _, rfl, rfl⟩, rfl, rfl, ?_⟩
    intro output member
    cases List.mem_cons.mp member with
    | inl first => rw [first]; rfl
    | inr rest => exact finalized_silent loop.state clientId client output rest

theorem client_freeze_hands (loop : Loop) (clientId : Nat) : ∃ more, loop.Hands (loop.clientFreeze clientId) more := by
  unfold Loop.clientFreeze
  split
  · exact hands_nothing loop loop (tells_nothing loop loop rfl rfl rfl) rfl rfl
  · split
    · exact hands_nothing loop loop (tells_nothing loop loop rfl rfl rfl) rfl rfl
    · exact ⟨_, ⟨rfl, rfl, rfl⟩, rfl, rfl, broadcast_silent _ _ _⟩

theorem client_cut_hands (loop : Loop) (cut : OrderClientCut) : ∃ more, loop.Hands (loop.clientCut cut) more := by
  have nothing := hands_nothing loop loop (tells_nothing loop loop rfl rfl rfl) rfl rfl
  unfold Loop.clientCut
  split
  · exact nothing
  · split
    · exact nothing
    · split
      · exact nothing
      · dsimp only
        split
        · split
          · exact finalized_hands loop _ cut.clientId _
          · exact ⟨_, ⟨rfl, rfl, rfl⟩, rfl, rfl, broadcast_silent _ _ _⟩
        · exact hands_nothing loop _ (tells_nothing loop _ rfl rfl rfl) rfl rfl

theorem client_data_hands (loop : Loop) (data : OrderClientData) : ∃ more, loop.Hands (loop.clientData data) more := by
  have nothing := hands_nothing loop loop (tells_nothing loop loop rfl rfl rfl) rfl rfl
  unfold Loop.clientData
  split
  · exact nothing
  · split
    · exact nothing
    · split
      · exact nothing
      · split
        · dsimp only
          split
          · exact finalized_hands loop _ data.clientId _
          · exact hands_nothing loop _ (tells_nothing loop _ rfl rfl rfl) rfl rfl
        · split
          · exact nothing
          · exact hands_nothing loop _ (tells_nothing loop _ rfl rfl rfl) rfl rfl

-- The events that admit nobody.
theorem step_tells (loop next : Loop) (event : Event) (storage : ∀ shardId replicaId, event ≠ .addStorage shardId replicaId)
    (client : ∀ clientId shardId numSlots, event ≠ .addClient clientId shardId numSlots)
    (subscriber : ∀ subscriberId, event ≠ .addSubscriber subscriberId) (stepped : loop.step event = some next) :
    (∃ more, loop.Tells next more ∧ ∀ output ∈ more, silent output = true) ∧ next.subscribers ⊆ loop.subscribers := by
  have nothing : ∀ output ∈ ([] : List Output), silent output = true := fun output member => by cases member
  have handled : ∀ after, (∃ more, loop.Hands after more) →
      (∃ more, loop.Tells after more ∧ ∀ output ∈ more, silent output = true) ∧ after.subscribers ⊆ loop.subscribers := by
    rintro after ⟨more, hands⟩
    exact ⟨⟨_, hands.tells, hands.quiet⟩, by rw [hands.subscribers]; exact List.Subset.refl _⟩
  cases event with
  | addStorage shardId replicaId => exact absurd rfl (storage shardId replicaId)
  | addClient clientId shardId numSlots => exact absurd rfl (client clientId shardId numSlots)
  | addSubscriber subscriberId => exact absurd rfl (subscriber subscriberId)
  | clientRate clientId numSlots =>
      rw [← Option.some.inj stepped]
      have keeps := keeps_client_rate loop.state clientId numSlots
      exact ⟨⟨[], tells_nothing loop (loop.clientRate clientId numSlots) rfl keeps.shards keeps.queues, nothing⟩, List.Subset.refl _⟩
  | clientFinished clientId =>
      rw [← Option.some.inj stepped]
      exact handled _ (client_finished_hands loop clientId)
  | subscriberFinished subscriberId =>
      rw [← Option.some.inj stepped]
      unfold Loop.subscriberFinished
      split
      · refine ⟨⟨_, ⟨rfl, rfl, rfl⟩, ?_⟩, fun other member => List.mem_of_mem_filter member⟩
        intro output member
        rw [List.mem_singleton.mp member]
        rfl
      · exact ⟨⟨[], tells_nothing loop loop rfl rfl rfl, nothing⟩, List.Subset.refl _⟩
  | clientFreeze clientId =>
      rw [← Option.some.inj stepped]
      exact handled _ (client_freeze_hands loop clientId)
  | clientCut cut =>
      rw [← Option.some.inj stepped]
      exact handled _ (client_cut_hands loop cut)
  | clientData data =>
      rw [← Option.some.inj stepped]
      exact handled _ (client_data_hands loop data)
  | timer now =>
      rw [← Option.some.inj stepped]
      unfold Loop.timer
      split
      · refine ⟨⟨_, ⟨rfl, rfl, rfl⟩, ?_⟩, List.Subset.refl _⟩
        intro output member
        obtain ⟨clientId, _, rfl⟩ := List.mem_map.mp member
        rfl
      · split
        · exact ⟨⟨_, ⟨rfl, rfl, rfl⟩, epoch_silent loop.state now⟩, List.Subset.refl _⟩
        · exact ⟨⟨[], tells_nothing loop loop rfl rfl rfl, nothing⟩, List.Subset.refl _⟩

-- Everybody who is connected has been told last of the storage servers there are.
structure Loop.Told (loop : Loop) : Prop where
  valid : loop.state.Valid
  clients : ∀ clientId client, loop.state.clientState clientId = some client →
    (clientInfos clientId loop.sent).getLast? = some (loop.state.storageQueues client.shardId)
  subscribers : ∀ subscriberId ∈ loop.subscribers, (subscriberInfos subscriberId loop.sent).getLast? = some loop.state.servers

theorem changes_shard (loop after : Loop) (changes : loop.Changes after) (clientId : Nat) (client : ClientState)
    (present : after.state.clientState clientId = some client) :
    ∃ before, loop.state.clientState clientId = some before ∧ client.shardId = before.shardId := by
  have elsewhere : ∀ (at_id : Nat) (new : Option ClientState), after.state.clientState = Function.update loop.state.clientState at_id new →
      clientId ≠ at_id → loop.state.clientState clientId = some client := by
    intro at_id new clients different
    rw [clients, Function.update_of_ne different] at present
    exact present
  cases changes with
  | kept clients suspicious => exact ⟨client, by rw [← clients]; exact present, rfl⟩
  | updated at_id old new there clients shard failed suspicious =>
      by_cases same : clientId = at_id
      · subst same
        rw [clients, Function.update_self] at present
        cases present
        exact ⟨old, there, shard⟩
      · exact ⟨client, elsewhere at_id _ clients same, rfl⟩
  | failed at_id old there clients suspicious =>
      by_cases same : clientId = at_id
      · subst same
        rw [clients, Function.update_self] at present
        cases present
        exact ⟨old, there, rfl⟩
      · exact ⟨client, elsewhere at_id _ clients same, rfl⟩
  | erased at_id clients suspicious =>
      by_cases same : clientId = at_id
      · subst same
        rw [clients, Function.update_self] at present
        cases present
      · exact ⟨client, elsewhere at_id _ clients same, rfl⟩

theorem tells_servers (loop after : Loop) (more : List Output) (tells : loop.Tells after more) : after.state.servers = loop.state.servers := by
  unfold State.servers
  rw [tells.shards, tells.queues]

theorem infos_append (clientId : Nat) (first second : List Output) :
    clientInfos clientId (first ++ second) = clientInfos clientId first ++ clientInfos clientId second := by
  rw [clientInfos, clientInfos, clientInfos, List.filterMap_append]

theorem subscriber_infos_append (subscriberId : Nat) (first second : List Output) :
    subscriberInfos subscriberId (first ++ second) = subscriberInfos subscriberId first ++ subscriberInfos subscriberId second := by
  rw [subscriberInfos, subscriberInfos, subscriberInfos, List.filterMap_append]

-- Nobody is admitted.
theorem quiet_told (loop next : Loop) (told : loop.Told) (changes : loop.Changes next) (more : List Output) (tells : loop.Tells next more)
    (quiet : ∀ output ∈ more, silent output = true) (left : next.subscribers ⊆ loop.subscribers) : next.Told := by
  obtain ⟨noClients, noSubscribers⟩ := silent_infos more quiet
  refine ⟨?_, ?_, ?_⟩
  · intro clientId client present
    obtain ⟨before, there, shard⟩ := changes_shard loop next changes clientId client present
    rw [shard, tells.shards]
    exact told.valid clientId before there
  · intro clientId client present
    obtain ⟨before, there, shard⟩ := changes_shard loop next changes clientId client present
    rw [tells.sent, infos_append, noClients, List.append_nil, shard, tells.queues]
    exact told.clients clientId before there
  · intro subscriberId member
    rw [tells.sent, subscriber_infos_append, noSubscribers, List.append_nil, tells_servers loop next more tells]
    exact told.subscribers subscriberId (left member)

theorem add_storage_told (loop : Loop) (told : loop.Told) (shardId replicaId : Nat) (next : Loop)
    (stepped : loop.addStorage shardId replicaId = some next) : next.Told := by
  obtain same | ⟨noClients, noSubscribers, added⟩ := add_storage_cases loop next shardId replicaId stepped
  · rw [same]
    exact told
  · rw [added]
    have nobody : ∀ clientId client, (loop.state.addStorage shardId replicaId).clientState clientId = some client → False := by
      intro clientId client present
      rw [add_storage_clients] at present
      have member := (clients_member loop.state clientId client).mpr ⟨(told.valid clientId client present).1, present⟩
      rw [noClients] at member
      cases member
    refine ⟨fun clientId client present => (nobody clientId client present).elim,
      fun clientId client present => (nobody clientId client present).elim, ?_⟩
    intro subscriberId member
    rw [show ({ loop with state := loop.state.addStorage shardId replicaId } : Loop).subscribers = [] from noSubscribers] at member
    cases member

theorem add_client_told (loop : Loop) (told : loop.Told) (clientId shardId numSlots : Nat) :
    (loop.addClient clientId shardId numSlots).Told := by
  have valid := (keeps_add_client loop.state clientId shardId numSlots).valid told.valid
  by_cases refused : loop.state.numShards ≤ shardId ∨ maxClients ≤ clientId ∨ (loop.state.clientState clientId).isSome ∨
      maxClients ≤ loop.state.clients.length
  · have same : loop.addClient clientId shardId numSlots = loop := by
      unfold Loop.addClient State.addClient
      rw [if_pos refused]
      simp [Loop.emit]
    rw [same]
    exact told
  · have accepted : loop.addClient clientId shardId numSlots =
        { loop with
          state := loop.state.setClientState clientId (some (ClientState.init shardId numSlots))
          sent := loop.sent ++ [Output.order (.client clientId (.storageInfo (loop.state.storageQueues shardId)))] } := by
      unfold Loop.addClient State.addClient
      rw [if_neg refused]
      rfl
    change (loop.addClient clientId shardId numSlots).state.Valid at valid
    rw [accepted] at valid ⊢
    refine ⟨valid, ?_, ?_⟩
    · intro other client present
      dsimp only
      rw [infos_append]
      by_cases same : other = clientId
      · subst same
        rw [set_client_state_same] at present
        cases present
        simp [clientInfos, ClientState.init, State.setClientState]
      · rw [set_client_state_other _ _ _ _ same] at present
        have none : clientInfos other [Output.order (.client clientId (.storageInfo (loop.state.storageQueues shardId)))] = [] := by
          simp [clientInfos, Ne.symm same]
        rw [none, List.append_nil]
        exact told.clients other client present
    · intro subscriberId member
      dsimp only
      rw [subscriber_infos_append]
      exact (congrArg List.getLast? (List.append_nil _)).trans (told.subscribers subscriberId member)

theorem add_subscriber_told (loop : Loop) (told : loop.Told) (subscriberId : Nat) : (loop.addSubscriber subscriberId).Told := by
  unfold Loop.addSubscriber
  split
  · exact told
  · refine ⟨told.valid, ?_, ?_⟩
    · intro clientId client present
      dsimp only
      rw [infos_append]
      exact (congrArg List.getLast? (List.append_nil _)).trans (told.clients clientId client present)
    · intro other member
      dsimp only
      rw [subscriber_infos_append]
      by_cases same : other = subscriberId
      · subst same
        simp [subscriberInfos, State.servers]
      · have none : subscriberInfos other [Output.subscriber subscriberId (.storageInfo loop.state.servers)] = [] := by
          simp [subscriberInfos, Ne.symm same]
        rw [none, List.append_nil]
        cases List.mem_append.mp member with
        | inl old => exact told.subscribers other old
        | inr new => exact absurd (List.mem_singleton.mp new) same

theorem step_told (loop next : Loop) (event : Event) (told : loop.Told) (stepped : loop.step event = some next) : next.Told := by
  have others : (∀ shardId replicaId, event ≠ .addStorage shardId replicaId) →
      (∀ clientId shardId numSlots, event ≠ .addClient clientId shardId numSlots) →
      (∀ subscriberId, event ≠ .addSubscriber subscriberId) → next.Told := by
    intro storage client subscriber
    obtain ⟨⟨more, tells, quiet⟩, left⟩ := step_tells loop next event storage client subscriber stepped
    exact quiet_told loop next told (step_changes loop next event storage client stepped) more tells quiet left
  cases event with
  | addStorage shardId replicaId => exact add_storage_told loop told shardId replicaId next stepped
  | addClient clientId shardId numSlots =>
      rw [← Option.some.inj stepped]
      exact add_client_told loop told clientId shardId numSlots
  | addSubscriber subscriberId =>
      rw [← Option.some.inj stepped]
      exact add_subscriber_told loop told subscriberId
  | _ => exact others (by simp) (by simp) (by simp)

-- The main result. The assertion of add_storage keeps every list that has been
-- handed out true for as long as its receiver is connected.
theorem storage_lists_current (numShards : Nat) (events : List Event) (loop : Loop)
    (ran : Machine.run Loop.step (Loop.init numShards) events = some loop) :
    (∀ clientId client, loop.state.clientState clientId = some client →
      (clientInfos clientId loop.sent).getLast? = some (loop.state.storageQueues client.shardId)) ∧
    (∀ subscriberId ∈ loop.subscribers, (subscriberInfos subscriberId loop.sent).getLast? = some loop.state.servers) ∧
    ∀ shardId replicaId, loop.step (.addStorage shardId replicaId) = none ↔
      shardId < loop.state.numShards ∧ replicaId < maxReplicas ∧ replicaId ∉ loop.state.storageQueues shardId ∧
        ((∃ clientId, (loop.state.clientState clientId).isSome = true) ∨ loop.subscribers ≠ []) := by
  have told : loop.Told := by
    refine Machine.run_preserves Loop.step Loop.Told (fun loop event next before stepped => step_told loop next event before stepped)
      _ loop ⟨?_, ?_, ?_⟩ events ran
    · intro clientId client present
      cases present
    · intro clientId client present
      cases present
    · intro subscriberId member
      cases member
  refine ⟨told.clients, told.subscribers, ?_⟩
  intro shardId replicaId
  have empty : loop.state.clients = [] ↔ ¬ ∃ clientId, (loop.state.clientState clientId).isSome = true := by
    constructor
    · rintro none ⟨clientId, present⟩
      obtain ⟨client, there⟩ := Option.isSome_iff_exists.mp present
      have member := (clients_member loop.state clientId client).mpr ⟨(told.valid clientId client there).1, there⟩
      rw [none] at member
      cases member
    · intro nobody
      apply List.eq_nil_iff_forall_not_mem.mpr
      intro entry member
      exact nobody ⟨entry.1, by rw [((clients_member loop.state entry.1 entry.2).mp member).2]; rfl⟩
  simp only [Loop.step, Loop.addStorage]
  split
  · rename_i refused
    refine ⟨fun none => (by cases none), ?_⟩
    rintro ⟨shard, replica, fresh, _⟩
    rcases refused with outside | large | known
    · exact absurd shard (Nat.not_lt_of_le outside)
    · exact absurd replica (Nat.not_lt_of_le large)
    · exact absurd known fresh
  · rename_i accepted
    push Not at accepted
    split
    · rename_i none
      refine ⟨fun same => (by cases same), ?_⟩
      rintro ⟨_, _, _, someone⟩
      cases someone with
      | inl client => exact absurd client (empty.mp none.1)
      | inr subscriber => exact absurd none.2 subscriber
    · rename_i someone
      refine ⟨fun _ => ⟨accepted.1, accepted.2.1, accepted.2.2, ?_⟩, fun _ => rfl⟩
      by_contra nobody
      push Not at nobody
      exact someone ⟨empty.mpr (fun client => absurd client.choose_spec (by simpa using nobody.1 client.choose)), nobody.2⟩

-- A storage server that comes while a client and a subscriber are connected.
theorem storage_lists_current_start_up : ∃ loop, Machine.run Loop.step (Loop.init 1) (startUp ++ [.addSubscriber 5]) = some loop ∧
    loop.subscribers = [5] ∧ (subscriberInfos 5 loop.sent).getLast? = some loop.state.servers ∧ loop.step (.addStorage 0 1) = none := by
  have enabled : (Machine.run Loop.step (Loop.init 1) (startUp ++ [.addSubscriber 5])).map (fun loop =>
      decide (loop.state.numShards = 1 ∧ loop.state.storageQueues 0 = [0] ∧ loop.subscribers = [5])) = some true := by
    decide +kernel
  obtain ⟨loop, ran, seen⟩ := Option.map_eq_some_iff.mp enabled
  obtain ⟨shards, queue, connected⟩ := of_decide_eq_true seen
  obtain ⟨_, subscribers, refused⟩ := storage_lists_current 1 (startUp ++ [.addSubscriber 5]) loop ran
  refine ⟨loop, ran, connected, subscribers 5 (by rw [connected]; exact List.mem_singleton_self 5), ?_⟩
  refine (refused 0 1).mpr ⟨by rw [shards]; decide, by decide, by rw [queue]; decide, Or.inr ?_⟩
  rw [connected]
  exact List.cons_ne_nil _ _

end ZipLog.Order
