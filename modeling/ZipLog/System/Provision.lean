import ZipLog.System.Enrolled

set_option autoImplicit false

namespace ZipLog.System

open ZipLog.Order Storage

theorem host_grow (s next : Cluster) (place : Place) (host : Host s place) (more : List StorageControl)
    (servers : next.servers place = s.servers place) (handled : next.handled place = s.handled place)
    (received : next.received place = s.received place) (control : next.control place = s.control place ++ more)
    (measured : ∀ message ∈ more, Measured message) (final : ∀ clientId, .clientFinalize clientId ∈ more → s.gone place clientId = true) :
    Host next place := by
  have longer : s.control place <+: next.control place := control ▸ List.prefix_append _ _
  have gone : ∀ clientId, next.gone place clientId = s.gone place clientId := by
    intro clientId
    rw [Cluster.gone, Cluster.gone, servers]
  constructor
  · rw [servers]
    exact host.shard
  · rw [servers]
    exact host.replica
  · rw [handled]
    exact Nat.le_trans host.bounded longer.length_le
  · intro message member
    rw [control] at member
    cases List.mem_append.mp member with
    | inl old => exact host.measured message old
    | inr new => exact measured message new
  · rw [servers, received, seen_grows s next place host.bounded handled longer]
    exact host.supplied
  · intro clientId member
    rw [control] at member
    rw [gone]
    cases List.mem_append.mp member with
    | inl old => exact host.final clientId old
    | inr new => exact final clientId new

theorem host_congr (s next : Cluster) (place : Place) (host : Host s place) (servers : next.servers place = s.servers place)
    (handled : next.handled place = s.handled place) (received : next.received place = s.received place)
    (control : next.control place = s.control place) : Host next place :=
  host_grow s next place host [] servers handled received (control.trans (List.append_nil _).symm)
    (fun _ member => absurd member List.not_mem_nil) (fun _ member => absurd member List.not_mem_nil)

section

variable (replicas : Nat → List Nat) (s : Supply) (inv : s.Inv replicas)

include inv

-- The cluster takes a step on its own.
theorem cluster_supply (next : Cluster) (queues : next.order.storageQueues = s.service.cluster.order.storageQueues)
    (valid : next.order.Valid)
    (alive : ∀ client state, next.order.clientState client = some state → state.failed = false ∧ state.requested = false)
    (hosts : ∀ place : Place, place.2 ∈ replicas place.1 → Host next place)
    (homes : ∀ client, (next.order.clientState client).map ClientState.shardId =
      (s.service.cluster.order.clientState client).map ClientState.shardId)
    (feeds : ∀ client, Feeds replicas client s.service.cluster next) : (s.moved { s.service with cluster := next }).Inv replicas :=
  ⟨queues.trans inv.queues, valid, alive, hosts, fun client =>
    fine_feeds replicas s _ client (inv.fine client) (feeds client) rfl (homes client) rfl rfl rfl⟩

theorem rate_supply (failures clientId numSlots : Nat) (next : Supply) (stepped : s.step failures (.clientRate clientId numSlots) = some next) :
    next.Inv replicas := by
  cases stepped
  obtain ⟨shard, messages, moves⟩ := moves_client_rate s.service.cluster.order clientId numSlots
  have control : ∀ place, (s.service.cluster.ordered (s.service.cluster.order.clientRate clientId numSlots, [])).control place =
      s.service.cluster.control place := fun place => List.append_nil _
  have changed : ∀ client, s.service.cluster.order.clientState client = none ∧
      (s.service.cluster.order.clientRate clientId numSlots).clientState client = none ∨
      ∃ old new, s.service.cluster.order.clientState client = some old ∧
        (s.service.cluster.order.clientRate clientId numSlots).clientState client = some new ∧ new.shardId = old.shardId ∧
        new.failed = old.failed ∧ new.requested = old.requested := by
    intro client
    unfold State.clientRate
    cases asked : s.service.cluster.order.clientState clientId with
    | none =>
        cases there : s.service.cluster.order.clientState client with
        | none => exact Or.inl ⟨rfl, rfl⟩
        | some state => exact Or.inr ⟨state, state, rfl, rfl, rfl, rfl, rfl⟩
    | some state =>
        by_cases mine : client = clientId
        · subst mine
          exact Or.inr ⟨state, _, asked, set_client_state_same _ _ _, rfl, rfl, rfl⟩
        · simp only [set_client_state_other _ _ _ _ mine]
          cases there : s.service.cluster.order.clientState client with
          | none => exact Or.inl ⟨rfl, rfl⟩
          | some old => exact Or.inr ⟨old, old, rfl, rfl, rfl, rfl, rfl⟩
  refine cluster_supply replicas s inv _ moves.keeps.queues (moves.keeps.valid inv.valid) ?_ ?_ ?_ ?_
  · intro client state present
    change (s.service.cluster.order.clientRate clientId numSlots).clientState client = some state at present
    obtain ⟨_, none⟩ | ⟨old, new, before, after, _, failed, requested⟩ := changed client
    · rw [present] at none
      cases none
    · rw [present] at after
      cases after
      rw [failed, requested]
      exact inv.alive client old before
  · intro place member
    exact host_congr _ _ place (inv.hosts place member) rfl rfl rfl (control place)
  · intro client
    change ((s.service.cluster.order.clientRate clientId numSlots).clientState client).map ClientState.shardId = _
    obtain ⟨before, after⟩ | ⟨old, new, before, after, shard, _⟩ := changed client
    · rw [before, after]
    · rw [before, after, Option.map_some, Option.map_some, shard]
  · intro client
    refine feeds_same replicas client _ _ (fun _ => rfl) (fun _ => rfl) (fun _ => rfl) (List.append_nil _) ?_
    intro place _
    rw [control]

end

theorem epoch_told (order : State) (now clientId : Nat) (valid : order.Valid)
    (alive : ∀ client, order.clientState clientId = some client → client.failed = false) :
    (order.epoch now).2.filterMap (toClient clientId) =
      ((order.clientState clientId).map (fun client => ClientControl.newEpoch (now + epochDurationNs) client.numSlots)).toList := by
  have silent : ((List.range order.numShards).flatMap (fun shardId =>
      order.broadcast shardId (.slots (order.storageSlots shardId)))).filterMap (toClient clientId) = [] := by
    apply List.filterMap_eq_nil_iff.mpr
    intro item member
    obtain ⟨shard, _, cast⟩ := List.mem_flatMap.mp member
    obtain ⟨replica, _, rfl⟩ := List.mem_map.mp cast
    rfl
  have named : ∀ slots : List Slots, (slots.map (fun slot => Sent.client slot.clientId
      (.newEpoch (now + epochDurationNs) slot.numSlots))).filterMap (toClient clientId) =
      (slots.filter (fun slot => slot.clientId == clientId)).map (fun slot => .newEpoch (now + epochDurationNs) slot.numSlots) := by
    intro slots
    induction slots with
    | nil => rfl
    | cons slot slots ih =>
        by_cases mine : slot.clientId = clientId
        · simp [toClient, mine, ih]
        · simp [toClient, mine, ih]
  rw [State.epoch, List.filterMap_append, silent, List.append_nil, named, active_only order clientId valid alive]
  cases order.clientState clientId with
  | none => rfl
  | some client => rfl

section

variable (replicas : Nat → List Nat) (nodup : ∀ shard, (replicas shard).Nodup) (s : Supply) (inv : s.Inv replicas)

include nodup inv

theorem epoch_supply (failures now : Nat) (next : Supply) (stepped : s.step failures (.epoch now) = some next) : next.Inv replicas := by
  simp only [Supply.step, Option.ite_none_right_eq_some] at stepped
  obtain ⟨small, moved⟩ := stepped
  cases moved
  have queues := inv.queues
  have alive : ∀ client state, s.service.cluster.order.clientState client = some state → state.failed = false :=
    fun client state present => (inv.alive client state present).1
  have posted : ∀ place : Place, place.2 ∈ replicas place.1 →
      (s.service.cluster.ordered (s.service.cluster.order.epoch now)).control place = s.service.cluster.control place ++
        if place.1 < s.service.cluster.order.numShards then [.slots (s.service.cluster.order.storageSlots place.1)] else [] := by
    intro place member
    rw [← epoch_posted s.service.cluster.order now place (by rw [queues]; exact nodup) (by rw [queues]; exact member)]
    rfl
  refine cluster_supply replicas s inv _ rfl inv.valid inv.alive ?_ (fun _ => rfl) ?_
  · intro place member
    refine host_grow _ _ place (inv.hosts place member) _ rfl rfl rfl (posted place member) ?_ ?_
    · intro message inside
      split at inside
      · rw [List.mem_singleton.mp inside]
        refine epoch_measured s.service.cluster.order place.1 ?_
        intro slot active
        have bound := small slot active
        omega
      · cases inside
    · intro clientId inside
      split at inside
      · cases List.mem_singleton.mp inside
      · cases inside
  · intro client
    refine ⟨fun _ => rfl, fun _ => rfl, fun _ => rfl, _, rfl, ?_⟩
    rw [epoch_told s.service.cluster.order now client inv.valid (alive client)]
    refine ⟨?_, ?_, ?_, ?_⟩
    · intro other member
      obtain ⟨state, _, same⟩ := Option.map_eq_some_iff.mp (Option.mem_toList.mp member)
      cases same
    · intro numSlots member
      obtain ⟨message, inside, granted⟩ := List.mem_filterMap.mp member
      obtain ⟨state, present, same⟩ := Option.map_eq_some_iff.mp (Option.mem_toList.mp inside)
      subst same
      cases granted
      exact small ⟨state.numSlots, state.shardId, client⟩ ((active_member _ _).mpr
        ⟨state, (inv.valid client state present).1, present, alive client state present, rfl, rfl⟩)
    · intro none
      rw [none]
      rfl
    · intro place member known
      have share := epoch_share s.service.cluster.order place.1 client known inv.valid (alive client)
      rw [posted place member, rations_append]
      congr 1
      cases state : s.service.cluster.order.clientState client with
      | none =>
          rw [state] at share
          split
          · rw [rations, List.flatMap_singleton, share]
            rfl
          · rfl
      | some client' =>
          have shard := (inv.valid client client' state).2
          rw [state] at share
          by_cases here : client'.shardId = place.1
          · rw [if_pos (here ▸ shard), Option.map_some, if_pos (by rw [here]), rations, List.flatMap_singleton, share]
            simp [Option.filter, here, grants, grant]
          · rw [Option.map_some, if_neg (fun same => here (Option.some.inj same))]
            split
            · rw [rations, List.flatMap_singleton, share]
              simp [Option.filter, here]
            · rfl

end

theorem host_server (s next : Cluster) (place : Place) (host : Host s place)
    (shard : (next.servers place).shardId = (s.servers place).shardId) (replica : (next.servers place).replicaId = (s.servers place).replicaId)
    (supplied : (next.servers place).Supplied (s.seen place) (next.received place))
    (gone : ∀ clientId, s.gone place clientId = true → next.gone place clientId = true) (handled : next.handled place = s.handled place)
    (control : next.control place = s.control place) : Host next place := by
  constructor
  · exact shard.trans host.shard
  · exact replica.trans host.replica
  · rw [handled, control]
    exact host.bounded
  · rw [control]
    exact host.measured
  · rw [show next.seen place = s.seen place by rw [Cluster.seen, Cluster.seen, handled, control]]
    exact supplied
  · intro clientId member
    rw [control] at member
    exact gone clientId (host.final clientId member)

section

variable (replicas : Nat → List Nat) (s : Supply) (inv : s.Inv replicas)

include inv

theorem connect_supply (failures : Nat) (here : Place) (clientId : Nat) (next : Supply)
    (stepped : s.step failures (.connect here clientId) = some next) : next.Inv replicas := by
  simp only [Supply.step, Service.step, Cluster.step, Option.map_map, Option.map_eq_some_iff, Option.ite_none_right_eq_some] at stepped
  obtain ⟨cluster, ⟨_, connected⟩, result⟩ := stepped
  cases connected
  subst result
  have servers : ∀ place, (s.service.cluster.setServer here ((s.service.cluster.servers here).addClient clientId)).servers place =
      if place = here then (s.service.cluster.servers here).addClient clientId else s.service.cluster.servers place := by
    intro place
    exact Function.update_apply _ _ _ _
  have gone : ∀ place client, (s.service.cluster.setServer here ((s.service.cluster.servers here).addClient clientId)).gone place client =
      s.service.cluster.gone place client := by
    intro place client
    rw [Cluster.gone, Cluster.gone, servers]
    split
    · rename_i same
      rw [same]
      exact (add_client_states (s.service.cluster.servers here) clientId client).2.2
    · rfl
  refine cluster_supply replicas s inv _ rfl inv.valid inv.alive ?_ (fun _ => rfl) ?_
  · intro place member
    by_cases same : place = here
    · subst same
      obtain ⟨shard, replica⟩ := add_client_identity (s.service.cluster.servers place) clientId
      obtain ⟨fills, tracks, taken⟩ := (inv.hosts place member).supplied
      refine host_server _ _ place (inv.hosts place member) ?_ ?_ ?_ (fun client before => (gone place client).trans before) rfl rfl
      · rw [servers, if_pos rfl]
        exact shard
      · rw [servers, if_pos rfl]
        exact replica
      · rw [servers, if_pos rfl]
        exact ⟨fills, add_client_tracks _ _ clientId tracks, taken⟩
    · exact host_congr _ _ place (inv.hosts place member) (by rw [servers, if_neg same]) rfl rfl rfl
  · intro client
    exact feeds_same replicas client _ _ (fun _ => rfl) (fun _ => rfl) (fun place => gone place client) rfl (fun _ _ => rfl)

end

-- What a replica makes of the messages of order while no client fails.
theorem control_supplied (server next : Server) (messages : List StorageControl) (received : Nat → List StorageInsert)
    (message : StorageControl) (beyond : Bytes) (reports : List OrderControl) (supplied : server.Supplied messages received)
    (measured : Measured message) (ran : server.control message beyond = .ok (next, reports)) :
    next.Supplied (messages ++ [message]) received ∧ (next.shardId = server.shardId ∧ next.replicaId = server.replicaId) ∧
      ∀ client, (next.clientState client).disconnected = (server.clientState client).disconnected := by
  cases message with
  | slots slots =>
      cases ran
      refine ⟨slots_supplied server messages received slots supplied, ?_⟩
      unfold Server.storageSlots
      split
      · exact ⟨⟨rfl, rfl⟩, fun _ => rfl⟩
      · exact ⟨⟨rfl, rfl⟩, fun _ => rfl⟩
  | clientFreeze clientId => cases measured
  | clientCut req => cases measured
  | clientPatch patch => cases measured
  | clientFinalize clientId =>
      simp only [Server.control] at ran
      cases closed : server.storageClientFinalize clientId with
      | error fault =>
          rw [closed] at ran
          cases ran
      | ok result =>
          rw [closed] at ran
          cases ran
          obtain ⟨after, identity⟩ := finalize_supplied server next messages received clientId supplied closed
          exact ⟨after, identity, fun client => (finalize_states server next clientId closed client).1⟩

section

variable (replicas : Nat → List Nat) (s : Supply) (inv : s.Inv replicas)

include inv

theorem control_supply (failures : Nat) (here : Place) (next : Supply) (stepped : s.step failures (.control here) = some next) :
    next.Inv replicas := by
  simp only [Supply.step, Service.step, Cluster.step, Option.map_map, Option.map_eq_some_iff, Option.ite_none_right_eq_some] at stepped
  obtain ⟨cluster, ⟨served, message, pending, handled⟩, result⟩ := stepped
  subst result
  have member : here.2 ∈ replicas here.1 := inv.queues ▸ of_decide_eq_true served
  have host := inv.hosts here member
  obtain ⟨_, sent, bound⟩ := pending_seen s.service.cluster here message pending
  have measured := host.measured message (sent.subset (List.mem_append_right _ (List.mem_singleton_self _)))
  cases ran : (s.service.cluster.servers here).control message [] with
  | error fault =>
      rw [ran] at handled
      cases handled
      refine cluster_supply replicas s inv _ rfl inv.valid inv.alive ?_ (fun _ => rfl) ?_
      · intro place inside
        exact host_congr _ _ place (inv.hosts place inside) rfl rfl rfl rfl
      · intro client
        exact feeds_same replicas client _ _ (fun _ => rfl) (fun _ => rfl) (fun _ => rfl) rfl (fun _ _ => rfl)
  | ok value =>
      obtain ⟨server, reports⟩ := value
      rw [ran] at handled
      cases handled
      obtain ⟨supplied, identity, states⟩ := control_supplied _ server _ _ message [] reports host.supplied measured ran
      have gone : ∀ place client, (s.service.cluster.controlled here server reports).gone place client =
          s.service.cluster.gone place client := by
        intro place client
        by_cases same : place = here
        · subst same
          rw [Cluster.gone, (controlled_here s.service.cluster place server reports message pending).1]
          exact states client
        · rw [Cluster.gone, (controlled_other s.service.cluster here place server reports same).1]
          rfl
      refine cluster_supply replicas s inv _ rfl inv.valid inv.alive ?_ (fun _ => rfl) ?_
      · intro place inside
        by_cases same : place = here
        · subst same
          obtain ⟨servers, seen, count, _⟩ := controlled_here s.service.cluster place server reports message pending
          refine ⟨?_, ?_, ?_, host.measured, ?_, ?_⟩
          · rw [servers]
            exact identity.1.trans host.shard
          · rw [servers]
            exact identity.2.trans host.replica
          · rw [count]
            exact bound
          · rw [servers, seen]
            exact supplied
          · intro client final
            rw [gone]
            exact host.final client final
        · obtain ⟨servers, _, count, _⟩ := controlled_other s.service.cluster here place server reports same
          exact host_congr _ _ place (inv.hosts place inside) servers count rfl rfl
      · intro client
        exact feeds_same replicas client _ _ (fun _ => rfl) (fun _ => rfl) (fun place => gone place client) rfl (fun _ _ => rfl)

-- A client whom order has let go has left all replicas of its shard.
theorem parted_shut (clientId : Nat) (absent : s.service.cluster.order.clientState clientId = none) (shard : Nat) :
    (∀ r ∈ replicas shard, Quiet s.service.cluster (shard, r) clientId) ∨
      ∀ r ∈ replicas shard, s.service.cluster.gone (shard, r) clientId = true := by
  have fine := inv.fine clientId
  by_cases here : ∃ p, s.service.clients clientId = some p ∧ p.loop.shardId = shard
  · obtain ⟨p, present, same⟩ := here
    subst same
    exact Or.inr (fine.parted p present absent)
  · exact fine.apart shard (fun p present same => here ⟨p, present, same⟩)

end

section

variable (s : Cluster) (clientId shardId numSlots : Nat) (accepted : ¬ refuses s.order clientId shardId)

include accepted

theorem welcomed_added : s.order.addClient clientId shardId numSlots =
    (s.order.setClientState clientId (some (ClientState.init shardId numSlots)),
      [.client clientId (.storageInfo (s.order.storageQueues shardId))]) := if_neg accepted

theorem welcomed_order : (s.welcomed clientId shardId numSlots).order =
    s.order.setClientState clientId (some (ClientState.init shardId numSlots)) := by
  unfold Cluster.welcomed
  rw [welcomed_added s clientId shardId numSlots accepted]
  rfl

theorem welcomed_control (place : Place) : (s.welcomed clientId shardId numSlots).control place = s.control place := by
  unfold Cluster.welcomed
  rw [welcomed_added s clientId shardId numSlots accepted]
  exact List.append_nil _

theorem welcomed_told : (s.welcomed clientId shardId numSlots).notices clientId = [.storageInfo (s.order.storageQueues shardId)] := by
  unfold Cluster.welcomed
  rw [welcomed_added s clientId shardId numSlots accepted]
  simp [toClient]

theorem welcomed_feeds (replicas : Nat → List Nat) (client : Nat) (different : client ≠ clientId) :
    Feeds replicas client s (s.welcomed clientId shardId numSlots) := by
  refine feeds_same replicas client _ _ (fun _ => rfl) (fun place => Function.update_of_ne different _ _) (fun _ => rfl) ?_ ?_
  · unfold Cluster.welcomed
    rw [welcomed_added s clientId shardId numSlots accepted]
    simp [Function.update_of_ne different, Cluster.ordered, toClient, Ne.symm different]
  · intro place _
    rw [welcomed_control s clientId shardId numSlots accepted]

theorem welcomed_state (client : Nat) (state : Order.ClientState)
    (present : (s.welcomed clientId shardId numSlots).order.clientState client = some state) :
    client = clientId ∧ state = ClientState.init shardId numSlots ∨ s.order.clientState client = some state := by
  rw [welcomed_order s clientId shardId numSlots accepted] at present
  by_cases mine : client = clientId
  · rw [mine, set_client_state_same] at present
    exact Or.inl ⟨mine, (Option.some.inj present).symm⟩
  · rw [set_client_state_other _ _ _ _ mine] at present
    exact Or.inr present

end

theorem accepted_checks (order : State) (clientId shardId : Nat) (accepted : ¬ refuses order clientId shardId) :
    shardId < order.numShards ∧ clientId < maxClients ∧ order.clientState clientId = none := by
  simp only [refuses, not_or, Nat.not_le, Option.not_isSome_iff_eq_none] at accepted
  exact ⟨accepted.1, accepted.2.1, accepted.2.2.1⟩

section

variable (replicas : Nat → List Nat) (s : Supply) (inv : s.Inv replicas) (clientId shardId numSlots : Nat)
  (accepted : ¬ refuses s.service.cluster.order clientId shardId)

include inv accepted

theorem welcomed_left (shard : Nat) :
    (∀ r ∈ replicas shard, Quiet (s.service.cluster.welcomed clientId shardId numSlots) (shard, r) clientId) ∨
      ∀ r ∈ replicas shard, (s.service.cluster.welcomed clientId shardId numSlots).gone (shard, r) clientId = true := by
  obtain ⟨_, _, absent⟩ := accepted_checks _ clientId shardId accepted
  cases parted_shut replicas s inv clientId absent shard with
  | inl quiet =>
      refine Or.inl ?_
      intro r member
      refine ⟨(quiet r member).received, (quiet r member).gone, ?_⟩
      rw [welcomed_control _ clientId shardId numSlots accepted]
      exact (quiet r member).granted
  | inr gone => exact Or.inr gone

theorem welcomed_links :
    (∀ r ∈ replicas shardId, Shut (s.service.cluster.welcomed clientId shardId numSlots) (shardId, r) clientId) ∨
      ∀ r ∈ replicas shardId, Linked (s.service.cluster.welcomed clientId shardId numSlots) (shardId, r) clientId [] 0
        (grants ((s.service.cluster.welcomed clientId shardId numSlots).notices clientId)) := by
  obtain ⟨_, known, _⟩ := accepted_checks _ clientId shardId accepted
  have replies : ∀ place, (s.service.cluster.welcomed clientId shardId numSlots).replies place clientId = [] :=
    fun place => Function.update_self _ _ _
  cases welcomed_left replicas s inv clientId shardId numSlots accepted shardId with
  | inl quiet =>
      refine Or.inr ?_
      intro r member
      have before := quiet r member
      refine ⟨before.received, before.gone, by rw [replies]; rfl, ?_, ?_⟩
      · intro index reply access
        rw [replies] at access
        cases access
      · rw [welcomed_told _ clientId shardId numSlots accepted, before.granted (Nat.ne_of_lt (Nat.lt_trans known max_clients_lt))]
        rfl
  | inr gone => exact Or.inl (fun r member => ⟨gone r member, replies _⟩)

end

theorem join_supply (replicas : Nat → List Nat) (s : Supply) (inv : s.Inv replicas) (failures clientId shardId numSlots : Nat) (next : Supply)
    (stepped : s.step failures (.join clientId shardId numSlots) = some next) : next.Inv replicas := by
  simp only [Supply.step, Option.ite_none_left_eq_some] at stepped
  obtain ⟨accepted, joined⟩ := stepped
  cases joined
  obtain ⟨shardBound, known, absent⟩ := accepted_checks _ clientId shardId accepted
  have order := welcomed_order s.service.cluster clientId shardId numSlots accepted
  have states := welcomed_state s.service.cluster clientId shardId numSlots accepted
  have here : (s.service.cluster.welcomed clientId shardId numSlots).order.clientState clientId =
      some (ClientState.init shardId numSlots) := by rw [order, set_client_state_same]
  constructor
  · exact (congrArg State.storageQueues order).trans inv.queues
  · intro client state present
    refine ⟨?_, Nat.lt_of_lt_of_eq ?_ (congrArg State.numShards order).symm⟩
    · obtain ⟨mine, _⟩ | before := states client state present
      · rw [mine]
        exact known
      · exact (inv.valid client state before).1
    · obtain ⟨_, same⟩ | before := states client state present
      · rw [same]
        exact shardBound
      · exact (inv.valid client state before).2
  · intro client state present
    obtain ⟨_, same⟩ | before := states client state present
    · rw [same]
      exact ⟨rfl, rfl⟩
    · exact inv.alive client state before
  · intro place member
    exact host_congr s.service.cluster _ place (inv.hosts place member) rfl rfl rfl
      (welcomed_control _ clientId shardId numSlots accepted place)
  · intro client
    by_cases mine : client = clientId
    · subst mine
      refine fine_own replicas _ client (Caller.init client shardId failures) (Function.update_self _ _ _) ?_ ?_ ?_ ?_
      · refine ⟨known, init_steady _ client shardId failures, ?_, fun r _ => Function.update_self _ _ _,
          welcomed_links replicas s inv client shardId numSlots accepted⟩
        change Account (replicas shardId) ((s.service.cluster.welcomed client shardId numSlots).notices client) _
          (Function.update s.entered client 0 client) (Function.update s.clock client 0 client) (Function.update s.stamps client [] client)
        rw [welcomed_told _ client shardId numSlots accepted, inv.queues, Function.update_self, Function.update_self, Function.update_self]
        refine ⟨⟨[], rfl, fun _ => List.not_mem_nil⟩, Nat.zero_le _, ?_, Client.init_paced client shardId failures, rfl, ?_⟩
        · intro count member
          cases member
        · intro index stamp access
          cases access
      · intro state present
        rw [← Option.some.inj (here.symm.trans present)]
        rfl
      · intro removed
        cases here.symm.trans removed
      · intro shard _
        exact welcomed_left replicas s inv client shardId numSlots accepted shard
    · refine fine_feeds replicas s _ client (inv.fine client) (welcomed_feeds _ clientId shardId numSlots accepted replicas client mine)
        (Function.update_of_ne mine _ _) ?_ (Function.update_of_ne mine _ _) (Function.update_of_ne mine _ _) (Function.update_of_ne mine _ _)
      change ((s.service.cluster.welcomed clientId shardId numSlots).order.clientState client).map ClientState.shardId = _
      rw [order, set_client_state_other _ _ _ _ mine]

end ZipLog.System
