import ZipLog.System.Progress

set_option autoImplicit false

namespace ZipLog.System

open Storage

-- A handler of storage::control that waits on state.cv.
inductive Handler where
  | freeze (clientId : Nat)
  | failure (clientId : Nat)
deriving DecidableEq, Repr

def Handler.client : Handler → Nat
  | .freeze clientId => clientId
  | .failure clientId => clientId

-- The cluster with the processes of the clients. introduced says that the server
-- has accepted the connection of the client, which is before it calls add_client.
-- waiting is the handler in which the control thread of a server waits.
structure Watch where
  cluster : Cluster
  crashed : Nat → Bool
  introduced : Place → Nat → Bool
  waiting : Place → Option Handler

def Watch.init (numShards : Nat) (replicas : Nat → List Nat) : Watch :=
  ⟨Cluster.init numShards replicas, fun _ => false, fun _ _ => false, fun _ => none⟩

inductive Occurrence where
  | cluster (event : Event)
  | introduce (place : Place) (clientId : Nat)
  | crash (clientId : Nat)
  | block (place : Place) (handler : Handler)
  | wake (place : Place) (beyond : Bytes)
deriving DecidableEq, Repr

def Watch.connected (s : Watch) (place : Place) (clientId : Nat) : Bool := ((s.cluster.servers place).clientState clientId).connected

-- What the control thread has to do next, a message or a failed connection.
def Watch.handles (s : Watch) (place : Place) : Handler → Prop
  | .freeze clientId => (s.cluster.control place)[s.cluster.handled place]? = some (.clientFreeze clientId)
  | .failure clientId => s.introduced place clientId = true

instance (s : Watch) (place : Place) : (handler : Handler) → Decidable (s.handles place handler)
  | .freeze clientId => inferInstanceAs (Decidable (_ = some (StorageControl.clientFreeze clientId)))
  | .failure _ => inferInstanceAs (Decidable (_ = true))

-- A crashed client does not introduce itself; a thread that waits does nothing
-- else. Failures are seen of accepted connections, messages may arrive late.
def Watch.permits (s : Watch) : Event → Prop
  | .addClient clientId _ _ => s.crashed clientId = false
  | .connect place clientId => s.introduced place clientId = true
  | .control place _ => s.waiting place = none
  | .suspect place clientId => s.waiting place = none ∧ s.introduced place clientId = true
  | _ => True

instance (s : Watch) : (event : Event) → Decidable (s.permits event)
  | .addClient _ _ _ => inferInstanceAs (Decidable (_ = false))
  | .connect _ _ => inferInstanceAs (Decidable (_ = true))
  | .control _ _ => inferInstanceAs (Decidable (_ = none))
  | .suspect _ _ => inferInstanceAs (Decidable (_ = none ∧ _ = true))
  | .clientRate _ _ | .epoch _ | .detect _ | .finish _ | .report _ | .insert _ _ _ | .leave _ _ => isTrue trivial

def Handler.resume (handler : Handler) (place : Place) (beyond : Bytes) : Event :=
  match handler with
  | .freeze _ => .control place beyond
  | .failure clientId => .suspect place clientId

-- The client learns where the servers of its shard are from client_storage_info.
def Watch.step (s : Watch) : Occurrence → Option Watch
  | .cluster event =>
      if s.permits event then (s.cluster.step event).map (fun cluster => { s with cluster := cluster }) else none
  | .introduce place clientId =>
      if s.crashed clientId = false ∧ s.cluster.homes clientId = some place.1 ∧ s.cluster.serves place = true then
        some { s with introduced := Function.update s.introduced place (Function.update (s.introduced place) clientId true) }
      else none
  | .crash clientId => some { s with crashed := Function.update s.crashed clientId true }
  | .block place handler =>
      if s.waiting place = none ∧ s.cluster.serves place = true ∧ s.handles place handler ∧ s.connected place handler.client = false then
        some { s with waiting := Function.update s.waiting place (some handler) }
      else none
  | .wake place beyond =>
      match s.waiting place with
      | none => none
      | some handler =>
          if s.connected place handler.client = true then
            (s.cluster.step (handler.resume place beyond)).map (fun cluster =>
              { s with cluster := cluster, waiting := Function.update s.waiting place none })
          else none

-- The server does not know the client as connected yet and may still be made to
-- wait for it.
def Watch.awaited (s : Watch) (place : Place) (clientId : Nat) : Prop :=
  s.connected place clientId = false ∧ ((∃ client ∈ s.cluster.order.clientState clientId, client.shardId = place.1) ∨
    .clientFreeze clientId ∈ (s.cluster.control place).drop (s.cluster.handled place) ∨ s.introduced place clientId = true)

instance (s : Watch) (place : Place) (clientId : Nat) : Decidable (s.awaited place clientId) :=
  inferInstanceAs (Decidable (_ = false ∧ (_ ∨ _ ∨ _ = true)))

-- Clients crash only when no server of their shard awaits them.
def Watch.timely (s : Watch) : Occurrence → Prop
  | .crash clientId => ∀ shard ∈ s.cluster.homes clientId, ∀ replica ∈ s.cluster.order.storageQueues shard, ¬ s.awaited (shard, replica) clientId
  | _ => True

instance (s : Watch) : (occurrence : Occurrence) → Decidable (s.timely occurrence)
  | .crash clientId => inferInstanceAs (Decidable (∀ shard ∈ s.cluster.homes clientId,
      ∀ replica ∈ s.cluster.order.storageQueues shard, ¬ s.awaited (shard, replica) clientId))
  | .cluster _ | .introduce _ _ | .block _ _ | .wake _ _ => isTrue trivial

-- What one step of the cluster does to all that awaited reads.
structure Carries (event : Event) (s next : Cluster) : Prop where
  queues : next.order.storageQueues = s.order.storageQueues
  connected : ∀ place client, ((s.servers place).clientState client).connected = true →
    ((next.servers place).clientState client).connected = true
  homes : ∀ client, (∀ shard numSlots, event ≠ .addClient client shard numSlots) → next.homes client = s.homes client
  kept : ∀ client shard, s.homes client = some shard → next.homes client = some shard
  stays : ∀ client state, next.order.clientState client = some state →
    (∃ old, s.order.clientState client = some old ∧ old.shardId = state.shardId) ∨
      next.homes client = some state.shardId ∧ ∃ shard numSlots, event = .addClient client shard numSlots
  control : ∀ place, ∃ new, next.control place = s.control place ++ new ∧ ∀ client, .clientFreeze client ∈ new →
    s.serves place = true ∧ ∃ state, s.order.clientState client = some state ∧ state.shardId = place.1
  handled : ∀ place, (∀ beyond, event ≠ .control place beyond) → next.handled place = s.handled place
  forward : ∀ place, s.handled place ≤ next.handled place

theorem freeze_posted (sent : List Order.Sent) (place : Place) (client : Nat)
    (member : .clientFreeze client ∈ sent.filterMap (toStorage place)) : .storage place.1 place.2 (.clientFreeze client) ∈ sent := by
  obtain ⟨item, inside, named⟩ := List.mem_filterMap.mp member
  cases item with
  | client other message => cases named
  | storage shardId replicaId message =>
      simp only [toStorage, Option.ite_none_right_eq_some, Option.some.injEq] at named
      obtain ⟨here, same⟩ := named
      rw [← here, ← same]
      exact inside

theorem broadcast_member (state : Order.State) (shard shardId replicaId : Nat) (messages : List StorageControl) (message : StorageControl)
    (member : .storage shardId replicaId message ∈ messages.flatMap (state.broadcast shard)) :
    message ∈ messages ∧ shardId = shard ∧ replicaId ∈ state.storageQueues shard := by
  obtain ⟨posted, inside, copy⟩ := List.mem_flatMap.mp member
  obtain ⟨replica, served, same⟩ := List.mem_map.mp copy
  cases same
  exact ⟨inside, rfl, served⟩

theorem moves_carries (event : Event) (s : Cluster) (result : Order.State × List Order.Sent) (clientId shard : Nat)
    (messages : List StorageControl) (moves : s.order.Moves result.1 result.2 clientId shard messages) : Carries event s (s.ordered result) := by
  refine ⟨moves.keeps.queues, fun _ _ on => on, fun _ _ => rfl, fun _ _ home => home, ?_, ?_, fun _ _ => rfl, fun _ => Nat.le_refl _⟩
  · intro client state present
    left
    by_cases mine : client = clientId
    · subst mine
      obtain ⟨old, before, shards, -⟩ := moves.stays state present
      exact ⟨old, before, shards.symm⟩
    · exact ⟨state, (moves.others client mine).symm.trans present, rfl⟩
  · intro place
    refine ⟨_, rfl, fun client member => ?_⟩
    have sent := freeze_posted _ place client member
    obtain ⟨front, all, talk⟩ := moves.sent
    rw [all] at sent
    cases List.mem_append.mp sent with
    | inl early =>
        obtain ⟨other, message, same⟩ := talk _ early
        cases same
    | inr late =>
        obtain ⟨posted, here, served⟩ := broadcast_member s.order shard place.1 place.2 messages _ late
        obtain ⟨own, -⟩ := moves.freezes client posted
        obtain ⟨state, present, home⟩ := moves.home (List.ne_nil_of_mem posted)
        rw [← here] at served
        exact ⟨decide_eq_true served, state, own ▸ present, home.trans here.symm⟩

theorem server_carries (event : Event) (s next : Cluster) (order : next.order = s.order) (homes : next.homes = s.homes)
    (control : next.control = s.control)
    (connected : ∀ place client, ((s.servers place).clientState client).connected = true →
      ((next.servers place).clientState client).connected = true)
    (handled : ∀ place, (∀ beyond, event ≠ .control place beyond) → next.handled place = s.handled place)
    (forward : ∀ place, s.handled place ≤ next.handled place) : Carries event s next := by
  refine ⟨by rw [order], connected, fun client _ => congrFun homes client, ?_, ?_, ?_, handled, forward⟩
  · intro client shard home
    rw [homes]
    exact home
  · intro client state present
    rw [order] at present
    exact Or.inl ⟨state, present, rfl⟩
  · intro place
    exact ⟨[], by rw [control, List.append_nil], fun client member => by cases member⟩

theorem set_server_connected (s : Cluster) (here place : Place) (server : Server) (client : Nat)
    (kept : ((s.servers here).clientState client).connected = true → (server.clientState client).connected = true)
    (before : ((s.servers place).clientState client).connected = true) :
    (((s.setServer here server).servers place).clientState client).connected = true := by
  by_cases same : place = here
  · subst same
    rw [show (s.setServer place server).servers place = server from Function.update_self _ _ _]
    exact kept before
  · rw [show (s.setServer here server).servers place = s.servers place from Function.update_of_ne same _ _]
    exact before

theorem disconnect_connected (server : Server) (clientId client : Nat) :
    ((server.disconnect clientId).clientState client).connected = (server.clientState client).connected := by
  by_cases mine : client = clientId
  · rw [mine, Server.disconnect, client_state_same]
  · rw [Server.disconnect, client_state_other _ _ _ _ mine]

theorem add_client_connected (server : Server) (clientId client : Nat) (on : (server.clientState client).connected = true) :
    ((server.addClient clientId).clientState client).connected = true := by
  unfold Server.addClient
  dsimp only
  split
  · exact on
  · by_cases mine : client = clientId
    · rw [mine, client_state_same]
    · rw [client_state_other _ _ _ _ mine]
      exact on

theorem control_connected (server next : Server) (message : StorageControl) (beyond : Bytes) (reports : List OrderControl) (client : Nat)
    (ran : server.control message beyond = .ok (next, reports)) :
    (next.clientState client).connected = (server.clientState client).connected := by
  cases message with
  | slots slots =>
      cases ran
      unfold Server.storageSlots
      split
      · rfl
      · rfl
  | clientFreeze clientId =>
      cases ran
      exact disconnect_connected server clientId client
  | clientCut req =>
      simp only [Server.control] at ran
      cases answered : server.storageClientCut req with
      | error fault =>
          rw [answered] at ran
          cases ran
      | ok data =>
          rw [answered] at ran
          cases ran
          rfl
  | clientPatch patch =>
      simp only [Server.control] at ran
      cases patched : server.storageClientPatch patch beyond with
      | error fault =>
          rw [patched] at ran
          cases ran
      | ok result =>
          rw [patched] at ran
          cases ran
          exact (patch_states server next patch beyond patched client).2
  | clientFinalize clientId =>
      simp only [Server.control] at ran
      cases closed : server.storageClientFinalize clientId with
      | error fault =>
          rw [closed] at ran
          cases ran
      | ok result =>
          rw [closed] at ran
          cases ran
          exact (finalize_states server next clientId closed client).2

theorem joined_carries (s : Cluster) (clientId shard numSlots : Nat) (fresh : s.homes clientId = none) :
    Carries (.addClient clientId shard numSlots) s (s.joined clientId shard numSlots) := by
  have homes : ∀ client, client ≠ clientId → (s.joined clientId shard numSlots).homes client = s.homes client :=
    fun client different => Function.update_of_ne different _ _
  have accepts := add_client_cases s.order clientId shard numSlots
  refine ⟨(Order.keeps_add_client s.order clientId shard numSlots).queues, fun _ _ on => on, ?_, ?_, ?_, ?_, fun _ _ => rfl,
    fun _ => Nat.le_refl _⟩
  · intro client other
    exact homes client (fun same => other shard numSlots (by rw [same]))
  · intro client at_shard home
    have different : client ≠ clientId := by
      intro same
      rw [same, fresh] at home
      cases home
    rw [homes client different]
    exact home
  · intro client state present
    by_cases mine : client = clientId
    · subst mine
      right
      refine ⟨?_, shard, numSlots, rfl⟩
      change Function.update s.homes client _ client = _
      rw [Function.update_self, show (s.order.addClient client shard numSlots).1.clientState client = some state from present]
      rfl
    · left
      refine ⟨state, ?_, rfl⟩
      cases accepts with
      | inl refused =>
          rw [← present]
          change _ = (s.order.addClient clientId shard numSlots).1.clientState client
          rw [refused]
      | inr accepted =>
          rw [← present]
          change _ = (s.order.addClient clientId shard numSlots).1.clientState client
          rw [accepted.2]
          exact (Order.set_client_state_other _ _ _ _ mine).symm
  · intro place
    refine ⟨_, rfl, fun client member => ?_⟩
    have sent := freeze_posted _ place client member
    cases accepts with
    | inl refused =>
        rw [refused] at sent
        cases sent
    | inr accepted =>
        rw [accepted.2] at sent
        cases List.mem_singleton.mp sent

theorem epoch_carries (s : Cluster) (now : Nat) : Carries (.epoch now) s (s.ordered (s.order.epoch now)) := by
  refine ⟨rfl, fun _ _ on => on, fun _ _ => rfl, fun _ _ home => home, fun _ state present => Or.inl ⟨state, present, rfl⟩, ?_,
    fun _ _ => rfl, fun _ => Nat.le_refl _⟩
  intro place
  refine ⟨_, rfl, fun client member => ?_⟩
  have sent := freeze_posted _ place client member
  cases List.mem_append.mp sent with
  | inl told =>
      obtain ⟨slot, -, same⟩ := List.mem_map.mp told
      cases same
  | inr posted =>
      obtain ⟨shard, -, copy⟩ := List.mem_flatMap.mp posted
      obtain ⟨replica, -, same⟩ := List.mem_map.mp copy
      cases same

theorem controlled_carries (s : Cluster) (place : Place) (beyond : Bytes) (message : StorageControl) (server : Server)
    (reports : List OrderControl) (ran : (s.servers place).control message beyond = .ok (server, reports)) :
    Carries (.control place beyond) s (s.controlled place server reports) := by
  refine server_carries _ s _ rfl rfl rfl (fun other client => set_server_connected s place other _ client ?_) ?_ ?_
  · intro on
    exact (control_connected (s.servers place) server message beyond reports client ran).trans on
  · intro other elsewhere
    exact Function.update_of_ne (fun same => elsewhere beyond (by rw [same])) _ _
  · intro other
    change _ ≤ Function.update s.handled place (s.handled place + 1) other
    by_cases same : other = place
    · rw [same, Function.update_self]
      exact Nat.le_succ _
    · rw [Function.update_of_ne same]

theorem step_carries (s next : Cluster) (event : Event) (stepped : s.step event = some next) : Carries event s next := by
  cases event with
  | addClient clientId shardId numSlots =>
      obtain ⟨fresh, taken⟩ := Option.ite_none_left_eq_some.mp stepped
      cases taken
      exact joined_carries s clientId shardId numSlots (Option.not_isSome_iff_eq_none.mp fresh)
  | clientRate clientId numSlots =>
      cases stepped
      obtain ⟨shard, messages, moves⟩ := Order.moves_client_rate s.order clientId numSlots
      exact moves_carries _ s _ clientId shard messages moves
  | epoch now =>
      cases (Option.ite_none_right_eq_some.mp stepped).2
      exact epoch_carries s now
  | detect clientId =>
      cases stepped
      obtain ⟨shard, messages, moves⟩ := Order.moves_client_freeze s.order clientId
      exact moves_carries _ s _ clientId shard messages moves
  | finish clientId =>
      cases stepped
      obtain ⟨shard, messages, moves⟩ := Order.moves_client_finished s.order clientId
      exact moves_carries _ s _ clientId shard messages moves
  | report place =>
      obtain ⟨message, -, rfl⟩ := Option.map_eq_some_iff.mp (Option.ite_none_right_eq_some.mp stepped).2
      obtain ⟨clientId, shard, messages, moves⟩ := report_moves s.order message
      have carries := moves_carries (.report place) s _ clientId shard messages moves
      exact ⟨carries.queues, carries.connected, carries.homes, carries.kept, carries.stays, carries.control, carries.handled, carries.forward⟩
  | connect place clientId =>
      cases (Option.ite_none_right_eq_some.mp stepped).2
      exact server_carries _ s _ rfl rfl rfl (fun other client => set_server_connected s place other _ client
        (add_client_connected (s.servers place) clientId client)) (fun _ _ => rfl) (fun _ => Nat.le_refl _)
  | control place beyond =>
      obtain ⟨-, message, -, ⟨fault, -, rfl⟩ | ⟨server, reports, ran, rfl⟩⟩ := control_taken s next place beyond stepped
      · exact server_carries _ s _ rfl rfl rfl (fun _ _ on => on) (fun _ _ => rfl) (fun _ => Nat.le_refl _)
      · exact controlled_carries s place beyond message server reports ran
  | insert place req beyond =>
      obtain ⟨-, -, ⟨server, -, rfl⟩ | ⟨server, ack, ran, rfl⟩⟩ := insert_taken s next place req beyond stepped
      · exact server_carries _ next _ rfl rfl rfl (fun _ _ on => on) (fun _ _ => rfl) (fun _ => Nat.le_refl _)
      · obtain ⟨-, states⟩ := insert_answered (s.servers place) server req beyond ack ran
        exact server_carries _ s _ rfl rfl rfl (fun other client => set_server_connected s place other _ client
          (fun on => (states client).2.trans on)) (fun _ _ => rfl) (fun _ => Nat.le_refl _)
  | leave place clientId =>
      cases (Option.ite_none_right_eq_some.mp stepped).2
      refine server_carries _ s _ rfl rfl rfl (fun other client => set_server_connected s place other _ client ?_) (fun _ _ => rfl)
        (fun _ => Nat.le_refl _)
      intro on
      obtain ⟨same, -⟩ | ⟨same, -⟩ := client_finished_cases (s.servers place) clientId
      · rw [same]
        exact on
      · rw [same]
        exact (disconnect_connected (s.servers place) clientId client).trans on
  | suspect place clientId =>
      cases (Option.ite_none_right_eq_some.mp stepped).2
      exact server_carries _ s _ rfl rfl rfl (fun other client => set_server_connected s place other _ client
        (fun on => (disconnect_connected (s.servers place) clientId client).trans on)) (fun _ _ => rfl) (fun _ => Nat.le_refl _)

structure Watch.Inv (s : Watch) : Prop where
  home : ∀ client state, s.cluster.order.clientState client = some state → s.cluster.homes client = some state.shardId
  freezes : ∀ place client, .clientFreeze client ∈ s.cluster.control place →
    s.cluster.homes client = some place.1 ∧ s.cluster.serves place = true
  introduced : ∀ place client, s.introduced place client = true → s.cluster.homes client = some place.1 ∧ s.cluster.serves place = true
  waiting : ∀ place handler, s.waiting place = some handler → s.handles place handler
  gone : ∀ client, s.crashed client = true → ∀ place : Place, s.cluster.homes client = some place.1 → s.cluster.serves place = true →
    ¬ s.awaited place client

theorem watch_init (numShards : Nat) (replicas : Nat → List Nat) : (Watch.init numShards replicas).Inv := by
  refine ⟨?_, ?_, ?_, ?_, ?_⟩
  · intro client state present
    cases present
  · intro place client member
    cases member
  · intro place client member
    cases member
  · intro place handler waits
    cases waits
  · intro client crashed
    cases crashed

-- A step of the cluster in which no thread that waits takes part.
theorem watch_cluster (s : Watch) (next : Cluster) (event : Event) (inv : s.Inv) (carries : Carries event s.cluster next)
    (joins : ∀ client shard numSlots, event = .addClient client shard numSlots → s.crashed client = false)
    (free : ∀ place beyond, event = .control place beyond → s.waiting place = none) :
    Watch.Inv { s with cluster := next } := by
  have serves : ∀ place, next.serves place = s.cluster.serves place := by
    intro place
    unfold Cluster.serves
    rw [carries.queues]
  have freezes : ∀ place client, .clientFreeze client ∈ next.control place → s.cluster.homes client = some place.1 ∧ s.cluster.serves place = true := by
    intro place client member
    obtain ⟨new, all, posted⟩ := carries.control place
    rw [all] at member
    cases List.mem_append.mp member with
    | inl earlier => exact inv.freezes place client earlier
    | inr now =>
        obtain ⟨served, state, present, shard⟩ := posted client now
        exact ⟨shard ▸ inv.home client state present, served⟩
  refine ⟨?_, ?_, ?_, ?_, ?_⟩
  · intro client state present
    cases carries.stays client state present with
    | inl old =>
        obtain ⟨before, there, shard⟩ := old
        exact carries.kept client _ (shard ▸ inv.home client before there)
    | inr new => exact new.1
  · intro place client member
    obtain ⟨home, served⟩ := freezes place client member
    exact ⟨carries.kept client _ home, (serves place).trans served⟩
  · intro place client told
    obtain ⟨home, served⟩ := inv.introduced place client told
    exact ⟨carries.kept client _ home, (serves place).trans served⟩
  · intro place handler waits
    have head := inv.waiting place handler waits
    cases handler with
    | failure clientId => exact head
    | freeze clientId =>
        obtain ⟨new, all, -⟩ := carries.control place
        have same := carries.handled place (fun beyond named => by
          rw [free place beyond named] at waits
          cases waits)
        change (next.control place)[next.handled place]? = _
        rw [all, same]
        exact List.getElem?_append_left (List.getElem?_eq_some_iff.mp head).1 ▸ head
  · intro client crashed place home served awaited
    have same : next.homes client = s.cluster.homes client := carries.homes client (fun shard numSlots named => by
      rw [joins client shard numSlots named] at crashed
      cases crashed)
    have before := same.symm.trans home
    refine inv.gone client crashed place before ((serves place).symm.trans served) ⟨?_, ?_⟩
    · by_contra on
      have still := carries.connected place client (Bool.eq_true_of_not_eq_false on)
      exact Bool.noConfusion (still.symm.trans awaited.1)
    · cases awaited.2 with
      | inl held =>
          obtain ⟨state, present, shard⟩ := held
          cases carries.stays client state present with
          | inl old =>
              obtain ⟨earlier, there, equal⟩ := old
              exact Or.inl ⟨earlier, there, equal.trans shard⟩
          | inr new =>
              obtain ⟨-, at_shard, numSlots, named⟩ := new
              rw [joins client at_shard numSlots named] at crashed
              cases crashed
      | inr rest =>
          cases rest with
          | inr told => exact Or.inr (Or.inr told)
          | inl pending =>
              obtain ⟨new, all, posted⟩ := carries.control place
              change _ ∈ (next.control place).drop (next.handled place) at pending
              have later := List.drop_subset_drop_left _ (carries.forward place) pending
              rw [all, List.drop_append] at later
              cases List.mem_append.mp later with
              | inl earlier => exact Or.inr (Or.inl earlier)
              | inr now =>
                  obtain ⟨-, state, present, shard⟩ := posted client (List.mem_of_mem_drop now)
                  exact Or.inl ⟨state, present, shard⟩

-- A thread starts to wait for its next task, or stops to.
theorem watch_thread (s : Watch) (inv : s.Inv) (place : Place) (task : Option Handler)
    (next : ∀ handler, task = some handler → s.handles place handler) :
    Watch.Inv { s with waiting := Function.update s.waiting place task } := by
  refine ⟨inv.home, inv.freezes, inv.introduced, ?_, inv.gone⟩
  intro other handler waits
  change Function.update s.waiting place task other = some handler at waits
  by_cases here : other = place
  · rw [here, Function.update_self] at waits
    rw [here]
    exact next handler waits
  · rw [Function.update_of_ne here] at waits
    exact inv.waiting other handler waits

-- A living client reaches a server of its shard.
theorem watch_introduced (s : Watch) (inv : s.Inv) (place : Place) (clientId : Nat) (alive : s.crashed clientId = false)
    (home : s.cluster.homes clientId = some place.1) (served : s.cluster.serves place = true) :
    Watch.Inv { s with introduced := Function.update s.introduced place (Function.update (s.introduced place) clientId true) } := by
  have told : ∀ other client, Function.update s.introduced place (Function.update (s.introduced place) clientId true) other client = true →
      (other = place ∧ client = clientId) ∨ s.introduced other client = true := by
    intro other client now
    by_cases here : other = place
    · rw [here, Function.update_self] at now
      by_cases mine : client = clientId
      · exact Or.inl ⟨here, mine⟩
      · rw [Function.update_of_ne mine] at now
        exact Or.inr (here ▸ now)
    · rw [Function.update_of_ne here] at now
      exact Or.inr now
  refine ⟨inv.home, inv.freezes, ?_, ?_, ?_⟩
  · intro other client now
    cases told other client now with
    | inl new =>
        rw [new.1, new.2]
        exact ⟨home, served⟩
    | inr old => exact inv.introduced other client old
  · intro other handler waits
    have head := inv.waiting other handler waits
    cases handler with
    | freeze client => exact head
    | failure client =>
        change Function.update s.introduced place (Function.update (s.introduced place) clientId true) other client = true
        by_cases here : other = place
        · rw [here, Function.update_self]
          by_cases mine : client = clientId
          · rw [mine, Function.update_self]
          · rw [Function.update_of_ne mine]
            exact here ▸ head
        · rw [Function.update_of_ne here]
          exact head
  · intro client crashed other at_home serves awaited
    refine inv.gone client crashed other at_home serves ⟨awaited.1, ?_⟩
    cases awaited.2 with
    | inl held => exact Or.inl held
    | inr rest =>
        cases rest with
        | inl pending => exact Or.inr (Or.inl pending)
        | inr now =>
            cases told other client now with
            | inr old => exact Or.inr (Or.inr old)
            | inl new =>
                rw [new.2] at crashed
                exact Bool.noConfusion (alive.symm.trans crashed)

theorem watch_step (s next : Watch) (occurrence : Occurrence) (inv : s.Inv) (timely : s.timely occurrence)
    (stepped : s.step occurrence = some next) : next.Inv := by
  unfold Watch.step at stepped
  cases occurrence with
  | cluster event =>
      dsimp only at stepped
      rw [Option.ite_none_right_eq_some] at stepped
      obtain ⟨permitted, taken⟩ := stepped
      obtain ⟨cluster, moved, rfl⟩ := Option.map_eq_some_iff.mp taken
      refine watch_cluster s cluster event inv (step_carries s.cluster cluster event moved) ?_ ?_
      · intro client shard numSlots same
        cases same
        exact permitted
      · intro place beyond same
        cases same
        exact permitted
  | introduce place clientId =>
      dsimp only at stepped
      rw [Option.ite_none_right_eq_some] at stepped
      obtain ⟨⟨alive, home, served⟩, taken⟩ := stepped
      cases taken
      exact watch_introduced s inv place clientId alive home served
  | crash clientId =>
      cases stepped
      refine ⟨inv.home, inv.freezes, inv.introduced, inv.waiting, ?_⟩
      intro client crashed place home serves
      by_cases mine : client = clientId
      · rw [mine] at home ⊢
        exact timely place.1 home place.2 (of_decide_eq_true serves)
      · change Function.update s.crashed clientId true client = true at crashed
        rw [Function.update_of_ne mine] at crashed
        exact inv.gone client crashed place home serves
  | block place handler =>
      dsimp only at stepped
      rw [Option.ite_none_right_eq_some] at stepped
      obtain ⟨⟨-, -, head, -⟩, taken⟩ := stepped
      cases taken
      refine watch_thread s inv place (some handler) ?_
      intro other same
      cases same
      exact head
  | wake place beyond =>
      dsimp only at stepped
      split at stepped
      · cases stepped
      · rename_i handler _
        rw [Option.ite_none_right_eq_some] at stepped
        obtain ⟨cluster, moved, rfl⟩ := Option.map_eq_some_iff.mp stepped.2
        have rested := watch_thread s inv place none (fun handler none_ => by cases none_)
        refine watch_cluster _ cluster _ rested (step_carries s.cluster cluster _ moved) ?_ ?_
        · intro client shard numSlots same
          cases handler with
          | freeze clientId => cases same
          | failure clientId => cases same
        · intro other more same
          cases handler with
          | failure clientId => cases same
          | freeze clientId =>
              cases same
              exact Function.update_self _ _ _

end ZipLog.System
