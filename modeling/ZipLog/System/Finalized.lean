import ZipLog.Storage.Sealed
import ZipLog.System.Progress

set_option autoImplicit false

namespace ZipLog.System

open Storage

-- The checks of order::add_client.
def refuses (order : Order.State) (clientId shardId : Nat) : Prop :=
  order.numShards ≤ shardId ∨ maxClients ≤ clientId ∨ (order.clientState clientId).isSome ∨ maxClients ≤ order.clients.length

instance (order : Order.State) (clientId shardId : Nat) : Decidable (refuses order clientId shardId) :=
  inferInstanceAs (Decidable (_ ∨ _ ∨ _ = true ∨ _))

-- add_client for any ID, also one that was used before. homes remembers the last
-- shard that the ID has had.
def Cluster.admitted (s : Cluster) (clientId shardId numSlots : Nat) : Cluster :=
  let result := s.order.addClient clientId shardId numSlots
  { s.ordered result with
    homes := Function.update s.homes clientId
      (((result.1.clientState clientId).map Order.ClientState.shardId).or (s.homes clientId)) }

def Cluster.stepReusing (s : Cluster) (event : Event) : Option Cluster :=
  match event with
  | .addClient clientId shardId numSlots => some (s.admitted clientId shardId numSlots)
  | event => s.step event

-- No client is added under the ID of an earlier one.
def Cluster.unused (s : Cluster) : Event → Prop
  | .addClient clientId shardId _ => s.homes clientId = none ∨ refuses s.order clientId shardId
  | _ => True

instance (s : Cluster) : (event : Event) → Decidable (s.unused event)
  | .addClient clientId shardId _ => inferInstanceAs (Decidable (s.homes clientId = none ∨ refuses s.order clientId shardId))
  | .clientRate _ _ | .epoch _ | .detect _ | .finish _ | .report _ | .connect _ _ | .control _ _ | .insert _ _ _ | .leave _ _
  | .suspect _ _ => isTrue trivial

theorem admitted_ordered (replicas : Nat → List Nat) (s : Cluster) (history : Nat → List StorageControl) (clientId shard numSlots : Nat)
    (ordered : s.Ordered replicas history) (unused : s.homes clientId = none ∨ refuses s.order clientId shard) :
    (s.admitted clientId shard numSlots).Ordered replicas history := by
  by_cases fresh : s.homes clientId = none
  · have joined := joined_ordered replicas s history clientId shard numSlots ordered fresh
    have same : s.admitted clientId shard numSlots = s.joined clientId shard numSlots := by
      unfold Cluster.admitted Cluster.joined
      dsimp only
      rw [fresh, Option.or_none]
    rw [same]
    exact joined
  · have refused : s.order.addClient clientId shard numSlots = (s.order, []) := if_pos (unused.resolve_left fresh)
    have control : (s.admitted clientId shard numSlots).control = s.control := by
      unfold Cluster.admitted
      rw [refused]
      funext place
      exact List.append_nil _
    have order : (s.admitted clientId shard numSlots).order = s.order := by
      unfold Cluster.admitted
      rw [refused]
      rfl
    refine ordered_congr replicas s _ history ordered order ?_ control
    unfold Cluster.admitted
    rw [refused]
    dsimp only
    apply Function.update_eq_self_iff.mpr
    cases present : s.order.clientState clientId with
    | none => rfl
    | some state => exact (ordered.home clientId state present).symm

-- One history of all messages to a shard, and servers that have closed all slots
-- of the clients they have finalized.
structure Cluster.Closing (replicas : Nat → List Nat) (s : Cluster) (history : Nat → List StorageControl) : Prop where
  ordered : s.Ordered replicas history
  bounded : ∀ place : Place, s.handled place ≤ (s.control place).length
  servers : ∀ place : Place, (s.servers place).Sealed (s.seen place)

theorem init_closing (numShards : Nat) (replicas : Nat → List Nat) : (Cluster.init numShards replicas).Closing replicas (fun _ => []) :=
  ⟨init_ordered numShards replicas, fun _ => Nat.le_refl _, fun place => init_sealed place.1 place.2⟩

-- A step of the ordering service only adds to the links.
theorem order_closing (replicas : Nat → List Nat) (s next : Cluster) (history after : Nat → List StorageControl)
    (closing : s.Closing replicas history) (ordered : next.Ordered replicas after) (servers : next.servers = s.servers)
    (handled : next.handled = s.handled) (control : ∀ place, s.control place <+: next.control place) : next.Closing replicas after := by
  refine ⟨ordered, ?_, ?_⟩
  · intro place
    rw [handled]
    exact Nat.le_trans (closing.bounded place) (control place).length_le
  · intro place
    rw [servers, seen_grows s next place (closing.bounded place) (congrFun handled place) (control place)]
    exact closing.servers place

theorem server_closing (replicas : Nat → List Nat) (s next : Cluster) (history : Nat → List StorageControl) (here : Place) (server : Server)
    (closing : s.Closing replicas history) (sealed : server.Sealed (s.seen here)) (order : next.order = s.order) (homes : next.homes = s.homes)
    (control : next.control = s.control) (handled : next.handled = s.handled) (servers : next.servers = Function.update s.servers here server) :
    next.Closing replicas history := by
  have seen : ∀ place, next.seen place = s.seen place := by
    intro place
    rw [Cluster.seen, Cluster.seen, control, handled]
  refine ⟨ordered_congr replicas s next history closing.ordered order homes control, ?_, ?_⟩
  · intro place
    rw [handled, control]
    exact closing.bounded place
  · intro place
    rw [seen, servers]
    by_cases same : place = here
    · rw [same, Function.update_self]
      exact sealed
    · rw [Function.update_of_ne same]
      exact closing.servers place

theorem control_closing (replicas : Nat → List Nat) (s : Cluster) (history : Nat → List StorageControl) (here : Place) (server : Server)
    (reports : List OrderControl) (message : StorageControl) (beyond : Bytes) (closing : s.Closing replicas history)
    (member : here.2 ∈ replicas here.1) (pending : s.pending here = some message)
    (ran : (s.servers here).control message beyond = .ok (server, reports)) : (s.controlled here server reports).Closing replicas history := by
  obtain ⟨-, sent, bound⟩ := pending_seen s here message pending
  rw [show s.control here = history here.1 from closing.ordered.links here.1 here.2 member] at sent
  have settled := (closing.ordered.settled here.1).sublist sent.sublist
  have sealed : server.Sealed (s.seen here ++ [message]) := by
    refine sealed_control (s.servers here) server (s.seen here) message beyond reports (closing.servers here) ran ?_
    intro client final slot inside
    exact (List.pairwise_append.mp settled).2.2 _ final message List.mem_cons_self client |>.1 (Or.inr rfl) slot inside
  refine ⟨ordered_congr replicas s _ history closing.ordered rfl rfl rfl, ?_, ?_⟩
  · intro place
    by_cases same : place = here
    · rw [same, (controlled_here s here server reports message pending).2.2.1]
      exact bound
    · rw [(controlled_other s here place server reports same).2.2.1]
      exact closing.bounded place
  · intro place
    by_cases same : place = here
    · obtain ⟨servers, seen, -, -⟩ := controlled_here s here server reports message pending
      rw [same, servers, seen]
      exact sealed
    · obtain ⟨servers, seen, -, -⟩ := controlled_other s here place server reports same
      rw [servers, seen]
      exact closing.servers place

theorem step_closing (replicas : Nat → List Nat) (nodup : ∀ shard, (replicas shard).Nodup) (s next : Cluster) (event : Event)
    (history : Nat → List StorageControl) (closing : s.Closing replicas history) (unused : s.unused event)
    (stepped : s.stepReusing event = some next) : ∃ after, next.Closing replicas after := by
  have moved : ∀ (result : Order.State × List Order.Sent) clientId shard messages,
      s.order.Moves result.1 result.2 clientId shard messages → (s.ordered result).Closing replicas (extended history shard messages) := by
    intro result clientId shard messages moves
    exact order_closing replicas s _ history _ closing
      (moves_ordered replicas s history result.1 result.2 clientId shard messages nodup closing.ordered moves) rfl rfl
      (fun _ => List.prefix_append _ _)
  cases event with
  | addClient clientId shardId numSlots =>
      cases stepped
      exact ⟨history, order_closing replicas s _ history history closing
        (admitted_ordered replicas s history clientId shardId numSlots closing.ordered unused) rfl rfl (fun _ => List.prefix_append _ _)⟩
  | clientRate clientId numSlots =>
      cases stepped
      obtain ⟨shard, messages, moves⟩ := Order.moves_client_rate s.order clientId numSlots
      exact ⟨_, moved _ clientId shard messages moves⟩
  | epoch now =>
      obtain ⟨fits, taken⟩ := Option.ite_none_right_eq_some.mp stepped
      cases taken
      exact ⟨_, order_closing replicas s _ history _ closing (epoch_ordered replicas s history now nodup closing.ordered fits) rfl rfl
        (fun _ => List.prefix_append _ _)⟩
  | detect clientId =>
      cases stepped
      obtain ⟨shard, messages, moves⟩ := Order.moves_client_freeze s.order clientId
      exact ⟨_, moved _ clientId shard messages moves⟩
  | finish clientId =>
      cases stepped
      obtain ⟨shard, messages, moves⟩ := Order.moves_client_finished s.order clientId
      exact ⟨_, moved _ clientId shard messages moves⟩
  | report place =>
      obtain ⟨message, -, rfl⟩ := Option.map_eq_some_iff.mp (Option.ite_none_right_eq_some.mp stepped).2
      obtain ⟨clientId, shard, messages, moves⟩ := report_moves s.order message
      have after := moved _ clientId shard messages moves
      exact ⟨_, ordered_congr replicas _ _ _ after.ordered rfl rfl rfl, after.bounded, after.servers⟩
  | connect place clientId =>
      cases (Option.ite_none_right_eq_some.mp stepped).2
      obtain ⟨fills, tracks, complete⟩ := closing.servers place
      exact ⟨history, server_closing replicas s _ history place _ closing ⟨fills, add_client_tracks _ _ clientId tracks, complete⟩
        rfl rfl rfl rfl rfl⟩
  | control place beyond =>
      obtain ⟨served, message, pending, ⟨fault, -, rfl⟩ | ⟨server, reports, ran, rfl⟩⟩ := control_taken s next place beyond stepped
      · exact ⟨history, ordered_congr replicas s _ history closing.ordered rfl rfl rfl, closing.bounded, closing.servers⟩
      · have member : place.2 ∈ replicas place.1 := closing.ordered.queues ▸ of_decide_eq_true served
        exact ⟨history, control_closing replicas s history place server reports message beyond closing member pending ran⟩
  | insert place req beyond =>
      obtain ⟨-, -, ⟨server, -, rfl⟩ | ⟨server, ack, ran, rfl⟩⟩ := insert_taken s next place req beyond stepped
      · exact ⟨history, closing⟩
      · exact ⟨history, server_closing replicas s _ history place server closing
          (sealed_insert (s.servers place) server (s.seen place) req beyond ack (closing.servers place) ran) rfl rfl rfl rfl rfl⟩
  | leave place clientId =>
      cases (Option.ite_none_right_eq_some.mp stepped).2
      refine ⟨history, server_closing replicas s _ history place _ closing ?_ rfl rfl rfl rfl rfl⟩
      obtain ⟨same, -⟩ | ⟨same, -⟩ := client_finished_cases (s.servers place) clientId
      · rw [same]
        exact closing.servers place
      · rw [same]
        obtain ⟨fills, tracks, complete⟩ := closing.servers place
        exact ⟨fills, disconnect_tracks _ _ clientId tracks, complete⟩
  | suspect place clientId =>
      cases (Option.ite_none_right_eq_some.mp stepped).2
      obtain ⟨fills, tracks, complete⟩ := closing.servers place
      exact ⟨history, server_closing replicas s _ history place _ closing ⟨fills, disconnect_tracks _ _ clientId tracks, complete⟩
        rfl rfl rfl rfl rfl⟩

-- As long as no ID is used for a second client, no entry of a finalized client
-- is left unset.
theorem finalized_stays_set (numShards : Nat) (replicas : Nat → List Nat) (nodup : ∀ shard, (replicas shard).Nodup) (events : List Event)
    (s : Cluster)
    (ran : Machine.run (Machine.guarded Cluster.stepReusing Cluster.unused) (Cluster.init numShards replicas) events = some s)
    (place : Place) (client : Nat) (final : .clientFinalize client ∈ s.seen place) :
    ∀ index entry, index < (s.servers place).log.currentEntries → (s.servers place).log.read (ptr index) = some entry →
      entry.clientId = client → entry.set = true := by
  have closing : ∃ history, s.Closing replicas history := by
    refine Machine.run_preserves (Machine.guarded Cluster.stepReusing Cluster.unused) (fun s => ∃ history, s.Closing replicas history) ?_
      _ s ⟨_, init_closing numShards replicas⟩ events ran
    intro s event next before taken
    obtain ⟨unused, stepped⟩ := Machine.guarded_some taken
    obtain ⟨history, kept⟩ := before
    exact step_closing replicas nodup s next event history kept unused stepped
  obtain ⟨history, kept⟩ := closing
  intro index entry inside read owner
  exact sealed_entries (s.servers place) (s.seen place) client index entry (kept.servers place) final inside read owner

-- A client leaves with two of its slots unused, and another one stays.
theorem finalized_stays_set_after_leave :
    ∃ s, Machine.run (Machine.guarded Cluster.stepReusing Cluster.unused) (Cluster.init 1 (fun _ => [0]))
        [.addClient 0 0 2, .addClient 1 0 1, .connect (0, 0) 0, .epoch 0, .control (0, 0) [], .finish 0, .control (0, 0) [],
          .addClient 0 1 2, .epoch 1, .control (0, 0) []] = some s ∧
      (s.servers (0, 0)).log.currentEntries = 4 ∧ ∀ index entry, index < (s.servers (0, 0)).log.currentEntries →
        (s.servers (0, 0)).log.read (ptr index) = some entry → entry.clientId = 0 → entry.set = true := by
  have outcome : (Machine.run (Machine.guarded Cluster.stepReusing Cluster.unused) (Cluster.init 1 (fun _ => [0]))
      [.addClient 0 0 2, .addClient 1 0 1, .connect (0, 0) 0, .epoch 0, .control (0, 0) [], .finish 0, .control (0, 0) [],
        .addClient 0 1 2, .epoch 1, .control (0, 0) []]).map
        (fun s => ((s.servers (0, 0)).log.currentEntries, decide (StorageControl.clientFinalize 0 ∈ s.seen (0, 0)))) = some (4, true) := by
    decide +kernel
  obtain ⟨s, ran, values⟩ := Option.map_eq_some_iff.mp outcome
  simp only [Prod.mk.injEq, decide_eq_true_eq] at values
  obtain ⟨count, final⟩ := values
  exact ⟨s, ran, count, finalized_stays_set 1 (fun _ => [0]) (fun _ => List.nodup_singleton 0) _ s ran (0, 0) 0 final⟩

-- The ID comes back: order gives it slots, and the replica takes no more inserts
-- for it.
theorem finalized_unset_again :
    ∃ s, Machine.run Cluster.stepReusing (Cluster.init 1 (fun _ => [0]))
        [.addClient 0 0 1, .connect (0, 0) 0, .leave (0, 0) 0, .finish 0, .control (0, 0) [], .addClient 0 0 1, .connect (0, 0) 0,
          .epoch 0, .control (0, 0) []] = some s ∧
      StorageControl.clientFinalize 0 ∈ s.seen (0, 0) ∧ 0 < (s.servers (0, 0)).log.currentEntries ∧
      ((s.servers (0, 0)).clientState 0).disconnected = true ∧
      ∃ entry, (s.servers (0, 0)).log.read (ptr 0) = some entry ∧ entry.clientId = 0 ∧ entry.set = false := by
  have outcome : (Machine.run Cluster.stepReusing (Cluster.init 1 (fun _ => [0]))
      [.addClient 0 0 1, .connect (0, 0) 0, .leave (0, 0) 0, .finish 0, .control (0, 0) [], .addClient 0 0 1, .connect (0, 0) 0,
        .epoch 0, .control (0, 0) []]).map
        (fun s => (decide (StorageControl.clientFinalize 0 ∈ s.seen (0, 0)), (s.servers (0, 0)).log.currentEntries,
          ((s.servers (0, 0)).clientState 0).disconnected,
          ((s.servers (0, 0)).log.read (ptr 0)).map (fun entry => (entry.clientId, entry.set)))) =
        some (true, 1, true, some (0, false)) := by decide +kernel
  obtain ⟨s, ran, values⟩ := Option.map_eq_some_iff.mp outcome
  simp only [Prod.mk.injEq, decide_eq_true_eq] at values
  obtain ⟨final, count, gone, read⟩ := values
  obtain ⟨entry, there, fields⟩ := Option.map_eq_some_iff.mp read
  simp only [Prod.mk.injEq] at fields
  exact ⟨s, ran, final, by rw [count]; exact Nat.one_pos, gone, entry, there, fields⟩

end ZipLog.System
