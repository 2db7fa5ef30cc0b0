import ZipLog.System.Progress

set_option autoImplicit false

namespace ZipLog.System

open Storage

-- A cluster in which no client was declared failed: only slots and finalizes
-- have been sent to the servers.
structure Calm (replicas : Nat → List Nat) (s : Cluster) (history : Nat → List StorageControl) : Prop where
  ordered : s.Ordered replicas history
  halting : s.Halting
  serving : ∀ place : Place, place.2 ∈ replicas place.1 → s.Serving place
  alive : ∀ client state, s.order.clientState client = some state → state.requested = false
  messages : ∀ shard, ∀ message ∈ history shard, (∃ slots, message = .slots slots) ∨ ∃ client, message = .clientFinalize client
  unknown : ∀ client, s.homes client = none → s.notices client = []
  notices : ∀ client shard, s.homes client = some shard →
    ∃ rest, s.notices client = .storageInfo (replicas shard) :: rest ∧ ∀ other, .storageInfo other ∉ rest

-- A step that does not concern the client.
structure Spares (client : Nat) (s next : Cluster) (history after : Nat → List StorageControl) : Prop where
  received : ∀ place, next.received place client = s.received place client
  replies : ∀ place, next.replies place client = s.replies place client
  states : ∀ place, ((next.servers place).clientState client).disconnected = ((s.servers place).clientState client).disconnected
  seen : ∀ place, s.seen place <+: next.seen place
  grows : ∀ shard, history shard <+: after shard
  homes : next.homes client = s.homes client
  notices : s.notices client <+: next.notices client
  final : ∀ shard, .clientFinalize client ∈ after shard → .clientFinalize client ∈ history shard

theorem init_calm (numShards : Nat) (replicas : Nat → List Nat) : Calm replicas (Cluster.init numShards replicas) (fun _ => []) := by
  constructor
  · exact init_ordered numShards replicas
  · constructor
    · intro place
      exact Nat.le_refl 0
    · intro place client member
      cases member
  · intro place _
    exact init_serving numShards replicas place
  · intro client state present
    cases present
  · intro shard message member
    cases member
  · intro client _
    rfl
  · intro client shard home
    cases home

theorem extended_grows (history : Nat → List StorageControl) (shard : Nat) (messages : List StorageControl) (at_shard : Nat) :
    history at_shard <+: extended history shard messages at_shard := by
  rw [extended_eq]
  exact List.prefix_append _ _

-- The shape shared by the steps of the ordering service.
theorem calm_ordered (replicas : Nat → List Nat) (s : Cluster) (history after : Nat → List StorageControl)
    (result : Order.State × List Order.Sent) (calm : Calm replicas s history) (progress : Progresses s (s.ordered result))
    (ordered : (s.ordered result).Ordered replicas after)
    (alive : ∀ client state, result.1.clientState client = some state → state.requested = false)
    (messages : ∀ shard, ∀ message ∈ after shard, (∃ slots, message = .slots slots) ∨ ∃ client, message = .clientFinalize client)
    (talk : ∀ client, ∀ message ∈ result.2.filterMap (toClient client), s.homes client ≠ none ∧ ∀ other, message ≠ .storageInfo other) :
    Calm replicas (s.ordered result) after := by
  refine ⟨ordered, progress.halting, ?_, alive, messages, ?_, ?_⟩
  · intro place member
    exact ordered_serving s result place (calm.serving place member)
  · intro client none
    change s.notices client ++ result.2.filterMap (toClient client) = []
    rw [calm.unknown client none, List.nil_append]
    apply List.eq_nil_iff_forall_not_mem.mpr
    intro message member
    exact (talk client message member).1 none
  · intro client shard home
    obtain ⟨rest, notices, first⟩ := calm.notices client shard home
    refine ⟨rest ++ result.2.filterMap (toClient client), ?_, ?_⟩
    · change s.notices client ++ result.2.filterMap (toClient client) = _
      rw [notices, List.cons_append]
    · intro other member
      cases List.mem_append.mp member with
      | inl old => exact first other old
      | inr new => exact (talk client _ new).2 other rfl

theorem broadcast_silent (order : Order.State) (shard client : Nat) (messages : List StorageControl) :
    (messages.flatMap (order.broadcast shard)).filterMap (toClient client) = [] := by
  apply List.filterMap_eq_nil_iff.mpr
  intro item member
  obtain ⟨message, _, inside⟩ := List.mem_flatMap.mp member
  obtain ⟨replica, _, rfl⟩ := List.mem_map.mp inside
  rfl

theorem finished_told (order : Order.State) (clientId client : Nat) (message : Order.ClientControl)
    (member : message ∈ (order.clientFinished clientId).2.filterMap (toClient client)) :
    client = clientId ∧ message = .orderFinished ∧ ∃ state, order.clientState clientId = some state := by
  unfold Order.State.clientFinished at member
  cases present : order.clientState clientId with
  | none =>
      rw [present] at member
      cases member
  | some state =>
      rw [present] at member
      simp only [List.filterMap_cons, Order.finalized_sent, broadcast_silent, toClient] at member
      split at member
      · cases member
      · rename_i found
        split at found
        · rename_i mine
          cases found
          exact ⟨mine.symm, List.mem_singleton.mp member, state, rfl⟩
        · cases found

section

set_option linter.unusedSectionVars false

variable (replicas : Nat → List Nat) (nodup : ∀ shard, (replicas shard).Nodup) (s : Cluster) (history : Nat → List StorageControl)
  (calm : Calm replicas s history)

include nodup calm

theorem calm_rate (clientId numSlots : Nat) (next : Cluster) (stepped : s.step (.clientRate clientId numSlots) = some next) :
    ∃ after, Calm replicas next after ∧ ∀ client, Spares client s next history after := by
  have progress := step_progresses s next _ calm.halting stepped
  cases stepped
  obtain ⟨shard, moves⟩ : ∃ shard, s.order.Moves (s.order.clientRate clientId numSlots) [] clientId shard [] := by
    unfold Order.State.clientRate
    cases present : s.order.clientState clientId with
    | none => exact ⟨0, Order.moves_nothing s.order clientId 0⟩
    | some client =>
        exact ⟨client.shardId, Order.moves_update s.order clientId client
          { client with numSlots := Order.align minSlots (max 1 numSlots) } [] present rfl id
          (fun message member => absurd member List.not_mem_nil)⟩
  have same : extended history shard [] = history := by
    funext at_shard
    rw [extended_eq]
    simp
  have ordered := moves_ordered replicas s history _ [] clientId shard [] nodup calm.ordered moves
  rw [same] at ordered
  refine ⟨history, calm_ordered replicas s history history _ calm progress ordered ?_ calm.messages ?_, ?_⟩
  · intro client state present
    by_cases mine : client = clientId
    · subst mine
      simp only [Order.State.clientRate] at present
      cases before : s.order.clientState client with
      | none =>
          rw [before] at present
          exact absurd (present.symm.trans before) (by simp)
      | some old =>
          rw [before] at present
          simp only [Order.set_client_state_same] at present
          cases present
          exact calm.alive client old before
    · exact calm.alive client state ((moves.others client mine).symm.trans present)
  · intro client message member
    cases member
  · intro client
    exact ⟨fun _ => rfl, fun _ => rfl, fun _ => rfl, progress.seen, fun _ => List.prefix_rfl, rfl, List.prefix_append _ _, fun _ => id⟩

theorem calm_epoch (now : Nat) (next : Cluster) (stepped : s.step (.epoch now) = some next) :
    ∃ after, Calm replicas next after ∧ ∀ client, Spares client s next history after := by
  have progress := step_progresses s next _ calm.halting stepped
  simp only [Cluster.step] at stepped
  split at stepped
  · rename_i fits
    cases stepped
    refine ⟨_, calm_ordered replicas s history _ _ calm progress (epoch_ordered replicas s history now nodup calm.ordered fits)
      calm.alive ?_ ?_, ?_⟩
    · intro shard message member
      cases List.mem_append.mp member with
      | inl old => exact calm.messages shard message old
      | inr new => exact Or.inl ⟨_, epoch_messages_member s.order shard message new⟩
    · intro client message member
      obtain ⟨item, inside, found⟩ := List.mem_filterMap.mp member
      cases List.mem_append.mp inside with
      | inl talk =>
          obtain ⟨slot, active, rfl⟩ := List.mem_map.mp talk
          simp only [toClient] at found
          split at found
          · rename_i mine
            cases found
            obtain ⟨state, _, present, _⟩ := (Order.active_member s.order slot).mp active
            rw [mine] at present
            rw [calm.ordered.home client state present]
            exact ⟨by simp, fun other => by simp⟩
          · cases found
      | inr sent =>
          obtain ⟨shard, _, cast⟩ := List.mem_flatMap.mp sent
          obtain ⟨replica, _, rfl⟩ := List.mem_map.mp cast
          cases found
    · intro client
      refine ⟨fun _ => rfl, fun _ => rfl, fun _ => rfl, progress.seen, fun _ => List.prefix_append _ _, rfl,
        List.prefix_append _ _, ?_⟩
      intro shard member
      cases List.mem_append.mp member with
      | inl old => exact old
      | inr new =>
          have same := epoch_messages_member s.order shard _ new
          cases same
  · cases stepped

theorem calm_join (clientId shard numSlots : Nat) (next : Cluster) (stepped : s.step (.addClient clientId shard numSlots) = some next) :
    Calm replicas next history ∧ (next.homes clientId = none ∨ next.homes clientId = some shard) ∧ s.homes clientId = none ∧
      next.received = s.received ∧ next.replies = s.replies ∧ next.servers = s.servers ∧
      ∀ client, client ≠ clientId → Spares client s next history history := by
  have progress := step_progresses s next _ calm.halting stepped
  simp only [Cluster.step] at stepped
  split at stepped
  · cases stepped
  · rename_i used
    have fresh : s.homes clientId = none := by simpa using used
    cases stepped
    have others : ∀ client, client ≠ clientId → (s.joined clientId shard numSlots).homes client = s.homes client :=
      fun client different => Function.update_of_ne different _ _
    have absent : s.order.clientState clientId = none := by
      cases present : s.order.clientState clientId with
      | none => rfl
      | some state =>
          rw [calm.ordered.home clientId state present] at fresh
          cases fresh
    have own : (s.joined clientId shard numSlots).homes clientId =
        ((s.order.addClient clientId shard numSlots).1.clientState clientId).map Order.ClientState.shardId :=
      Function.update_self _ _ _
    have talk : ∀ client, client ≠ clientId →
        (s.joined clientId shard numSlots).notices client = s.notices client := by
      intro client different
      change s.notices client ++ (s.order.addClient clientId shard numSlots).2.filterMap (toClient client) = _
      obtain refused | ⟨_, accepted⟩ := add_client_cases s.order clientId shard numSlots
      · rw [refused]
        exact List.append_nil _
      · rw [accepted]
        simp [toClient, Ne.symm different]
    have outcome : ((s.joined clientId shard numSlots).homes clientId = none ∧
        (s.joined clientId shard numSlots).notices clientId = []) ∨
        ((s.joined clientId shard numSlots).homes clientId = some shard ∧
          (s.joined clientId shard numSlots).notices clientId = [.storageInfo (replicas shard)]) := by
      rw [own]
      change _ ∨ _ ∧ s.notices clientId ++ (s.order.addClient clientId shard numSlots).2.filterMap (toClient clientId) = _
      rw [calm.unknown clientId fresh]
      obtain refused | ⟨_, accepted⟩ := add_client_cases s.order clientId shard numSlots
      · refine Or.inl ⟨by rw [refused, absent]; rfl, ?_⟩
        change s.notices clientId ++ (s.order.addClient clientId shard numSlots).2.filterMap (toClient clientId) = _
        rw [refused, calm.unknown clientId fresh]
        rfl
      · refine Or.inr ⟨by rw [accepted, Order.set_client_state_same]; rfl, ?_⟩
        rw [accepted, calm.ordered.queues]
        simp [toClient]
    refine ⟨⟨joined_ordered replicas s history clientId shard numSlots calm.ordered fresh, progress.halting, ?_, ?_, calm.messages,
      ?_, ?_⟩, ?_, fresh, rfl, rfl, rfl, ?_⟩
    · intro place member
      exact serving_congr s _ place (calm.serving place member) rfl rfl rfl (List.prefix_append _ _)
    · intro client state present
      change (s.order.addClient clientId shard numSlots).1.clientState client = some state at present
      obtain refused | ⟨_, accepted⟩ := add_client_cases s.order clientId shard numSlots
      · rw [refused] at present
        exact calm.alive client state present
      · rw [accepted] at present
        by_cases mine : client = clientId
        · subst mine
          rw [Order.set_client_state_same] at present
          cases present
          rfl
        · rw [Order.set_client_state_other _ _ _ _ mine] at present
          exact calm.alive client state present
    · intro client none
      by_cases mine : client = clientId
      · subst mine
        cases outcome with
        | inl refused => exact refused.2
        | inr accepted =>
            rw [accepted.1] at none
            cases none
      · rw [talk client mine]
        exact calm.unknown client ((others client mine).symm.trans none)
    · intro client at_shard home
      by_cases mine : client = clientId
      · subst mine
        cases outcome with
        | inl refused =>
            rw [refused.1] at home
            cases home
        | inr accepted =>
            rw [accepted.1] at home
            cases home
            exact ⟨[], accepted.2, fun other => List.not_mem_nil⟩
      · rw [talk client mine]
        exact calm.notices client at_shard ((others client mine).symm.trans home)
    · cases outcome with
      | inl refused => exact Or.inl refused.1
      | inr accepted => exact Or.inr accepted.1
    · intro client different
      exact ⟨fun _ => rfl, fun _ => rfl, fun _ => rfl, progress.seen, fun _ => List.prefix_rfl, others client different,
        (talk client different) ▸ List.prefix_rfl, fun _ => id⟩

theorem calm_finish (clientId : Nat) (next : Cluster) (stepped : s.step (.finish clientId) = some next) :
    ∃ after, Calm replicas next after ∧ (∀ client, client ≠ clientId → Spares client s next history after) ∧
      next.received = s.received ∧ next.replies = s.replies ∧ next.servers = s.servers ∧ next.homes = s.homes ∧
      (∀ place, s.seen place <+: next.seen place) ∧ (∀ shard, history shard <+: after shard) ∧
      s.notices clientId <+: next.notices clientId := by
  have progress := step_progresses s next _ calm.halting stepped
  cases stepped
  obtain ⟨shard, messages, moves, kind⟩ := Order.moves_client_finished_alive s.order clientId (calm.alive clientId)
  have talk : ∀ client, ∀ message ∈ (s.order.clientFinished clientId).2.filterMap (toClient client),
      s.homes client ≠ none ∧ ∀ other, message ≠ .storageInfo other := by
    intro client message member
    obtain ⟨mine, same, state, present⟩ := finished_told s.order clientId client message member
    rw [mine, same, calm.ordered.home clientId state present]
    exact ⟨by simp, fun other => by simp⟩
  refine ⟨_, calm_ordered replicas s history _ _ calm progress
    (moves_ordered replicas s history _ _ clientId shard messages nodup calm.ordered moves) ?_ ?_ talk, ?_, rfl, rfl, rfl, rfl,
    progress.seen, extended_grows history shard messages, List.prefix_append _ _⟩
  · intro client state present
    by_cases mine : client = clientId
    · subst mine
      unfold Order.State.clientFinished at present
      cases before : s.order.clientState client with
      | none =>
          rw [before] at present
          exact calm.alive client state present
      | some old =>
          rw [before] at present
          change (s.order.setClientState client none).clientState client = some state at present
          rw [Order.set_client_state_same] at present
          cases present
    · exact calm.alive client state ((moves.others client mine).symm.trans present)
  · intro at_shard message member
    rw [extended_eq] at member
    cases List.mem_append.mp member with
    | inl old => exact calm.messages at_shard message old
    | inr new =>
        split at new
        · exact Or.inr ⟨clientId, kind message new⟩
        · cases new
  · intro client different
    refine ⟨fun _ => rfl, fun _ => rfl, fun _ => rfl, progress.seen, extended_grows history shard messages, rfl,
      List.prefix_append _ _, ?_⟩
    intro at_shard member
    rw [extended_eq] at member
    cases List.mem_append.mp member with
    | inl old => exact old
    | inr new =>
        split at new
        · have same := kind _ new
          cases same
          exact absurd rfl different
        · cases new

end

section

variable (replicas : Nat → List Nat) (s : Cluster) (history : Nat → List StorageControl) (calm : Calm replicas s history)

include calm

-- The shape shared by the steps of the servers.
theorem calm_server (next : Cluster) (progress : Progresses s next) (order : next.order = s.order) (homes : next.homes = s.homes)
    (control : next.control = s.control) (notices : next.notices = s.notices)
    (serving : ∀ place : Place, place.2 ∈ replicas place.1 → next.Serving place) : Calm replicas next history := by
  refine ⟨ordered_congr replicas s next history calm.ordered order homes control, progress.halting, serving, ?_, calm.messages, ?_, ?_⟩
  · rw [order]
    exact calm.alive
  · rw [homes, notices]
    exact calm.unknown
  · rw [homes, notices]
    exact calm.notices

theorem serves_member (place : Place) (enabled : s.serves place = true) : place.2 ∈ replicas place.1 := by
  rw [Cluster.serves, decide_eq_true_eq, calm.ordered.queues] at enabled
  exact enabled

theorem calm_connect (place : Place) (clientId : Nat) (next : Cluster) (stepped : s.step (.connect place clientId) = some next) :
    Calm replicas next history ∧ ∀ client, Spares client s next history history := by
  have progress := step_progresses s next _ calm.halting stepped
  simp only [Cluster.step] at stepped
  split at stepped
  · cases stepped
    refine ⟨calm_server replicas s history calm _ progress rfl rfl rfl rfl
      (fun other inside => connect_serving s place other clientId (calm.serving other inside)), ?_⟩
    intro client
    refine ⟨fun _ => rfl, fun _ => rfl, ?_, progress.seen, fun _ => List.prefix_rfl, rfl, List.prefix_rfl, fun _ => id⟩
    intro other
    by_cases same : other = place
    · subst same
      rw [show (s.setServer other _).servers other = _ from Function.update_self _ _ _]
      exact (add_client_states (s.servers other) clientId client).2.2
    · rw [show (s.setServer place _).servers other = _ from Function.update_of_ne same _ _]
  · cases stepped

theorem calm_control (place : Place) (beyond : Bytes) (next : Cluster) (stepped : s.step (.control place beyond) = some next) :
    Calm replicas next history ∧ ∀ client, Spares client s next history history := by
  have progress := step_progresses s next _ calm.halting stepped
  obtain ⟨enabled, message, pending, outcome⟩ := control_taken s next place beyond stepped
  have member := serves_member replicas s history calm place enabled
  have link := calm.ordered.links place.1 place.2 member
  have serving := calm.serving place member
  have seen : s.seen place ++ [message] <+: history place.1 := link ▸ (pending_seen s place message pending).2.1
  have kind := calm.messages place.1 message (seen.subset (by simp))
  have unpatched : ∀ patch, message ≠ .clientPatch patch := by
    intro patch same
    obtain ⟨slots, other⟩ | ⟨client, other⟩ := kind
    · rw [other] at same
      cases same
    · rw [other] at same
      cases same
  have thawed : ∀ client, message ≠ .clientFreeze client := by
    intro client same
    obtain ⟨slots, other⟩ | ⟨client, other⟩ := kind
    · rw [other] at same
      cases same
    · rw [other] at same
      cases same
  obtain ⟨server, reports, ran, follows, shard, replica, _, states⟩ := control_follows (s.servers place) (s.seen place)
    (s.received place) message beyond serving.follows ((calm.ordered.settled place.1).sublist seen.sublist)
    (fun patch same => absurd same (unpatched patch))
  obtain ⟨fault, faulted, _⟩ | ⟨_, _, handled, rfl⟩ := outcome
  · rw [ran] at faulted
    cases faulted
  · rw [ran] at handled
    cases handled
    refine ⟨calm_server replicas s history calm _ progress rfl rfl rfl rfl
      (fun other inside => controlled_serving s place other server reports message (calm.serving other inside) pending
        ⟨shard, replica⟩ follows), ?_⟩
    intro client
    refine ⟨fun _ => rfl, fun _ => rfl, ?_, progress.seen, fun _ => List.prefix_rfl, rfl, List.prefix_rfl, fun _ => id⟩
    intro other
    by_cases same : other = place
    · subst same
      rw [(controlled_here s other server reports message pending).1]
      exact (states client).2 thawed
    · rw [(controlled_other s place other server reports same).1]

omit calm in
theorem answered_spares (place : Place) (clientId client : Nat) (server : Server) (inserts : List StorageInsert)
    (replies : List StorageReply) (different : client ≠ clientId)
    (progress : Progresses s (s.answered place clientId server inserts replies))
    (states : (server.clientState client).disconnected = ((s.servers place).clientState client).disconnected) :
    Spares client s (s.answered place clientId server inserts replies) history history := by
  refine ⟨?_, ?_, ?_, progress.seen, fun _ => List.prefix_rfl, rfl, List.prefix_rfl, fun _ => id⟩
  · intro other
    by_cases same : other = place
    · subst same
      rw [(answered_here s other clientId server inserts replies).2.1, Function.update_of_ne different]
    · rw [(answered_other s place other clientId server inserts replies same).2.1]
  · intro other
    by_cases same : other = place
    · subst same
      rw [(answered_here s other clientId server inserts replies).2.2, Function.update_of_ne different]
    · rw [(answered_other s place other clientId server inserts replies same).2.2]
  · intro other
    by_cases same : other = place
    · subst same
      rw [(answered_here s other clientId server inserts replies).1]
      exact states
    · rw [(answered_other s place other clientId server inserts replies same).1]

-- The server handles an insert of a client that has not left.
theorem calm_insert (place : Place) (req : StorageInsert) (beyond : Bytes) (next : Cluster) (positive : 1 ≤ req.numSlots)
    (joined : ((s.servers place).clientState req.clientId).disconnected = false)
    (open_ : place.2 ∈ replicas place.1 → .clientFinalize req.clientId ∉ s.seen place)
    (stepped : s.step (.insert place req beyond) = some next) :
    ∃ server gsn, next = s.answered place req.clientId server [req] [.insertAck ⟨place.2, gsn⟩] ∧
      (s.servers place).storageInsert req beyond = .ok (server, some ⟨place.2, gsn⟩) ∧ place.2 ∈ replicas place.1 ∧
      Calm replicas next history ∧ (∀ client, client ≠ req.clientId → Spares client s next history history) ∧
      (server.clientState req.clientId).disconnected = false ∧ (∀ other, s.seen other <+: next.seen other) ∧
      (gsns (slotsIn (s.seen place)) req.clientId)[(filledBy (s.received place req.clientId ++ [req])).length - 1]? = some gsn := by
  have progress := step_progresses s next _ calm.halting stepped
  obtain ⟨enabled, _, outcome⟩ := insert_taken s next place req beyond stepped
  have member := serves_member replicas s history calm place enabled
  have serving := calm.serving place member
  obtain ⟨server, ran, _⟩ | ⟨server, ack, ran, rfl⟩ := outcome
  · rw [Server.storageInsert, if_neg (by rw [joined]; exact Bool.false_ne_true)] at ran
    cases inserted : (s.servers place).log.insert req.clientId ((s.servers place).clientState req.clientId).position
        ⟨req.data, beyond⟩ req.numSlots with
    | error fault =>
        rw [inserted] at ran
        cases ran
    | ok result =>
        rw [inserted] at ran
        cases ran
  · obtain ⟨_, _, _, _, ⟨gsn, answer, value⟩, states⟩ := insert_follows (s.servers place) server (s.seen place) (s.received place)
      req beyond (some ack) serving.follows positive joined (open_ member) ran
    have named : ack = ⟨place.2, gsn⟩ := by
      rw [serving.replica] at answer
      exact Option.some.inj answer
    refine ⟨server, gsn, by rw [named], named ▸ ran, member, ?_, ?_, (states req.clientId).2.trans joined, progress.seen, value⟩
    · exact calm_server replicas s history calm _ progress rfl rfl rfl rfl
        (fun other inside => insert_serving s place other server req beyond ack (calm.serving other inside) positive joined
          (open_ member) ran)
    · intro client different
      exact answered_spares s history place req.clientId client server [req] _ different progress (states client).2

theorem calm_leave (place : Place) (clientId : Nat) (next : Cluster)
    (joined : ((s.servers place).clientState clientId).disconnected = false)
    (stepped : s.step (.leave place clientId) = some next) :
    next = s.answered place clientId ((s.servers place).disconnect clientId) [] [.storageFinished place.1 place.2] ∧
      place.2 ∈ replicas place.1 ∧ Calm replicas next history ∧ (∀ client, client ≠ clientId → Spares client s next history history) ∧
      ∀ other, s.seen other <+: next.seen other := by
  have progress := step_progresses s next _ calm.halting stepped
  simp only [Cluster.step] at stepped
  split at stepped
  · rename_i enabled
    have member := serves_member replicas s history calm place enabled.1
    have serving := calm.serving place member
    cases stepped
    have result : (s.servers place).clientFinished clientId =
        ((s.servers place).disconnect clientId, some (.storageFinished place.1 place.2)) := by
      obtain ⟨_, gone⟩ | ⟨same, _⟩ := client_finished_cases (s.servers place) clientId
      · rw [joined] at gone
        cases gone
      · rw [same, serving.shard, serving.replica]
    refine ⟨by rw [result]; rfl, member, ?_, ?_, progress.seen⟩
    · exact calm_server replicas s history calm _ progress rfl rfl rfl rfl
        (fun other inside => leave_serving s place other clientId (calm.serving other inside))
    · intro client different
      refine answered_spares s history place clientId client _ [] _ different progress ?_
      rw [result]
      simp [Server.disconnect, client_state_other _ _ _ _ different]
  · cases stepped

end

end ZipLog.System
