import ZipLog.System.History

set_option autoImplicit false

namespace ZipLog.System

open Storage

-- The control messages that a server has handled.
def Cluster.seen (s : Cluster) (place : Place) : List StorageControl := (s.control place).take (s.handled place)

structure Cluster.Serving (s : Cluster) (place : Place) : Prop where
  bounded : s.handled place ≤ (s.control place).length
  shard : (s.servers place).shardId = place.1
  replica : (s.servers place).replicaId = place.2
  follows : (s.servers place).Follows (s.seen place) (s.received place)

theorem init_serving (numShards : Nat) (replicas : Nat → List Nat) (place : Place) : (Cluster.init numShards replicas).Serving place :=
  ⟨Nat.le_refl 0, rfl, rfl, init_follows place.1 place.2⟩

theorem seen_grows (s next : Cluster) (place : Place) (bounded : s.handled place ≤ (s.control place).length)
    (handled : next.handled place = s.handled place) (control : s.control place <+: next.control place) :
    next.seen place = s.seen place := by
  obtain ⟨more, grown⟩ := control
  rw [Cluster.seen, Cluster.seen, handled, ← grown, List.take_append_of_le_length bounded]

theorem seen_history (replicas : Nat → List Nat) (s : Cluster) (history : Nat → List StorageControl) (shard replica : Nat) (ordered : s.Ordered replicas history)
    (member : replica ∈ replicas shard) : s.seen (shard, replica) <+: history shard := by
  rw [Cluster.seen, ordered.links shard replica member]
  exact List.take_prefix _ _

theorem serving_congr (s next : Cluster) (place : Place) (serving : s.Serving place) (server : next.servers place = s.servers place)
    (handled : next.handled place = s.handled place) (received : next.received place = s.received place)
    (control : s.control place <+: next.control place) : next.Serving place := by
  have seen := seen_grows s next place serving.bounded handled control
  constructor
  · rw [handled]
    exact Nat.le_trans serving.bounded control.length_le
  · rw [server]
    exact serving.shard
  · rw [server]
    exact serving.replica
  · rw [server, seen, received]
    exact serving.follows

theorem ordered_serving (s : Cluster) (result : Order.State × List Order.Sent) (place : Place) (serving : s.Serving place) :
    (s.ordered result).Serving place :=
  serving_congr s _ place serving rfl rfl rfl (List.prefix_append _ _)

-- A step of the server at here leaves the others alone.
theorem server_update_serving (s : Cluster) (here place : Place) (server : Server) (serving : s.Serving place)
    (identity : server.shardId = (s.servers here).shardId ∧ server.replicaId = (s.servers here).replicaId)
    (follows : (s.servers here).Follows (s.seen here) (s.received here) → server.Follows (s.seen here) (s.received here)) :
    (s.setServer here server).Serving place := by
  by_cases same : place = here
  · subst same
    have updated : (s.setServer place server).servers place = server := Function.update_self _ _ _
    refine ⟨serving.bounded, ?_, ?_, ?_⟩
    · rw [updated, identity.1]
      exact serving.shard
    · rw [updated, identity.2]
      exact serving.replica
    · rw [updated]
      exact follows serving.follows
  · exact serving_congr s _ place serving (Function.update_of_ne same _ _) rfl rfl List.prefix_rfl

theorem add_client_identity (server : Server) (clientId : Nat) :
    (server.addClient clientId).shardId = server.shardId ∧ (server.addClient clientId).replicaId = server.replicaId := by
  simp only [Server.addClient]
  split
  · exact ⟨rfl, rfl⟩
  · exact ⟨rfl, rfl⟩

theorem connect_serving (s : Cluster) (here place : Place) (clientId : Nat) (serving : s.Serving place) :
    (s.setServer here ((s.servers here).addClient clientId)).Serving place :=
  server_update_serving s here place _ serving (add_client_identity _ clientId)
    (fun follows => add_client_follows _ _ _ clientId follows)

theorem suspected_serving (s : Cluster) (here place : Place) (clientId : Nat) (serving : s.Serving place) :
    (s.suspected here clientId).Serving place :=
  serving_congr (s.setServer here ((s.servers here).disconnect clientId)) (s.suspected here clientId) place
    (server_update_serving s here place _ serving ⟨rfl, rfl⟩ (fun follows => disconnect_follows _ _ _ clientId follows))
    rfl rfl rfl List.prefix_rfl

theorem client_finished_cases (server : Server) (clientId : Nat) :
    server.clientFinished clientId = (server, none) ∧ (server.clientState clientId).disconnected = true ∨
      server.clientFinished clientId = (server.disconnect clientId, some (.storageFinished server.shardId server.replicaId)) ∧
        (server.clientState clientId).disconnected = false := by
  unfold Server.clientFinished
  cases gone : (server.clientState clientId).disconnected with
  | true => exact Or.inl ⟨if_pos rfl, rfl⟩
  | false => exact Or.inr ⟨if_neg Bool.false_ne_true, rfl⟩

theorem answered_other (s : Cluster) (here place : Place) (clientId : Nat) (server : Server) (inserts : List StorageInsert)
    (replies : List StorageReply) (different : place ≠ here) :
    (s.answered here clientId server inserts replies).servers place = s.servers place ∧
      (s.answered here clientId server inserts replies).received place = s.received place ∧
      (s.answered here clientId server inserts replies).replies place = s.replies place :=
  ⟨Function.update_of_ne different _ _, Function.update_of_ne different _ _, Function.update_of_ne different _ _⟩

theorem answered_here (s : Cluster) (here : Place) (clientId : Nat) (server : Server) (inserts : List StorageInsert)
    (replies : List StorageReply) : (s.answered here clientId server inserts replies).servers here = server ∧
      (s.answered here clientId server inserts replies).received here =
        Function.update (s.received here) clientId (s.received here clientId ++ inserts) ∧
      (s.answered here clientId server inserts replies).replies here =
        Function.update (s.replies here) clientId (s.replies here clientId ++ replies) :=
  ⟨Function.update_self _ _ _, Function.update_self _ _ _, Function.update_self _ _ _⟩

theorem leave_serving (s : Cluster) (here place : Place) (clientId : Nat) (serving : s.Serving place) :
    (s.answered here clientId ((s.servers here).clientFinished clientId).1 []
      ((s.servers here).clientFinished clientId).2.toList).Serving place := by
  have moved := server_update_serving s here place ((s.servers here).clientFinished clientId).1 serving
    (by obtain ⟨same, _⟩ | ⟨same, _⟩ := client_finished_cases (s.servers here) clientId <;> rw [same] <;> exact ⟨rfl, rfl⟩)
    (by
      intro follows
      obtain ⟨same, _⟩ | ⟨same, _⟩ := client_finished_cases (s.servers here) clientId
      · rw [same]
        exact follows
      · rw [same]
        exact disconnect_follows _ _ _ clientId follows)
  refine serving_congr _ _ place moved rfl rfl ?_ List.prefix_rfl
  by_cases same : place = here
  · subst same
    rw [(answered_here _ _ _ _ _ _).2.1, List.append_nil, Function.update_eq_self]
    rfl
  · exact (answered_other _ _ _ _ _ _ _ same).2.1

theorem insert_serving (s : Cluster) (here place : Place) (server : Server) (req : StorageInsert) (beyond : Bytes)
    (ack : ClientInsertAck) (serving : s.Serving place) (positive : 1 ≤ req.numSlots)
    (joined : ((s.servers here).clientState req.clientId).disconnected = false)
    (open_ : .clientFinalize req.clientId ∉ s.seen here)
    (handled : (s.servers here).storageInsert req beyond = .ok (server, some ack)) :
    (s.answered here req.clientId server [req] [.insertAck ack]).Serving place := by
  by_cases same : place = here
  · subst same
    obtain ⟨follows, shard, replica, _⟩ := insert_follows (s.servers place) server (s.seen place) (s.received place) req beyond
      (some ack) serving.follows positive joined open_ handled
    obtain ⟨servers, received, _⟩ := answered_here s place req.clientId server [req] [.insertAck ack]
    refine ⟨serving.bounded, ?_, ?_, ?_⟩
    · rw [servers, shard]
      exact serving.shard
    · rw [servers, replica]
      exact serving.replica
    · rw [servers, received]
      exact follows
  · obtain ⟨servers, received, _⟩ := answered_other s here place req.clientId server [req] [.insertAck ack] same
    exact serving_congr s _ place serving servers rfl received List.prefix_rfl

-- What a server reports about a message it handles.
def Reported (server : Server) (messages : List StorageControl) (received : Nat → List StorageInsert) (message : StorageControl) :
    OrderControl → Prop
  | .clientFreeze _ => False
  | .clientCut cut => message = .clientFreeze cut.clientId ∧ cut.shardId = server.shardId ∧ cut.replicaId = server.replicaId
  | .clientData data => (∃ req : StorageClientCut, message = .clientCut req ∧ req.clientId = data.clientId) ∧
      data.shardId = server.shardId ∧
      (data.gsn = uint64Max ∨ Recorded (slotsIn messages) (received data.clientId) data.clientId data.gsn data.data)

-- A handler of storage::control runs to its end, a patch if it is skipped.
theorem control_follows (server : Server) (messages : List StorageControl) (received : Nat → List StorageInsert)
    (message : StorageControl) (beyond : Bytes) (follows : server.Follows messages received)
    (settled : (messages ++ [message]).Pairwise Settled)
    (skipped : ∀ patch, message = .clientPatch patch → server.storageClientPatch patch beyond = .ok server) :
    ∃ next reports, server.control message beyond = .ok (next, reports) ∧ next.Follows (messages ++ [message]) received ∧
      next.shardId = server.shardId ∧ next.replicaId = server.replicaId ∧
      (∀ report ∈ reports, Reported server messages received message report) ∧
      ∀ client, (next.clientState client).connected = (server.clientState client).connected ∧
        ((∀ c, message ≠ .clientFreeze c) → (next.clientState client).disconnected = (server.clientState client).disconnected) := by
  have before : ∀ earlier ∈ messages, Settled earlier message := by
    intro earlier member
    exact (List.pairwise_append.mp settled).2.2 earlier member message (List.mem_singleton_self _)
  cases message with
  | slots slots =>
      have states : (server.storageSlots slots).clientState = server.clientState := by
        unfold Server.storageSlots
        split <;> rfl
      refine ⟨server.storageSlots slots, [], rfl, ?_, ?_, ?_, fun report member => absurd member List.not_mem_nil, ?_⟩
      · apply slots_follows server messages received slots follows
        intro client final
        exact (before _ final client).1 (Or.inr rfl)
      · unfold Server.storageSlots
        split <;> rfl
      · unfold Server.storageSlots
        split <;> rfl
      · intro client
        rw [states]
        exact ⟨rfl, fun _ => rfl⟩
  | clientFreeze clientId =>
      refine ⟨server.disconnect clientId, _, rfl, freeze_follows server messages received clientId follows, rfl, rfl, ?_, ?_⟩
      · intro report member
        rw [List.mem_singleton.mp member]
        exact ⟨rfl, rfl, rfl⟩
      · intro client
        refine ⟨?_, fun other => absurd rfl (other clientId)⟩
        by_cases mine : client = clientId
        · subst mine
          simp [Server.disconnect, client_state_same]
        · simp [Server.disconnect, client_state_other _ _ _ _ mine]
  | clientCut req =>
      obtain ⟨data, ran, known⟩ := client_cut_recorded server messages received req follows
      refine ⟨server, data.map .clientData, ?_, ?_, rfl, rfl, ?_, fun client => ⟨rfl, fun _ => rfl⟩⟩
      · simp only [Server.control, ran]
        rfl
      · exact quiet_follows server messages received _ follows rfl (fun client => by simp) (fun client same => by cases same)
      · intro report member
        obtain ⟨item, inside, rfl⟩ := List.mem_map.mp member
        obtain ⟨owner, shard, _, value⟩ := known item inside
        exact ⟨⟨req, rfl, owner.symm⟩, shard, owner ▸ value⟩
  | clientPatch patch =>
      refine ⟨server, [], ?_, ?_, rfl, rfl, fun report member => absurd member List.not_mem_nil, fun client => ⟨rfl, fun _ => rfl⟩⟩
      · simp only [Server.control, skipped patch rfl]
        rfl
      · exact quiet_follows server messages received _ follows rfl (fun client => by simp) (fun client same => by cases same)
  | clientFinalize clientId =>
      have open_ : .clientFinalize clientId ∉ messages := by
        intro final
        exact (before _ final clientId).2 rfl rfl
      obtain ⟨next, ran, after, shard, replica, _, states⟩ := finalize_follows server messages received clientId follows open_
      refine ⟨next, [], ?_, after, shard, replica, fun report member => absurd member List.not_mem_nil, fun client => ⟨(states client).1, ?_⟩⟩
      · simp only [Server.control, ran]
        rfl
      · intro _
        exact (states client).2

theorem pending_seen (s : Cluster) (place : Place) (message : StorageControl) (pending : s.pending place = some message) :
    (s.control place)[s.handled place]? = some message ∧ s.seen place ++ [message] <+: s.control place ∧
      s.handled place < (s.control place).length := by
  obtain ⟨access, _⟩ := Option.filter_eq_some_iff.mp pending
  obtain ⟨bound, value⟩ := List.getElem?_eq_some_iff.mp access
  refine ⟨access, ?_, bound⟩
  rw [Cluster.seen, ← value, ← List.take_succ_eq_append_getElem bound]
  exact List.take_prefix _ _

theorem controlled_here (s : Cluster) (here : Place) (server : Server) (reports : List OrderControl) (message : StorageControl)
    (pending : s.pending here = some message) : (s.controlled here server reports).servers here = server ∧
      (s.controlled here server reports).seen here = s.seen here ++ [message] ∧
      (s.controlled here server reports).handled here = s.handled here + 1 ∧
      (s.controlled here server reports).reports here = s.reports here ++ reports := by
  obtain ⟨access, _, _⟩ := pending_seen s here message pending
  obtain ⟨bound, value⟩ := List.getElem?_eq_some_iff.mp access
  have handled : (s.controlled here server reports).handled here = s.handled here + 1 := Function.update_self _ _ _
  refine ⟨Function.update_self _ _ _, ?_, handled, Function.update_self _ _ _⟩
  rw [Cluster.seen, handled, Cluster.seen, ← value]
  exact List.take_succ_eq_append_getElem bound

theorem controlled_other (s : Cluster) (here place : Place) (server : Server) (reports : List OrderControl) (different : place ≠ here) :
    (s.controlled here server reports).servers place = s.servers place ∧
      (s.controlled here server reports).seen place = s.seen place ∧
      (s.controlled here server reports).handled place = s.handled place ∧
      (s.controlled here server reports).reports place = s.reports place := by
  have handled : (s.controlled here server reports).handled place = s.handled place := Function.update_of_ne different _ _
  refine ⟨Function.update_of_ne different _ _, ?_, handled, Function.update_of_ne different _ _⟩
  rw [Cluster.seen, handled]
  rfl

theorem controlled_serving (s : Cluster) (here place : Place) (server : Server) (reports : List OrderControl) (message : StorageControl)
    (serving : s.Serving place) (pending : s.pending here = some message)
    (identity : server.shardId = (s.servers here).shardId ∧ server.replicaId = (s.servers here).replicaId)
    (follows : server.Follows (s.seen here ++ [message]) (s.received here)) : (s.controlled here server reports).Serving place := by
  by_cases same : place = here
  · subst same
    obtain ⟨servers, seen, handled, _⟩ := controlled_here s place server reports message pending
    refine ⟨?_, ?_, ?_, ?_⟩
    · rw [handled]
      exact (pending_seen s place message pending).2.2
    · rw [servers, identity.1]
      exact serving.shard
    · rw [servers, identity.2]
      exact serving.replica
    · rw [servers, seen]
      exact follows
  · obtain ⟨servers, _, handled, _⟩ := controlled_other s here place server reports same
    exact serving_congr s _ place serving servers handled rfl List.prefix_rfl

end ZipLog.System
