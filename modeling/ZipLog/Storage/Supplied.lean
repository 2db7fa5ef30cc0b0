import ZipLog.Storage.Agreement
import ZipLog.Storage.Control

set_option autoImplicit false

namespace ZipLog.Storage

-- A server that holds the slots of the messages it has handled. The inserts of a
-- client have filled as many of its slots as they ask for; a finalize closes the
-- rest.
def Server.Supplied (server : Server) (messages : List StorageControl) (received : Nat → List StorageInsert) : Prop :=
  ∃ fills, server.Tracks ⟨slotsIn messages, fills⟩ ∧ ∀ client, slotsTaken (received client) ≤ (fills client).length ∧
    (.clientFinalize client ∉ messages → (fills client).length = slotsTaken (received client))

theorem init_supplied (shardId replicaId : Nat) : (Server.init shardId replicaId).Supplied [] (fun _ => []) :=
  ⟨fun _ => [], init_tracks shardId replicaId, fun _ => ⟨Nat.le_refl _, fun _ => rfl⟩⟩

theorem slots_supplied (server : Server) (messages : List StorageControl) (received : Nat → List StorageInsert) (slots : StorageSlots)
    (supplied : server.Supplied messages received) : (server.storageSlots slots).Supplied (messages ++ [.slots slots]) received := by
  obtain ⟨fills, tracks, taken⟩ := supplied
  refine ⟨fills, ?_, ?_⟩
  · rw [slots_in_snoc]
    exact storage_slots_tracks server _ slots tracks
  · intro client
    refine ⟨(taken client).1, ?_⟩
    intro open_
    exact (taken client).2 (fun final => open_ (List.mem_append_left _ final))

theorem finalize_supplied (server next : Server) (messages : List StorageControl) (received : Nat → List StorageInsert) (clientId : Nat)
    (supplied : server.Supplied messages received) (ran : server.storageClientFinalize clientId = .ok next) :
    next.Supplied (messages ++ [.clientFinalize clientId]) received ∧ next.shardId = server.shardId ∧
      next.replicaId = server.replicaId := by
  obtain ⟨fills, tracks, taken⟩ := supplied
  obtain ⟨log, position, done, after, _, _⟩ := storage_client_finalize_tracks server _ clientId tracks
  rw [done] at ran
  cases ran
  have slots : slotsIn (messages ++ [.clientFinalize clientId]) = slotsIn messages := by
    rw [slots_in_snoc]
    exact List.append_nil _
  refine ⟨⟨(Contents.seal ⟨slotsIn messages, fills⟩ clientId).fills, slots ▸ after, ?_⟩, rfl, rfl⟩
  intro client
  by_cases mine : client = clientId
  · subst mine
    refine ⟨?_, fun open_ => absurd (List.mem_append_right _ (List.mem_singleton_self _)) open_⟩
    rw [seal_fills_length _ client (tracks.rep.filled client)]
    exact Nat.le_trans (taken client).1 (tracks.rep.filled client)
  · change slotsTaken (received client) ≤ (Function.update fills clientId _ client).length ∧ (_ →
      (Function.update fills clientId _ client).length = _)
    rw [Function.update_of_ne mine]
    refine ⟨(taken client).1, ?_⟩
    intro open_
    exact (taken client).2 (fun final => open_ (List.mem_append_left _ final))

theorem insert_supplied (server next : Server) (messages : List StorageControl) (received : Nat → List StorageInsert) (req : StorageInsert)
    (beyond : Bytes) (ack : ClientInsertAck) (supplied : server.Supplied messages received) (positive : 1 ≤ req.numSlots)
    (joined : (server.clientState req.clientId).disconnected = false) (ran : server.storageInsert req beyond = .ok (next, some ack)) :
    next.Supplied messages (Function.update received req.clientId (received req.clientId ++ [req])) ∧ next.shardId = server.shardId ∧
      next.replicaId = server.replicaId := by
  obtain ⟨fills, tracks, taken⟩ := supplied
  obtain ⟨gsn, _, _, after, _, _, position, result⟩ :=
    storage_insert_tracks server next _ req beyond (some ack) tracks positive joined ran
  refine ⟨⟨_, after, ?_⟩, (congrArg Server.shardId result).trans rfl, (congrArg Server.replicaId result).trans rfl⟩
  intro client
  by_cases mine : client = req.clientId
  · subst mine
    dsimp only
    rw [Function.update_self, Function.update_self, slotsTaken, List.map_append, List.sum_append, ← slotsTaken, List.length_append,
      payloads_length req positive, List.map_singleton, List.sum_singleton]
    refine ⟨Nat.add_le_add_right (taken req.clientId).1 _, ?_⟩
    intro open_
    rw [(taken req.clientId).2 open_]
  · dsimp only
    rw [Function.update_of_ne mine, Function.update_of_ne mine]
    exact taken client

-- The entries of a client in the log of the server are the slots of its chain.
theorem supplied_entries (server : Server) (messages : List StorageControl) (received : Nat → List StorageInsert) (client : Nat)
    (supplied : server.Supplied messages received) :
    (server.log.clientGsns client).length = (chain (slotsIn messages) client).length ∧
      slotsTaken (received client) ≤ (chain (slotsIn messages) client).length := by
  obtain ⟨fills, tracks, taken⟩ := supplied
  refine ⟨?_, Nat.le_trans (taken client).1 (tracks.rep.filled client)⟩
  rw [client_gsns_represents server.log _ tracks.rep client, chain_length]

-- With enough slots no assertion of position::insert fails.
theorem supplied_insert (server : Server) (messages : List StorageControl) (received : Nat → List StorageInsert) (req : StorageInsert)
    (beyond : Bytes) (supplied : server.Supplied messages received) (positive : 1 ≤ req.numSlots)
    (open_ : .clientFinalize req.clientId ∉ messages)
    (room : slotsTaken (received req.clientId) + req.numSlots ≤ (chain (slotsIn messages) req.clientId).length) :
    ∃ result, server.storageInsert req beyond = .ok result := by
  obtain ⟨fills, tracks, taken⟩ := supplied
  cases gone : (server.clientState req.clientId).disconnected with
  | true => exact ⟨(server, none), if_pos gone⟩
  | false =>
      have full := (taken req.clientId).2 open_
      have inside : (fills req.clientId).length + req.numSlots - 1 < (chain (slotsIn messages) req.clientId).length := by omega
      obtain ⟨log, gsn, ran, _⟩ := insert_represents server.log ⟨slotsIn messages, fills⟩ req.clientId _ ⟨req.data, beyond⟩ req.numSlots
        tracks.rep positive (List.getElem?_eq_getElem inside)
      simp only [Server.storageInsert, gone, Bool.false_eq_true, if_false, tracks.position, ran]
      exact ⟨_, rfl⟩

end ZipLog.Storage
