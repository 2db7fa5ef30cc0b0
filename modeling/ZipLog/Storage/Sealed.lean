import ZipLog.Storage.Agreement
import ZipLog.Storage.Control

set_option autoImplicit false

namespace ZipLog.Storage

-- A server that holds the slots of the messages it has handled, and none of a
-- finalized client that is not set. What is in the slots is left open, so that a
-- patch may have closed any number of them.
def Server.Sealed (server : Server) (messages : List StorageControl) : Prop :=
  ∃ fills, server.Tracks ⟨slotsIn messages, fills⟩ ∧ ∀ client, .clientFinalize client ∈ messages →
    (fills client).length = (chain (slotsIn messages) client).length

theorem init_sealed (shardId replicaId : Nat) : (Server.init shardId replicaId).Sealed [] := by
  refine ⟨fun _ => [], init_tracks shardId replicaId, ?_⟩
  intro client member
  cases member

-- An insert of zero slots closes as many as one of 2^64 would.
theorem insert_pushes (log : Log) (contents : Contents) (client : Nat) (buffer : Buffer) (close : Nat) (result : Inserted)
    (rep : Represents log contents) (ran : log.insert client ((contents.cursor client).map ptr) buffer close = .ok result) :
    ∃ pushed, Represents result.log (contents.push client pushed) ∧
      some result.current = ((contents.push client pushed).cursor client).map ptr ∧ pushed ≠ [] ∧
      (gsns contents.slots client)[(contents.fills client).length + pushed.length - 1]? = some result.gsn := by
  have some_count : ∃ count, 1 ≤ count ∧ log.insert client ((contents.cursor client).map ptr) buffer count = .ok result := by
    by_cases none : close = 0
    · refine ⟨2 ^ 64, by decide, ?_⟩
      rw [none] at ran
      exact ran
    · exact ⟨close, Nat.pos_of_ne_zero none, ran⟩
  obtain ⟨count, positive, same⟩ := some_count
  obtain ⟨last, there, current, slot, pushed, -⟩ := insert_ok log contents client buffer count result rep positive same
  have nonempty : List.replicate (count - 1) ([] : Bytes) ++ [buffer.data] ≠ [] := by simp
  have length : (List.replicate (count - 1) ([] : Bytes) ++ [buffer.data]).length = count := by
    rw [List.length_append, List.length_replicate, List.length_singleton]
    omega
  refine ⟨_, pushed, ?_, nonempty, ?_⟩
  · rw [cursor_push _ _ _ nonempty, length, there, current]
    rfl
  · rw [length, gsns_access _ _ _ _ there, slot]
    rfl

-- Filling more slots of one client leaves every finalized client complete.
theorem sealed_push (server : Server) (messages : List StorageControl) (fills : Nat → List Bytes) (client : Nat) (pushed : List Bytes)
    (log : Log) (state : ClientState)
    (tracks : server.Tracks ⟨slotsIn messages, fills⟩)
    (complete : ∀ client, .clientFinalize client ∈ messages → (fills client).length = (chain (slotsIn messages) client).length)
    (rep : Represents log (Contents.push ⟨slotsIn messages, fills⟩ client pushed))
    (here : state.position = ((Contents.push ⟨slotsIn messages, fills⟩ client pushed).cursor client).map ptr) :
    ({ server with log := log }.setClientState client state).Sealed messages := by
  refine ⟨_, pushed_tracks server _ client pushed log state tracks rep here, ?_⟩
  intro other final
  have before := complete other final
  by_cases mine : other = client
  · have bound : (Function.update fills client (fills client ++ pushed) client).length ≤ (chain (slotsIn messages) client).length :=
      rep.filled client
    rw [mine] at before ⊢
    dsimp only
    rw [Function.update_self, List.length_append] at bound ⊢
    omega
  · rw [Function.update_of_ne mine]
    exact before

theorem sealed_same (server : Server) (messages : List StorageControl) (message : StorageControl) (keeps : server.Sealed messages)
    (quiet : controlSlots message = []) (open_ : ∀ client, message ≠ .clientFinalize client) : server.Sealed (messages ++ [message]) := by
  obtain ⟨fills, tracks, complete⟩ := keeps
  have slots : slotsIn (messages ++ [message]) = slotsIn messages := by rw [slots_in_snoc, quiet, List.append_nil]
  refine ⟨fills, slots ▸ tracks, ?_⟩
  intro client member
  rw [slots]
  cases List.mem_append.mp member with
  | inl earlier => exact complete client earlier
  | inr last => exact absurd (List.mem_singleton.mp last).symm (open_ client)

theorem sealed_slots (server : Server) (messages : List StorageControl) (slots : StorageSlots) (keeps : server.Sealed messages)
    (closed : ∀ client, .clientFinalize client ∈ messages → ∀ slot ∈ newSlots slots, slot.2 ≠ client) :
    (server.storageSlots slots).Sealed (messages ++ [.slots slots]) := by
  obtain ⟨fills, tracks, complete⟩ := keeps
  have more : slotsIn (messages ++ [.slots slots]) = slotsIn messages ++ newSlots slots := slots_in_snoc _ _
  refine ⟨fills, ?_, ?_⟩
  · rw [more]
    exact storage_slots_tracks server _ slots tracks
  · intro client member
    have earlier : .clientFinalize client ∈ messages := by
      cases List.mem_append.mp member with
      | inl earlier => exact earlier
      | inr last => cases List.mem_singleton.mp last
    have none : gsns (newSlots slots) client = [] := by
      rw [gsns, List.filter_eq_nil_iff.mpr, List.map_nil]
      intro slot inside
      simpa using closed client earlier slot inside
    rw [complete client earlier, more, chain_length, chain_length, gsns_append, none, List.append_nil]

theorem sealed_patch (server next : Server) (messages : List StorageControl) (patch : StorageClientPatch) (beyond : Bytes)
    (keeps : server.Sealed messages) (ran : server.storageClientPatch patch beyond = .ok next) : next.Sealed messages := by
  simp only [Server.storageClientPatch] at ran
  split at ran
  · obtain ⟨fills, tracks, complete⟩ := keeps
    rw [tracks.position] at ran
    cases inserted : server.log.insert patch.clientId ((Contents.cursor ⟨slotsIn messages, fills⟩ patch.clientId).map ptr)
        ⟨patch.data, beyond⟩ patch.gsn with
    | error fault =>
        rw [inserted] at ran
        cases ran
    | ok result =>
        rw [inserted] at ran
        cases ran
        obtain ⟨pushed, rep, current, -, -⟩ := insert_pushes server.log _ patch.clientId _ patch.gsn result tracks.rep inserted
        exact sealed_push server messages fills patch.clientId pushed result.log _ tracks complete rep current
  · cases ran
    exact keeps

theorem sealed_insert (server next : Server) (messages : List StorageControl) (req : StorageInsert) (beyond : Bytes) (ack : ClientInsertAck)
    (keeps : server.Sealed messages) (ran : server.storageInsert req beyond = .ok (next, some ack)) : next.Sealed messages := by
  simp only [Server.storageInsert] at ran
  split at ran
  · cases ran
  · obtain ⟨fills, tracks, complete⟩ := keeps
    rw [tracks.position] at ran
    cases inserted : server.log.insert req.clientId ((Contents.cursor ⟨slotsIn messages, fills⟩ req.clientId).map ptr)
        ⟨req.data, beyond⟩ req.numSlots with
    | error fault =>
        rw [inserted] at ran
        cases ran
    | ok result =>
        rw [inserted] at ran
        cases ran
        obtain ⟨pushed, rep, current, -, -⟩ := insert_pushes server.log _ req.clientId _ req.numSlots result tracks.rep inserted
        exact sealed_push server messages fills req.clientId pushed result.log _ tracks complete rep current

theorem sealed_finalize (server : Server) (messages : List StorageControl) (clientId : Nat) (keeps : server.Sealed messages) :
    ∃ next, server.storageClientFinalize clientId = .ok next ∧ next.Sealed (messages ++ [.clientFinalize clientId]) := by
  obtain ⟨fills, tracks, complete⟩ := keeps
  obtain ⟨log, position, ran, after, -, -⟩ := storage_client_finalize_tracks server _ clientId tracks
  have slots : slotsIn (messages ++ [.clientFinalize clientId]) = slotsIn messages := by
    rw [slots_in_snoc]
    exact List.append_nil _
  refine ⟨_, ran, ((Contents.seal ⟨slotsIn messages, fills⟩ clientId).fills), slots ▸ after, ?_⟩
  intro client member
  rw [slots]
  by_cases mine : client = clientId
  · rw [mine]
    exact seal_fills_length _ clientId (tracks.rep.filled clientId)
  · change (Function.update fills clientId _ client).length = _
    rw [Function.update_of_ne mine]
    cases List.mem_append.mp member with
    | inl earlier => exact complete client earlier
    | inr last =>
        cases List.mem_singleton.mp last
        exact absurd rfl mine

theorem sealed_control (server next : Server) (messages : List StorageControl) (message : StorageControl) (beyond : Bytes)
    (reports : List OrderControl) (keeps : server.Sealed messages) (ran : server.control message beyond = .ok (next, reports))
    (closed : ∀ client, .clientFinalize client ∈ messages → ∀ slot ∈ controlSlots message, slot.2 ≠ client) :
    next.Sealed (messages ++ [message]) := by
  cases message with
  | slots slots =>
      cases ran
      exact sealed_slots server messages slots keeps closed
  | clientFreeze clientId =>
      cases ran
      refine sealed_same _ messages _ ?_ rfl (fun client same => by cases same)
      obtain ⟨fills, tracks, complete⟩ := keeps
      exact ⟨fills, disconnect_tracks server _ clientId tracks, complete⟩
  | clientCut req =>
      simp only [Server.control] at ran
      cases answered : server.storageClientCut req with
      | error fault =>
          rw [answered] at ran
          cases ran
      | ok data =>
          rw [answered] at ran
          cases ran
          exact sealed_same server messages _ keeps rfl (fun client same => by cases same)
  | clientPatch patch =>
      simp only [Server.control] at ran
      cases patched : server.storageClientPatch patch beyond with
      | error fault =>
          rw [patched] at ran
          cases ran
      | ok result =>
          rw [patched] at ran
          cases ran
          exact sealed_same next messages _ (sealed_patch server next messages patch beyond keeps patched) rfl
            (fun client same => by cases same)
  | clientFinalize clientId =>
      simp only [Server.control] at ran
      obtain ⟨after, closed, kept⟩ := sealed_finalize server messages clientId keeps
      rw [closed] at ran
      cases ran
      exact kept

theorem sealed_entries (server : Server) (messages : List StorageControl) (client index : Nat) (entry : Entry) (keeps : server.Sealed messages)
    (final : .clientFinalize client ∈ messages) (inside : index < server.log.currentEntries)
    (read : server.log.read (ptr index) = some entry) (owner : entry.clientId = client) : entry.set = true := by
  obtain ⟨fills, tracks, complete⟩ := keeps
  rw [tracks.rep.count] at inside
  obtain ⟨rank, here⟩ := chain_rank_exists (slotsIn messages) index _ _ (List.getElem?_eq_getElem inside)
  obtain ⟨found, there, cell⟩ := tracks.rep.cells _ rank index here
  rw [read] at there
  cases there
  rw [cell.set, decide_eq_true_iff]
  have name := cell.owner.symm.trans owner
  rw [name] at here ⊢
  rw [show (Contents.mk (slotsIn messages) fills).fills client = fills client from rfl, complete client final]
  exact (List.getElem?_eq_some_iff.mp here).1

end ZipLog.Storage
