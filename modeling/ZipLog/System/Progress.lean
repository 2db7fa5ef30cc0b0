import ZipLog.System.Replica

set_option autoImplicit false

namespace ZipLog.System

open Storage

-- A server that has handled the freeze of a client takes no more of its inserts.
structure Cluster.Halting (s : Cluster) : Prop where
  bounded : ∀ place, s.handled place ≤ (s.control place).length
  stopped : ∀ place client, .clientFreeze client ∈ s.seen place → ((s.servers place).clientState client).disconnected = true

structure Progresses (s next : Cluster) : Prop where
  seen : ∀ place, s.seen place <+: next.seen place
  received : ∀ place client, s.received place client <+: next.received place client
  halted : ∀ place client, .clientFreeze client ∈ s.seen place → next.received place client = s.received place client
  halting : next.Halting

theorem patch_states (server next : Server) (patch : StorageClientPatch) (beyond : Bytes)
    (ran : server.storageClientPatch patch beyond = .ok next) (client : Nat) :
    (next.clientState client).disconnected = (server.clientState client).disconnected ∧
      (next.clientState client).connected = (server.clientState client).connected := by
  simp only [Server.storageClientPatch] at ran
  split at ran
  · cases inserted : server.log.insert patch.clientId (server.clientState patch.clientId).position ⟨patch.data, beyond⟩ patch.gsn with
    | error fault =>
        rw [inserted] at ran
        cases ran
    | ok result =>
        rw [inserted] at ran
        cases ran
        by_cases mine : client = patch.clientId
        · subst mine
          rw [Server.inserted, client_state_same]
          exact ⟨rfl, rfl⟩
        · rw [Server.inserted, client_state_other _ _ _ _ mine]
          exact ⟨rfl, rfl⟩
  · cases ran
    exact ⟨rfl, rfl⟩

theorem finalize_states (server next : Server) (clientId : Nat) (ran : server.storageClientFinalize clientId = .ok next)
    (client : Nat) : (next.clientState client).disconnected = (server.clientState client).disconnected ∧
      (next.clientState client).connected = (server.clientState client).connected := by
  simp only [Server.storageClientFinalize] at ran
  cases closed : server.log.close clientId (server.clientState clientId).position with
  | error fault =>
      rw [closed] at ran
      cases ran
  | ok result =>
      rw [closed] at ran
      cases ran
      by_cases mine : client = clientId
      · subst mine
        rw [client_state_same]
        exact ⟨rfl, rfl⟩
      · rw [client_state_other _ _ _ _ mine]
        exact ⟨rfl, rfl⟩

theorem control_stops (server next : Server) (message : StorageControl) (beyond : Bytes) (reports : List OrderControl) (client : Nat)
    (ran : server.control message beyond = .ok (next, reports))
    (stopped : (server.clientState client).disconnected = true ∨ message = .clientFreeze client) :
    (next.clientState client).disconnected = true := by
  cases message with
  | slots slots =>
      cases ran
      cases stopped with
      | inl before =>
          unfold Server.storageSlots
          split
          · exact before
          · exact before
      | inr now => cases now
  | clientFreeze clientId =>
      cases ran
      apply (disconnect_states server clientId client).2.2.mpr
      cases stopped with
      | inl before => exact Or.inr before
      | inr now =>
          cases now
          exact Or.inl rfl
  | clientCut req =>
      simp only [Server.control] at ran
      cases answered : server.storageClientCut req with
      | error fault =>
          rw [answered] at ran
          cases ran
      | ok data =>
          rw [answered] at ran
          cases ran
          exact stopped.resolve_right (fun now => by cases now)
  | clientPatch patch =>
      simp only [Server.control] at ran
      cases patched : server.storageClientPatch patch beyond with
      | error fault =>
          rw [patched] at ran
          cases ran
      | ok result =>
          rw [patched] at ran
          cases ran
          rw [(patch_states server next patch beyond patched client).1]
          exact stopped.resolve_right (fun now => by cases now)
  | clientFinalize clientId =>
      simp only [Server.control] at ran
      cases closed : server.storageClientFinalize clientId with
      | error fault =>
          rw [closed] at ran
          cases ran
      | ok result =>
          rw [closed] at ran
          cases ran
          rw [(finalize_states server next clientId closed client).1]
          exact stopped.resolve_right (fun now => by cases now)

theorem insert_answered (server next : Server) (req : StorageInsert) (beyond : Bytes) (ack : ClientInsertAck)
    (ran : server.storageInsert req beyond = .ok (next, some ack)) :
    (server.clientState req.clientId).disconnected = false ∧
      ∀ client, (next.clientState client).disconnected = (server.clientState client).disconnected ∧
        (next.clientState client).connected = (server.clientState client).connected := by
  simp only [Server.storageInsert] at ran
  split at ran
  · cases ran
  · rename_i joined
    refine ⟨by simpa using joined, ?_⟩
    intro client
    cases inserted : server.log.insert req.clientId (server.clientState req.clientId).position ⟨req.data, beyond⟩ req.numSlots with
    | error fault =>
        rw [inserted] at ran
        cases ran
    | ok result =>
        rw [inserted] at ran
        cases ran
        by_cases mine : client = req.clientId
        · subst mine
          rw [client_state_same]
          exact ⟨rfl, rfl⟩
        · rw [client_state_other _ _ _ _ mine]
          exact ⟨rfl, rfl⟩

theorem progresses_of_server (s next : Cluster) (halting : s.Halting) (control : ∀ place, s.control place <+: next.control place)
    (handled : next.handled = s.handled) (received : next.received = s.received)
    (states : ∀ place client, ((s.servers place).clientState client).disconnected = true →
      ((next.servers place).clientState client).disconnected = true) : Progresses s next := by
  have seen : ∀ place, next.seen place = s.seen place := fun place =>
    seen_grows s next place (halting.bounded place) (congrFun handled place) (control place)
  refine ⟨?_, ?_, ?_, ?_, ?_⟩
  · intro place
    exact (seen place) ▸ List.prefix_rfl
  · intro place client
    exact received ▸ List.prefix_rfl
  · intro place client _
    rw [received]
  · intro place
    rw [handled]
    exact Nat.le_trans (halting.bounded place) (control place).length_le
  · intro place client member
    rw [seen] at member
    exact states place client (halting.stopped place client member)

theorem set_server_states (s : Cluster) (here place : Place) (server : Server) (client : Nat)
    (kept : ((s.servers here).clientState client).disconnected = true → (server.clientState client).disconnected = true)
    (before : ((s.servers place).clientState client).disconnected = true) :
    (((s.setServer here server).servers place).clientState client).disconnected = true := by
  by_cases same : place = here
  · subst same
    rw [show (s.setServer place server).servers place = server from Function.update_self _ _ _]
    exact kept before
  · rw [show (s.setServer here server).servers place = s.servers place from Function.update_of_ne same _ _]
    exact before

theorem controlled_progresses (s : Cluster) (here : Place) (server : Server) (reports : List OrderControl) (message : StorageControl)
    (beyond : Bytes) (halting : s.Halting) (pending : s.pending here = some message)
    (ran : (s.servers here).control message beyond = .ok (server, reports)) : Progresses s (s.controlled here server reports) := by
  have seen : ∀ place, (s.controlled here server reports).seen place = s.seen place ++ if place = here then [message] else [] := by
    intro place
    by_cases same : place = here
    · subst same
      rw [if_pos rfl]
      exact (controlled_here s place server reports message pending).2.1
    · rw [if_neg same, List.append_nil]
      exact (controlled_other s here place server reports same).2.1
  refine ⟨?_, ?_, ?_, ?_, ?_⟩
  · intro place
    rw [seen]
    exact List.prefix_append _ _
  · intro place client
    exact List.prefix_rfl
  · intro place client _
    rfl
  · intro place
    by_cases same : place = here
    · subst same
      rw [(controlled_here s place server reports message pending).2.2.1]
      exact (pending_seen s place message pending).2.2
    · rw [(controlled_other s here place server reports same).2.2.1]
      exact halting.bounded place
  · intro place client member
    rw [seen] at member
    by_cases same : place = here
    · subst same
      rw [(controlled_here s place server reports message pending).1]
      apply control_stops (s.servers place) server message beyond reports client ran
      cases List.mem_append.mp member with
      | inl old => exact Or.inl (halting.stopped place client old)
      | inr new =>
          rw [if_pos rfl] at new
          exact Or.inr (List.mem_singleton.mp new).symm
    · rw [(controlled_other s here place server reports same).1]
      rw [if_neg same, List.append_nil] at member
      exact halting.stopped place client member

theorem answered_received (s : Cluster) (here : Place) (clientId : Nat) (server : Server) (inserts : List StorageInsert)
    (replies : List StorageReply) (place : Place) (client : Nat) :
    (s.answered here clientId server inserts replies).received place client =
      s.received place client ++ if place = here ∧ client = clientId then inserts else [] := by
  by_cases same : place = here
  · subst same
    rw [(answered_here s place clientId server inserts replies).2.1]
    by_cases mine : client = clientId
    · subst mine
      simp
    · simp [mine]
  · rw [(answered_other s here place clientId server inserts replies same).2.1]
    simp [same]

theorem answered_replies (s : Cluster) (here : Place) (clientId : Nat) (server : Server) (inserts : List StorageInsert)
    (replies : List StorageReply) (place : Place) (client : Nat) :
    (s.answered here clientId server inserts replies).replies place client =
      s.replies place client ++ if place = here ∧ client = clientId then replies else [] := by
  by_cases same : place = here
  · subst same
    rw [(answered_here s place clientId server inserts replies).2.2]
    by_cases mine : client = clientId
    · subst mine
      simp
    · simp [mine]
  · rw [(answered_other s here place clientId server inserts replies same).2.2]
    simp [same]

theorem answered_progresses (s : Cluster) (here : Place) (clientId : Nat) (server : Server) (inserts : List StorageInsert)
    (replies : List StorageReply) (halting : s.Halting)
    (states : ∀ client, ((s.servers here).clientState client).disconnected = true → (server.clientState client).disconnected = true)
    (joined : inserts ≠ [] → ((s.servers here).clientState clientId).disconnected = false) :
    Progresses s (s.answered here clientId server inserts replies) := by
  have received := answered_received s here clientId server inserts replies
  refine ⟨?_, ?_, ?_, ?_, ?_⟩
  · intro place
    exact List.prefix_rfl
  · intro place client
    rw [received]
    exact List.prefix_append _ _
  · intro place client member
    rw [received]
    have gone := halting.stopped place client member
    split
    · rename_i both
      obtain ⟨rfl, rfl⟩ := both
      by_cases none : inserts = []
      · rw [none, List.append_nil]
      · rw [joined none] at gone
        cases gone
    · rw [List.append_nil]
  · exact halting.bounded
  · intro place client member
    exact set_server_states s here place server client (states client) (halting.stopped place client member)

theorem step_progresses (s next : Cluster) (event : Event) (halting : s.Halting) (stepped : s.step event = some next) :
    Progresses s next := by
  have order : ∀ result, Progresses s (s.ordered result) := fun result =>
    progresses_of_server s _ halting (fun place => List.prefix_append _ _) rfl rfl (fun place client before => before)
  cases event with
  | addClient clientId shardId numSlots =>
      rw [← Option.some.inj (Option.ite_none_left_eq_some.mp stepped).2]
      exact progresses_of_server s _ halting (fun place => List.prefix_append _ _) rfl rfl (fun place client before => before)
  | clientRate clientId numSlots =>
      cases stepped
      exact order _
  | epoch now =>
      rw [← Option.some.inj (Option.ite_none_right_eq_some.mp stepped).2]
      exact order _
  | detect clientId =>
      cases stepped
      exact order _
  | finish clientId =>
      cases stepped
      exact order _
  | report place =>
      obtain ⟨message, -, rfl⟩ := Option.map_eq_some_iff.mp (Option.ite_none_right_eq_some.mp stepped).2
      exact progresses_of_server s _ halting (fun place => List.prefix_append _ _) rfl rfl (fun place client before => before)
  | connect place clientId =>
      rw [← Option.some.inj (Option.ite_none_right_eq_some.mp stepped).2]
      refine progresses_of_server s _ halting (fun _ => List.prefix_rfl) rfl rfl (fun other client before => ?_)
      exact set_server_states s place other _ client
        (fun gone => (add_client_states (s.servers place) clientId client).2.2.trans gone) before
  | control place beyond =>
      obtain ⟨-, message, pending, ⟨fault, -, rfl⟩ | ⟨server, reports, ran, rfl⟩⟩ := control_taken s next place beyond stepped
      · exact progresses_of_server s _ halting (fun _ => List.prefix_rfl) rfl rfl (fun _ _ before => before)
      · exact controlled_progresses s place server reports message beyond halting pending ran
  | insert place req beyond =>
      obtain ⟨-, -, ⟨server, -, rfl⟩ | ⟨server, ack, ran, rfl⟩⟩ := insert_taken s next place req beyond stepped
      · exact progresses_of_server next _ halting (fun _ => List.prefix_rfl) rfl rfl (fun _ _ before => before)
      · obtain ⟨joined, states⟩ := insert_answered (s.servers place) server req beyond ack ran
        exact answered_progresses s place req.clientId server [req] [.insertAck ack] halting
          (fun client gone => (states client).1.trans gone) (fun _ => joined)
  | leave place clientId =>
      rw [← Option.some.inj (Option.ite_none_right_eq_some.mp stepped).2]
      refine answered_progresses s place clientId _ [] _ halting ?_ (fun some => absurd rfl some)
      intro client gone
      obtain ⟨same, _⟩ | ⟨same, _⟩ := client_finished_cases (s.servers place) clientId
      · rw [same]
        exact gone
      · rw [same]
        exact (disconnect_states (s.servers place) clientId client).2.2.mpr (Or.inr gone)
  | suspect place clientId =>
      rw [← Option.some.inj (Option.ite_none_right_eq_some.mp stepped).2]
      refine progresses_of_server s _ halting (fun _ => List.prefix_rfl) rfl rfl (fun other client before => ?_)
      exact set_server_states s place other _ client
        (fun gone => (disconnect_states (s.servers place) clientId client).2.2.mpr (Or.inr gone)) before

end ZipLog.System
