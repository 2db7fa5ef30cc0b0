import ZipLog.Order.Wire
import ZipLog.Storage.Evenness
import ZipLog.Storage.Payloads

set_option autoImplicit false

namespace ZipLog

open ZipLog.Network

-- The structs that a storage server fills in.
def OrderControl.message : OrderControl → Message
  | .clientFreeze clientId => .orderClientFreeze clientId
  | .clientCut cut => .orderClientCut cut
  | .clientData data => .orderClientData data

def StorageReply.message : StorageReply → Message
  | .insertAck ack => .clientInsertAck ack
  | .storageFinished shardId replicaId => .storageFinished shardId replicaId

end ZipLog

namespace ZipLog.Storage

open ZipLog.Network
open ZipLog.Order (Sendable sendable_single sendable_array ControlSized one_small two_small bytes_fit)

def Reply.message : Reply → Message
  | .order control => control.message
  | .client _ reply => reply.message

def Reply.poller : Reply → Poller
  | .order _ => .orderLoop
  | .client .. => .clientLoop

def entryMessage (server : Server) (threadId : Nat) (entry : Entry) : Message :=
  .subscriberLogEntry ⟨server.replicaId, server.shardId, threadId, entry.clientId, entry.gsn, entry.payload⟩

-- What a packet of the job can hold. The control messages are as the ordering
-- service sends them.
def Job.Fits : Job → Prop
  | .addClient _ => True
  | .suspected clientId => clientId < 2 ^ 64
  | .control message _ => ControlSized message
  | .insert req _ => req.data.length ≤ maxPayload
  | .clientFinished _ => True

structure Server.Sized (server : Server) (contents : Contents) : Prop where
  tracks : server.Tracks contents
  identity : server.shardId < 2 ^ 64 ∧ server.replicaId < 2 ^ 64
  slots : ∀ slot ∈ contents.slots, slot.1 < 2 ^ 64 ∧ slot.2 < 2 ^ 64
  fills : ∀ client, ∀ data ∈ contents.fills client, data.length ≤ maxPayload
  latest : ∀ client, (server.clientState client).latestGsn < 2 ^ 64

theorem init_sized (shardId replicaId : Nat) (shard : shardId < 2 ^ 64) (replica : replicaId < 2 ^ 64) :
    (Server.init shardId replicaId).Sized Contents.empty := by
  refine ⟨init_tracks shardId replicaId, ⟨shard, replica⟩, ?_, ?_, fun client => show uint64Max < 2 ^ 64 by decide⟩
  · intro slot member
    cases member
  · intro client data member
    cases member

theorem latest_set (server : Server) (clientId : Nat) (state : ClientState) (old : ∀ client, (server.clientState client).latestGsn < 2 ^ 64)
    (new : state.latestGsn < 2 ^ 64) (client : Nat) : ((server.setClientState clientId state).clientState client).latestGsn < 2 ^ 64 := by
  by_cases mine : client = clientId
  · subst mine
    rw [client_state_same]
    exact new
  · rw [client_state_other _ _ _ _ mine]
    exact old client

theorem state_sized (server : Server) (contents : Contents) (sized : server.Sized contents) (clientId : Nat) (state : ClientState)
    (position : state.position = (server.clientState clientId).position) (latest : state.latestGsn < 2 ^ 64) :
    (server.setClientState clientId state).Sized contents :=
  ⟨set_client_state_tracks server contents clientId state sized.tracks position, sized.identity, sized.slots, sized.fills,
    latest_set server clientId state sized.latest latest⟩

theorem disconnect_sized (server : Server) (contents : Contents) (sized : server.Sized contents) (clientId : Nat) :
    (server.disconnect clientId).Sized contents := state_sized server contents sized clientId _ rfl (sized.latest clientId)

theorem push_sized (server : Server) (contents : Contents) (sized : server.Sized contents) (clientId : Nat) (pushed : List Bytes) (log : Log)
    (state : ClientState) (rep : Represents log (contents.push clientId pushed))
    (here : state.position = ((contents.push clientId pushed).cursor clientId).map ptr) (small : ∀ data ∈ pushed, data.length ≤ maxPayload)
    (latest : state.latestGsn < 2 ^ 64) :
    ({ server with log := log }.setClientState clientId state).Sized (contents.push clientId pushed) := by
  refine ⟨pushed_tracks server contents clientId pushed log state sized.tracks rep here, sized.identity, sized.slots, ?_,
    latest_set _ clientId state sized.latest latest⟩
  intro client data member
  by_cases mine : client = clientId
  · subst mine
    rw [push_fills_same] at member
    cases List.mem_append.mp member with
    | inl old => exact sized.fills client data old
    | inr new => exact small data new
  · rw [push_fills_other _ _ _ _ mine] at member
    exact sized.fills client data member

theorem schedule_member (assignments : List Assignment) (assignment : Assignment) (member : assignment ∈ schedule assignments) :
    assignment ∈ assignments := by
  rw [schedule_rounds] at member
  obtain ⟨turn, _, there⟩ := List.mem_filterMap.mp member
  exact List.mem_of_getElem? there

theorem own_slots_small (order : List Assignment) (gsn : Nat) (start : gsn < 2 ^ 64) (small : ∀ assignment ∈ order, assignment.clientId < 2 ^ 64) :
    ∀ slot ∈ ownSlots gsn order, slot.1 < 2 ^ 64 ∧ slot.2 < 2 ^ 64 := by
  induction order generalizing gsn with
  | nil => exact fun slot member => (by cases member)
  | cons assignment order ih =>
      have rest := ih (uint64 (gsn + 1)) (Nat.mod_lt _ (by decide)) (fun other member => small other (List.mem_cons_of_mem _ member))
      intro slot member
      unfold ownSlots at member
      split at member
      · exact rest slot member
      · cases List.mem_cons.mp member with
        | inl first =>
            rw [first]
            exact ⟨start, small assignment (List.mem_cons_self ..)⟩
        | inr later => exact rest slot later

theorem slots_sized (server : Server) (contents : Contents) (sized : server.Sized contents) (slots : StorageSlots)
    (fits : ControlSized (.slots slots)) : (server.storageSlots slots).Sized (contents.extend (newSlots slots)) := by
  refine ⟨storage_slots_tracks server contents slots sized.tracks, ?_, ?_, sized.fills, ?_⟩
  · simp only [Server.storageSlots]
    split <;> exact sized.identity
  · intro slot member
    cases List.mem_append.mp member with
    | inl old => exact sized.slots slot old
    | inr new =>
        exact own_slots_small _ _ fits.1 (fun assignment inside => (fits.2.2 assignment (schedule_member _ _ inside)).1) slot new
  · simp only [Server.storageSlots]
    split <;> exact sized.latest

-- What an entry holds, whether or not it is a client's.
theorem entry_sized (server : Server) (contents : Contents) (sized : server.Sized contents) (here : Ptr) (entry : Entry)
    (read : server.log.read here = some entry) (inside : here.slot < numEntriesPerBlock) :
    entry.clientId < 2 ^ 64 ∧ entry.gsn < 2 ^ 64 ∧ entry.payload.length ≤ maxPayload := by
  have rep := sized.tracks.rep
  obtain ⟨block, slot⟩ := here
  dsimp only at inside
  have exists_block : block < server.log.blocks.length := by
    by_contra none
    rw [Log.read, List.getElem?_eq_none (Nat.le_of_not_lt none)] at read
    cases read
  by_cases used : block * numEntriesPerBlock + slot < contents.slots.length
  · obtain ⟨⟨gsn, owner⟩, there⟩ : ∃ found, contents.slots[block * numEntriesPerBlock + slot]? = some found :=
      ⟨_, List.getElem?_eq_getElem used⟩
    obtain ⟨rank, access⟩ := chain_rank_exists contents.slots _ gsn owner there
    obtain ⟨found, same, cell⟩ := rep.cells owner rank _ access
    rw [ptr_mul_add block slot inside, read] at same
    cases same
    have small := sized.slots _ (List.mem_of_getElem? cell.slot)
    refine ⟨by rw [cell.owner]; exact small.2, small.1, ?_⟩
    rw [cell.payload, List.getD_eq_getElem?_getD]
    cases filled : (contents.fills owner)[rank]? with
    | none => exact Nat.zero_le _
    | some data => exact sized.fills owner data (List.mem_of_getElem? filled)
  · have last : block = server.log.block ∧ server.log.entry ≤ slot := by
      rw [rep.size] at used
      rw [rep.blocks] at exists_block
      have bound := rep.entry
      rcases Nat.lt_or_eq_of_le (Nat.le_of_lt_succ exists_block) with less | same
      · exfalso
        have room : (block + 1) * numEntriesPerBlock ≤ server.log.block * numEntriesPerBlock := Nat.mul_le_mul_right _ less
        rw [Nat.add_mul, Nat.one_mul] at room
        omega
      · subst same
        exact ⟨rfl, by omega⟩
    rw [last.1, rep.spare slot last.2 inside] at read
    cases read
    exact ⟨by decide, by decide, by decide⟩

theorem entry_sendable (server : Server) (contents : Contents) (sized : server.Sized contents) (here : Ptr) (entry : Entry)
    (read : server.log.read here = some entry) (inside : here.slot < numEntriesPerBlock) (threadId : Nat) (thread : threadId < 2 ^ 64) :
    Sendable .subscriberPoll (entryMessage server threadId entry) := by
  obtain ⟨client, gsn, length⟩ := entry_sized server contents sized here entry read inside
  refine sendable_array _ .subscriberLogEntry (entryMessage server threadId entry) [1] rfl (by decide) rfl (by decide) ?_ (bytes_fit entry.payload) ?_
  · intro value member
    simp only [entryMessage, Message.values, List.mem_cons, List.not_mem_nil, or_false] at member
    rcases member with rfl | rfl | rfl | rfl | rfl
    · exact sized.identity.2
    · exact sized.identity.1
    · exact thread
    · exact client
    · exact gsn
  · rw [entryMessage, Message.elements, ofBytes, List.length_map]
    change 56 + entry.payload.length * 1 ≤ 2048
    change entry.payload.length ≤ 1992 at length
    omega

def DataSized (data : OrderClientData) : Prop :=
  data.clientId < 2 ^ 64 ∧ data.shardId < 2 ^ 64 ∧ data.replicaId < 2 ^ 64 ∧ data.gsn < 2 ^ 64 ∧ data.data.length ≤ maxPayload

theorem data_sendable (data : OrderClientData) (sized : DataSized data) : Sendable .orderLoop (.orderClientData data) := by
  obtain ⟨client, shard, replica, gsn, length⟩ := sized
  refine sendable_array _ .orderClientData (.orderClientData data) [1] rfl (by decide) rfl (by decide) ?_ (bytes_fit data.data) ?_
  · intro value member
    simp only [Message.values, List.mem_cons, List.not_mem_nil, or_false] at member
    rcases member with rfl | rfl | rfl | rfl
    · exact client
    · exact shard
    · exact replica
    · exact gsn
  · rw [Message.elements, ofBytes, List.length_map]
    change 48 + data.data.length * 1 ≤ 2048
    change data.data.length ≤ 1992 at length
    omega

def ReportSized : OrderControl → Prop
  | .clientFreeze clientId => clientId < 2 ^ 64
  | .clientCut cut => cut.clientId < 2 ^ 64 ∧ cut.shardId < 2 ^ 64 ∧ cut.replicaId < 2 ^ 64 ∧ cut.latestGsn < 2 ^ 64
  | .clientData data => DataSized data

def AnswerSized : StorageReply → Prop
  | .insertAck ack => ack.replicaId < 2 ^ 64 ∧ ack.gsn < 2 ^ 64
  | .storageFinished shardId replicaId => shardId < 2 ^ 64 ∧ replicaId < 2 ^ 64

def ReplySized : Reply → Prop
  | .order report => ReportSized report
  | .client _ reply => AnswerSized reply

theorem report_sendable (report : OrderControl) (sized : ReportSized report) : Sendable .orderLoop report.message := by
  cases report with
  | clientFreeze clientId =>
      exact sendable_single _ .orderClientFreeze (.orderClientFreeze clientId) rfl (by decide) rfl (by decide) (one_small _ sized)
  | clientCut cut =>
      obtain ⟨client, shard, replica, latest⟩ := sized
      refine sendable_single _ .orderClientCut (.orderClientCut cut) rfl (by decide) rfl (by decide) ?_
      intro value member
      simp only [Message.values, List.mem_cons, List.not_mem_nil, or_false] at member
      rcases member with rfl | rfl | rfl | rfl
      · exact client
      · exact shard
      · exact replica
      · exact latest
  | clientData data => exact data_sendable data sized

theorem answer_sendable (reply : StorageReply) (sized : AnswerSized reply) : Sendable .clientLoop reply.message := by
  cases reply with
  | insertAck ack =>
      exact sendable_single _ .clientInsertAck (.clientInsertAck ack) rfl (by decide) rfl (by decide) (two_small _ _ sized.1 sized.2)
  | storageFinished shardId replicaId =>
      exact sendable_single _ .storageFinished (.storageFinished shardId replicaId) rfl (by decide) rfl (by decide)
        (two_small _ _ sized.1 sized.2)

theorem reply_sendable (reply : Reply) (sized : ReplySized reply) : Sendable reply.poller reply.message := by
  cases reply with
  | order report => exact report_sendable report sized
  | client clientId reply => exact answer_sendable reply sized

theorem client_data_sized (server : Server) (contents : Contents) (sized : server.Sized contents) (indices : List Nat) (data : List OrderClientData)
    (ran : server.clientData (indices.map ptr) = .ok data) : ∀ message ∈ data, DataSized message := by
  induction indices generalizing data with
  | nil =>
      cases ran
      exact fun message member => (by cases member)
  | cons index indices ih =>
      rw [List.map_cons, Server.clientData] at ran
      cases read : server.log.read (ptr index) with
      | none =>
          rw [read] at ran
          cases ran
      | some entry =>
          rw [read] at ran
          obtain ⟨rest, later, done⟩ := except_bind_ok ran
          obtain ⟨client, gsn, length⟩ := entry_sized server contents sized (ptr index) entry read (Nat.mod_lt _ entries_per_block_pos)
          split at done
          · cases done
            intro message member
            cases List.mem_cons.mp member with
            | inl first =>
                rw [first]
                exact ⟨client, sized.identity.1, sized.identity.2, gsn, length⟩
            | inr other => exact ih rest later message other
          · cases done
            exact ih _ later

theorem storage_client_cut_sized (server : Server) (contents : Contents) (sized : server.Sized contents) (req : StorageClientCut)
    (client : req.clientId < 2 ^ 64) (data : List OrderClientData) (ran : server.storageClientCut req = .ok data) :
    ∀ message ∈ data, DataSized message := by
  have flush : ∀ message ∈ [(⟨req.clientId, server.shardId, server.replicaId, uint64Max, []⟩ : OrderClientData)], DataSized message := by
    intro message member
    rw [List.mem_singleton.mp member]
    exact ⟨client, sized.identity.1, sized.identity.2, show uint64Max < 2 ^ 64 by decide, Nat.zero_le _⟩
  unfold Server.storageClientCut at ran
  dsimp only at ran
  split at ran
  · rw [sized.tracks.position, suffix_chain _ _ _ _ sized.tracks.rep] at ran
    obtain ⟨entries, walked, ran⟩ := except_bind_ok ran
    cases walked
    obtain ⟨found, collected, done⟩ := except_bind_ok ran
    cases done
    intro message member
    cases List.mem_append.mp member with
    | inl stored => exact client_data_sized server contents sized _ found collected message stored
    | inr last => exact flush message last
  · cases ran
    exact flush

theorem inserted_small (count : Nat) (data : Bytes) (small : data.length ≤ maxPayload) :
    ∀ pushed ∈ List.replicate count [] ++ [data], pushed.length ≤ maxPayload := by
  intro pushed member
  cases List.mem_append.mp member with
  | inl closed =>
      rw [List.eq_of_mem_replicate closed]
      exact Nat.zero_le _
  | inr last =>
      rw [List.mem_singleton.mp last]
      exact small

theorem job_sized (job : Job) (server : Server) (contents : Contents) (sized : server.Sized contents) (fits : job.Fits)
    (result : Server × List Reply) (ran : job.run server = .ok result) :
    (∃ later, result.1.Sized later) ∧ ∀ reply ∈ result.2, ReplySized reply := by
  have silent : ∀ reply ∈ ([] : List Reply), ReplySized reply := fun reply member => (by cases member)
  cases job with
  | addClient clientId =>
      cases ran
      refine ⟨⟨contents, ?_⟩, silent⟩
      simp only [Server.addClient]
      split
      · exact sized
      · exact state_sized server contents sized clientId _ rfl (sized.latest clientId)
  | suspected clientId =>
      cases ran
      refine ⟨⟨contents, disconnect_sized server contents sized clientId⟩, ?_⟩
      intro reply member
      rw [List.mem_singleton.mp member]
      exact fits
  | control message beyond =>
      obtain ⟨handled, control, rfl⟩ := except_map_ok ran
      cases message with
      | slots slots =>
          cases control
          exact ⟨⟨_, slots_sized server contents sized slots fits⟩, silent⟩
      | clientFreeze clientId =>
          cases control
          refine ⟨⟨contents, disconnect_sized server contents sized clientId⟩, ?_⟩
          intro reply member
          rw [List.map_singleton, List.mem_singleton] at member
          rw [member]
          exact ⟨fits, sized.identity.1, sized.identity.2, sized.latest clientId⟩
      | clientCut req =>
          obtain ⟨data, collected, done⟩ := except_bind_ok control
          cases done
          refine ⟨⟨contents, sized⟩, ?_⟩
          intro reply member
          obtain ⟨report, inside, rfl⟩ := List.mem_map.mp member
          obtain ⟨message, there, rfl⟩ := List.mem_map.mp inside
          exact storage_client_cut_sized server contents sized req fits.1 data collected message there
      | clientPatch data =>
          obtain ⟨next, patched, done⟩ := except_bind_ok control
          cases done
          refine ⟨?_, silent⟩
          unfold Server.storageClientPatch at patched
          dsimp only at patched
          split at patched
          · rw [sized.tracks.position] at patched
            obtain ⟨inserted, insert, done⟩ := except_bind_ok patched
            cases done
            obtain ⟨count, rep, here, _⟩ := insert_pushes_payload _ _ _ _ _ _ sized.tracks.rep insert
            exact ⟨_, push_sized server contents sized data.clientId _ inserted.log _ rep here (inserted_small count data.data fits.2.2)
              (sized.latest data.clientId)⟩
          · cases patched
            exact ⟨contents, sized⟩
      | clientFinalize clientId =>
          obtain ⟨next, finalized, done⟩ := except_bind_ok control
          cases done
          refine ⟨?_, silent⟩
          obtain ⟨log, position, closed, sealed, _⟩ := storage_client_finalize_tracks server contents clientId sized.tracks
          rw [closed] at finalized
          cases finalized
          have here := sealed.position clientId
          rw [client_state_same] at here
          exact ⟨_, push_sized server contents sized clientId _ log _ sealed.rep here (by
            intro data member
            rw [List.eq_of_mem_replicate member]
            exact Nat.zero_le _) (sized.latest clientId)⟩
  | insert req beyond =>
      obtain ⟨inserted, insert, rfl⟩ := except_map_ok ran
      unfold Server.storageInsert at insert
      dsimp only at insert
      split at insert
      · cases insert
        exact ⟨⟨contents, sized⟩, silent⟩
      · rw [sized.tracks.position] at insert
        obtain ⟨moved, stored, done⟩ := except_bind_ok insert
        cases done
        obtain ⟨count, rep, here, index, slot⟩ := insert_pushes_payload _ _ _ _ _ _ sized.tracks.rep stored
        have gsn := (sized.slots _ (List.mem_of_getElem? slot)).1
        refine ⟨⟨_, push_sized server contents sized req.clientId _ moved.log _ rep here (inserted_small count req.data fits) gsn⟩, ?_⟩
        intro reply member
        rw [Option.toList_some, List.map_singleton, List.mem_singleton] at member
        rw [member]
        exact ⟨sized.identity.2, gsn⟩
  | clientFinished clientId =>
      cases ran
      simp only [Server.clientFinished]
      split
      · exact ⟨⟨contents, sized⟩, silent⟩
      · refine ⟨⟨contents, disconnect_sized server contents sized clientId⟩, ?_⟩
        intro reply member
        rw [Option.toList_some, List.map_singleton, List.mem_singleton] at member
        rw [member]
        exact sized.identity

theorem served_sized (shardId replicaId : Nat) (shard : shardId < 2 ^ 64) (replica : replicaId < 2 ^ 64) (jobs : List (Nat × Job))
    (fits : ∀ job ∈ jobs, job.2.Fits) (final : Served) (ran : Machine.run Served.step (Served.init shardId replicaId) jobs = some final) :
    (∃ contents, final.server.Sized contents) ∧ ∀ reply ∈ final.replies, ReplySized reply := by
  induction jobs using List.reverseRecOn generalizing final with
  | nil =>
      cases ran
      exact ⟨⟨_, init_sized shardId replicaId shard replica⟩, fun reply member => (by cases member)⟩
  | append_singleton jobs job ih =>
      obtain ⟨s, earlier, stepped⟩ := Machine.run_snoc_some ran
      obtain ⟨⟨contents, sized⟩, replies⟩ := ih (fun other member => fits other (List.mem_append_left _ member)) s earlier
      obtain ⟨_, stepped⟩ := Option.ite_none_left_eq_some.mp stepped
      split at stepped
      · cases stepped
      · rename_i server more done
        cases stepped
        obtain ⟨later, new⟩ := job_sized job.2 s.server contents sized (fits job (List.mem_append_right _ (List.mem_singleton_self _)))
          (server, more) done
        refine ⟨later, ?_⟩
        intro reply member
        cases List.mem_append.mp member with
        | inl old => exact replies reply old
        | inr fresh => exact new reply fresh

-- A job that has been finished was called.
theorem finished_called (shardId replicaId : Nat) (steps : List ThreadStep) (s : Threads)
    (ran : Machine.run Threads.step (Threads.init shardId replicaId) steps = some s) (done : Nat × Job) (member : done ∈ s.finished) :
    .start done.1 done.2 ∈ steps := by
  have order := (threads_inv shardId replicaId steps s ran).order done.1
  rw [started_calls shardId replicaId steps s ran] at order
  have called : done.2 ∈ callsOf steps done.1 := by
    rw [order]
    exact List.mem_append_left _ (List.mem_map.mpr ⟨done, List.mem_filter.mpr ⟨member, decide_eq_true rfl⟩, rfl⟩)
  obtain ⟨step, inside, same⟩ := List.mem_filterMap.mp called
  cases step with
  | start caller job =>
      obtain ⟨owner, value⟩ := Option.ite_none_right_eq_some.mp same
      rw [← owner, ← Option.some.inj value]
      exact inside
  | _ => cases same

-- The main result on what a storage server sends. If the packets that its threads
-- handle fit, then so does each message it sends in any run: it fits its struct and
-- a send buffer, and the thread that polls for it has a handler. So do the entries
-- that the subscriber threads send, with the largest payload as well.
theorem storage_messages_fit (shardId replicaId : Nat) (shard : shardId < 2 ^ 64) (replica : replicaId < 2 ^ 64) (steps : List ThreadStep)
    (fits : ∀ thread job, .start thread job ∈ steps → job.Fits) (s : Threads)
    (ran : Machine.run Threads.step (Threads.init shardId replicaId) steps = some s) :
    (∀ reply ∈ s.replies, Sendable reply.poller reply.message) ∧
    ∀ here entry, s.log.read here = some entry → here.slot < numEntriesPerBlock → ∀ threadId, threadId < 2 ^ 64 →
      Sendable .subscriberPoll (entryMessage s.server threadId entry) := by
  have served := (threads_inv shardId replicaId steps s ran).served
  obtain ⟨⟨contents, sized⟩, replies⟩ := served_sized shardId replicaId shard replica s.finished
    (fun done member => fits done.1 done.2 (finished_called shardId replicaId steps s ran done member)) _ served
  exact ⟨fun reply member => reply_sendable reply (replies reply member), fun here entry read inside threadId thread => entry_sendable s.server contents sized here entry read inside threadId thread⟩

theorem storage_messages_fit_two_inserts : ∃ s, Machine.run Threads.step (Threads.init 0 3) twoInserts = some s ∧
    s.replies = [.client 7 (.insertAck ⟨3, 101⟩), .client 7 (.insertAck ⟨3, 102⟩)] ∧
    Sendable .clientLoop (.clientInsertAck ⟨3, 101⟩) ∧
    ∃ entry, s.log.read ⟨0, 1⟩ = some entry ∧ entry.payload = [1, 2, 3, 4, 5, 6, 7, 8, 9] ∧
      Sendable .subscriberPoll (entryMessage s.server 0 entry) := by
  have enabled : (Machine.run Threads.step (Threads.init 0 3) twoInserts).map (fun s =>
      decide (s.replies = [.client 7 (.insertAck ⟨3, 101⟩), .client 7 (.insertAck ⟨3, 102⟩)] ∧
        (s.log.read ⟨0, 1⟩).map Entry.payload = some [1, 2, 3, 4, 5, 6, 7, 8, 9])) = some true := by
    decide +kernel
  obtain ⟨s, ran, seen⟩ := Option.map_eq_some_iff.mp enabled
  obtain ⟨replies, stored⟩ := of_decide_eq_true seen
  obtain ⟨entry, read, payload⟩ := Option.map_eq_some_iff.mp stored
  obtain ⟨sendable, entries⟩ := storage_messages_fit 0 3 (by decide) (by decide) twoInserts (by
    intro thread job member
    simp only [twoInserts, List.mem_cons, ThreadStep.start.injEq, reduceCtorEq, List.not_mem_nil, or_false, false_or] at member
    rcases member with ⟨_, rfl⟩ | ⟨_, rfl⟩ | ⟨_, rfl⟩ | ⟨_, rfl⟩
    · exact ⟨by decide, by decide, by decide⟩
    · trivial
    · exact show 9 ≤ maxPayload by decide
    · exact show 3 ≤ maxPayload by decide) s ran
  refine ⟨s, ran, replies, ?_, entry, read, payload, entries ⟨0, 1⟩ entry read (by decide) 0 (by decide)⟩
  exact sendable (.client 7 (.insertAck ⟨3, 101⟩)) (by rw [replies]; exact List.mem_cons_self ..)

end ZipLog.Storage
