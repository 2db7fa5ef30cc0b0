import ZipLog.Lib.Run
import ZipLog.Order.Cuts

set_option autoImplicit false

namespace ZipLog.Order

-- The storage servers that the service was started with.
def State.assembled (numShards : Nat) (storages : List (Nat × Nat)) : State :=
  storages.foldl (fun state place => state.addStorage place.1 place.2) (State.init numShards)

def State.handle (state : State) : Input → State × List Sent
  | .addClient clientId shardId numSlots => state.addClient clientId shardId numSlots
  | .clientRate clientId numSlots => (state.clientRate clientId numSlots, [])
  | .clientFinished clientId => state.clientFinished clientId
  | .clientFreeze clientId => state.clientFreeze clientId
  | .clientCut cut => state.clientCut cut
  | .clientData data => state.clientData data
  | .epoch now => state.epoch now

def State.handleAll (state : State) (inputs : List Input) : State × List Sent :=
  inputs.foldl (fun result input => ((result.1.handle input).1, result.2 ++ (result.1.handle input).2)) (state, [])

-- The messages that are about a client, or for it.
def about (clientId : Nat) : StorageControl → Bool
  | .slots slots => slots.assignments.any (fun assignment => assignment.clientId == clientId)
  | .clientFreeze other => other == clientId
  | .clientCut cut => cut.clientId == clientId
  | .clientPatch patch => patch.clientId == clientId
  | .clientFinalize other => other == clientId

def concerns (clientId : Nat) : Sent → Bool
  | .client other _ => other == clientId
  | .storage _ _ message => about clientId message

def Input.data? (clientId : Nat) : Input → Option OrderClientData
  | .clientData data => if data.clientId = clientId then some data else none
  | _ => none

def dataOf (clientId : Nat) (inputs : List Input) : List OrderClientData := inputs.filterMap (Input.data? clientId)

-- A server of the shard has sent its flush.
def Flushed (shardId : Nat) (messages : List OrderClientData) (replicaId : Nat) : Prop :=
  ∃ data ∈ messages, data.shardId = shardId ∧ data.replicaId = replicaId ∧ data.gsn = uint64Max

-- Data of the shard that comes before the flush of its server.
def Accepted (shardId : Nat) (messages : List OrderClientData) (data : OrderClientData) : Prop :=
  ∃ earlier later, messages = earlier ++ data :: later ∧ data.shardId = shardId ∧ data.gsn ≠ uint64Max ∧
    ¬ Flushed shardId earlier data.replicaId

-- The union of the accepted data, one payload for each GSN.
structure Merged (shardId : Nat) (messages : List OrderClientData) (data : List (Nat × Bytes)) : Prop where
  sorted : data.Pairwise (fun first second => first.1 < second.1)
  known : ∀ item ∈ data, ∃ message, Accepted shardId messages message ∧ message.gsn = item.1 ∧ message.data = item.2
  complete : ∀ message, Accepted shardId messages message → message.gsn ∈ data.map Prod.fst

structure Collecting (shardId : Nat) (messages : List OrderClientData) (client : ClientState) : Prop where
  shard : client.shardId = shardId
  failed : client.failed = true
  requested : client.requested = true
  nodup : client.flushed.Nodup
  flushed : ∀ replicaId, replicaId ∈ client.flushed ↔ Flushed shardId messages replicaId
  merged : Merged shardId messages client.data

theorem handle_all_snoc (state : State) (inputs : List Input) (input : Input) :
    state.handleAll (inputs ++ [input]) =
      (((state.handleAll inputs).1.handle input).1, (state.handleAll inputs).2 ++ ((state.handleAll inputs).1.handle input).2) := by
  rw [State.handleAll, List.foldl_append]
  rfl

theorem flushed_snoc (shardId : Nat) (messages : List OrderClientData) (data : OrderClientData) (replicaId : Nat) :
    Flushed shardId (messages ++ [data]) replicaId ↔
      Flushed shardId messages replicaId ∨ data.shardId = shardId ∧ data.replicaId = replicaId ∧ data.gsn = uint64Max := by
  constructor
  · rintro ⟨found, member, own⟩
    cases List.mem_append.mp member with
    | inl old => exact .inl ⟨found, old, own⟩
    | inr last =>
        rw [List.mem_singleton.mp last] at own
        exact .inr own
  · rintro (⟨found, member, own⟩ | own)
    · exact ⟨found, List.mem_append_left _ member, own⟩
    · exact ⟨data, List.mem_append_right _ List.mem_cons_self, own⟩

theorem accepted_snoc (shardId : Nat) (messages : List OrderClientData) (data message : OrderClientData) :
    Accepted shardId (messages ++ [data]) message ↔ Accepted shardId messages message ∨
      message = data ∧ data.shardId = shardId ∧ data.gsn ≠ uint64Max ∧ ¬ Flushed shardId messages data.replicaId := by
  constructor
  · rintro ⟨earlier, later, split, own⟩
    rcases List.eq_nil_or_concat later with nothing | ⟨before, last, same⟩
    · subst nothing
      obtain ⟨rfl, last⟩ := List.append_inj' split rfl
      cases last
      exact .inr ⟨rfl, own⟩
    · subst same
      rw [List.concat_eq_append, ← List.cons_append, ← List.append_assoc] at split
      obtain ⟨rfl, -⟩ := List.append_inj' split rfl
      exact .inl ⟨earlier, before, rfl, own⟩
  · rintro (⟨earlier, later, rfl, own⟩ | ⟨rfl, own⟩)
    · exact ⟨earlier, later ++ [data], by rw [List.append_assoc, List.cons_append], own⟩
    · exact ⟨messages, [], rfl, own⟩

-- A message that is not accepted and flushes nobody anew changes nothing.
theorem merged_stray (shardId : Nat) (messages : List OrderClientData) (message : OrderClientData) (data : List (Nat × Bytes))
    (merged : Merged shardId messages data)
    (stray : message.shardId = shardId → message.gsn ≠ uint64Max → Flushed shardId messages message.replicaId) :
    Merged shardId (messages ++ [message]) data := by
  have same (other : OrderClientData) : Accepted shardId (messages ++ [message]) other ↔ Accepted shardId messages other := by
    rw [accepted_snoc]
    constructor
    · rintro (old | ⟨-, shard, real, fresh⟩)
      · exact old
      · exact absurd (stray shard real) fresh
    · exact .inl
  refine ⟨merged.sorted, ?_, ?_⟩
  · intro item member
    obtain ⟨other, accepted, own⟩ := merged.known item member
    exact ⟨other, (same other).mpr accepted, own⟩
  · intro other accepted
    exact merged.complete other ((same other).mp accepted)

theorem merged_fresh (shardId : Nat) (messages : List OrderClientData) (message : OrderClientData) (data : List (Nat × Bytes))
    (merged : Merged shardId messages data) (shard : message.shardId = shardId) (real : message.gsn ≠ uint64Max)
    (open_ : ¬ Flushed shardId messages message.replicaId) :
    Merged shardId (messages ++ [message])
      (if message.gsn ∈ data.map Prod.fst then data else insertKey message.gsn message.data data) := by
  have new : Accepted shardId (messages ++ [message]) message := (accepted_snoc _ _ _ _).mpr (.inr ⟨rfl, shard, real, open_⟩)
  have old (other : OrderClientData) (accepted : Accepted shardId messages other) : Accepted shardId (messages ++ [message]) other :=
    (accepted_snoc _ _ _ _).mpr (.inl accepted)
  by_cases seen : message.gsn ∈ data.map Prod.fst
  · rw [if_pos seen]
    refine ⟨merged.sorted, ?_, ?_⟩
    · intro item member
      obtain ⟨other, accepted, own⟩ := merged.known item member
      exact ⟨other, old other accepted, own⟩
    · intro other accepted
      obtain before | ⟨rfl, -⟩ := (accepted_snoc _ _ _ _).mp accepted
      · exact merged.complete other before
      · exact seen
  · rw [if_neg seen]
    have members := insert_key_perm message.gsn message.data data
    refine ⟨insert_key_sorted _ _ _ merged.sorted seen, ?_, ?_⟩
    · intro item member
      cases List.mem_cons.mp (members.mem_iff.mp member) with
      | inl same =>
          rw [same]
          exact ⟨message, new, rfl, rfl⟩
      | inr before =>
          obtain ⟨other, accepted, own⟩ := merged.known item before
          exact ⟨other, old other accepted, own⟩
    · intro other accepted
      rw [(members.map Prod.fst).mem_iff, List.map_cons, List.mem_cons]
      obtain before | ⟨rfl, -⟩ := (accepted_snoc _ _ _ _).mp accepted
      · exact .inr (merged.complete other before)
      · exact .inl rfl

-- Every server of a shard has a name of its own, and data is only collected
-- once it has been asked for.
structure State.Ready (state : State) : Prop where
  valid : state.Valid
  servers : ∀ shardId, (state.storageQueues shardId).Nodup
  idle : ∀ clientId client, state.clientState clientId = some client → client.requested = false →
    client.flushed = [] ∧ client.data = []

theorem assembled_ready (numShards : Nat) (storages : List (Nat × Nat)) : (State.assembled numShards storages).Ready := by
  induction storages using List.reverseRecOn with
  | nil => exact ⟨init_valid numShards, fun _ => List.nodup_nil, fun _ _ present => by cases present⟩
  | append_singleton storages place ih =>
      rw [State.assembled, List.foldl_append]
      change ((State.assembled numShards storages).addStorage place.1 place.2).Ready
      rw [State.addStorage]
      split
      · exact ih
      · rename_i fresh
        push Not at fresh
        refine ⟨ih.valid, ?_, ih.idle⟩
        intro shardId
        dsimp only
        by_cases mine : shardId = place.1
        · subst mine
          rw [Function.update_self]
          exact List.nodup_append.mpr ⟨ih.servers _, List.nodup_singleton _, fun first inside second last same => by
            rw [List.mem_singleton.mp last] at same
            exact fresh.2.2 (same ▸ inside)⟩
        · rw [Function.update_of_ne mine]
          exact ih.servers shardId

theorem ready_keeps (state next : State) (ready : state.Ready) (keeps : state.Keeps next)
    (idle : ∀ clientId client, next.clientState clientId = some client → client.requested = false →
      client.flushed = [] ∧ client.data = []) : next.Ready :=
  ⟨keeps.valid ready.valid, keeps.queues ▸ ready.servers, idle⟩

theorem ready_set (state : State) (clientId : Nat) (client : Option ClientState) (ready : state.Ready)
    (keeps : state.Keeps (state.setClientState clientId client))
    (idle : ∀ new, client = some new → new.requested = false → new.flushed = [] ∧ new.data = []) :
    (state.setClientState clientId client).Ready := by
  refine ready_keeps state _ ready keeps ?_
  intro other new present
  by_cases mine : other = clientId
  · subst mine
    rw [set_client_state_same] at present
    exact idle new present
  · rw [set_client_state_other _ _ _ _ mine] at present
    exact ready.idle other new present

theorem finalized_ready (state : State) (clientId : Nat) (client : ClientState) (ready : state.Ready) :
    (state.finalized clientId client).1.Ready :=
  ready_set state clientId none ready (keeps_erase state clientId) (fun new same => by cases same)

theorem cut_ready (state : State) (cut : OrderClientCut) (ready : state.Ready) : (state.clientCut cut).1.Ready := by
  obtain nothing | ⟨client, present, _, _, _, recorded | ⟨_, _, final | asked⟩⟩ := client_cut_cases state cut
  · rw [nothing]
    exact ready
  · rw [recorded]
    exact ready_set state cut.clientId _ ready (keeps_update state _ client _ present rfl)
      (fun new same idle => by cases same; exact ready.idle _ client present idle)
  · rw [final]
    refine finalized_ready _ _ _ (ready_set state cut.clientId _ ready (keeps_update state _ client _ present rfl) ?_)
    intro new same idle
    cases same
    exact ready.idle _ client present idle
  · rw [asked, State.withCut, requested_eq]
    exact ready_set state cut.clientId _ ready (keeps_update state _ client _ present rfl) (fun new same idle => by cases same; cases idle)

theorem data_ready (state : State) (data : OrderClientData) (ready : state.Ready) : (state.clientData data).1.Ready := by
  have collected (client new : ClientState) (present : state.clientState data.clientId = some client)
      (asked : client.requested = true) (shard : new.shardId = client.shardId) (same : new.requested = client.requested) :
      (state.setClientState data.clientId (some new)).Ready := by
    refine ready_set state data.clientId _ ready (keeps_update state _ client new present shard) ?_
    intro found equal idle
    cases equal
    rw [same, asked] at idle
    cases idle
  obtain nothing | ⟨client, present, asked, _, flushed | final | ⟨_, stored⟩⟩ := client_data_cases state data
  · rw [nothing]
    exact ready
  · rw [flushed]
    exact collected client (state.withFlush client data).1 present asked rfl rfl
  · rw [final]
    exact finalized_ready _ _ _ (collected client (state.withFlush client data).1 present asked rfl rfl)
  · rw [stored]
    exact collected client _ present asked rfl rfl

theorem handle_ready (state : State) (input : Input) (ready : state.Ready) : (state.handle input).1.Ready := by
  cases input with
  | addClient clientId shardId numSlots =>
      have keeps := keeps_add_client state clientId shardId numSlots
      simp only [State.handle]
      unfold State.addClient at keeps ⊢
      split at keeps
      · rename_i refused
        rw [if_pos refused]
        exact ready
      · rename_i accepted
        rw [if_neg accepted]
        exact ready_set state clientId _ ready keeps (fun new same _ => by cases same; exact ⟨rfl, rfl⟩)
  | clientRate clientId numSlots =>
      have keeps := keeps_client_rate state clientId numSlots
      simp only [State.handle]
      unfold State.clientRate at keeps ⊢
      cases present : state.clientState clientId with
      | none => exact ready
      | some client =>
          rw [present] at keeps
          exact ready_set state clientId _ ready keeps (fun new same idle => by cases same; exact ready.idle _ client present idle)
  | clientFinished clientId =>
      simp only [State.handle, State.clientFinished]
      split
      · exact ready
      · rename_i client present
        exact finalized_ready state clientId client ready
  | clientFreeze clientId =>
      obtain nothing | ⟨client, present, _, failed⟩ := client_freeze_cases state clientId
      · rw [State.handle, nothing]
        exact ready
      · rw [State.handle, failed]
        exact ready_set state clientId _ ready (keeps_update state _ client _ present rfl)
          (fun new same idle => by cases same; exact ready.idle _ client present idle)
  | clientCut cut => exact cut_ready state cut ready
  | clientData data => exact data_ready state data ready
  | epoch now => exact ⟨ready.valid, ready.servers, ready.idle⟩

theorem handle_queues (state : State) (input : Input) : (state.handle input).1.storageQueues = state.storageQueues := by
  cases input with
  | addClient clientId shardId numSlots => exact (keeps_add_client state clientId shardId numSlots).queues
  | clientRate clientId numSlots => exact (keeps_client_rate state clientId numSlots).queues
  | clientFinished clientId => exact (keeps_client_finished state clientId).queues
  | clientFreeze clientId => exact (keeps_client_freeze state clientId).queues
  | clientCut cut => exact (keeps_client_cut state cut).queues
  | clientData data => exact (keeps_client_data state data).queues
  | epoch now => rfl

theorem handle_all_ready (state : State) (inputs : List Input) (ready : state.Ready) : (state.handleAll inputs).1.Ready := by
  induction inputs using List.reverseRecOn with
  | nil => exact ready
  | append_singleton inputs input ih =>
      rw [handle_all_snoc]
      exact handle_ready _ input ih

theorem broadcast_unrelated (state : State) (shardId clientId : Nat) (message : StorageControl) (other : about clientId message = false) :
    (state.broadcast shardId message).filter (concerns clientId) = [] := by
  rw [List.filter_eq_nil_iff]
  intro item member
  obtain ⟨replicaId, -, rfl⟩ := List.mem_map.mp member
  rw [concerns, other]
  exact Bool.false_ne_true

theorem broadcast_related (state : State) (shardId clientId : Nat) (messages : List StorageControl)
    (mine : ∀ message ∈ messages, about clientId message = true) :
    (messages.flatMap (state.broadcast shardId)).filter (concerns clientId) = messages.flatMap (state.broadcast shardId) := by
  rw [List.filter_eq_self]
  intro item member
  obtain ⟨message, found, sent⟩ := List.mem_flatMap.mp member
  obtain ⟨replicaId, -, rfl⟩ := List.mem_map.mp sent
  exact mine message found

theorem finalized_unrelated (state : State) (clientId other : Nat) (client : ClientState) (different : other ≠ clientId) :
    (state.finalized other client).2.filter (concerns clientId) = [] := by
  have apart : (other == clientId) = false := beq_eq_false_iff_ne.mpr different
  rw [finalized_sent, List.filter_flatMap, List.flatMap_eq_nil_iff]
  intro message member
  refine broadcast_unrelated state client.shardId clientId message ?_
  cases List.mem_append.mp member with
  | inl patch =>
      obtain ⟨-, data, -, rfl⟩ := patch_member other client message patch
      exact apart
  | inr last =>
      rw [List.mem_singleton.mp last]
      exact apart

-- An epoch names the clients that have not failed.
theorem epoch_unrelated (state : State) (now clientId : Nat) (small : clientId < maxClients)
    (failed : ∀ client, state.clientState clientId = some client → client.failed = true) :
    (state.epoch now).2.filter (concerns clientId) = [] := by
  have absent : ∀ slot ∈ active state.clients, slot.clientId ≠ clientId := by
    rintro slot member rfl
    obtain ⟨client, -, present, alive, -⟩ := (active_member state slot).mp member
    rw [failed client present] at alive
    cases alive
  rw [State.epoch, List.filter_append, List.append_eq_nil_iff, List.filter_flatMap, List.flatMap_eq_nil_iff, List.filter_eq_nil_iff]
  constructor
  · intro item member
    obtain ⟨slot, found, rfl⟩ := List.mem_map.mp member
    simpa [concerns] using absent slot found
  · intro shardId _
    apply broadcast_unrelated
    rw [about, List.any_eq_false]
    intro assignment member
    obtain ⟨slot, found, rfl⟩ := List.mem_map.mp member
    have other := absent slot ((slots_perm state).mem_iff.mp found)
    dsimp only
    rw [beq_iff_eq]
    split
    · intro same
      rw [← same] at small
      exact absurd small (by decide)
    · exact other

-- Inputs about other clients.
theorem handle_unrelated (state : State) (input : Input) (clientId : Nat) (small : clientId < maxClients)
    (failed : ∀ client, state.clientState clientId = some client → client.failed = true)
    (other : input ≠ .clientFinished clientId ∧ (∀ shardId numSlots, input ≠ .addClient clientId shardId numSlots) ∧
      (∀ numSlots, input ≠ .clientRate clientId numSlots) ∧ input ≠ .clientFreeze clientId ∧
      (∀ cut, input = .clientCut cut → cut.clientId ≠ clientId) ∧ ∀ data, input = .clientData data → data.clientId ≠ clientId) :
    (state.handle input).1.clientState clientId = state.clientState clientId ∧ (state.handle input).2.filter (concerns clientId) = [] := by
  obtain ⟨finished, added, rate, freeze, cut, data⟩ := other
  cases input with
  | addClient id shardId numSlots =>
      have apart : clientId ≠ id := fun same => added shardId numSlots (by rw [same])
      simp only [State.handle, State.addClient]
      split
      · exact ⟨rfl, rfl⟩
      · exact ⟨set_client_state_other _ _ _ _ apart, by simp [concerns, Ne.symm apart]⟩
  | clientRate id numSlots =>
      have apart : clientId ≠ id := fun same => rate numSlots (by rw [same])
      simp only [State.handle, State.clientRate]
      split
      · exact ⟨rfl, rfl⟩
      · exact ⟨set_client_state_other _ _ _ _ apart, rfl⟩
  | clientFinished id =>
      have apart : clientId ≠ id := fun same => finished (by rw [same])
      simp only [State.handle, State.clientFinished]
      split
      · exact ⟨rfl, rfl⟩
      · refine ⟨set_client_state_other _ _ _ _ apart, ?_⟩
        rw [List.filter_cons_of_neg (by simp [concerns, Ne.symm apart])]
        exact finalized_unrelated _ _ _ _ (Ne.symm apart)
  | clientFreeze id =>
      have apart : clientId ≠ id := fun same => freeze (by rw [same])
      obtain nothing | ⟨client, -, -, marked⟩ := client_freeze_cases state id
      · rw [State.handle, nothing]
        exact ⟨rfl, rfl⟩
      · rw [State.handle, marked]
        exact ⟨set_client_state_other _ _ _ _ apart, broadcast_unrelated _ _ _ _ (beq_eq_false_iff_ne.mpr (Ne.symm apart))⟩
  | clientCut message =>
      have apart : clientId ≠ message.clientId := fun same => cut message rfl same.symm
      obtain nothing | ⟨client, -, -, -, -, recorded | ⟨-, -, final | asked⟩⟩ := client_cut_cases state message
      · rw [State.handle, nothing]
        exact ⟨rfl, rfl⟩
      · rw [State.handle, recorded]
        exact ⟨set_client_state_other _ _ _ _ apart, rfl⟩
      · rw [State.handle, final]
        refine ⟨?_, finalized_unrelated _ _ _ _ (Ne.symm apart)⟩
        exact (set_client_state_other _ _ _ _ apart).trans (set_client_state_other _ _ _ _ apart)
      · rw [State.handle, asked, State.withCut, requested_eq, List.flatMap_singleton]
        exact ⟨set_client_state_other _ _ _ _ apart, broadcast_unrelated _ _ _ _ (beq_eq_false_iff_ne.mpr (Ne.symm apart))⟩
  | clientData message =>
      have apart : clientId ≠ message.clientId := fun same => data message rfl same.symm
      obtain nothing | ⟨client, -, -, -, flushed | final | ⟨-, stored⟩⟩ := client_data_cases state message
      · rw [State.handle, nothing]
        exact ⟨rfl, rfl⟩
      · rw [State.handle, flushed]
        exact ⟨set_client_state_other _ _ _ _ apart, rfl⟩
      · rw [State.handle, final]
        refine ⟨?_, finalized_unrelated _ _ _ _ (Ne.symm apart)⟩
        exact (set_client_state_other _ _ _ _ apart).trans (set_client_state_other _ _ _ _ apart)
      · rw [State.handle, stored]
        exact ⟨set_client_state_other _ _ _ _ apart, rfl⟩
  | epoch now => exact ⟨rfl, epoch_unrelated state now clientId small failed⟩

-- The patches and the finalize that follows them.
def rollForward (clientId : Nat) (data : List (Nat × Bytes)) : List StorageControl :=
  data.map (fun item => .clientPatch ⟨clientId, item.1, item.2⟩) ++ [.clientFinalize clientId]

-- What the service has and has sent for the client after these data messages:
-- it waits for a flush, or the client is gone and its data was sent on.
structure Waiting (state : State) (clientId shardId : Nat) (messages : List OrderClientData) (sent : List Sent) : Prop where
  client : ∃ client, state.clientState clientId = some client ∧ Collecting shardId messages client
  missing : ∃ replicaId ∈ state.storageQueues shardId, ¬ Flushed shardId messages replicaId
  silent : sent.filter (concerns clientId) = []

structure Done (state : State) (clientId shardId : Nat) (messages : List OrderClientData) (sent : List Sent) : Prop where
  gone : state.clientState clientId = none
  flushed : ∀ replicaId ∈ state.storageQueues shardId, Flushed shardId messages replicaId
  sent : ∃ data, Merged shardId messages data ∧ sent.filter (concerns clientId) =
    (rollForward clientId data).flatMap (state.broadcast shardId)

-- Messages of other shards and of servers that have flushed.
theorem collecting_stray (shardId : Nat) (messages : List OrderClientData) (client : ClientState) (data : OrderClientData)
    (collecting : Collecting shardId messages client) (stray : data.shardId = shardId → Flushed shardId messages data.replicaId) :
    Collecting shardId (messages ++ [data]) client ∧
      ∀ replicaId, Flushed shardId (messages ++ [data]) replicaId ↔ Flushed shardId messages replicaId := by
  have same (replicaId : Nat) : Flushed shardId (messages ++ [data]) replicaId ↔ Flushed shardId messages replicaId := by
    rw [flushed_snoc]
    constructor
    · rintro (old | ⟨shard, rfl, -⟩)
      · exact old
      · exact stray shard
    · exact .inl
  refine ⟨⟨collecting.shard, collecting.failed, collecting.requested, collecting.nodup, ?_, ?_⟩, same⟩
  · intro replicaId
    rw [same]
    exact collecting.flushed replicaId
  · exact merged_stray shardId messages data client.data collecting.merged (fun shard _ => stray shard)

theorem full_iff (servers flushed : List Nat) (first : servers.Nodup) (second : flushed.Nodup) (inside : ∀ id ∈ flushed, id ∈ servers) :
    flushed.length = servers.length ↔ ∀ id ∈ servers, id ∈ flushed := by
  constructor
  · intro same id member
    exact ((List.subperm_of_subset second inside).perm_of_length_le (Nat.le_of_eq same.symm)).mem_iff.mpr member
  · intro all
    exact Nat.le_antisymm (List.subperm_of_subset second inside).length_le (List.subperm_of_subset first all).length_le

-- A flush of a server that had not flushed yet.
theorem flush_step (state : State) (client : ClientState) (shardId : Nat) (messages : List OrderClientData) (data : OrderClientData)
    (servers : (state.storageQueues shardId).Nodup) (present : state.clientState data.clientId = some client)
    (collecting : Collecting shardId messages client) (shard : data.shardId = shardId) (flush : data.gsn = uint64Max)
    (open_ : ¬ Flushed shardId messages data.replicaId) (own : ∀ replicaId, Flushed shardId messages replicaId →
      replicaId ∈ state.storageQueues shardId) (member : data.replicaId ∈ state.storageQueues shardId) :
    Waiting (state.clientData data).1 data.clientId shardId (messages ++ [data]) (state.clientData data).2 ∨
      Done (state.clientData data).1 data.clientId shardId (messages ++ [data]) (state.clientData data).2 := by
  have fresh : data.replicaId ∉ client.flushed := fun inside => open_ ((collecting.flushed _).mp inside)
  have merged := merged_stray shardId messages data client.data collecting.merged (fun _ real => absurd flush real)
  have flushed (replicaId : Nat) : replicaId ∈ client.flushed ++ [data.replicaId] ↔ Flushed shardId (messages ++ [data]) replicaId := by
    rw [List.mem_append, List.mem_singleton, collecting.flushed, flushed_snoc]
    constructor
    · rintro (old | rfl)
      · exact .inl old
      · exact .inr ⟨shard, rfl, flush⟩
    · rintro (old | ⟨-, same, -⟩)
      · exact .inl old
      · exact .inr same.symm
  have distinct : (client.flushed ++ [data.replicaId]).Nodup := List.nodup_append.mpr
    ⟨collecting.nodup, List.nodup_singleton _, fun first inside second last same => by
      rw [List.mem_singleton.mp last] at same
      exact fresh (same ▸ inside)⟩
  have inside : ∀ replicaId ∈ client.flushed ++ [data.replicaId], replicaId ∈ state.storageQueues shardId := by
    intro replicaId found
    cases List.mem_append.mp found with
    | inl old => exact own replicaId ((collecting.flushed replicaId).mp old)
    | inr last => exact List.mem_singleton.mp last ▸ member
  have full := full_iff (state.storageQueues shardId) _ servers distinct inside
  have handled : state.clientData data = if (client.flushed ++ [data.replicaId]).length = (state.storageQueues shardId).length then
      (state.withFlush client data).2.finalized data.clientId (state.withFlush client data).1 else ((state.withFlush client data).2, []) := by
    simp only [State.clientData, present, collecting.requested, collecting.shard, shard, fresh, flush, State.withFlush,
      Bool.true_eq_false, if_false, ne_eq, not_true_eq_false, or_self, if_true]
    rfl
  rw [handled]
  by_cases all : (client.flushed ++ [data.replicaId]).length = (state.storageQueues shardId).length
  · rw [if_pos all]
    refine .inr ⟨set_client_state_same _ _ _, fun replicaId found => (flushed replicaId).mp (full.mp all replicaId found),
      client.data, merged, ?_⟩
    have asked : (state.withFlush client data).1.requested = true := collecting.requested
    rw [finalized_sent, patches, if_pos asked]
    change ((rollForward data.clientId client.data).flatMap (state.broadcast client.shardId)).filter _ = _
    rw [collecting.shard]
    apply broadcast_related
    intro message sent
    cases List.mem_append.mp sent with
    | inl patch =>
        obtain ⟨item, -, rfl⟩ := List.mem_map.mp patch
        exact beq_self_eq_true _
    | inr last =>
        rw [List.mem_singleton.mp last]
        exact beq_self_eq_true _
  · rw [if_neg all]
    refine .inl ⟨⟨(state.withFlush client data).1, set_client_state_same _ _ _, collecting.shard, collecting.failed, collecting.requested,
      distinct, flushed, merged⟩, ?_, rfl⟩
    rw [full] at all
    push Not at all
    obtain ⟨replicaId, found, absent⟩ := all
    exact ⟨replicaId, found, fun new => absent ((flushed replicaId).mpr new)⟩

theorem data_step (state : State) (shardId : Nat) (messages : List OrderClientData) (sent : List Sent) (data : OrderClientData)
    (servers : (state.storageQueues shardId).Nodup) (waiting : Waiting state data.clientId shardId messages sent)
    (own : ∀ message ∈ messages, message.shardId = shardId → message.replicaId ∈ state.storageQueues shardId)
    (member : data.shardId = shardId → data.replicaId ∈ state.storageQueues shardId) :
    Waiting (state.clientData data).1 data.clientId shardId (messages ++ [data]) (sent ++ (state.clientData data).2) ∨
      Done (state.clientData data).1 data.clientId shardId (messages ++ [data]) (sent ++ (state.clientData data).2) := by
  obtain ⟨⟨client, present, collecting⟩, ⟨missing, inside, unflushed⟩, silent⟩ := waiting
  have fresh (id : Nat) := collecting.flushed id
  by_cases stray : client.shardId ≠ data.shardId ∨ data.replicaId ∈ client.flushed
  · have ignored : state.clientData data = (state, []) := by
      simp only [State.clientData, present, collecting.requested, Bool.true_eq_false, if_false, if_pos stray]
    obtain ⟨same, flushed⟩ := collecting_stray shardId messages client data collecting (by
      intro shard
      cases stray with
      | inl wrong => exact absurd (collecting.shard.trans shard.symm) wrong
      | inr again => exact (fresh _).mp again)
    rw [ignored, List.append_nil]
    exact .inl ⟨⟨client, present, same⟩, ⟨missing, inside, fun new => unflushed ((flushed missing).mp new)⟩, silent⟩
  · push Not at stray
    have shard : data.shardId = shardId := stray.1.symm.trans collecting.shard
    have open_ : ¬ Flushed shardId messages data.replicaId := fun again => stray.2 ((fresh _).mpr again)
    by_cases flush : data.gsn = uint64Max
    · have result := flush_step state client shardId messages data servers present collecting shard flush open_ (by
        rintro replicaId ⟨message, found, home, rfl, -⟩
        exact own message found home) (member shard)
      cases result with
      | inl waits => exact .inl ⟨waits.client, waits.missing, by rw [List.filter_append, silent, waits.silent, List.nil_append]⟩
      | inr done =>
          obtain ⟨merged, union, broadcast⟩ := done.sent
          exact .inr ⟨done.gone, done.flushed, merged, union, by rw [List.filter_append, silent, broadcast, List.nil_append]⟩
    · have merged := merged_fresh shardId messages data client.data collecting.merged shard flush open_
      have same (replicaId : Nat) : Flushed shardId (messages ++ [data]) replicaId ↔ Flushed shardId messages replicaId := by
        rw [flushed_snoc]
        exact or_iff_left (fun last => flush last.2.2)
      have still : ¬ Flushed shardId (messages ++ [data]) missing := fun new => unflushed ((same missing).mp new)
      have wrong : ¬ (client.shardId ≠ data.shardId ∨ data.replicaId ∈ client.flushed) := not_or.mpr ⟨not_not.mpr stray.1, stray.2⟩
      by_cases seen : data.gsn ∈ client.data.map Prod.fst
      · have ignored : state.clientData data = (state, []) := by
          simp only [State.clientData, present, collecting.requested, Bool.true_eq_false, if_false, if_neg wrong, if_neg flush, if_pos seen]
        rw [if_pos seen] at merged
        rw [ignored, List.append_nil]
        exact .inl ⟨⟨client, present, collecting.shard, collecting.failed, collecting.requested, collecting.nodup,
          fun id => (fresh id).trans (same id).symm, merged⟩, ⟨missing, inside, still⟩, silent⟩
      · have stored : state.clientData data = (state.setClientState data.clientId
            (some { client with data := insertKey data.gsn data.data client.data }), []) := by
          simp only [State.clientData, present, collecting.requested, Bool.true_eq_false, if_false, if_neg wrong, if_neg flush, if_neg seen]
        rw [if_neg seen] at merged
        rw [stored, List.append_nil]
        exact .inl ⟨⟨_, set_client_state_same _ _ _, collecting.shard, collecting.failed, collecting.requested, collecting.nodup,
          fun id => (fresh id).trans (same id).symm, merged⟩, ⟨missing, inside, still⟩, silent⟩

-- The client's other messages: a failed client that has been asked for is only
-- given another rate or another cut.
theorem own_step (state : State) (clientId shardId : Nat) (messages : List OrderClientData) (client : ClientState) (input : Input)
    (present : state.clientState clientId = some client) (collecting : Collecting shardId messages client)
    (own : (∃ numSlots, input = .clientRate clientId numSlots) ∨ input = .clientFreeze clientId ∨
      ∃ cut, input = .clientCut cut ∧ cut.clientId = clientId) :
    (∃ new, (state.handle input).1.clientState clientId = some new ∧ Collecting shardId messages new) ∧ (state.handle input).2 = [] := by
  rcases own with ⟨numSlots, rfl⟩ | rfl | ⟨cut, rfl, rfl⟩
  · have handled : state.handle (.clientRate clientId numSlots) = (state.setClientState clientId
        (some { client with numSlots := align minSlots (max 1 numSlots) }), []) := by
      simp only [State.handle, State.clientRate, present]
    rw [handled]
    exact ⟨⟨_, set_client_state_same _ _ _, collecting.shard, collecting.failed, collecting.requested, collecting.nodup,
      collecting.flushed, collecting.merged⟩, rfl⟩
  · have handled : state.handle (.clientFreeze clientId) = (state, []) := by
      simp only [State.handle, State.clientFreeze, present, collecting.failed, if_true]
    rw [handled]
    exact ⟨⟨client, present, collecting⟩, rfl⟩
  · obtain nothing | ⟨found, same, -, -, -, recorded | ⟨idle, -⟩⟩ := client_cut_cases state cut
    · rw [State.handle, nothing]
      exact ⟨⟨client, present, collecting⟩, rfl⟩
    · cases present.symm.trans same
      rw [State.handle, recorded]
      exact ⟨⟨_, set_client_state_same _ _ _, collecting.shard, collecting.failed, collecting.requested, collecting.nodup,
        collecting.flushed, collecting.merged⟩, rfl⟩
    · cases present.symm.trans same
      rw [collecting.requested] at idle
      cases idle

-- A client that is gone only comes back through add_client.
theorem gone_step (state : State) (clientId : Nat) (input : Input) (gone : state.clientState clientId = none)
    (own : (∃ numSlots, input = .clientRate clientId numSlots) ∨ input = .clientFreeze clientId ∨
      (∃ cut, input = .clientCut cut ∧ cut.clientId = clientId) ∨ ∃ data, input = .clientData data ∧ data.clientId = clientId) :
    state.handle input = (state, []) := by
  rcases own with ⟨numSlots, rfl⟩ | rfl | ⟨cut, rfl, rfl⟩ | ⟨data, rfl, rfl⟩
  · simp only [State.handle, State.clientRate, gone]
  · simp only [State.handle, State.clientFreeze, gone]
  · simp only [State.handle, State.clientCut, gone]
  · simp only [State.handle, State.clientData, gone]

-- Only the cut that completes the set of differing cuts asks for the data.
theorem asked_by_cut (state : State) (input : Input) (clientId : Nat) (client : ClientState) (ready : state.Ready)
    (before : ∀ old, state.clientState clientId = some old → old.requested = false)
    (present : (state.handle input).1.clientState clientId = some client) (asked : client.requested = true) :
    client.failed = true ∧ client.flushed = [] ∧ client.data = [] ∧ state.storageQueues client.shardId ≠ [] := by
  have replaced (id : Nat) (others : ∀ other, other ≠ id → (state.handle input).1.clientState other = state.clientState other)
      (own : id = clientId → ∀ found, (state.handle input).1.clientState id = some found → found.requested = false) : False := by
    by_cases mine : clientId = id
    · rw [own mine.symm client (mine ▸ present)] at asked
      cases asked
    · rw [others clientId mine] at present
      rw [before client present] at asked
      cases asked
  have unchanged (same : (state.handle input).1 = state) : False :=
    replaced clientId (fun other _ => by rw [same]) (fun _ found there => before found (same ▸ there))
  have updated (id : Nat) (old new : ClientState) (there : state.clientState id = some old) (same : new.requested = old.requested)
      (next : (state.handle input).1 = state.setClientState id (some new)) : False := by
    refine replaced id (fun other different => by rw [next, set_client_state_other _ _ _ _ different]) ?_
    intro mine found result
    subst mine
    rw [next, set_client_state_same] at result
    cases result
    exact same.trans (before old there)
  have erased (id : Nat) (others : ∀ other, other ≠ id → (state.handle input).1.clientState other = state.clientState other)
      (next : (state.handle input).1.clientState id = none) : False :=
    replaced id others (fun _ found there => by rw [next] at there; cases there)
  cases input with
  | addClient id shardId numSlots =>
      exfalso
      by_cases refused : state.numShards ≤ shardId ∨ maxClients ≤ id ∨ (state.clientState id).isSome ∨ maxClients ≤ state.clients.length
      · exact unchanged (by simp only [State.handle, State.addClient, if_pos refused])
      · have next : (state.handle (.addClient id shardId numSlots)).1 =
            state.setClientState id (some (ClientState.init shardId numSlots)) := by
          simp only [State.handle, State.addClient, if_neg refused]
        refine replaced id (fun other different => by rw [next, set_client_state_other _ _ _ _ different]) ?_
        intro _ found result
        rw [next, set_client_state_same] at result
        cases result
        rfl
  | clientRate id numSlots =>
      exfalso
      cases there : state.clientState id with
      | none => exact unchanged (by simp only [State.handle, State.clientRate, there])
      | some old =>
          exact updated id old { old with numSlots := align minSlots (max 1 numSlots) } there rfl
            (by simp only [State.handle, State.clientRate, there])
  | clientFinished id =>
      exfalso
      cases there : state.clientState id with
      | none => exact unchanged (by simp only [State.handle, State.clientFinished, there])
      | some old =>
          have next : (state.handle (.clientFinished id)).1 = state.setClientState id none := by
            simp only [State.handle, State.clientFinished, there]
            rfl
          exact erased id (fun other different => by rw [next, set_client_state_other _ _ _ _ different])
            (by rw [next, set_client_state_same])
  | clientFreeze id =>
      exfalso
      obtain nothing | ⟨old, there, -, marked⟩ := client_freeze_cases state id
      · exact unchanged (by rw [State.handle, nothing])
      · exact updated id old { old with failed := true } there rfl (by rw [State.handle, marked]; rfl)
  | clientCut cut =>
      obtain nothing | ⟨old, there, failed, _, _, recorded | ⟨idle, full, final | last⟩⟩ := client_cut_cases state cut
      · exact (unchanged (by rw [State.handle, nothing])).elim
      · exact (updated cut.clientId old (state.withCut old cut).1 there rfl (by rw [State.handle, recorded]; rfl)).elim
      · refine (erased cut.clientId (fun other different => ?_) ?_).elim
        · rw [State.handle, final]
          exact (set_client_state_other _ _ _ _ different).trans (set_client_state_other _ _ _ _ different)
        · rw [State.handle, final]
          exact set_client_state_same _ _ _
      · rw [State.handle, last, State.withCut, requested_eq] at present
        by_cases mine : clientId = cut.clientId
        · rw [mine, set_client_state_same] at present
          cases present
          obtain ⟨flushed, data⟩ := ready.idle cut.clientId old there idle
          refine ⟨failed, flushed, data, ?_⟩
          intro none
          change (insertKey cut.replicaId cut.latestGsn old.cuts).length = (state.storageQueues old.shardId).length at full
          rw [(insert_key_perm _ _ _).length_eq, List.length_cons, show state.storageQueues old.shardId = [] from none] at full
          cases full
        · rw [set_client_state_other _ _ _ _ mine] at present
          rw [before client present] at asked
          cases asked
  | clientData data =>
      exfalso
      obtain nothing | ⟨old, there, _, _, flushed | final | ⟨_, stored⟩⟩ := client_data_cases state data
      · exact unchanged (by rw [State.handle, nothing])
      · exact updated data.clientId old (state.withFlush old data).1 there rfl (by rw [State.handle, flushed]; rfl)
      · refine erased data.clientId (fun other different => ?_) ?_
        · rw [State.handle, final]
          exact (set_client_state_other _ _ _ _ different).trans (set_client_state_other _ _ _ _ different)
        · rw [State.handle, final]
          exact set_client_state_same _ _ _
      · exact updated data.clientId old { old with data := insertKey data.gsn data.data old.data } there rfl
          (by rw [State.handle, stored])
  | epoch now =>
      exfalso
      exact replaced clientId (fun _ _ => rfl) (fun _ found there => before found there)

theorem data_of_snoc (clientId : Nat) (inputs : List Input) (input : Input) :
    dataOf clientId (inputs ++ [input]) = dataOf clientId inputs ++ (input.data? clientId).toList := by
  rw [dataOf, List.filterMap_append]
  cases found : input.data? clientId <;> simp [dataOf, found]

theorem done_step (state : State) (clientId shardId : Nat) (messages : List OrderClientData) (sent : List Sent) (input : Input)
    (own : ∀ data ∈ (input.data? clientId).toList, data.shardId = shardId → data.replicaId ∈ state.storageQueues shardId)
    (done : Done state clientId shardId messages sent) (next : State) (same : next.clientState clientId = none)
    (queues : next.storageQueues = state.storageQueues) :
    Done next clientId shardId (messages ++ (input.data? clientId).toList) sent := by
  obtain ⟨data, union, broadcast⟩ := done.sent
  have places : next.broadcast shardId = state.broadcast shardId := by
    funext message
    rw [State.broadcast, State.broadcast, queues]
  rw [← places] at broadcast
  cases found : input.data? clientId with
  | none =>
      rw [Option.toList_none, List.append_nil]
      exact ⟨same, queues ▸ done.flushed, data, union, broadcast⟩
  | some message =>
      rw [found] at own
      refine ⟨same, ?_, data, merged_stray shardId messages message data union ?_, broadcast⟩
      · intro replicaId member
        exact (flushed_snoc _ _ _ _).mpr (.inl (done.flushed replicaId (queues ▸ member)))
      · intro shard _
        exact done.flushed _ (own message List.mem_cons_self shard)

-- One more input for a client whose data has been asked for.
theorem roll_step (state : State) (clientId shardId : Nat) (messages : List OrderClientData) (sent : List Sent) (input : Input)
    (ready : state.Ready) (small : clientId < maxClients)
    (alive : input ≠ .clientFinished clientId ∧ ∀ shardId numSlots, input ≠ .addClient clientId shardId numSlots)
    (own : ∀ data ∈ messages ++ (input.data? clientId).toList, data.shardId = shardId → data.replicaId ∈ state.storageQueues shardId)
    (queues : (state.handle input).1.storageQueues = state.storageQueues)
    (before : Waiting state clientId shardId messages sent ∨ Done state clientId shardId messages sent) :
    Waiting (state.handle input).1 clientId shardId (messages ++ (input.data? clientId).toList) (sent ++ (state.handle input).2) ∨
      Done (state.handle input).1 clientId shardId (messages ++ (input.data? clientId).toList) (sent ++ (state.handle input).2) := by
  have new : ∀ data ∈ (input.data? clientId).toList, data.shardId = shardId → data.replicaId ∈ state.storageQueues shardId :=
    fun data member => own data (List.mem_append_right _ member)
  have old : ∀ data ∈ messages, data.shardId = shardId → data.replicaId ∈ state.storageQueues shardId :=
    fun data member => own data (List.mem_append_left _ member)
  by_cases data : ∃ data, input = .clientData data ∧ data.clientId = clientId
  · obtain ⟨data, rfl, rfl⟩ := data
    have message : (Input.clientData data).data? data.clientId = some data := if_pos rfl
    cases before with
    | inl waiting =>
        rw [message] at new ⊢
        exact data_step state shardId messages sent data (ready.servers shardId) waiting old (new data List.mem_cons_self)
    | inr done =>
        have ignored := gone_step state data.clientId (.clientData data) done.gone (.inr (.inr (.inr ⟨data, rfl, rfl⟩)))
        rw [ignored, List.append_nil]
        exact .inr (done_step state data.clientId shardId messages sent _ new done state done.gone rfl)
  · have silent : input.data? clientId = none := by
      cases input with
      | clientData message => exact if_neg (fun same => data ⟨message, rfl, same⟩)
      | _ => rfl
    by_cases own : (∃ numSlots, input = .clientRate clientId numSlots) ∨ input = .clientFreeze clientId ∨
        ∃ cut, input = .clientCut cut ∧ cut.clientId = clientId
    · cases before with
      | inl waiting =>
          obtain ⟨client, present, collecting⟩ := waiting.client
          obtain ⟨kept, nothing⟩ := own_step state clientId shardId messages client input present collecting own
          rw [silent, nothing, Option.toList_none, List.append_nil, List.append_nil]
          exact .inl ⟨kept, queues ▸ waiting.missing, waiting.silent⟩
      | inr done =>
          have ignored := gone_step state clientId input done.gone (by
            rcases own with rate | freeze | cut
            · exact .inl rate
            · exact .inr (.inl freeze)
            · exact .inr (.inr (.inl cut)))
          rw [ignored, List.append_nil]
          exact .inr (done_step state clientId shardId messages sent _ new done state done.gone rfl)
    · push Not at own
      have failed : ∀ client, state.clientState clientId = some client → client.failed = true := by
        intro client present
        cases before with
        | inl waiting =>
            obtain ⟨found, there, collecting⟩ := waiting.client
            cases present.symm.trans there
            exact collecting.failed
        | inr done =>
            rw [done.gone] at present
            cases present
      obtain ⟨same, nothing⟩ := handle_unrelated state input clientId small failed ⟨alive.1, alive.2, own.1, own.2.1, own.2.2,
        fun message equal mine => data ⟨message, equal, mine⟩⟩
      cases before with
      | inl waiting =>
          rw [silent, Option.toList_none, List.append_nil]
          obtain ⟨client, present, collecting⟩ := waiting.client
          refine .inl ⟨⟨client, same.trans present, collecting⟩, queues ▸ waiting.missing, ?_⟩
          rw [List.filter_append, waiting.silent, nothing, List.nil_append]
      | inr done =>
          have kept := done_step state clientId shardId messages sent input new done (state.handle input).1 (same.trans done.gone) queues
          obtain ⟨merged, union, broadcast⟩ := kept.sent
          exact .inr ⟨kept.gone, kept.flushed, merged, union, by rw [List.filter_append, nothing, List.append_nil, broadcast]⟩

theorem roll_run (state : State) (clientId shardId : Nat) (inputs : List Input) (ready : state.Ready) (small : clientId < maxClients)
    (alive : ∀ input ∈ inputs, input ≠ .clientFinished clientId ∧ ∀ shardId numSlots, input ≠ .addClient clientId shardId numSlots)
    (own : ∀ data ∈ dataOf clientId inputs, data.shardId = shardId → data.replicaId ∈ state.storageQueues shardId)
    (start : Waiting state clientId shardId [] []) :
    (state.handleAll inputs).1.storageQueues = state.storageQueues ∧
      (Waiting (state.handleAll inputs).1 clientId shardId (dataOf clientId inputs) (state.handleAll inputs).2 ∨
        Done (state.handleAll inputs).1 clientId shardId (dataOf clientId inputs) (state.handleAll inputs).2) := by
  induction inputs using List.reverseRecOn with
  | nil => exact ⟨rfl, .inl start⟩
  | append_singleton inputs input ih =>
      rw [data_of_snoc] at own
      obtain ⟨queues, before⟩ := ih (fun earlier member => alive earlier (List.mem_append_left _ member))
        (fun data member => own data (List.mem_append_left _ member))
      rw [handle_all_snoc, data_of_snoc]
      refine ⟨(handle_queues _ input).trans queues, ?_⟩
      exact roll_step _ clientId shardId _ _ input (handle_all_ready state inputs ready) small
        (alive input (List.mem_append_right _ List.mem_cons_self)) (queues ▸ own) (handle_queues _ input) before

-- The data of a failed client is merged: as long as a server of its shard has
-- not flushed, nothing is sent for the client; from the last flush on its data
-- has been sent on, and once.
theorem data_rolled_forward (numShards : Nat) (storages : List (Nat × Nat)) (before : List Input) (request : Input) (after : List Input)
    (start asked : State) (clientId : Nat) (client : ClientState)
    (reached : start = ((State.assembled numShards storages).handleAll before).1) (made : asked = (start.handle request).1)
    (idle : ∀ old, start.clientState clientId = some old → old.requested = false)
    (present : asked.clientState clientId = some client) (requested : client.requested = true)
    (alive : ∀ input ∈ after, input ≠ .clientFinished clientId ∧ ∀ shardId numSlots, input ≠ .addClient clientId shardId numSlots)
    (own : ∀ data ∈ dataOf clientId after, data.shardId = client.shardId → data.replicaId ∈ asked.storageQueues client.shardId)
    (agree : ∀ first second, Accepted client.shardId (dataOf clientId after) first →
      Accepted client.shardId (dataOf clientId after) second → first.gsn = second.gsn → first.data = second.data) :
    ((∃ replicaId ∈ asked.storageQueues client.shardId, ¬ Flushed client.shardId (dataOf clientId after) replicaId) →
      (∃ now, (asked.handleAll after).1.clientState clientId = some now ∧ now.requested = true) ∧
        (asked.handleAll after).2.filter (concerns clientId) = []) ∧
    ((∀ replicaId ∈ asked.storageQueues client.shardId, Flushed client.shardId (dataOf clientId after) replicaId) →
      (asked.handleAll after).1.clientState clientId = none ∧
        ∃ data : List (Nat × Bytes), data.Pairwise (fun first second => first.1 < second.1) ∧
          (∀ gsn bytes, (gsn, bytes) ∈ data ↔
            ∃ message, Accepted client.shardId (dataOf clientId after) message ∧ message.gsn = gsn ∧ message.data = bytes) ∧
          (asked.handleAll after).2.filter (concerns clientId) =
            (rollForward clientId data).flatMap (asked.broadcast client.shardId)) := by
  have ready : start.Ready := reached ▸ handle_all_ready _ before (assembled_ready numShards storages)
  have next : asked.Ready := made ▸ handle_ready start request ready
  obtain ⟨failed, flushed, data, some⟩ := asked_by_cut start request clientId client ready idle (made ▸ present) requested
  have servers : asked.storageQueues client.shardId ≠ [] := by
    rw [made, handle_queues]
    exact some
  obtain ⟨first, member⟩ := List.exists_mem_of_ne_nil _ servers
  have none (replicaId : Nat) : ¬ Flushed client.shardId [] replicaId := by
    rintro ⟨message, inside, -⟩
    cases inside
  have empty : Merged client.shardId [] client.data := by
    rw [data]
    refine ⟨List.Pairwise.nil, fun item inside => (by cases inside), ?_⟩
    rintro message ⟨earlier, later, split, -⟩
    cases earlier <;> cases split
  have waits : Waiting asked clientId client.shardId [] [] := by
    refine ⟨⟨client, present, rfl, failed, requested, by rw [flushed]; exact List.nodup_nil, ?_, empty⟩, ⟨first, member, none first⟩, rfl⟩
    intro replicaId
    rw [flushed]
    exact ⟨fun inside => absurd inside List.not_mem_nil, fun found => absurd found (none replicaId)⟩
  obtain ⟨queues, result⟩ := roll_run asked clientId client.shardId after next (next.valid clientId client present).1 alive own waits
  cases result with
  | inl waiting =>
      obtain ⟨now, there, collecting⟩ := waiting.client
      obtain ⟨replicaId, inside, open_⟩ := waiting.missing
      exact ⟨fun _ => ⟨⟨now, there, collecting.requested⟩, waiting.silent⟩,
        fun all => absurd (all replicaId (queues ▸ inside)) open_⟩
  | inr done =>
      obtain ⟨merged, union, broadcast⟩ := done.sent
      have same : (asked.handleAll after).1.broadcast client.shardId = asked.broadcast client.shardId := by
        funext message
        rw [State.broadcast, State.broadcast, queues]
      refine ⟨?_, fun _ => ⟨done.gone, merged, union.sorted, ?_, same ▸ broadcast⟩⟩
      · rintro ⟨replicaId, inside, open_⟩
        exact absurd (done.flushed replicaId (queues ▸ inside)) open_
      · intro gsn bytes
        constructor
        · exact fun inside => union.known (gsn, bytes) inside
        · rintro ⟨message, accepted, rfl, rfl⟩
          obtain ⟨item, inside, key⟩ := List.mem_map.mp (union.complete message accepted)
          obtain ⟨other, also, name, payload⟩ := union.known item inside
          rw [← key, ← agree other message also accepted (name.trans key), payload]
          exact inside

theorem accepted_member (shardId : Nat) (messages : List OrderClientData) (message : OrderClientData)
    (accepted : Accepted shardId messages message) : message ∈ messages := by
  obtain ⟨earlier, later, rfl, -⟩ := accepted
  exact List.mem_append_right _ List.mem_cons_self

-- Two servers with GSNs 6 and 7; one of them has GSN 6 as well.
def differingCuts : List Input := [.addClient 1 0 128, .clientFreeze 1, .clientCut ⟨1, 0, 0, 6⟩]

def bothFlush : List Input := [.clientData ⟨1, 0, 1, 7, [7]⟩, .clientData ⟨1, 0, 0, 6, [6]⟩, .clientData ⟨1, 0, 1, 6, [6]⟩,
  .clientData ⟨1, 0, 0, uint64Max, []⟩, .clientData ⟨1, 0, 0, 5, [5]⟩, .clientData ⟨1, 0, 1, uint64Max, []⟩]

theorem data_rolled_forward_two_servers :
    let start := ((State.assembled 1 [(0, 0), (0, 1)]).handleAll differingCuts).1
    let asked := (start.handle (.clientCut ⟨1, 0, 1, 7⟩)).1
    (asked.handleAll bothFlush).1.clientState 1 = none ∧
      ∃ data : List (Nat × Bytes), data.Pairwise (fun first second => first.1 < second.1) ∧
        (∀ gsn bytes, (gsn, bytes) ∈ data ↔
          ∃ message, Accepted 0 (dataOf 1 bothFlush) message ∧ message.gsn = gsn ∧ message.data = bytes) ∧
        (asked.handleAll bothFlush).2.filter (concerns 1) = (rollForward 1 data).flatMap (asked.broadcast 0) := by
  intro start asked
  have servers : asked.storageQueues 0 = [0, 1] := by decide +kernel
  refine (data_rolled_forward 1 [(0, 0), (0, 1)] differingCuts (.clientCut ⟨1, 0, 1, 7⟩) bothFlush start asked 1
    ⟨0, 128, true, true, [(0, 6), (1, 7)], [], []⟩ rfl rfl ?_ (by decide +kernel) rfl ?_ ?_ ?_).2 ?_
  · intro old there
    have known : start.clientState 1 = some ⟨0, 128, true, false, [(0, 6)], [], []⟩ := by decide +kernel
    cases known.symm.trans there
    rfl
  · intro input member
    have kind : ∀ input ∈ bothFlush, (input.data? 1).isSome = true := by decide +kernel
    have message := kind input member
    refine ⟨fun same => ?_, fun _ _ same => ?_⟩ <;> rw [same] at message <;> cases message
  · dsimp only
    rw [servers]
    decide +kernel
  · intro first second left right
    have payloads : ∀ first ∈ dataOf 1 bothFlush, ∀ second ∈ dataOf 1 bothFlush, first.gsn = second.gsn → first.data = second.data := by
      decide +kernel
    exact payloads first (accepted_member _ _ _ left) second (accepted_member _ _ _ right)
  · dsimp only
    rw [servers]
    intro replicaId member
    rcases List.mem_pair.mp member with rfl | rfl
    · exact ⟨⟨1, 0, 0, uint64Max, []⟩, by decide +kernel, rfl, rfl, rfl⟩
    · exact ⟨⟨1, 0, 1, uint64Max, []⟩, by decide +kernel, rfl, rfl, rfl⟩

end ZipLog.Order
