import ZipLog.Network.Channel
import ZipLog.Order.Membership

set_option autoImplicit false

namespace ZipLog

open ZipLog.Network

-- The structs that the ordering service fills in.
def StorageControl.message : StorageControl → Message
  | .slots assigned => .storageSlots assigned
  | .clientFreeze clientId => .storageClientFreeze clientId
  | .clientCut cut => .storageClientCut cut
  | .clientPatch patch => .storageClientPatch patch
  | .clientFinalize clientId => .storageClientFinalize clientId

end ZipLog

namespace ZipLog.Order

open ZipLog.Network

structure Sendable (poller : Poller) (message : Message) : Prop where
  fits : message.Fits
  size : message.encode.length ≤ sendBufferSize
  handled : message.type ∈ poller.handlers

-- addresses are those that the storage servers have announced, shardId is the
-- shard of the client that the message is for.
def ClientControl.message (addresses : Nat × Nat → SocketAddress) (shardId : Nat) : ClientControl → Message
  | .storageInfo replicas => .clientStorageInfo (replicas.map (fun replicaId => addresses (shardId, replicaId)))
  | .newEpoch beginning numSlots => .clientNewEpoch beginning numSlots
  | .orderFinished => .orderFinished

def SubscriberControl.message (addresses : Nat × Nat → SocketAddress) : SubscriberControl → Message
  | .storageInfo servers => .subscriberStorageInfo (servers.map addresses)
  | .orderFinished => .orderFinished

def Output.message (addresses : Nat × Nat → SocketAddress) (shardId : Nat) : Output → Message
  | .order (.storage _ _ control) => control.message
  | .order (.client _ control) => control.message addresses shardId
  | .heartbeat _ id => .clientHeartbeat id
  | .subscriber _ control => control.message addresses

-- All of it goes to the first receive queue of the receiver.
def Output.poller : Output → Poller
  | .order (.storage ..) => .storageControl
  | .order (.client ..) => .clientLoop
  | .heartbeat .. => .clientLoop
  | .subscriber .. => .subscriberControl

-- What keeps the messages within a send buffer.
structure ClientState.Sized (client : ClientState) : Prop where
  slots : client.numSlots < 2 ^ 64
  cuts : ∀ cut ∈ client.cuts, cut.2 < 2 ^ 64
  data : ∀ data ∈ client.data, data.1 < 2 ^ 64 ∧ data.2.length ≤ maxPayload

structure State.Sized (state : State) : Prop where
  valid : state.Valid
  shards : state.numShards ≤ 12
  base : state.gsnBase < 2 ^ 64
  nodup : ∀ shardId, (state.storageQueues shardId).Nodup
  replicas : ∀ shardId, ∀ replicaId ∈ state.storageQueues shardId, replicaId < maxReplicas
  clients : ∀ clientId client, state.clientState clientId = some client → client.Sized

def ControlSized : StorageControl → Prop
  | .slots slots => slots.startGsn < 2 ^ 64 ∧ slots.assignments.length ≤ maxClients ∧
      ∀ assignment ∈ slots.assignments, assignment.clientId < 2 ^ 64 ∧ assignment.numSlots < 2 ^ 64
  | .clientFreeze clientId => clientId < 2 ^ 64
  | .clientCut cut => cut.clientId < 2 ^ 64 ∧ cut.beginGsn < 2 ^ 64
  | .clientPatch patch => patch.clientId < 2 ^ 64 ∧ patch.gsn < 2 ^ 64 ∧ patch.data.length ≤ maxPayload
  | .clientFinalize clientId => clientId < 2 ^ 64

def ClientSized : ClientControl → Prop
  | .storageInfo replicas => replicas.length ≤ maxReplicas
  | .newEpoch beginning numSlots => beginning < 2 ^ 64 ∧ numSlots < 2 ^ 64
  | .orderFinished => True

def SentSized : Sent → Prop
  | .storage _ _ control => ControlSized control
  | .client _ control => ClientSized control

def AddressFits (address : SocketAddress) : Prop := Layout.Fits ([2, 2, 4, 8].zip address.values)

theorem words_fit (widths values : List Nat) (wide : ∀ width ∈ widths, width = 8) (small : ∀ value ∈ values, value < 2 ^ 64) :
    Layout.Fits (widths.zip values) := by
  refine Layout.zip_fits (2 ^ 64) widths values ?_ small
  intro width member
  rw [wide width member]
  decide

theorem bytes_fit (data : Bytes) : ∀ element ∈ ofBytes data, Layout.Fits ([1].zip element) := by
  intro element member
  obtain ⟨byte, _, rfl⟩ := List.mem_map.mp member
  intro field inside
  rw [List.zip_cons_cons, List.zip_nil_right, List.mem_singleton] at inside
  rw [inside]
  exact byte.toNat_lt

theorem count_le (type : MessageType) : type.count ≤ sendBufferSize := by
  cases type <;> decide

-- A message without an array.
theorem sendable_single (poller : Poller) (type : MessageType) (message : Message) (same : message.type = type)
    (handled : type ∈ poller.handlers) (single : type.element = none) (wide : ∀ width ∈ type.fields, width = 8)
    (small : ∀ value ∈ message.values, value < 2 ^ 64) : Sendable poller message := by
  subst same
  have size : message.encode.length = message.type.count := by
    rw [encode_length, single]
    rfl
  have bounded := count_le message.type
  refine ⟨⟨words_fit _ _ wide small, ?_, ?_⟩, ?_, handled⟩
  · intro widths array
    rw [single] at array
    cases array
  · rw [size]
    exact Nat.lt_of_le_of_lt bounded (by decide)
  · rw [size]
    exact bounded

theorem sendable_array (poller : Poller) (type : MessageType) (message : Message) (widths : List Nat) (same : message.type = type)
    (handled : type ∈ poller.handlers) (array : type.element = some widths) (wide : ∀ width ∈ type.fields, width = 8)
    (small : ∀ value ∈ message.values, value < 2 ^ 64) (elements : ∀ element ∈ message.elements, Layout.Fits (widths.zip element))
    (room : type.count + 8 + message.elements.length * widths.sum ≤ sendBufferSize) : Sendable poller message := by
  subst same
  have size : message.encode.length = message.type.count + 8 + message.elements.length * widths.sum := by
    rw [encode_length, array, Option.elim_some, Nat.add_assoc]
  refine ⟨⟨words_fit _ _ wide small, ?_, ?_⟩, ?_, handled⟩
  · intro other found
    rw [array] at found
    cases found
    exact elements
  · rw [size]
    exact Nat.lt_of_le_of_lt room (by decide)
  · rw [size]
    exact room

theorem one_small (value : Nat) (small : value < 2 ^ 64) : ∀ other ∈ [value], other < 2 ^ 64 := by
  intro other member
  rw [List.mem_singleton.mp member]
  exact small

theorem two_small (first second : Nat) (left : first < 2 ^ 64) (right : second < 2 ^ 64) : ∀ other ∈ [first, second], other < 2 ^ 64 := by
  intro other member
  cases List.mem_cons.mp member with
  | inl same => rw [same]; exact left
  | inr rest => exact one_small second right other rest

theorem control_sendable (control : StorageControl) (sized : ControlSized control) : Sendable .storageControl control.message := by
  cases control with
  | slots slots =>
      obtain ⟨start, count, words⟩ := sized
      refine sendable_array _ .storageSlots (.storageSlots slots) [8, 8] rfl (by decide) rfl (by decide) (one_small _ start) ?_ ?_
      · intro element member
        obtain ⟨assignment, inside, rfl⟩ := List.mem_map.mp member
        obtain ⟨client, number⟩ := words assignment inside
        exact words_fit _ _ (by decide) (two_small _ _ client number)
      · rw [Message.elements, List.length_map]
        change 24 + slots.assignments.length * 16 ≤ 2048
        change slots.assignments.length ≤ 126 at count
        omega
  | clientFreeze clientId =>
      exact sendable_single _ .storageClientFreeze (.storageClientFreeze clientId) rfl (by decide) rfl (by decide) (one_small _ sized)
  | clientCut cut =>
      exact sendable_single _ .storageClientCut (.storageClientCut cut) rfl (by decide) rfl (by decide) (two_small _ _ sized.1 sized.2)
  | clientPatch patch =>
      obtain ⟨client, gsn, length⟩ := sized
      refine sendable_array _ .storageClientPatch (.storageClientPatch patch) [1] rfl (by decide) rfl (by decide) (two_small _ _ client gsn)
        (bytes_fit patch.data) ?_
      rw [Message.elements, ofBytes, List.length_map]
      change 32 + patch.data.length * 1 ≤ 2048
      change patch.data.length ≤ 1992 at length
      omega
  | clientFinalize clientId =>
      exact sendable_single _ .storageClientFinalize (.storageClientFinalize clientId) rfl (by decide) rfl (by decide) (one_small _ sized)

section

variable (addresses : Nat × Nat → SocketAddress)

theorem addresses_room (poller : Poller) (type : MessageType) (message : Message) (servers : List SocketAddress) (same : message.type = type)
    (handled : type ∈ poller.handlers) (array : type.element = some [2, 2, 4, 8]) (none : type.fields = []) (values : message.values = [])
    (elements : message.elements = servers.map SocketAddress.values) (fit : ∀ server ∈ servers, AddressFits server)
    (few : servers.length ≤ 127) : Sendable poller message := by
  refine sendable_array poller type message [2, 2, 4, 8] same handled array ?_ ?_ ?_ ?_
  · rw [none]
    exact fun width member => (by cases member)
  · rw [values]
    exact fun value member => (by cases member)
  · rw [elements]
    intro element member
    obtain ⟨server, inside, rfl⟩ := List.mem_map.mp member
    exact fit server inside
  · rw [elements, List.length_map, MessageType.count, none]
    change 16 + servers.length * 16 ≤ 2048
    omega

theorem client_sendable (fit : ∀ place, AddressFits (addresses place)) (shardId : Nat) (control : ClientControl) (sized : ClientSized control) :
    Sendable .clientLoop (control.message addresses shardId) := by
  cases control with
  | storageInfo replicas =>
      refine addresses_room _ .clientStorageInfo _ (replicas.map (fun replicaId => addresses (shardId, replicaId))) rfl (by decide) rfl rfl
        rfl rfl ?_ ?_
      · intro server member
        obtain ⟨replicaId, _, rfl⟩ := List.mem_map.mp member
        exact fit (shardId, replicaId)
      · rw [List.length_map]
        exact Nat.le_trans sized (by decide)
  | newEpoch beginning numSlots =>
      exact sendable_single _ .clientNewEpoch (.clientNewEpoch beginning numSlots) rfl (by decide) rfl (by decide)
        (two_small _ _ sized.1 sized.2)
  | orderFinished => exact sendable_single _ .orderFinished .orderFinished rfl (by decide) rfl (by decide) (fun value member => by cases member)

end

theorem sized_keeps (state next : State) (sized : state.Sized) (keeps : state.Keeps next) (base : next.gsnBase < 2 ^ 64)
    (clients : ∀ clientId client, next.clientState clientId = some client → client.Sized) : next.Sized :=
  ⟨keeps.valid sized.valid, keeps.shards ▸ sized.shards, base, by rw [keeps.queues]; exact sized.nodup, by rw [keeps.queues]; exact sized.replicas, clients⟩

theorem sized_set (state : State) (clientId : Nat) (client : Option ClientState) (sized : state.Sized)
    (keeps : state.Keeps (state.setClientState clientId client)) (new : ∀ found, client = some found → found.Sized) :
    (state.setClientState clientId client).Sized := by
  refine sized_keeps state _ sized keeps (by rw [keeps.base]; exact sized.base) ?_
  intro other found present
  by_cases mine : other = clientId
  · subst mine
    rw [set_client_state_same] at present
    exact new found present
  · rw [set_client_state_other _ _ _ _ mine] at present
    exact sized.clients other found present

theorem broadcast_sized (state : State) (shardId : Nat) (control : StorageControl) (small : ControlSized control) :
    ∀ sent ∈ state.broadcast shardId control, SentSized sent := by
  intro sent member
  obtain ⟨replicaId, _, rfl⟩ := List.mem_map.mp member
  exact small

theorem max_clients_small (clientId : Nat) (valid : clientId < maxClients) : clientId < 2 ^ 64 := Nat.lt_trans valid (by decide)

theorem finalized_sized (state : State) (clientId : Nat) (client : ClientState) (small : clientId < 2 ^ 64) (sized : client.Sized) :
    ∀ sent ∈ (state.finalized clientId client).2, SentSized sent := by
  rw [finalized_sent]
  intro sent member
  obtain ⟨control, inside, there⟩ := List.mem_flatMap.mp member
  refine broadcast_sized state client.shardId control ?_ sent there
  cases List.mem_append.mp inside with
  | inl patch =>
      obtain ⟨_, data, stored, rfl⟩ := patch_member clientId client control patch
      exact ⟨small, sized.data data stored⟩
  | inr last =>
      rw [List.mem_singleton.mp last]
      exact small

theorem min_cut_small (client : ClientState) (sized : client.Sized) : minCut client.cuts < 2 ^ 64 := by
  unfold minCut
  cases first : client.cuts.head? with
  | none => decide
  | some cut => exact sized.cuts cut (List.mem_of_mem_head? first)

theorem active_sized (state : State) (sized : state.Sized) (slot : Slots) (member : slot ∈ active state.clients) :
    slot.clientId < 2 ^ 64 ∧ slot.numSlots < 2 ^ 64 := by
  obtain ⟨client, valid, present, _, number, _⟩ := (active_member state slot).mp member
  rw [number]
  exact ⟨max_clients_small _ valid, (sized.clients _ client present).slots⟩

theorem slots_length (state : State) : state.slots.length ≤ maxClients := by
  rw [(slots_perm state).length_eq, active, List.length_map]
  exact (List.length_filter_le _ _).trans ((List.length_filterMap_le _ _).trans List.length_range.le)

theorem epoch_sized (state : State) (now : Nat) (sized : state.Sized) (clock : now < 2 ^ 63) :
    ∀ sent ∈ (state.epoch now).2, SentSized sent := by
  intro sent member
  cases List.mem_append.mp member with
  | inl announced =>
      obtain ⟨slot, inside, rfl⟩ := List.mem_map.mp announced
      refine ⟨?_, (active_sized state sized slot inside).2⟩
      change now + 5000000 < 2 ^ 64
      omega
  | inr assigned =>
      obtain ⟨shardId, _, there⟩ := List.mem_flatMap.mp assigned
      refine broadcast_sized state shardId (.slots (state.storageSlots shardId)) ⟨sized.base, ?_, ?_⟩ sent there
      · rw [State.storageSlots, List.length_map]
        exact slots_length state
      · intro assignment inside
        obtain ⟨slot, listed, rfl⟩ := List.mem_map.mp inside
        obtain ⟨client, number⟩ := active_sized state sized slot ((slots_perm state).mem_iff.mp listed)
        refine ⟨?_, number⟩
        dsimp only
        split
        · decide
        · exact client

-- What a packet of the input can hold; the clock stays below 2^63 nanoseconds.
def Input.Fits : Input → Prop
  | .addClient _ _ numSlots => numSlots < 2 ^ 64
  | .clientCut cut => cut.latestGsn < 2 ^ 64
  | .clientData data => data.gsn < 2 ^ 64 ∧ data.data.length ≤ maxPayload
  | .epoch now => now < 2 ^ 63
  | _ => True

theorem nothing_sized : ∀ sent ∈ ([] : List Sent), SentSized sent := fun sent member => by cases member

theorem add_client_sized (state : State) (sized : state.Sized) (clientId shardId numSlots : Nat) (small : numSlots < 2 ^ 64) :
    (state.addClient clientId shardId numSlots).1.Sized ∧ ∀ sent ∈ (state.addClient clientId shardId numSlots).2, SentSized sent := by
  have keeps := keeps_add_client state clientId shardId numSlots
  unfold State.addClient at keeps ⊢
  split at keeps
  · rename_i refused
    rw [if_pos refused]
    exact ⟨sized, nothing_sized⟩
  · rename_i accepted
    rw [if_neg accepted]
    refine ⟨sized_set state clientId _ sized keeps ?_, ?_⟩
    · intro found same
      cases same
      exact ⟨small, fun cut member => (by cases member), fun data member => (by cases member)⟩
    · intro sent member
      rw [List.mem_singleton.mp member]
      have inside : state.storageQueues shardId ⊆ List.range maxReplicas := fun replicaId there =>
        List.mem_range.mpr (sized.replicas shardId replicaId there)
      exact ((sized.nodup shardId).subperm inside).length_le.trans List.length_range.le

theorem client_cut_sized (state : State) (sized : state.Sized) (cut : OrderClientCut) (small : cut.latestGsn < 2 ^ 64) :
    (state.clientCut cut).1.Sized ∧ ∀ sent ∈ (state.clientCut cut).2, SentSized sent := by
  have keeps := keeps_client_cut state cut
  obtain nothing | ⟨client, present, _, _, _, outcome⟩ := client_cut_cases state cut
  · rw [nothing]
    exact ⟨sized, nothing_sized⟩
  · have old := sized.clients cut.clientId client present
    have id := max_clients_small _ (sized.valid cut.clientId client present).1
    have new : (state.withCut client cut).1.Sized := by
      refine ⟨old.slots, ?_, old.data⟩
      intro other member
      cases List.mem_cons.mp ((insert_key_perm cut.replicaId cut.latestGsn client.cuts).mem_iff.mp member) with
      | inl same => rw [same]; exact small
      | inr rest => exact old.cuts other rest
    have saved : (state.withCut client cut).2.Sized := sized_set state cut.clientId _ sized
      (keeps_update state cut.clientId client _ present rfl) (fun found same => by cases same; exact new)
    obtain recorded | ⟨_, _, final | asked⟩ := outcome
    · rw [recorded]
      exact ⟨saved, nothing_sized⟩
    · rw [final]
      refine ⟨sized_set _ cut.clientId none saved (keeps_erase _ _) (fun found same => by cases same), ?_⟩
      exact finalized_sized _ cut.clientId _ id new
    · rw [asked, State.withCut, requested_eq]
      refine ⟨sized_set state cut.clientId _ sized (keeps_update state cut.clientId client _ present rfl) ?_, ?_⟩
      · intro found same
        cases same
        exact ⟨new.slots, new.cuts, new.data⟩
      · rw [List.flatMap_singleton]
        exact broadcast_sized state client.shardId _ ⟨id, min_cut_small _ new⟩

theorem client_data_sized (state : State) (sized : state.Sized) (data : OrderClientData) (gsn : data.gsn < 2 ^ 64)
    (length : data.data.length ≤ maxPayload) : (state.clientData data).1.Sized ∧ ∀ sent ∈ (state.clientData data).2, SentSized sent := by
  obtain nothing | ⟨client, present, _, _, outcome⟩ := client_data_cases state data
  · rw [nothing]
    exact ⟨sized, nothing_sized⟩
  · have old := sized.clients data.clientId client present
    have id := max_clients_small _ (sized.valid data.clientId client present).1
    have new : (state.withFlush client data).1.Sized := ⟨old.slots, old.cuts, old.data⟩
    have saved : (state.withFlush client data).2.Sized := sized_set state data.clientId _ sized
      (keeps_update state data.clientId client _ present rfl) (fun found same => by cases same; exact new)
    obtain flushed | final | ⟨_, stored⟩ := outcome
    · rw [flushed]
      exact ⟨saved, nothing_sized⟩
    · rw [final]
      refine ⟨sized_set _ data.clientId none saved (keeps_erase _ _) (fun found same => by cases same), ?_⟩
      exact finalized_sized _ data.clientId _ id new
    · rw [stored]
      refine ⟨sized_set state data.clientId _ sized (keeps_update state data.clientId client _ present rfl) ?_, nothing_sized⟩
      intro found same
      cases same
      refine ⟨old.slots, old.cuts, ?_⟩
      intro other member
      cases List.mem_cons.mp ((insert_key_perm data.gsn data.data client.data).mem_iff.mp member) with
      | inl same => rw [same]; exact ⟨gsn, length⟩
      | inr rest => exact old.data other rest

theorem handle_sized (state : State) (sized : state.Sized) (input : Input) (fits : input.Fits) :
    (state.handle input).1.Sized ∧ ∀ sent ∈ (state.handle input).2, SentSized sent := by
  cases input with
  | addClient clientId shardId numSlots => exact add_client_sized state sized clientId shardId numSlots fits
  | clientRate clientId numSlots =>
      refine ⟨?_, nothing_sized⟩
      simp only [State.handle, State.clientRate]
      split
      · exact sized
      · rename_i client present
        have old := sized.clients clientId client present
        refine sized_set state clientId _ sized (keeps_update state clientId client _ present rfl) ?_
        intro found same
        cases same
        exact ⟨Nat.mod_lt _ (by decide), old.cuts, old.data⟩
  | clientFinished clientId =>
      simp only [State.handle, State.clientFinished]
      split
      · exact ⟨sized, nothing_sized⟩
      · rename_i client present
        refine ⟨sized_set state clientId none sized (keeps_erase _ _) (fun found same => by cases same), ?_⟩
        intro sent member
        cases List.mem_cons.mp member with
        | inl same => rw [same]; exact trivial
        | inr rest =>
            exact finalized_sized state clientId client (max_clients_small _ (sized.valid clientId client present).1)
              (sized.clients clientId client present) sent rest
  | clientFreeze clientId =>
      simp only [State.handle]
      obtain nothing | ⟨client, present, _, frozen⟩ := client_freeze_cases state clientId
      · rw [nothing]
        exact ⟨sized, nothing_sized⟩
      · rw [frozen]
        have old := sized.clients clientId client present
        refine ⟨sized_set state clientId _ sized (keeps_update state clientId client _ present rfl) ?_, ?_⟩
        · intro found same
          cases same
          exact ⟨old.slots, old.cuts, old.data⟩
        · exact broadcast_sized state client.shardId _ (max_clients_small _ (sized.valid clientId client present).1)
  | clientCut cut => exact client_cut_sized state sized cut fits
  | clientData data => exact client_data_sized state sized data fits.1 fits.2
  | epoch now =>
      exact ⟨⟨sized.valid, sized.shards, Nat.mod_lt _ (by decide), sized.nodup, sized.replicas, sized.clients⟩, epoch_sized state now sized fits⟩

def Event.Fits (event : Event) : Prop := ∀ input, event.input = some input → input.Fits

def OutputSized : Output → Prop
  | .order sent => SentSized sent
  | .heartbeat _ id => id < 2 ^ 64
  | .subscriber _ (.storageInfo servers) => servers.length ≤ 127
  | .subscriber _ .orderFinished => True

theorem output_sendable (addresses : Nat × Nat → SocketAddress) (fit : ∀ place, AddressFits (addresses place)) (shardId : Nat)
    (output : Output) (sized : OutputSized output) : Sendable output.poller (output.message addresses shardId) := by
  cases output with
  | order sent =>
      cases sent with
      | storage shard replicaId control => exact control_sendable control sized
      | client clientId control => exact client_sendable addresses fit shardId control sized
  | heartbeat clientId id =>
      exact sendable_single .clientLoop .clientHeartbeat (.clientHeartbeat id) rfl (by decide) rfl (by decide) (one_small _ sized)
  | subscriber subscriberId control =>
      cases control with
      | storageInfo servers =>
          refine addresses_room .subscriberControl .subscriberStorageInfo _ (servers.map addresses) rfl (by decide) rfl rfl rfl rfl ?_ ?_
          · intro server member
            obtain ⟨place, _, rfl⟩ := List.mem_map.mp member
            exact fit place
          · rw [List.length_map]
            exact sized
      | orderFinished =>
          exact sendable_single .subscriberControl .orderFinished .orderFinished rfl (by decide) rfl (by decide) (fun value member => by cases member)

structure Loop.Sized (loop : Loop) : Prop where
  state : loop.state.Sized
  beat : loop.heartbeatId < 2 ^ 64
  sent : ∀ output ∈ loop.sent, OutputSized output

-- A handler adds messages to clients and storage servers only.
def Loop.Orders (loop after : Loop) : Prop :=
  (∃ more : List Sent, after.sent = loop.sent ++ more.map Output.order) ∧ after.heartbeatId = loop.heartbeatId

theorem hands_orders (loop after : Loop) (hands : ∃ more, loop.Hands after more) : loop.Orders after :=
  ⟨⟨hands.choose, hands.choose_spec.tells.sent⟩, hands.choose_spec.beat⟩

theorem orders_sized (loop next : Loop) (input : Input) (sized : loop.Sized) (orders : loop.Orders next)
    (follows : loop.Follows next (loop.state.handle input)) (fits : input.Fits) : next.Sized := by
  obtain ⟨⟨more, sent⟩, beat⟩ := orders
  obtain ⟨state, output⟩ := follows
  obtain ⟨after, small⟩ := handle_sized loop.state sized.state input fits
  refine ⟨by rw [state]; exact after, by rw [beat]; exact sized.beat, ?_⟩
  rw [sent, ordered_append, ordered_order] at output
  have same := List.append_cancel_left output
  intro other member
  rw [sent] at member
  cases List.mem_append.mp member with
  | inl old => exact sized.sent other old
  | inr new =>
      obtain ⟨item, inside, rfl⟩ := List.mem_map.mp new
      exact small item (same ▸ inside)

theorem sized_add (loop next : Loop) (more : List Output) (sized : loop.Sized) (state : next.state = loop.state)
    (sent : next.sent = loop.sent ++ more) (beat : next.heartbeatId < 2 ^ 64) (small : ∀ output ∈ more, OutputSized output) : next.Sized := by
  refine ⟨by rw [state]; exact sized.state, beat, ?_⟩
  intro other member
  rw [sent] at member
  cases List.mem_append.mp member with
  | inl old => exact sized.sent other old
  | inr new => exact small other new

theorem servers_length (state : State) (sized : state.Sized) : state.servers.length ≤ 127 := by
  have each : ∀ shardId, (state.storageQueues shardId).length ≤ maxReplicas := by
    intro shardId
    have inside : state.storageQueues shardId ⊆ List.range maxReplicas := fun replicaId there =>
      List.mem_range.mpr (sized.replicas shardId replicaId there)
    exact ((sized.nodup shardId).subperm inside).length_le.trans List.length_range.le
  have total : ∀ shards, ((List.range shards).flatMap (fun shardId =>
      (state.storageQueues shardId).map (fun replicaId => (shardId, replicaId)))).length ≤ shards * maxReplicas := by
    intro shards
    induction shards with
    | zero => exact Nat.zero_le _
    | succ shards ih =>
        have last := each shards
        rw [List.range_succ, List.flatMap_append, List.length_append, List.flatMap_singleton, List.length_map, Nat.succ_mul]
        omega
  have few := sized.shards
  have all := total state.numShards
  change state.servers.length ≤ state.numShards * 10 at all
  omega

theorem add_storage_sized (state : State) (sized : state.Sized) (shardId replicaId : Nat) : (state.addStorage shardId replicaId).Sized := by
  unfold State.addStorage
  split
  · exact sized
  · rename_i accepted
    push Not at accepted
    refine ⟨sized.valid, sized.shards, sized.base, ?_, ?_, sized.clients⟩
    · intro other
      dsimp only
      by_cases mine : other = shardId
      · subst mine
        rw [Function.update_self]
        exact List.nodup_append.mpr ⟨sized.nodup _, List.nodup_singleton _, fun first inside second last same => by
          rw [List.mem_singleton.mp last] at same
          exact accepted.2.2 (same ▸ inside)⟩
      · rw [Function.update_of_ne mine]
        exact sized.nodup other
    · intro other id member
      dsimp only at member
      by_cases mine : other = shardId
      · subst mine
        rw [Function.update_self] at member
        cases List.mem_append.mp member with
        | inl old => exact sized.replicas _ id old
        | inr new => rw [List.mem_singleton.mp new]; exact accepted.2.1
      · rw [Function.update_of_ne mine] at member
        exact sized.replicas other id member

theorem step_sized (loop next : Loop) (event : Event) (sized : loop.Sized) (fits : event.Fits) (stepped : loop.step event = some next) :
    next.Sized := by
  have follows := fun storage => step_follows loop next event storage stepped
  cases event with
  | addStorage shardId replicaId =>
      cases add_storage_cases loop next shardId replicaId stepped with
      | inl same => rw [same]; exact sized
      | inr added =>
          rw [added.2.2]
          exact ⟨add_storage_sized loop.state sized.state shardId replicaId, sized.beat, sized.sent⟩
  | addClient clientId shardId numSlots =>
      have orders : loop.Orders next := by
        rw [← Option.some.inj stepped]
        exact ⟨⟨_, rfl⟩, rfl⟩
      exact orders_sized loop next (.addClient clientId shardId numSlots) sized orders (follows (by simp)) (fits _ rfl)
  | addSubscriber subscriberId =>
      rw [← Option.some.inj stepped]
      unfold Loop.addSubscriber
      split
      · exact sized
      · refine sized_add loop _ _ sized rfl rfl sized.beat ?_
        intro output member
        rw [List.mem_singleton.mp member]
        exact servers_length loop.state sized.state
  | clientRate clientId numSlots =>
      have orders : loop.Orders next := by
        rw [← Option.some.inj stepped]
        exact ⟨⟨[], (List.append_nil _).symm⟩, rfl⟩
      exact orders_sized loop next (.clientRate clientId numSlots) sized orders (follows (by simp)) (fits _ rfl)
  | clientFinished clientId =>
      have orders : loop.Orders next := by
        rw [← Option.some.inj stepped]
        exact hands_orders loop _ (client_finished_hands loop clientId)
      exact orders_sized loop next (.clientFinished clientId) sized orders (follows (by simp)) (fits _ rfl)
  | subscriberFinished subscriberId =>
      rw [← Option.some.inj stepped]
      unfold Loop.subscriberFinished
      split
      · refine sized_add loop _ _ sized rfl rfl sized.beat ?_
        intro output member
        rw [List.mem_singleton.mp member]
        exact trivial
      · exact sized
  | clientFreeze clientId =>
      have orders : loop.Orders next := by
        rw [← Option.some.inj stepped]
        exact hands_orders loop _ (client_freeze_hands loop clientId)
      exact orders_sized loop next (.clientFreeze clientId) sized orders (follows (by simp)) (fits _ rfl)
  | clientCut cut =>
      have orders : loop.Orders next := by
        rw [← Option.some.inj stepped]
        exact hands_orders loop _ (client_cut_hands loop cut)
      exact orders_sized loop next (.clientCut cut) sized orders (follows (by simp)) (fits _ rfl)
  | clientData data =>
      have orders : loop.Orders next := by
        rw [← Option.some.inj stepped]
        exact hands_orders loop _ (client_data_hands loop data)
      exact orders_sized loop next (.clientData data) sized orders (follows (by simp)) (fits _ rfl)
  | timer now =>
      rw [← Option.some.inj stepped]
      unfold Loop.timer
      split
      · refine sized_add loop _ _ sized rfl rfl (Nat.mod_lt _ (by decide)) ?_
        intro output member
        obtain ⟨clientId, _, rfl⟩ := List.mem_map.mp member
        exact sized.beat
      · split
        · obtain ⟨after, small⟩ := handle_sized loop.state sized.state (.epoch now) (fits _ rfl)
          refine ⟨after, sized.beat, ?_⟩
          intro other member
          cases List.mem_append.mp member with
          | inl old => exact sized.sent other old
          | inr new =>
              obtain ⟨item, inside, rfl⟩ := List.mem_map.mp new
              exact small item inside
        · exact sized

-- The main result. Whatever the ordering service sends fits in a send buffer, its
-- fields hold the values, and the thread that receives it has a handler for it.
theorem order_messages_fit (addresses : Nat × Nat → SocketAddress) (fit : ∀ place, AddressFits (addresses place)) (numShards : Nat)
    (shards : numShards ≤ 12) (events : List Event) (fits : ∀ event ∈ events, event.Fits) (loop : Loop)
    (ran : Machine.run Loop.step (Loop.init numShards) events = some loop) (shardId : Nat) :
    ∀ output ∈ loop.sent, Sendable output.poller (output.message addresses shardId) := by
  have init : (Loop.init numShards).Sized := by
    refine ⟨⟨init_valid numShards, shards, Nat.two_pow_pos 64, fun _ => List.nodup_nil, fun _ _ member => (by cases member),
      fun _ _ present => (by cases present)⟩, Nat.two_pow_pos 64, fun _ member => (by cases member)⟩
  have sized : loop.Sized := by
    induction events using List.reverseRecOn generalizing loop with
    | nil =>
        cases ran
        exact init
    | append_singleton events event ih =>
        obtain ⟨before, started, stepped⟩ := Machine.run_snoc_some ran
        exact step_sized before loop event (ih (fun other member => fits other (List.mem_append_left _ member)) before started)
          (fits event (List.mem_append_right _ (List.mem_singleton_self event))) stepped
  exact fun output member => output_sendable addresses fit shardId output (sized.sent output member)

-- The first slots go to the storage server as a message of 40 bytes.
theorem order_messages_fit_first_slots : ∃ loop, Machine.run Loop.step (Loop.init 1) (startUp ++ firstTurns) = some loop ∧
    Output.order (.storage 0 0 (.slots ⟨0, [⟨7, 100⟩]⟩)) ∈ loop.sent ∧ Sendable .storageControl (.storageSlots ⟨0, [⟨7, 100⟩]⟩) := by
  have enabled : (Machine.run Loop.step (Loop.init 1) (startUp ++ firstTurns)).map (fun loop =>
      decide (Output.order (.storage 0 0 (.slots ⟨0, [⟨7, 100⟩]⟩)) ∈ loop.sent)) = some true := by
    decide +kernel
  obtain ⟨loop, ran, seen⟩ := Option.map_eq_some_iff.mp enabled
  have member := of_decide_eq_true seen
  refine ⟨loop, ran, member, ?_⟩
  refine order_messages_fit (fun _ => ⟨2, 6666, 0, 0⟩) (fun _ => by unfold AddressFits; decide) 1 (by decide) _ ?_ loop ran 0 _ member
  simp [startUp, firstTurns, Event.Fits, Event.input, Input.Fits]

end ZipLog.Order
