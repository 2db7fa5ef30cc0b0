import ZipLog.Storage.Agreement

set_option autoImplicit false

namespace ZipLog.Storage

-- One message of storage::control, with what goes back to the ordering service.
def Server.control (server : Server) (message : StorageControl) (beyond : Bytes) : Except Fault (Server × List OrderControl) :=
  match message with
  | .slots slots => .ok (server.storageSlots slots, [])
  | .clientFreeze clientId =>
      let result := server.storageClientFreeze clientId
      .ok (result.1, [.clientCut result.2])
  | .clientCut req => do
      let data ← server.storageClientCut req
      return (server, data.map .clientData)
  | .clientPatch data => do
      let server ← server.storageClientPatch data beyond
      return (server, [])
  | .clientFinalize clientId => do
      let server ← server.storageClientFinalize clientId
      return (server, [])

-- Only the freeze handler waits for the client to be connected.
def Server.waits (server : Server) : StorageControl → Bool
  | .clientFreeze clientId => !(server.clientState clientId).connected
  | _ => false

def controlSlots : StorageControl → List (Nat × Nat)
  | .slots slots => newSlots slots
  | _ => []

def slotsIn (messages : List StorageControl) : List (Nat × Nat) := messages.flatMap controlSlots

theorem slots_in_snoc (messages : List StorageControl) (message : StorageControl) :
    slotsIn (messages ++ [message]) = slotsIn messages ++ controlSlots message := by
  simp [slotsIn]

def filledBy (received : List StorageInsert) : List Bytes := received.flatMap payloads

theorem filled_by_snoc (received : List StorageInsert) (req : StorageInsert) :
    filledBy (received ++ [req]) = filledBy received ++ payloads req := by
  simp [filledBy]

def padded (slots : List (Nat × Nat)) (client : Nat) (fills : List Bytes) : List Bytes :=
  fills ++ List.replicate ((chain slots client).length - fills.length) []

-- What a server holds that has handled these control messages and inserts.
def contentsAfter (messages : List StorageControl) (received : Nat → List StorageInsert) : Contents :=
  ⟨slotsIn messages, fun client =>
    if .clientFinalize client ∈ messages then padded (slotsIn messages) client (filledBy (received client))
    else filledBy (received client)⟩

def latestGsn (slots : List (Nat × Nat)) (client : Nat) (received : List StorageInsert) : Nat :=
  if received = [] then uint64Max else ((gsns slots client)[(filledBy received).length - 1]?).getD uint64Max

structure Server.Follows (server : Server) (messages : List StorageControl) (received : Nat → List StorageInsert) : Prop where
  tracks : server.Tracks (contentsAfter messages received)
  latest : ∀ client, (server.clientState client).latestGsn = latestGsn (slotsIn messages) client (received client)
  stopped : ∀ client, .clientFreeze client ∈ messages → (server.clientState client).disconnected = true

theorem init_follows (shardId replicaId : Nat) : (Server.init shardId replicaId).Follows [] (fun _ => []) := by
  constructor
  · have blank : contentsAfter [] (fun _ => []) = Contents.empty := by
      simp [contentsAfter, slotsIn, Contents.empty, filledBy]
    rw [blank]
    exact init_tracks shardId replicaId
  · intro client
    rfl
  · intro client member
    cases member

theorem filled_bound (server : Server) (messages : List StorageControl) (received : Nat → List StorageInsert) (client : Nat)
    (tracks : server.Tracks (contentsAfter messages received)) :
    (filledBy (received client)).length ≤ (chain (slotsIn messages) client).length := by
  have filled := tracks.rep.filled client
  simp only [contentsAfter] at filled
  split at filled
  · rw [padded, List.length_append] at filled
    omega
  · exact filled

theorem filled_by_nil (received : List StorageInsert) : filledBy received = [] ↔ received = [] := by
  constructor
  · intro empty
    cases received with
    | nil => rfl
    | cons req rest => simp [filledBy, payloads] at empty
  · intro empty
    rw [empty]
    rfl

theorem latest_gsn_extend (server : Server) (messages : List StorageControl) (received : Nat → List StorageInsert) (client : Nat)
    (more : List (Nat × Nat)) (tracks : server.Tracks (contentsAfter messages received)) :
    latestGsn (slotsIn messages ++ more) client (received client) = latestGsn (slotsIn messages) client (received client) := by
  unfold latestGsn
  by_cases fresh : received client = []
  · rw [if_pos fresh, if_pos fresh]
  · have bound := filled_bound server messages received client tracks
    have some : filledBy (received client) ≠ [] := fun empty => fresh ((filled_by_nil _).mp empty)
    have positive := List.length_pos_iff.mpr some
    rw [if_neg fresh, if_neg fresh, gsns_append, List.getElem?_append_left]
    rw [← chain_length]
    omega

theorem padded_extend (slots more : List (Nat × Nat)) (client : Nat) (fills : List Bytes)
    (foreign : ∀ slot ∈ more, slot.2 ≠ client) : padded (slots ++ more) client fills = padded slots client fills := by
  have none : gsns more client = [] := by
    rw [gsns, List.filter_eq_nil_iff.mpr]
    · rfl
    · intro slot member
      simpa using foreign slot member
  rw [padded, padded, chain_length, chain_length, gsns_append, none, List.append_nil]

theorem state_follows (server next : Server) (messages : List StorageControl) (received : Nat → List StorageInsert)
    (follows : server.Follows messages received) (log : next.log = server.log)
    (states : ∀ client, (next.clientState client).position = (server.clientState client).position ∧
      (next.clientState client).latestGsn = (server.clientState client).latestGsn ∧
      ((server.clientState client).disconnected = true → (next.clientState client).disconnected = true)) :
    next.Follows messages received := by
  constructor
  · constructor
    · rw [log]
      exact follows.tracks.rep
    · intro client
      rw [(states client).1]
      exact follows.tracks.position client
  · intro client
    rw [(states client).2.1]
    exact follows.latest client
  · intro client member
    exact (states client).2.2 (follows.stopped client member)

theorem add_client_states (server : Server) (clientId client : Nat) :
    ((server.addClient clientId).clientState client).position = (server.clientState client).position ∧
      ((server.addClient clientId).clientState client).latestGsn = (server.clientState client).latestGsn ∧
      ((server.addClient clientId).clientState client).disconnected = (server.clientState client).disconnected := by
  simp only [Server.addClient]
  split
  · exact ⟨rfl, rfl, rfl⟩
  · by_cases mine : client = clientId
    · subst mine
      rw [client_state_same]
      exact ⟨rfl, rfl, rfl⟩
    · rw [client_state_other _ _ _ _ mine]
      exact ⟨rfl, rfl, rfl⟩

theorem disconnect_states (server : Server) (clientId client : Nat) :
    ((server.disconnect clientId).clientState client).position = (server.clientState client).position ∧
      ((server.disconnect clientId).clientState client).latestGsn = (server.clientState client).latestGsn ∧
      (((server.disconnect clientId).clientState client).disconnected = true ↔
        client = clientId ∨ (server.clientState client).disconnected = true) := by
  by_cases mine : client = clientId
  · subst mine
    simp [Server.disconnect, client_state_same]
  · simp [Server.disconnect, client_state_other _ _ _ _ mine, mine]

theorem add_client_follows (server : Server) (messages : List StorageControl) (received : Nat → List StorageInsert) (clientId : Nat)
    (follows : server.Follows messages received) : (server.addClient clientId).Follows messages received := by
  apply state_follows server _ messages received follows
  · simp only [Server.addClient]
    split <;> rfl
  · intro client
    obtain ⟨position, latest, disconnected⟩ := add_client_states server clientId client
    exact ⟨position, latest, fun before => disconnected.trans before⟩

theorem disconnect_follows (server : Server) (messages : List StorageControl) (received : Nat → List StorageInsert) (clientId : Nat)
    (follows : server.Follows messages received) : (server.disconnect clientId).Follows messages received := by
  apply state_follows server (server.disconnect clientId) messages received follows rfl
  intro client
  obtain ⟨position, latest, disconnected⟩ := disconnect_states server clientId client
  exact ⟨position, latest, fun before => disconnected.mpr (Or.inr before)⟩

theorem slots_follows (server : Server) (messages : List StorageControl) (received : Nat → List StorageInsert) (slots : StorageSlots)
    (follows : server.Follows messages received)
    (closed : ∀ client, .clientFinalize client ∈ messages → ∀ slot ∈ newSlots slots, slot.2 ≠ client) :
    (server.storageSlots slots).Follows (messages ++ [.slots slots]) received := by
  have states : (server.storageSlots slots).clientState = server.clientState := by
    unfold Server.storageSlots
    split <;> rfl
  have contents : contentsAfter (messages ++ [.slots slots]) received = (contentsAfter messages received).extend (newSlots slots) := by
    simp only [contentsAfter, Contents.extend, slots_in_snoc, controlSlots, Contents.mk.injEq, true_and]
    funext client
    by_cases sealed : .clientFinalize client ∈ messages
    · rw [if_pos (by simp [sealed]), if_pos sealed, padded_extend _ _ _ _ (closed client sealed)]
    · rw [if_neg (by simp [sealed]), if_neg sealed]
  constructor
  · rw [contents]
    exact storage_slots_tracks server _ slots follows.tracks
  · intro client
    rw [states, slots_in_snoc, latest_gsn_extend server messages received client _ follows.tracks]
    exact follows.latest client
  · intro client member
    rw [states]
    exact follows.stopped client (by simpa using member)

-- Messages that neither bring slots nor close a client leave the contents.
theorem quiet_contents (messages : List StorageControl) (received : Nat → List StorageInsert) (message : StorageControl)
    (quiet : controlSlots message = []) (open_ : ∀ client, message ≠ .clientFinalize client) :
    contentsAfter (messages ++ [message]) received = contentsAfter messages received ∧
      slotsIn (messages ++ [message]) = slotsIn messages := by
  have same : slotsIn (messages ++ [message]) = slotsIn messages := by rw [slots_in_snoc, quiet, List.append_nil]
  refine ⟨?_, same⟩
  simp only [contentsAfter, same, Contents.mk.injEq, true_and]
  funext client
  have members : StorageControl.clientFinalize client ∈ messages ++ [message] ↔ .clientFinalize client ∈ messages := by
    simp [Ne.symm (open_ client)]
  simp only [members]

theorem quiet_follows (server : Server) (messages : List StorageControl) (received : Nat → List StorageInsert)
    (message : StorageControl) (follows : server.Follows messages received) (quiet : controlSlots message = [])
    (open_ : ∀ client, message ≠ .clientFinalize client)
    (stopped : ∀ client, message = .clientFreeze client → (server.clientState client).disconnected = true) :
    server.Follows (messages ++ [message]) received := by
  obtain ⟨contents, slots⟩ := quiet_contents messages received message quiet open_
  constructor
  · rw [contents]
    exact follows.tracks
  · intro client
    rw [slots]
    exact follows.latest client
  · intro client member
    cases List.mem_append.mp member with
    | inl old => exact follows.stopped client old
    | inr new => exact stopped client (List.mem_singleton.mp new).symm

theorem freeze_follows (server : Server) (messages : List StorageControl) (received : Nat → List StorageInsert) (clientId : Nat)
    (follows : server.Follows messages received) :
    (server.disconnect clientId).Follows (messages ++ [.clientFreeze clientId]) received := by
  apply quiet_follows _ _ _ _ (disconnect_follows server messages received clientId follows) rfl
  · intro client
    simp
  · intro client same
    cases same
    exact (disconnect_states server clientId clientId).2.2.mpr (Or.inl rfl)

-- Some slot of the client has this GSN and holds this payload.
def Recorded (slots : List (Nat × Nat)) (received : List StorageInsert) (client gsn : Nat) (data : Bytes) : Prop :=
  ∃ rank : Nat, (gsns slots client)[rank]? = some gsn ∧ (filledBy received)[rank]? = some data ∧ data ≠ []

theorem recorded_fills (messages : List StorageControl) (received : Nat → List StorageInsert) (client rank : Nat) (data : Bytes)
    (access : ((contentsAfter messages received).fills client)[rank]? = some data) (nonempty : data ≠ []) :
    (filledBy (received client))[rank]? = some data := by
  simp only [contentsAfter] at access
  split at access
  · rw [padded] at access
    rcases Nat.lt_or_ge rank (filledBy (received client)).length with inside | outside
    · rw [List.getElem?_append_left inside] at access
      exact access
    · rw [List.getElem?_append_right outside] at access
      exact absurd (List.eq_of_mem_replicate (List.mem_of_getElem? access)) nonempty
  · exact access

theorem client_data_recorded (server : Server) (messages : List StorageControl) (received : Nat → List StorageInsert) (client : Nat)
    (indices : List Nat) (tracks : server.Tracks (contentsAfter messages received))
    (inside : ∀ index ∈ indices, index ∈ chain (slotsIn messages) client) :
    ∃ data, server.clientData (indices.map ptr) = .ok data ∧ ∀ message ∈ data, message.clientId = client ∧
      message.shardId = server.shardId ∧ message.replicaId = server.replicaId ∧
      Recorded (slotsIn messages) (received client) client message.gsn message.data := by
  induction indices with
  | nil => exact ⟨[], rfl, fun message member => by cases member⟩
  | cons index rest ih =>
      obtain ⟨data, ran, known⟩ := ih (fun other member => inside other (List.mem_cons_of_mem _ member))
      obtain ⟨rank, access⟩ := List.mem_iff_getElem?.mp (inside index List.mem_cons_self)
      obtain ⟨entry, read, cell⟩ := tracks.rep.cells client rank index access
      simp only [List.map_cons, Server.clientData, read, ran, bind, Except.bind, pure, Except.pure]
      by_cases payload : 0 < entry.dataLength
      · refine ⟨_, if_pos payload, ?_⟩
        intro message member
        rw [List.mem_cons] at member
        cases member with
        | inr old => exact known message old
        | inl new =>
            subst new
            have nonempty : ((contentsAfter messages received).fills client).getD rank [] ≠ [] := by
              intro empty
              rw [cell.length, empty] at payload
              exact Nat.lt_irrefl 0 payload
            have bound : rank < ((contentsAfter messages received).fills client).length := by
              apply Nat.lt_of_not_le
              intro beyond
              exact nonempty (List.getD_eq_default _ _ beyond)
            refine ⟨cell.owner, rfl, rfl, rank, ?_, ?_, ?_⟩
            · rw [gsns_access _ _ _ _ access, show (slotsIn messages)[index]? = _ from cell.slot]
              rfl
            · apply recorded_fills messages received client rank
              · rw [List.getElem?_eq_getElem bound, ← List.getD_eq_getElem _ [] bound]
                exact congrArg some cell.payload.symm
              · rw [cell.payload]
                exact nonempty
            · rw [cell.payload]
              exact nonempty
      · exact ⟨data, if_neg payload, known⟩

-- storage_client_cut is always answered, with recorded data and a flush.
theorem client_cut_recorded (server : Server) (messages : List StorageControl) (received : Nat → List StorageInsert)
    (req : StorageClientCut) (follows : server.Follows messages received) :
    ∃ data, server.storageClientCut req = .ok data ∧ ∀ message ∈ data, message.clientId = req.clientId ∧
      message.shardId = server.shardId ∧ message.replicaId = server.replicaId ∧
      (message.gsn = uint64Max ∨ Recorded (slotsIn messages) (received req.clientId) req.clientId message.gsn message.data) := by
  have tracks := follows.tracks
  obtain ⟨indices, suffix, inside⟩ : ∃ indices : List Nat, server.log.suffix (server.clientState req.clientId).position req.beginGsn =
      .ok (indices.map ptr) ∧ ∀ index ∈ indices, index ∈ chain (slotsIn messages) req.clientId := by
    rw [tracks.position]
    refine ⟨_, suffix_chain server.log _ req.clientId req.beginGsn tracks.rep, ?_⟩
    intro index member
    exact List.mem_of_mem_take (List.mem_reverse.mp (List.takeWhile_subset _ member))
  obtain ⟨data, ran, known⟩ := client_data_recorded server messages received req.clientId indices tracks inside
  simp only [Server.storageClientCut, suffix, bind, Except.bind, ran, pure, Except.pure]
  by_cases answered : (server.clientState req.clientId).latestGsn ≠ uint64Max
  · refine ⟨_, if_pos answered, ?_⟩
    intro message member
    cases List.mem_append.mp member with
    | inl old =>
        obtain ⟨owner, shard, replica, recorded⟩ := known message old
        exact ⟨owner, shard, replica, Or.inr recorded⟩
    | inr new =>
        rw [List.mem_singleton.mp new]
        exact ⟨rfl, rfl, rfl, Or.inl rfl⟩
  · refine ⟨_, if_neg answered, ?_⟩
    intro message member
    rw [List.mem_singleton.mp member]
    exact ⟨rfl, rfl, rfl, Or.inl rfl⟩

-- A patch for a slot that the client has already filled here changes nothing.
theorem patch_skipped (server : Server) (messages : List StorageControl) (received : Nat → List StorageInsert)
    (patch : StorageClientPatch) (beyond : Bytes) (rank : Nat) (follows : server.Follows messages received)
    (increasing : Increasing (slotsIn messages)) (access : (gsns (slotsIn messages) patch.clientId)[rank]? = some patch.gsn)
    (inside : rank < (filledBy (received patch.clientId)).length) :
    server.storageClientPatch patch beyond = .ok server := by
  have some : received patch.clientId ≠ [] := by
    intro empty
    rw [empty] at inside
    exact Nat.not_lt_zero _ inside
  have bound := filled_bound server messages received patch.clientId follows.tracks
  rw [chain_length] at bound
  have last : (filledBy (received patch.clientId)).length - 1 < (gsns (slotsIn messages) patch.clientId).length := by omega
  have sorted : (gsns (slotsIn messages) patch.clientId).Pairwise (· < ·) :=
    List.Pairwise.map _ (fun _ _ less => less) (increasing.filter _)
  obtain ⟨rankBound, value⟩ := List.getElem?_eq_some_iff.mp access
  have least : patch.gsn ≤ (gsns (slotsIn messages) patch.clientId)[(filledBy (received patch.clientId)).length - 1] := by
    rcases Nat.lt_or_eq_of_le (Nat.le_sub_one_of_lt inside) with less | same
    · rw [← value]
      exact Nat.le_of_lt (List.pairwise_iff_getElem.mp sorted _ _ rankBound last less)
    · simp only [← same, value]
      exact Nat.le_refl _
  have latest := follows.latest patch.clientId
  rw [latestGsn, if_neg some, List.getElem?_eq_getElem last, Option.getD_some] at latest
  unfold Server.storageClientPatch
  dsimp only
  rw [latest, if_neg (Nat.not_lt.mpr least)]

theorem finalize_follows (server : Server) (messages : List StorageControl) (received : Nat → List StorageInsert) (clientId : Nat)
    (follows : server.Follows messages received) (open_ : .clientFinalize clientId ∉ messages) :
    ∃ next, server.storageClientFinalize clientId = .ok next ∧ next.Follows (messages ++ [.clientFinalize clientId]) received ∧
      next.shardId = server.shardId ∧ next.replicaId = server.replicaId ∧ next.log.numEntries = server.log.numEntries ∧
      ∀ client, (next.clientState client).connected = (server.clientState client).connected ∧
        (next.clientState client).disconnected = (server.clientState client).disconnected := by
  obtain ⟨log, position, ran, tracks, _, published⟩ := storage_client_finalize_tracks server _ clientId follows.tracks
  have slots : slotsIn (messages ++ [.clientFinalize clientId]) = slotsIn messages :=
    (slots_in_snoc messages (.clientFinalize clientId)).trans (List.append_nil _)
  have contents : contentsAfter (messages ++ [.clientFinalize clientId]) received =
      (contentsAfter messages received).seal clientId := by
    simp only [contentsAfter, Contents.seal, Contents.push, slots, Contents.mk.injEq, true_and]
    funext client
    by_cases mine : client = clientId
    · subst mine
      rw [if_pos (by simp), Function.update_self, if_neg open_, padded]
    · rw [Function.update_of_ne mine]
      by_cases sealed : .clientFinalize client ∈ messages
      · rw [if_pos (by simp [sealed]), if_pos sealed]
      · rw [if_neg (by simp [sealed, mine]), if_neg sealed]
  have states : ∀ client, (({ server with log := log }.setClientState clientId
      { server.clientState clientId with position := position }).clientState client).connected =
        (server.clientState client).connected ∧ (({ server with log := log }.setClientState clientId
      { server.clientState clientId with position := position }).clientState client).disconnected =
        (server.clientState client).disconnected ∧ (({ server with log := log }.setClientState clientId
      { server.clientState clientId with position := position }).clientState client).latestGsn =
        (server.clientState client).latestGsn := by
    intro client
    by_cases mine : client = clientId
    · subst mine
      rw [client_state_same]
      exact ⟨rfl, rfl, rfl⟩
    · rw [client_state_other _ _ _ _ mine]
      exact ⟨rfl, rfl, rfl⟩
  refine ⟨_, ran, ⟨?_, ?_, ?_⟩, rfl, rfl, published, fun client => ⟨(states client).1, (states client).2.1⟩⟩
  · rw [contents]
    exact tracks
  · intro client
    rw [(states client).2.2, slots]
    exact follows.latest client
  · intro client member
    rw [(states client).2.1]
    exact follows.stopped client (by simpa using member)

theorem contents_after_insert (messages : List StorageControl) (received : Nat → List StorageInsert) (req : StorageInsert)
    (open_ : .clientFinalize req.clientId ∉ messages) :
    contentsAfter messages (Function.update received req.clientId (received req.clientId ++ [req])) =
      (contentsAfter messages received).push req.clientId (payloads req) := by
  simp only [contentsAfter, Contents.push, Contents.mk.injEq, true_and]
  funext client
  by_cases mine : client = req.clientId
  · subst mine
    rw [if_neg open_, if_neg open_, Function.update_self, Function.update_self, filled_by_snoc]
  · rw [Function.update_of_ne mine, Function.update_of_ne mine]

-- storage_insert of a client that is still there. The answer is the GSN of the
-- last slot that it fills.
theorem insert_follows (server next : Server) (messages : List StorageControl) (received : Nat → List StorageInsert)
    (req : StorageInsert) (beyond : Bytes) (reply : Option ClientInsertAck) (follows : server.Follows messages received)
    (positive : 1 ≤ req.numSlots) (joined : (server.clientState req.clientId).disconnected = false)
    (open_ : .clientFinalize req.clientId ∉ messages) (handled : server.storageInsert req beyond = .ok (next, reply)) :
    next.Follows messages (Function.update received req.clientId (received req.clientId ++ [req])) ∧
      next.shardId = server.shardId ∧ next.replicaId = server.replicaId ∧ next.log.numEntries = server.log.numEntries ∧
      (∃ gsn, reply = some ⟨server.replicaId, gsn⟩ ∧
        (gsns (slotsIn messages) req.clientId)[(filledBy (received req.clientId ++ [req])).length - 1]? = some gsn) ∧
      ∀ client, (next.clientState client).connected = (server.clientState client).connected ∧
        (next.clientState client).disconnected = (server.clientState client).disconnected := by
  obtain ⟨gsn, answer, value, tracks, _, published, position, result⟩ :=
    storage_insert_tracks server next _ req beyond reply follows.tracks positive joined handled
  have length : (filledBy (received req.clientId ++ [req])).length = (filledBy (received req.clientId)).length + req.numSlots := by
    rw [filled_by_snoc, List.length_append, payloads_length req positive]
  have fills : (contentsAfter messages received).fills req.clientId = filledBy (received req.clientId) := if_neg open_
  rw [fills] at value
  have states : ∀ client, client ≠ req.clientId → next.clientState client = server.clientState client := by
    intro client different
    rw [result, client_state_other _ _ _ _ different]
  have own : next.clientState req.clientId = { server.clientState req.clientId with position := position, latestGsn := gsn } := by
    rw [result, client_state_same]
  refine ⟨⟨?_, ?_, ?_⟩, ?_, ?_, published, ⟨gsn, answer, by rw [length]; exact value⟩, ?_⟩
  · rw [contents_after_insert messages received req open_]
    exact tracks
  · intro client
    by_cases mine : client = req.clientId
    · subst mine
      rw [own, Function.update_self, latestGsn, if_neg (by simp), length]
      change gsn = _
      rw [show (gsns (slotsIn messages) req.clientId)[_]? = some gsn from value]
      rfl
    · rw [states client mine, Function.update_of_ne mine]
      exact follows.latest client
  · intro client member
    by_cases mine : client = req.clientId
    · subst mine
      rw [own]
      exact follows.stopped req.clientId member
    · rw [states client mine]
      exact follows.stopped client member
  · rw [result]
    rfl
  · rw [result]
    rfl
  · intro client
    by_cases mine : client = req.clientId
    · subst mine
      rw [own]
      exact ⟨rfl, rfl⟩
    · rw [states client mine]
      exact ⟨rfl, rfl⟩

theorem slots_in_grow (first second : List StorageControl) (before : first <+: second) : slotsIn first <+: slotsIn second := by
  obtain ⟨more, rfl⟩ := before
  rw [slotsIn, slotsIn, List.flatMap_append]
  exact List.prefix_append _ _

theorem filled_by_grows (first second : List StorageInsert) (before : first <+: second) : filledBy first <+: filledBy second := by
  obtain ⟨more, rfl⟩ := before
  rw [filledBy, filledBy, List.flatMap_append]
  exact List.prefix_append _ _

theorem gsns_grow (first second : List (Nat × Nat)) (client : Nat) (before : first <+: second) :
    gsns first client <+: gsns second client := by
  obtain ⟨more, rfl⟩ := before
  rw [gsns_append]
  exact List.prefix_append _ _

theorem prefix_access {ν : Type} (first second : List ν) (before : first <+: second) (rank : Nat) (value : ν)
    (access : first[rank]? = some value) : second[rank]? = some value := by
  obtain ⟨more, rfl⟩ := before
  rw [List.getElem?_append_left (List.getElem?_eq_some_iff.mp access).1]
  exact access

end ZipLog.Storage
