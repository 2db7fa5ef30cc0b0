import ZipLog.Storage.Slots

set_option autoImplicit false

namespace ZipLog.Storage

-- storage::client_state, less the lock and the condition variable. position is
-- the current_entry_ of the client's position.
structure ClientState where
  connected : Bool
  disconnected : Bool
  position : Option Ptr
  latestGsn : Nat
deriving DecidableEq, Repr

-- get_client_state creates the state of a client on its first use, so a client
-- that was never heard of is one in its initial state.
structure Server where
  shardId : Nat
  replicaId : Nat
  log : Log
  clientState : Nat → ClientState

def ClientState.init : ClientState := ⟨false, false, none, uint64Max⟩

def Server.init (shardId replicaId : Nat) : Server := ⟨shardId, replicaId, Log.init zeroed, fun _ => ClientState.init⟩

def Server.setClientState (server : Server) (clientId : Nat) (state : ClientState) : Server :=
  { server with clientState := Function.update server.clientState clientId state }

def Server.addClient (server : Server) (clientId : Nat) : Server :=
  let state := server.clientState clientId
  if maxClients ≤ clientId ∨ state.connected then server
  else server.setClientState clientId { state with connected := true }

def Server.storageSlots (server : Server) (slots : StorageSlots) : Server :=
  if 0 < slots.assignments.length then { server with log := server.log.addEntries zeroed slots } else server

-- The handlers below wait on state.cv until the client is connected; whoever
-- calls them checks connected first. A client is only ever marked disconnected.
def Server.disconnect (server : Server) (clientId : Nat) : Server :=
  server.setClientState clientId { server.clientState clientId with disconnected := true }

def Server.storageClientFreeze (server : Server) (clientId : Nat) : Server × OrderClientCut :=
  (server.disconnect clientId,
    ⟨clientId, server.shardId, server.replicaId, (server.clientState clientId).latestGsn⟩)

-- The data messages of the entries that hold a payload, newest first, as the
-- loop over suffix sends them.
def Server.clientData (server : Server) : List Ptr → Except Fault (List OrderClientData)
  | [] => .ok []
  | here :: rest =>
      match server.log.read here with
      | none => .error .badAccess
      | some entry => do
          let data ← server.clientData rest
          if 0 < entry.dataLength then
            return ⟨entry.clientId, server.shardId, server.replicaId, entry.gsn, entry.payload⟩ :: data
          else return data

def Server.storageClientCut (server : Server) (req : StorageClientCut) : Except Fault (List OrderClientData) :=
  let state := server.clientState req.clientId
  let flush : OrderClientData := ⟨req.clientId, server.shardId, server.replicaId, uint64Max, []⟩
  if state.latestGsn ≠ uint64Max then do
    let entries ← server.log.suffix state.position req.beginGsn
    let data ← server.clientData entries
    return data ++ [flush]
  else .ok [flush]

def Server.inserted (server : Server) (clientId : Nat) (result : Inserted) : Server :=
  { server with log := result.log }.setClientState clientId
    { server.clientState clientId with position := some result.current }

-- The third argument of position::insert is the number of slots to close; the
-- handler passes the GSN there.
def Server.storageClientPatch (server : Server) (data : StorageClientPatch) (beyond : Bytes) : Except Fault Server :=
  let state := server.clientState data.clientId
  if data.gsn > state.latestGsn then do
    let result ← server.log.insert data.clientId state.position ⟨data.data, beyond⟩ data.gsn
    return server.inserted data.clientId result
  else .ok server

def Server.storageClientFinalize (server : Server) (clientId : Nat) : Except Fault Server := do
  let state := server.clientState clientId
  let (log, position) ← server.log.close clientId state.position
  return { server with log := log }.setClientState clientId { state with position := position }

def Server.storageInsert (server : Server) (req : StorageInsert) (beyond : Bytes) :
    Except Fault (Server × Option ClientInsertAck) :=
  let state := server.clientState req.clientId
  if state.disconnected then .ok (server, none)
  else do
    let result ← server.log.insert req.clientId state.position ⟨req.data, beyond⟩ req.numSlots
    return ({ server with log := result.log }.setClientState req.clientId
      { state with position := some result.current, latestGsn := result.gsn }, some ⟨server.replicaId, result.gsn⟩)

def Server.clientFinished (server : Server) (clientId : Nat) : Server × Option StorageReply :=
  if (server.clientState clientId).disconnected then (server, none)
  else (server.disconnect clientId, some (.storageFinished server.shardId server.replicaId))

-- The server's log and all its positions represent one abstract contents.
structure Server.Tracks (server : Server) (contents : Contents) : Prop where
  rep : Represents server.log contents
  position : ∀ client, (server.clientState client).position = (contents.cursor client).map ptr

theorem init_tracks (shardId replicaId : Nat) : (Server.init shardId replicaId).Tracks Contents.empty :=
  ⟨init_represents, fun _ => rfl⟩

theorem client_state_same (server : Server) (client : Nat) (state : ClientState) :
    (server.setClientState client state).clientState client = state := Function.update_self _ _ _

theorem client_state_other (server : Server) (client other : Nat) (state : ClientState) (different : other ≠ client) :
    (server.setClientState client state).clientState other = server.clientState other :=
  Function.update_of_ne different _ _

-- Connecting and disconnecting leave the positions alone.
theorem set_client_state_tracks (server : Server) (contents : Contents) (client : Nat) (state : ClientState)
    (tracks : server.Tracks contents) (same : state.position = (server.clientState client).position) :
    (server.setClientState client state).Tracks contents := by
  refine ⟨tracks.rep, ?_⟩
  intro other
  by_cases mine : other = client
  · subst mine
    rw [client_state_same, same]
    exact tracks.position other
  · rw [client_state_other _ _ _ _ mine]
    exact tracks.position other

theorem add_client_tracks (server : Server) (contents : Contents) (client : Nat) (tracks : server.Tracks contents) :
    (server.addClient client).Tracks contents := by
  simp only [Server.addClient]
  split
  · exact tracks
  · exact set_client_state_tracks server contents client _ tracks rfl

theorem disconnect_tracks (server : Server) (contents : Contents) (client : Nat) (tracks : server.Tracks contents) :
    (server.disconnect client).Tracks contents :=
  set_client_state_tracks server contents client _ tracks rfl

theorem new_slots_nil (startGsn : Nat) : newSlots ⟨startGsn, []⟩ = [] := rfl

theorem storage_slots_tracks (server : Server) (contents : Contents) (slots : StorageSlots) (tracks : server.Tracks contents) :
    (server.storageSlots slots).Tracks (contents.extend (newSlots slots)) := by
  obtain ⟨startGsn, assignments⟩ := slots
  cases assignments with
  | nil => simpa [Server.storageSlots, new_slots_nil, extend_nil] using tracks
  | cons primary secondary =>
      refine ⟨(add_entries_represents server.log contents _ tracks.rep).1, ?_⟩
      intro client
      rw [cursor_extend _ _ _ (tracks.rep.filled client)]
      exact tracks.position client

-- What one insert leaves in the client's slots.
def payloads (req : StorageInsert) : List Bytes := List.replicate (req.numSlots - 1) [] ++ [req.data]

theorem payloads_length (req : StorageInsert) (positive : 1 ≤ req.numSlots) : (payloads req).length = req.numSlots := by
  simp only [payloads, List.length_append, List.length_replicate, List.length_singleton]
  omega

theorem payloads_ne_nil (req : StorageInsert) : payloads req ≠ [] := by simp [payloads]

-- Moving one client's position to where its pushed payloads end.
theorem pushed_tracks (server : Server) (contents : Contents) (client : Nat) (pushed : List Bytes) (log : Log) (state : ClientState)
    (tracks : server.Tracks contents) (rep : Represents log (contents.push client pushed))
    (here : state.position = ((contents.push client pushed).cursor client).map ptr) :
    ({ server with log := log }.setClientState client state).Tracks (contents.push client pushed) := by
  refine ⟨rep, ?_⟩
  intro other
  by_cases mine : other = client
  · subst mine
    rw [client_state_same, here]
  · rw [client_state_other _ _ _ _ mine, cursor_push_other _ _ _ _ mine]
    exact tracks.position other

-- storage_insert of a client that is not disconnected: it is answered with the
-- GSN of the last of the slots it takes.
theorem storage_insert_tracks (server next : Server) (contents : Contents) (req : StorageInsert) (beyond : Bytes)
    (reply : Option ClientInsertAck) (tracks : server.Tracks contents) (positive : 1 ≤ req.numSlots)
    (joined : (server.clientState req.clientId).disconnected = false)
    (handled : server.storageInsert req beyond = .ok (next, reply)) :
    ∃ gsn, reply = some ⟨server.replicaId, gsn⟩ ∧
      (gsns contents.slots req.clientId)[(contents.fills req.clientId).length + req.numSlots - 1]? = some gsn ∧
      next.Tracks (contents.push req.clientId (payloads req)) ∧ Final server.log next.log ∧
      next.log.numEntries = server.log.numEntries ∧
      ∃ position, next = { server with log := next.log }.setClientState req.clientId
        { server.clientState req.clientId with position := position, latestGsn := gsn } := by
  simp only [Server.storageInsert, joined, Bool.false_eq_true, if_false, tracks.position] at handled
  cases ran : server.log.insert req.clientId ((contents.cursor req.clientId).map ptr) ⟨req.data, beyond⟩ req.numSlots with
  | error fault =>
      rw [ran] at handled
      cases handled
  | ok result =>
      rw [ran] at handled
      cases handled
      obtain ⟨last, there, current, slot, rep, final⟩ :=
        insert_ok server.log contents req.clientId ⟨req.data, beyond⟩ req.numSlots result tracks.rep positive ran
      have published := insert_published _ _ _ _ _ _ ran
      refine ⟨result.gsn, rfl, ?_, ?_, final, published, some result.current, by simp only [joined]; rfl⟩
      · rw [gsns_access _ _ _ _ there, slot]
        rfl
      · refine pushed_tracks server contents req.clientId (payloads req) result.log _ tracks rep ?_
        rw [cursor_push _ _ _ (payloads_ne_nil req), payloads_length req positive, there, current]
        rfl

theorem storage_client_finalize_tracks (server : Server) (contents : Contents) (client : Nat) (tracks : server.Tracks contents) :
    ∃ log position, server.storageClientFinalize client =
        .ok ({ server with log := log }.setClientState client { server.clientState client with position := position }) ∧
      ({ server with log := log }.setClientState client { server.clientState client with position := position }).Tracks
        (contents.seal client) ∧
      Final server.log log ∧ log.numEntries = server.log.numEntries := by
  obtain ⟨log, closed, rep, final⟩ := close_seals server.log contents client tracks.rep
  have published := close_published _ _ _ _ _ closed
  refine ⟨log, ((contents.seal client).cursor client).map ptr, ?_, ?_, final, published⟩
  · simp only [Server.storageClientFinalize, tracks.position client, closed]
    rfl
  · exact pushed_tracks server contents client _ log _ tracks rep rfl

end ZipLog.Storage
