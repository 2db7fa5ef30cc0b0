import ZipLog.Api
import Mathlib.Data.List.Sort
import Mathlib.Data.Prod.Lex
import Mathlib.Logic.Function.Basic

set_option autoImplicit false

namespace ZipLog.Order

-- order::client_state. cuts and data are std::maps, so their lists are sorted
-- by key; the send queue is the client's entry in the list of sent messages.
structure ClientState where
  shardId : Nat
  numSlots : Nat
  failed : Bool
  requested : Bool
  cuts : List (Nat × Nat)
  flushed : List Nat
  data : List (Nat × Bytes)
deriving DecidableEq, Repr

def ClientState.init (shardId numSlots : Nat) : ClientState := ⟨shardId, numSlots, false, false, [], [], []⟩

-- What the loop works on. Keys of client_state_ are below MAX_CLIENTS, which
-- add_client checks.
structure State where
  numShards : Nat
  gsnBase : Nat
  storageQueues : Nat → List Nat
  clientState : Nat → Option ClientState

def State.init (numShards : Nat) : State := ⟨numShards, 0, fun _ => [], fun _ => none⟩

inductive ClientControl where
  | storageInfo (replicas : List Nat)
  | newEpoch (beginning numSlots : Nat)
  | orderFinished
deriving DecidableEq, Repr

inductive Sent where
  | storage (shardId replicaId : Nat) (message : StorageControl)
  | client (clientId : Nat) (message : ClientControl)
deriving DecidableEq, Repr

def State.setClientState (state : State) (clientId : Nat) (client : Option ClientState) : State :=
  { state with clientState := Function.update state.clientState clientId client }

-- One walk over client_state_. The container is unordered; the callers do not
-- depend on the order.
def State.clients (state : State) : List (Nat × ClientState) :=
  (List.range maxClients).filterMap (fun clientId => (state.clientState clientId).map (fun client => (clientId, client)))

def State.broadcast (state : State) (shardId : Nat) (message : StorageControl) : List Sent :=
  (state.storageQueues shardId).map (fun replicaId => .storage shardId replicaId message)

-- add_storage, less the address. The assertion that no client has been added
-- yet is the caller's premise.
def State.addStorage (state : State) (shardId replicaId : Nat) : State :=
  if state.numShards ≤ shardId ∨ maxReplicas ≤ replicaId ∨ replicaId ∈ state.storageQueues shardId then state
  else { state with
    storageQueues := Function.update state.storageQueues shardId (state.storageQueues shardId ++ [replicaId]) }

def State.addClient (state : State) (clientId shardId numSlots : Nat) : State × List Sent :=
  if state.numShards ≤ shardId ∨ maxClients ≤ clientId ∨ (state.clientState clientId).isSome ∨
      maxClients ≤ state.clients.length then
    (state, [])
  else
    (state.setClientState clientId (some (ClientState.init shardId numSlots)),
      [.client clientId (.storageInfo (state.storageQueues shardId))])

-- The three lambdas of the loop.
def State.failed (state : State) (clientId : Nat) (client : ClientState) : State × List Sent :=
  (state.setClientState clientId (some { client with failed := true }),
    state.broadcast client.shardId (.clientFreeze clientId))

def State.requested (state : State) (clientId : Nat) (client : ClientState) (minCut : Nat) : State × List Sent :=
  (state.setClientState clientId (some { client with requested := true }),
    state.broadcast client.shardId (.clientCut ⟨clientId, minCut⟩))

def State.finalized (state : State) (clientId : Nat) (client : ClientState) : State × List Sent :=
  let patches := client.data.flatMap (fun data =>
    state.broadcast client.shardId (.clientPatch ⟨clientId, data.1, data.2⟩))
  (state.setClientState clientId none,
    (if client.requested then patches else []) ++ state.broadcast client.shardId (.clientFinalize clientId))

-- util::align for a multiple that is not a power of two.
def align (multiple value : Nat) : Nat := uint64 (multiple * (uint64 (value + multiple - 1) / multiple))

def State.clientRate (state : State) (clientId numSlots : Nat) : State :=
  match state.clientState clientId with
  | none => state
  | some client => state.setClientState clientId (some { client with numSlots := align minSlots (max 1 numSlots) })

def State.clientFinished (state : State) (clientId : Nat) : State × List Sent :=
  match state.clientState clientId with
  | none => (state, [])
  | some client =>
      let result := state.finalized clientId client
      (result.1, .client clientId .orderFinished :: result.2)

-- failure_apply at the ordering service and an order_client_freeze message have
-- the same effect.
def State.clientFreeze (state : State) (clientId : Nat) : State × List Sent :=
  match state.clientState clientId with
  | none => (state, [])
  | some client => if client.failed then (state, []) else state.failed clientId client

-- operator[] and try_emplace of std::map for a key that is not there yet.
def insertKey {ν : Type} (key : Nat) (value : ν) : List (Nat × ν) → List (Nat × ν)
  | [] => [(key, value)]
  | head :: rest => if key < head.1 then (key, value) :: head :: rest else head :: insertKey key value rest

-- cuts.begin()->second and cuts.rbegin()->second: the cuts of the smallest and
-- of the largest replica ID.
def minCut (cuts : List (Nat × Nat)) : Nat := (cuts.head?.map Prod.snd).getD 0

def maxCut (cuts : List (Nat × Nat)) : Nat :=
  let max := (cuts.getLast?.map Prod.snd).getD 0
  if minCut cuts ≠ max ∧ max = uint64Max then
    ((cuts.reverse.tail.find? (fun cut => cut.2 ≠ uint64Max)).map Prod.snd).getD max
  else max

def State.clientCut (state : State) (cut : OrderClientCut) : State × List Sent :=
  match state.clientState cut.clientId with
  | none => (state, [])
  | some client =>
      if client.failed = false then (state, [])
      else if client.shardId ≠ cut.shardId ∨ cut.replicaId ∈ client.cuts.map Prod.fst then (state, [])
      else
        let client := { client with cuts := insertKey cut.replicaId cut.latestGsn client.cuts }
        let state := state.setClientState cut.clientId (some client)
        if client.requested = false ∧ client.cuts.length = (state.storageQueues client.shardId).length then
          if minCut client.cuts = maxCut client.cuts then state.finalized cut.clientId client
          else state.requested cut.clientId client (minCut client.cuts)
        else (state, [])

def State.clientData (state : State) (data : OrderClientData) : State × List Sent :=
  match state.clientState data.clientId with
  | none => (state, [])
  | some client =>
      if client.requested = false then (state, [])
      else if client.shardId ≠ data.shardId ∨ data.replicaId ∈ client.flushed then (state, [])
      else if data.gsn = uint64Max then
        let client := { client with flushed := client.flushed ++ [data.replicaId] }
        let state := state.setClientState data.clientId (some client)
        if client.flushed.length = (state.storageQueues client.shardId).length then state.finalized data.clientId client
        else (state, [])
      else if data.gsn ∈ client.data.map Prod.fst then (state, [])
      else
        (state.setClientState data.clientId (some { client with data := insertKey data.gsn data.data client.data }), [])

-- One element of the slots vector of the epoch branch.
structure Slots where
  numSlots : Nat
  shardId : Nat
  clientId : Nat
deriving DecidableEq, Repr

-- std::greater on the tuples: decreasing in the number of slots, then in the
-- shard ID, then in the client ID.
def Slots.after (first second : Slots) : Prop :=
  second.numSlots < first.numSlots ∨ second.numSlots = first.numSlots ∧
    (second.shardId < first.shardId ∨ second.shardId = first.shardId ∧ second.clientId ≤ first.clientId)

instance : DecidableRel Slots.after := fun first second => inferInstanceAs (Decidable
  (second.numSlots < first.numSlots ∨ second.numSlots = first.numSlots ∧
    (second.shardId < first.shardId ∨ second.shardId = first.shardId ∧ second.clientId ≤ first.clientId)))

def active (clients : List (Nat × ClientState)) : List Slots :=
  (clients.filter (fun entry => entry.2.failed = false)).map (fun entry => ⟨entry.2.numSlots, entry.2.shardId, entry.1⟩)

def State.slots (state : State) : List Slots := (active state.clients).insertionSort Slots.after

def totalSlots (slots : List Slots) : Nat := slots.foldl (fun total slot => uint64 (total + slot.numSlots)) 0

-- The message for one shard: every client takes part in the interleaving, the
-- clients of other shards without a name.
def State.storageSlots (state : State) (shardId : Nat) : StorageSlots :=
  ⟨state.gsnBase, state.slots.map (fun slot =>
    ⟨if slot.shardId ≠ shardId then uint64Max else slot.clientId, slot.numSlots⟩)⟩

def State.epoch (state : State) (now : Nat) : State × List Sent :=
  ({ state with gsnBase := uint64 (state.gsnBase + totalSlots (active state.clients)) },
    (active state.clients).map (fun slot => .client slot.clientId (.newEpoch (now + epochDurationNs) slot.numSlots)) ++
    (List.range state.numShards).flatMap (fun shardId =>
      state.broadcast shardId (.slots (state.storageSlots shardId))))

end ZipLog.Order
