import ZipLog.Lib.Run
import ZipLog.Order.Partition
import ZipLog.Storage.Control

set_option autoImplicit false

namespace ZipLog.System

-- A storage server: its shard and its replica ID.
abbrev Place := Nat × Nat

-- The ordering service, the storage servers and the links between them. Links
-- are reliable and in order: control and reports list everything that was sent,
-- handled and reported how much of it the receiver has taken. received and
-- replies are the history of the client threads, notices what went to clients.
-- A client ID is not used twice; homes remembers the shard of its client.
structure Cluster where
  order : Order.State
  homes : Nat → Option Nat
  servers : Place → Storage.Server
  control : Place → List StorageControl
  handled : Place → Nat
  reports : Place → List OrderControl
  reported : Place → Nat
  received : Place → Nat → List StorageInsert
  replies : Place → Nat → List StorageReply
  notices : Nat → List Order.ClientControl
  fault : Bool

def Cluster.init (numShards : Nat) (replicas : Nat → List Nat) : Cluster :=
  { order := { Order.State.init numShards with storageQueues := replicas }
    homes := fun _ => none
    servers := fun place => Storage.Server.init place.1 place.2
    control := fun _ => []
    handled := fun _ => 0
    reports := fun _ => []
    reported := fun _ => 0
    received := fun _ _ => []
    replies := fun _ _ => []
    notices := fun _ => []
    fault := false }

def toStorage (place : Place) : Order.Sent → Option StorageControl
  | .storage shardId replicaId message => if (shardId, replicaId) = place then some message else none
  | .client _ _ => none

def toClient (clientId : Nat) : Order.Sent → Option Order.ClientControl
  | .storage _ _ _ => none
  | .client other message => if other = clientId then some message else none

-- The ordering service has handled something: its new state and what it sent.
def Cluster.ordered (s : Cluster) (result : Order.State × List Order.Sent) : Cluster :=
  { s with
    order := result.1
    control := fun place => s.control place ++ result.2.filterMap (toStorage place)
    notices := fun clientId => s.notices clientId ++ result.2.filterMap (toClient clientId) }

def orderReport (order : Order.State) : OrderControl → Order.State × List Order.Sent
  | .clientFreeze clientId => order.clientFreeze clientId
  | .clientCut cut => order.clientCut cut
  | .clientData data => order.clientData data

def Cluster.setServer (s : Cluster) (place : Place) (server : Storage.Server) : Cluster :=
  { s with servers := Function.update s.servers place server }

inductive Event where
  | addClient (clientId shardId numSlots : Nat)
  | clientRate (clientId numSlots : Nat)
  | epoch (now : Nat)
  | detect (clientId : Nat)
  | finish (clientId : Nat)
  | report (place : Place)
  | connect (place : Place) (clientId : Nat)
  | control (place : Place) (beyond : Bytes)
  | insert (place : Place) (req : StorageInsert) (beyond : Bytes)
  | leave (place : Place) (clientId : Nat)
  | suspect (place : Place) (clientId : Nat)
deriving DecidableEq, Repr

def Cluster.controlled (s : Cluster) (place : Place) (server : Storage.Server) (reports : List OrderControl) : Cluster :=
  { s.setServer place server with
    handled := Function.update s.handled place (s.handled place + 1)
    reports := Function.update s.reports place (s.reports place ++ reports) }

def Cluster.answered (s : Cluster) (place : Place) (clientId : Nat) (server : Storage.Server) (inserts : List StorageInsert)
    (replies : List StorageReply) : Cluster :=
  { s.setServer place server with
    received := Function.update s.received place
      (Function.update (s.received place) clientId (s.received place clientId ++ inserts))
    replies := Function.update s.replies place (Function.update (s.replies place) clientId (s.replies place clientId ++ replies)) }

def Cluster.joined (s : Cluster) (clientId shardId numSlots : Nat) : Cluster :=
  let result := s.order.addClient clientId shardId numSlots
  { s.ordered result with
    homes := Function.update s.homes clientId ((result.1.clientState clientId).map Order.ClientState.shardId) }

def Cluster.serves (s : Cluster) (place : Place) : Bool := place.2 ∈ s.order.storageQueues place.1

def Cluster.suspected (s : Cluster) (place : Place) (clientId : Nat) : Cluster :=
  { s.setServer place ((s.servers place).disconnect clientId) with
    reports := Function.update s.reports place (s.reports place ++ [.clientFreeze clientId]) }

def Cluster.heard (s : Cluster) (place : Place) (message : OrderControl) : Cluster :=
  { s.ordered (orderReport s.order message) with reported := Function.update s.reported place (s.reported place + 1) }

-- The next control message of a server, unless its handler has to wait.
def Cluster.pending (s : Cluster) (place : Place) : Option StorageControl :=
  ((s.control place)[s.handled place]?).filter (fun message => (s.servers place).waits message = false)

-- A handler of storage::control that faults ends the server, which fault
-- records. An insert that runs out of slots does not take place.
def Cluster.step (s : Cluster) : Event → Option Cluster
  | .addClient clientId shardId numSlots =>
      if (s.homes clientId).isSome then none else some (s.joined clientId shardId numSlots)
  | .clientRate clientId numSlots => some (s.ordered (s.order.clientRate clientId numSlots, []))
  | .epoch now => if s.order.Fits then some (s.ordered (s.order.epoch now)) else none
  | .detect clientId => some (s.ordered (s.order.clientFreeze clientId))
  | .finish clientId => some (s.ordered (s.order.clientFinished clientId))
  | .report place => if s.serves place then ((s.reports place)[s.reported place]?).map (s.heard place) else none
  | .connect place clientId =>
      if s.serves place then some (s.setServer place ((s.servers place).addClient clientId)) else none
  | .control place beyond =>
      if s.serves place then
        (s.pending place).map (fun message =>
          match (s.servers place).control message beyond with
          | .error _ => { s with fault := true }
          | .ok (server, reports) => s.controlled place server reports)
      else none
  | .insert place req beyond =>
      if s.serves place ∧ ((s.servers place).clientState req.clientId).connected then
        match (s.servers place).storageInsert req beyond with
        | .error _ => none
        | .ok (_, none) => some s
        | .ok (server, some ack) => some (s.answered place req.clientId server [req] [.insertAck ack])
      else none
  | .leave place clientId =>
      if s.serves place ∧ ((s.servers place).clientState clientId).connected then
        let result := (s.servers place).clientFinished clientId
        some (s.answered place clientId result.1 [] result.2.toList)
      else none
  | .suspect place clientId =>
      if s.serves place ∧ ((s.servers place).clientState clientId).connected then some (s.suspected place clientId) else none

-- What a server does with the next control message, and with a request of a client.
theorem control_taken (s next : Cluster) (place : Place) (beyond : Bytes) (stepped : s.step (.control place beyond) = some next) :
    s.serves place = true ∧ ∃ message, s.pending place = some message ∧
      ((∃ fault, (s.servers place).control message beyond = .error fault ∧ next = { s with fault := true }) ∨
        ∃ server reports, (s.servers place).control message beyond = .ok (server, reports) ∧ next = s.controlled place server reports) := by
  obtain ⟨enabled, handled⟩ := Option.ite_none_right_eq_some.mp stepped
  obtain ⟨message, pending, rfl⟩ := Option.map_eq_some_iff.mp handled
  refine ⟨enabled, message, pending, ?_⟩
  cases (s.servers place).control message beyond with
  | error fault => exact Or.inl ⟨fault, rfl, rfl⟩
  | ok result => exact Or.inr ⟨result.1, result.2, rfl, rfl⟩

theorem insert_taken (s next : Cluster) (place : Place) (req : StorageInsert) (beyond : Bytes)
    (stepped : s.step (.insert place req beyond) = some next) :
    s.serves place = true ∧ ((s.servers place).clientState req.clientId).connected = true ∧
      ((∃ server, (s.servers place).storageInsert req beyond = .ok (server, none) ∧ next = s) ∨
        ∃ server ack, (s.servers place).storageInsert req beyond = .ok (server, some ack) ∧
          next = s.answered place req.clientId server [req] [.insertAck ack]) := by
  obtain ⟨enabled, handled⟩ := Option.ite_none_right_eq_some.mp stepped
  refine ⟨enabled.1, enabled.2, ?_⟩
  split at handled
  · cases handled
  · rename_i server ran
    exact Or.inl ⟨server, ran, (Option.some.inj handled).symm⟩
  · rename_i server ack ran
    exact Or.inr ⟨server, ack, ran, (Option.some.inj handled).symm⟩

end ZipLog.System
