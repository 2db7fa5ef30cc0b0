import ZipLog.Client.Ack
import ZipLog.System.Progress

set_option autoImplicit false

namespace ZipLog.System

-- A client: its loop, the history of client::insert and of the inserts it has
-- sent with their responses, and its links. outbox lists what was sent to each
-- replica of its shard and taken how much of it the server has handled; heard
-- and noticed count what the client has handled of the replies and of the
-- messages of the ordering service.
structure Caller where
  loop : Client.Loop
  requested : List (Bytes × Nat)
  sent : List (StorageInsert × Option Nat)
  noticed : Nat
  outbox : Nat → List StorageRequest
  taken : Nat → Nat
  heard : Nat → Nat
  goodbyes : Nat
  departed : Nat

def Caller.init (clientId shardId failures : Nat) : Caller :=
  { loop := Client.Loop.init clientId shardId failures
    requested := []
    sent := []
    noticed := 0
    outbox := fun _ => []
    taken := fun _ => 0
    heard := fun _ => 0
    goodbyes := 0
    departed := 0 }

-- queue.send to all the storage servers the client is connected with.
def Caller.post (caller : Caller) (message : StorageRequest) : Caller :=
  { caller with
    outbox := fun replica => if replica ∈ caller.loop.queues then caller.outbox replica ++ [message] else caller.outbox replica }

def Caller.enqueue (caller : Caller) (data : Bytes) (response : Nat) : Caller :=
  { caller with loop := caller.loop.insert data response, requested := caller.requested ++ [(data, response)] }

def Caller.notice (caller : Caller) (message : Order.ClientControl) : Caller :=
  let loop :=
    match message with
    | .storageInfo replicas => caller.loop.clientStorageInfo replicas
    | .newEpoch beginning numSlots => caller.loop.clientNewEpoch beginning numSlots
    | .orderFinished => caller.loop.orderFinished
  { caller with loop := loop, noticed := caller.noticed + 1 }

def Caller.send (caller : Caller) (now : Nat) : Caller :=
  match caller.loop.send now with
  | (loop, none) => { caller with loop := loop }
  | (loop, some message) =>
      { caller.post (.insert message) with
        loop := loop
        sent := caller.sent ++ [(message, loop.outstanding.getLast?.bind Client.Outstanding.response)] }

def Caller.stop (caller : Caller) : Caller :=
  match caller.loop.checkStop with
  | (loop, false) => { caller with loop := loop }
  | (loop, true) => { caller.post (.clientFinished caller.loop.clientId) with loop := loop }

def Caller.reply (caller : Caller) (replica : Nat) (message : StorageReply) : Caller :=
  let caller := { caller with heard := Function.update caller.heard replica (caller.heard replica + 1) }
  match message with
  | .insertAck ack => { caller with loop := caller.loop.clientInsertAck ack }
  | .storageFinished shardId replicaId =>
      let result := caller.loop.storageFinished shardId replicaId
      { caller with loop := result.1, goodbyes := if result.2 then caller.goodbyes + 1 else caller.goodbyes }

-- The cluster with its clients, none of which fails. The rate a client asks for
-- is an input, as is the clock.
structure Service where
  cluster : Cluster
  clients : Nat → Option Caller

def Service.init (numShards : Nat) (replicas : Nat → List Nat) : Service := ⟨Cluster.init numShards replicas, fun _ => none⟩

inductive Move where
  | join (clientId shardId numSlots : Nat)
  | clientRate (clientId numSlots : Nat)
  | epoch (now : Nat)
  | connect (place : Place) (clientId : Nat)
  | control (place : Place)
  | enqueue (clientId : Nat) (data : Bytes) (response : Nat)
  | notice (clientId : Nat)
  | switchEpoch (clientId now : Nat)
  | send (clientId now : Nat)
  | stop (clientId : Nat)
  | reply (clientId replica : Nat)
  | serve (clientId replica : Nat) (beyond : Bytes)
  | farewell (clientId : Nat)
deriving DecidableEq, Repr

def Service.setClient (s : Service) (clientId : Nat) (caller : Caller) : Service :=
  { s with clients := Function.update s.clients clientId (some caller) }

-- The loop of a client takes a turn while it has not ended.
def Service.turn (s : Service) (clientId : Nat) (act : Caller → Option Caller) : Option Service :=
  match s.clients clientId with
  | none => none
  | some caller => if caller.loop.ended then none else (act caller).map (s.setClient clientId)

def served (place : Place) (beyond : Bytes) : StorageRequest → Event
  | .insert req => .insert place req beyond
  | .clientFinished clientId => .leave place clientId

def Service.step (failures : Nat) (s : Service) : Move → Option Service
  | .join clientId shardId numSlots =>
      if (s.clients clientId).isSome then none
      else (s.cluster.step (.addClient clientId shardId numSlots)).map (fun cluster =>
        { s with cluster := cluster }.setClient clientId (Caller.init clientId shardId failures))
  | .clientRate clientId numSlots =>
      (s.cluster.step (.clientRate clientId numSlots)).map (fun cluster => { s with cluster := cluster })
  | .epoch now => (s.cluster.step (.epoch now)).map (fun cluster => { s with cluster := cluster })
  | .connect place clientId => (s.cluster.step (.connect place clientId)).map (fun cluster => { s with cluster := cluster })
  | .control place => (s.cluster.step (.control place [])).map (fun cluster => { s with cluster := cluster })
  | .enqueue clientId data response =>
      if data.length ≤ maxPayload then (s.clients clientId).map (fun caller => s.setClient clientId (caller.enqueue data response))
      else none
  | .notice clientId =>
      s.turn clientId (fun caller => ((s.cluster.notices clientId)[caller.noticed]?).map caller.notice)
  | .switchEpoch clientId now => s.turn clientId (fun caller => some { caller with loop := caller.loop.switchEpoch now })
  | .send clientId now => s.turn clientId (fun caller => some (caller.send now))
  | .stop clientId => s.turn clientId (fun caller => some caller.stop)
  | .reply clientId replica =>
      s.turn clientId (fun caller =>
        ((s.cluster.replies (caller.loop.shardId, replica) clientId)[caller.heard replica]?).map (caller.reply replica))
  | .serve clientId replica beyond =>
      match s.clients clientId with
      | none => none
      | some caller =>
          match (caller.outbox replica)[caller.taken replica]? with
          | none => none
          | some request =>
              (s.cluster.step (served (caller.loop.shardId, replica) beyond request)).map (fun cluster =>
                { s with cluster := cluster }.setClient clientId
                  { caller with taken := Function.update caller.taken replica (caller.taken replica + 1) })
  | .farewell clientId =>
      match s.clients clientId with
      | none => none
      | some caller =>
          if caller.departed < caller.goodbyes then
            (s.cluster.step (.finish clientId)).map (fun cluster =>
              { s with cluster := cluster }.setClient clientId { caller with departed := caller.departed + 1 })
          else none

end ZipLog.System
