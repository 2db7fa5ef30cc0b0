import ZipLog.Api

set_option autoImplicit false

namespace ZipLog.Client

-- response identifies the caller's atomic; no-ops have none.
structure Outstanding where
  response : Option Nat
  gsn : Nat
  numAcks : Nat
deriving DecidableEq, Repr

-- Times are in nanoseconds, in the signed words of std::chrono.
structure Epoch where
  beginning : Int
  first : Nat
  last : Nat
deriving DecidableEq, Repr

def firstEpoch : Epoch := ⟨-2 ^ 63, 0, 0⟩

-- The locals of client::loop. stored lists the responses that have been set, in
-- the order of the stores; the requested rate comes from floating point
-- arithmetic and is an input of switchEpoch.
structure Loop where
  clientId : Nat
  shardId : Nat
  failures : Nat
  latestGsn : Nat
  queues : List Nat
  stopped : Bool
  ended : Bool
  consumed : Nat
  assigned : Nat
  current : Epoch
  epochs : List Epoch
  outstanding : List Outstanding
  requests : List (Bytes × Nat)
  stored : List (Nat × Nat)
deriving DecidableEq, Repr

def Loop.init (clientId shardId failures : Nat) : Loop :=
  ⟨clientId, shardId, failures, uint64Max, [], false, false, 0, 0, firstEpoch, [], [], [], []⟩

-- client::insert; the caller's assertion bounds the payload.
def Loop.insert (client : Loop) (data : Bytes) (response : Nat) : Loop :=
  { client with requests := client.requests ++ [(data, response)] }

def Loop.clientStorageInfo (client : Loop) (replicas : List Nat) : Loop :=
  { client with queues := client.queues ++ replicas.filter (fun replicaId => replicaId ∉ client.queues) }

def Loop.clientNewEpoch (client : Loop) (beginning numSlots : Nat) : Loop :=
  { client with
    epochs := client.epochs ++ [⟨beginning, client.assigned, uint64 (client.assigned + numSlots)⟩]
    assigned := uint64 (client.assigned + numSlots) }

def Loop.switchEpoch (client : Loop) (now : Nat) : Loop :=
  match client.epochs with
  | [] => client
  | epoch :: epochs => if epoch.beginning ≤ now then { client with current := epoch, epochs := epochs } else client

def Loop.elapsed (client : Loop) (now : Nat) : Int := longLong (now - client.current.beginning)

def unsigned (value : Int) : Nat := (value % 2 ^ 64).toNat

def Loop.ideal (client : Loop) (now : Nat) : Nat :=
  let width := unsigned (client.current.last - client.current.first)
  let micros := unsigned ((client.elapsed now).tdiv 1000)
  uint64 (client.current.first + uint64 (width * micros) / (epochDurationNs / 1000))

-- One turn of the send branch. The message goes to every queue.
def Loop.send (client : Loop) (now : Nat) : Loop × Option StorageInsert :=
  if client.stopped = false ∧ client.consumed < client.ideal now ∧ client.failures < client.queues.length ∧
      client.outstanding.length ≤ maxOutstandingRequests ∧ client.elapsed now ≤ epochDurationNs then
    let advanced := client.ideal now - client.consumed
    match client.requests with
    | (data, response) :: requests =>
        ({ client with
          requests := requests
          outstanding := client.outstanding ++ [⟨some response, uint64Max, 0⟩]
          consumed := uint64 (client.consumed + advanced) }, some ⟨client.clientId, advanced, data⟩)
    | [] =>
        if client.outstanding = [] then
          ({ client with
            outstanding := [⟨none, uint64Max, 0⟩]
            consumed := uint64 (client.consumed + advanced) }, some ⟨client.clientId, advanced, []⟩)
        else (client, none)
  else (client, none)

def Outstanding.matching (gsn : Nat) (elem : Outstanding) : Bool := elem.gsn = uint64Max ∨ gsn = elem.gsn

def Outstanding.counted (gsn : Nat) (elem : Outstanding) : Outstanding :=
  { elem with gsn := if elem.gsn = uint64Max then gsn else elem.gsn, numAcks := elem.numAcks + 1 }

def Loop.clientInsertAck (client : Loop) (ack : ClientInsertAck) : Loop :=
  if client.latestGsn ≠ uint64Max ∧ ack.gsn ≤ client.latestGsn then client
  else
    match client.outstanding.findIdx? (Outstanding.matching ack.gsn) with
    | none => client
    | some index =>
        match client.outstanding[index]? with
        | none => client
        | some elem =>
            let elem := elem.counted ack.gsn
            if client.failures < elem.numAcks then
              { client with
                stored := client.stored ++ elem.response.toList.map (fun response => (response, elem.gsn))
                latestGsn := elem.gsn
                outstanding := client.outstanding.eraseIdx index }
            else { client with outstanding := client.outstanding.set index elem }

-- The stop check at the head of the loop, with whether client_finished goes to
-- the storage servers.
def Loop.checkStop (client : Loop) : Loop × Bool :=
  if client.stopped then (client, false) else ({ client with stopped := true }, true)

-- storage_finished, with whether client_finished goes to the ordering service.
def Loop.storageFinished (client : Loop) (shardId replicaId : Nat) : Loop × Bool :=
  if shardId ≠ client.shardId ∨ replicaId ∉ client.queues then (client, false)
  else
    let queues := client.queues.filter (fun other => other ≠ replicaId)
    ({ client with queues := queues }, queues = [])

def Loop.orderFinished (client : Loop) : Loop := { client with ended := true }

end ZipLog.Client
