import ZipLog.Subscriber.Log

set_option autoImplicit false

namespace ZipLog.Subscriber

-- The locals of one subscriber::poll thread. replica_id and num_acks of an
-- entry are one union, so in a copied entry replicaId is the number of ACKs.
-- shard_info is keyed by shard and thread; an entry that is not there yet is in
-- its initial state. inserting is the argument of the position::insert call
-- that the thread is in, where it may have to wait for a block.
structure Poller where
  currentRequests : Nat → Option SubscriberLogEntry
  shardInfo : Nat × Nat → Nat × Position
  inserting : Option SubscriberLogEntry

def Poller.init : Poller := ⟨fun _ => none, fun _ => (uint64Max, Position.init), none⟩

def key (entry : SubscriberLogEntry) : Nat × Nat := (entry.shardId, entry.threadId)

def Poller.counted (failures : Nat) (poller : Poller) (current entry : SubscriberLogEntry) : Poller :=
  let entry := { entry with replicaId := entry.replicaId + 1 }
  if failures < entry.replicaId then
    { currentRequests := Function.update poller.currentRequests current.gsn none
      shardInfo := Function.update poller.shardInfo (key current) (current.gsn, (poller.shardInfo (key current)).2)
      inserting := some entry }
  else { poller with currentRequests := Function.update poller.currentRequests current.gsn (some entry) }

def Poller.poll (failures : Nat) (poller : Poller) (current : SubscriberLogEntry) : Poller :=
  let gsn := (poller.shardInfo (key current)).1
  if gsn ≠ uint64Max ∧ current.gsn ≤ gsn then poller
  else
    match poller.currentRequests current.gsn with
    | none => poller.counted failures current { current with replicaId := 0 }
    | some entry =>
        if entry.shardId ≠ current.shardId ∨ entry.clientId ≠ current.clientId ∨ entry.threadId ≠ current.threadId ∨
            entry.data.length ≠ current.data.length then
          poller
        else poller.counted failures current entry

-- The call of position::insert returns.
def Poller.store (log : Log) (poller : Poller) : Option (Log × Poller) :=
  match poller.inserting with
  | none => none
  | some entry =>
      let info := poller.shardInfo (key entry)
      if info.2.ready log entry.gsn then
        match info.2.insert log entry with
        | none => none
        | some (log, position) =>
            some (log, { poller with
              shardInfo := Function.update poller.shardInfo (key entry) (info.1, position)
              inserting := none })
      else none

end ZipLog.Subscriber
