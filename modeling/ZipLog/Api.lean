import Mathlib.Algebra.Group.Int.Defs
import Mathlib.Algebra.Group.Nat.Defs
import Mathlib.Data.Nat.Basic

set_option autoImplicit false

namespace ZipLog

-- Machine words are natural numbers. Every operation of the source that can
-- wrap is written with uint64 or longLong, so a bound that rules the wrap out
-- is always a visible premise.
def uint64 (n : Nat) : Nat := n % 2 ^ 64

def uint64Max : Nat := 2 ^ 64 - 1

def uint32 (n : Nat) : Nat := n % 2 ^ 32

def longLong (n : Int) : Int := n.bmod (2 ^ 64)

abbrev Bytes := List UInt8

def hugePageSize : Nat := 2 ^ 21
def sendBufferSize : Nat := 2 ^ 11
def receiveBufferSize : Nat := 2 ^ 18
def maxInlineData : Nat := 192
def maxReceiveRequests : Nat := 64
def receiveBatchSize : Nat := 8
def messageAlignment : Nat := 64
def maxQueuePairs : Nat := 2048
def maxReplicas : Nat := 10
def numShards : Nat := 1
def numEntriesPerBlock : Nat := 1024 * 256
def minSlots : Nat := 100
def maxOutstandingRequests : Nat := 128
def epochDurationNs : Nat := 5000000

-- SEND_BUFFER_SIZE less the fixed part of subscriber_log_entry and storage_slots.
def maxPayload : Nat := 2048 - 56
def maxClients : Nat := (2048 - 24) / 16

theorem entries_per_block_pos : 0 < numEntriesPerBlock := by decide

theorem uint64_of_lt {n : Nat} (small : n < 2 ^ 64) : uint64 n = n := Nat.mod_eq_of_lt small

theorem long_long_exact (value : Int) (lower : -2 ^ 63 ≤ value) (upper : value < 2 ^ 63) : longLong value = value := by
  unfold longLong
  apply Int.bmod_eq_of_le <;> omega

-- storage_slots::assignment; the client ID is uint64Max when the slots belong
-- to another shard.
structure Assignment where
  clientId : Nat
  numSlots : Nat
deriving DecidableEq, Repr

-- num_clients is the length of the trailing array, which util::apply compares
-- with the length of the packet before any handler sees the message.
structure StorageSlots where
  startGsn : Nat
  assignments : List Assignment
deriving DecidableEq, Repr

-- data_length is the length of the trailing bytes, for the same reason.
structure StorageInsert where
  clientId : Nat
  numSlots : Nat
  data : Bytes
deriving DecidableEq, Repr

structure ClientInsertAck where
  replicaId : Nat
  gsn : Nat
deriving DecidableEq, Repr

structure StorageClientCut where
  clientId : Nat
  beginGsn : Nat
deriving DecidableEq, Repr

structure StorageClientPatch where
  clientId : Nat
  gsn : Nat
  data : Bytes
deriving DecidableEq, Repr

structure OrderClientCut where
  clientId : Nat
  shardId : Nat
  replicaId : Nat
  latestGsn : Nat
deriving DecidableEq, Repr

structure OrderClientData where
  clientId : Nat
  shardId : Nat
  replicaId : Nat
  gsn : Nat
  data : Bytes
deriving DecidableEq, Repr

structure SubscriberLogEntry where
  replicaId : Nat
  shardId : Nat
  threadId : Nat
  clientId : Nat
  gsn : Nat
  data : Bytes
deriving DecidableEq, Repr

-- What the peer of a connection says of itself, with the number of send queues
-- that the connection has. valid is false for a packet of another length or type.
structure StorageIntro where
  valid : Bool
  shardId : Nat
  replicaId : Nat
  clientQueues : Nat
  sendQueues : Nat
deriving DecidableEq, Repr

-- What travels on each link. The last argument-free cases carry only an ID.
inductive StorageControl where
  | slots (slots : StorageSlots)
  | clientFreeze (clientId : Nat)
  | clientCut (cut : StorageClientCut)
  | clientPatch (patch : StorageClientPatch)
  | clientFinalize (clientId : Nat)
deriving DecidableEq, Repr

inductive OrderControl where
  | clientFreeze (clientId : Nat)
  | clientCut (cut : OrderClientCut)
  | clientData (data : OrderClientData)
deriving DecidableEq, Repr

inductive StorageRequest where
  | insert (insert : StorageInsert)
  | clientFinished (clientId : Nat)
deriving DecidableEq, Repr

inductive StorageReply where
  | insertAck (ack : ClientInsertAck)
  | storageFinished (shardId replicaId : Nat)
deriving DecidableEq, Repr

end ZipLog
