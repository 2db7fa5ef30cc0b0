import ZipLog.Api
import Mathlib.Logic.Function.Basic

set_option autoImplicit false

namespace ZipLog.Storage

-- An entry* is the block it points into and the slot within that block. Blocks
-- are never freed while the server runs, so a pointer never dangles.
structure Ptr where
  block : Nat
  slot : Nat
deriving DecidableEq, Repr

-- The uint64_t data field holds up to eight bytes itself; a longer payload is
-- behind a pointer to the copy that std::malloc returned.
inductive Word where
  | inline (bytes : Bytes)
  | pointer (bytes : Bytes)
deriving DecidableEq, Repr

structure Entry where
  clientId : Nat
  gsn : Nat
  dataLength : Nat
  data : Word
  set : Bool
  next : Option Ptr
  prev : Option Ptr
deriving DecidableEq, Repr

def Entry.zero : Entry := ⟨0, 0, 0, .inline (List.replicate 8 0), false, none, none⟩

abbrev Block := Nat → Entry

-- allocate_huge_page: the contents of the page that becomes block i. The pages
-- come from fresh anonymous memory, which reads as zero.
abbrev Memory := Nat → Block

def zeroed : Memory := fun _ _ => Entry.zero

structure Log where
  blocks : List Block
  currentEntries : Nat
  numEntries : Nat
  firstEntry : Nat → Option Ptr
  lastEntry : Nat → Option Ptr
  entry : Nat
  block : Nat

def Log.init (memory : Memory) : Log := ⟨[memory 0], 0, 0, fun _ => none, fun _ => none, 0, 0⟩

def Log.read (log : Log) (ptr : Ptr) : Option Entry := log.blocks[ptr.block]?.map (fun block => block ptr.slot)

def Log.modify (log : Log) (ptr : Ptr) (change : Entry → Entry) : Log :=
  { log with
    blocks := log.blocks.modify ptr.block (fun block => Function.update block ptr.slot (change (block ptr.slot))) }

-- The body of add_entries' yield for a client of this shard. A full last block
-- is followed by a new one before the entry is taken from it.
def Log.grow (memory : Memory) (log : Log) : Log :=
  if log.entry = numEntriesPerBlock then
    { log with blocks := log.blocks ++ [memory log.blocks.length], block := log.block + 1, entry := 0 }
  else log

def Log.append (log : Log) (gsn clientId : Nat) : Log :=
  let entry : Ptr := ⟨log.block, log.entry⟩
  let log := { log with entry := log.entry + 1 }
  let log := log.modify entry (fun e => { e with gsn := gsn, clientId := clientId })
  let log :=
    match log.lastEntry clientId with
    | some last =>
        (log.modify entry (fun e => { e with prev := some last })).modify last (fun e => { e with next := some entry })
    | none => { log with firstEntry := Function.update log.firstEntry clientId (some entry) }
  { log with
    lastEntry := Function.update log.lastEntry clientId (some entry)
    currentEntries := log.currentEntries + 1 }

def Log.yield (memory : Memory) (log : Log) (gsn clientId : Nat) : Log := (log.grow memory).append gsn clientId

-- The yield lambda: slots of other shards only advance start_gsn.
def yieldSlot (memory : Memory) (assignment : Assignment) (state : Log × Nat) : Log × Nat :=
  (if assignment.clientId = uint64Max then state.1 else state.1.yield memory state.2 assignment.clientId,
    uint64 (state.2 + 1))

-- One pass of the inner loop over the secondary clients. errors[j - 1] is a
-- long long; the subtraction and the addition are done modulo 2^64.
def secondaryLoop {τ : Type} (yield : Assignment → τ → τ) (primary : Nat) :
    List Assignment → List Int → τ → List Int × τ
  | assignment :: assignments, error :: errors, state =>
      let error := longLong (error - assignment.numSlots)
      if error < 0 then
        let rest := secondaryLoop yield primary assignments errors (yield assignment state)
        (longLong (error + primary) :: rest.1, rest.2)
      else
        let rest := secondaryLoop yield primary assignments errors state
        (error :: rest.1, rest.2)
  | _, _, state => ([], state)

def slotLoop {τ : Type} (yield : Assignment → τ → τ) (primary : Assignment) (secondary : List Assignment) :
    Nat → List Int → τ → τ
  | 0, _, state => state
  | rounds + 1, errors, state =>
      let result := secondaryLoop yield primary.numSlots secondary errors (yield primary state)
      slotLoop yield primary secondary rounds result.1 result.2

def generateSlots {τ : Type} (yield : Assignment → τ → τ) (assignments : List Assignment) (state : τ) : τ :=
  match assignments with
  | [] => state
  | primary :: secondary =>
      let error := longLong (primary.numSlots / assignments.length : Nat)
      slotLoop yield primary secondary primary.numSlots (List.replicate secondary.length error) state

-- The caller skips messages without clients, so assignments[0] exists here.
def Log.addEntries (memory : Memory) (log : Log) (slots : StorageSlots) : Log :=
  let log := (generateSlots (yieldSlot memory) slots.assignments (log, slots.startGsn)).1
  { log with numEntries := log.currentEntries }

-- A failed ZIP_ASSERT ends the process. diverged marks a while loop that would
-- not stop, badAccess the dereference of a pointer outside the blocks.
inductive Fault where
  | assertNotNull
  | assertEq
  | diverged
  | badAccess
deriving DecidableEq, Repr

-- The bytes at a handler's data[0]: those the message carries, then whatever
-- the receive ring holds behind them.
structure Buffer where
  data : Bytes
  beyond : Bytes
deriving DecidableEq, Repr

-- Between one and eight bytes are copied as a whole word, so what lies beyond a
-- shorter payload comes along.
def allocCopy (buffer : Buffer) : Word :=
  if 8 < buffer.data.length then .pointer buffer.data
  else if 0 < buffer.data.length then .inline ((buffer.data ++ buffer.beyond).take 8)
  else .inline (List.replicate 8 0)

-- How storage::subscriber and the recovery code read an entry back: a word is
-- stored as a whole but only data_length bytes of it are sent.
def Entry.payload (entry : Entry) : Bytes :=
  match entry.data with
  | .pointer bytes => if 8 < entry.dataLength then bytes.take entry.dataLength else []
  | .inline bytes => if 8 < entry.dataLength then [] else bytes.take entry.dataLength

def Entry.close (entry : Entry) : Entry := { entry with set := true }

def Entry.fill (buffer : Buffer) (entry : Entry) : Entry :=
  { entry with data := allocCopy buffer, dataLength := buffer.data.length, set := true }

def Log.follow (log : Log) (ptr : Ptr) : Option Ptr := (log.read ptr).bind Entry.next

-- The first lines of insert and patch: a position that has not moved yet starts
-- at the first entry of its client.
def Log.seek (log : Log) (clientId : Nat) : Option Ptr → Option Ptr
  | none => log.firstEntry clientId
  | some current => log.follow current

def Log.closeSlots : Nat → Log → Ptr → Except Fault (Log × Ptr)
  | 0, log, current => .ok (log, current)
  | count + 1, log, current =>
      let log := log.modify current Entry.close
      match log.follow current with
      | none => .error .assertNotNull
      | some next => Log.closeSlots count log next

structure Inserted where
  log : Log
  current : Ptr
  gsn : Nat

def Log.store (log : Log) (current : Ptr) (buffer : Buffer) : Except Fault Inserted :=
  match log.read current with
  | none => .error .badAccess
  | some entry => .ok ⟨log.modify current (Entry.fill buffer), current, entry.gsn⟩

-- --close on an unsigned long.
def decrement (close : Nat) : Nat := if close = 0 then uint64Max else close - 1

-- position::insert. while (--close) runs close - 1 times, and 2^64 - 1 times
-- when close is zero.
def Log.insert (log : Log) (clientId : Nat) (current : Option Ptr) (buffer : Buffer) (close : Nat) :
    Except Fault Inserted :=
  match log.seek clientId current with
  | none => .error .assertNotNull
  | some first => do
      let (log, current) ← log.closeSlots (decrement close) first
      log.store current buffer

-- The matching loop of position::patch. The fuel bounds the number of entries
-- that can be visited; running out of it means the list is cyclic.
def Log.closeBelow (gsn : Nat) : Nat → Log → Ptr → Except Fault (Log × Ptr)
  | 0, _, _ => .error .diverged
  | fuel + 1, log, current =>
      match log.read current with
      | none => .error .badAccess
      | some entry =>
          if entry.gsn < gsn then
            let log := log.modify current Entry.close
            match log.follow current with
            | none => .error .assertNotNull
            | some next => Log.closeBelow gsn fuel log next
          else .ok (log, current)

def Log.patch (log : Log) (clientId : Nat) (current : Option Ptr) (buffer : Buffer) (gsn : Nat) :
    Except Fault Inserted :=
  match log.seek clientId current with
  | none => .error .assertNotNull
  | some first => do
      let (log, current) ← log.closeBelow gsn log.currentEntries first
      if (log.read current).map Entry.gsn = some gsn then log.store current buffer else .error .assertEq

def Log.suffixFrom (log : Log) (beginGsn : Nat) : Nat → Option Ptr → Except Fault (List Ptr)
  | _, none => .ok []
  | 0, some _ => .error .diverged
  | fuel + 1, some current =>
      match log.read current with
      | none => .error .badAccess
      | some entry =>
          if beginGsn = uint64Max ∨ beginGsn < entry.gsn then
            return current :: (← log.suffixFrom beginGsn fuel entry.prev)
          else .ok []

def Log.suffix (log : Log) (current : Option Ptr) (beginGsn : Nat) : Except Fault (List Ptr) :=
  log.suffixFrom beginGsn log.currentEntries current

def Log.closeRest : Nat → Log → Ptr → Except Fault (Log × Ptr)
  | 0, _, _ => .error .diverged
  | fuel + 1, log, current =>
      match log.follow current with
      | none => .ok (log, current)
      | some next => Log.closeRest fuel (log.modify next Entry.close) next

-- position::close.
def Log.close (log : Log) (clientId : Nat) (current : Option Ptr) : Except Fault (Log × Option Ptr) :=
  let started :=
    match current, log.firstEntry clientId with
    | none, some first => (log.modify first Entry.close, some first)
    | _, _ => (log, current)
  match started with
  | (log, none) => .ok (log, none)
  | (log, some current) => do
      let (log, current) ← log.closeRest log.currentEntries current
      return (log, some current)

-- storage::iterator. iterator_ is the node of the block list it stands on.
structure Iterator where
  entryIndex : Nat
  stride : Nat
  currentEntries : Nat
  iterator : Nat
  blockIndex : Nat
  entry : Option Ptr
deriving DecidableEq, Repr

def Iterator.init (index stride : Nat) : Iterator := ⟨index, stride, 0, 0, 0, none⟩

-- The part of next_entry that picks the entry to wait for. Truncated
-- subtraction counts the turns of the while loop that advances the block.
def Iterator.pick (log : Log) (it : Iterator) : Iterator :=
  if it.entryIndex ≥ it.currentEntries ∧ it.entryIndex ≥ log.numEntries then
    { it with currentEntries := log.numEntries }
  else
    let cached := if it.entryIndex ≥ it.currentEntries then log.numEntries else it.currentEntries
    let turns := it.entryIndex / numEntriesPerBlock - it.blockIndex
    { it with
      currentEntries := cached
      blockIndex := it.blockIndex + turns
      iterator := it.iterator + turns
      entry := some ⟨it.iterator + turns, it.entryIndex % numEntriesPerBlock⟩
      entryIndex := it.entryIndex + it.stride }

def Iterator.nextEntry (log : Log) (it : Iterator) : Except Fault (Iterator × Option Entry) :=
  let it := if it.entry = none then it.pick log else it
  match it.entry with
  | none => .ok (it, none)
  | some ptr =>
      match log.read ptr with
      | none => .error .badAccess
      | some entry => if entry.set then .ok ({ it with entry := none }, some entry) else .ok (it, none)

end ZipLog.Storage
