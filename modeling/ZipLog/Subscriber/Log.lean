import ZipLog.Api
import Mathlib.Logic.Function.Basic

set_option autoImplicit false

namespace ZipLog.Subscriber

-- A block is an array of atomic entry pointers; null is none.
abbrev Block := Nat → Option SubscriberLogEntry

def zeroed : Block := fun _ => none

-- blocks_ and counters_ are lists that only grow at the back, so an iterator
-- into them is an index. A recycled block leaves a null behind.
structure Log where
  blocks : List (Option Block)
  counters : List Nat
  block : Nat
  counter : Nat
  numBlocks : Nat
  numIterators : Nat

def Log.init (numIterators : Nat) : Log := ⟨[some zeroed, some zeroed], [0, 0], 0, 0, 2, numIterators⟩

def Log.recycleBlocks (log : Log) : Log :=
  if log.counters[log.counter]? = some log.numIterators then
    { log with
      blocks := log.blocks.set log.block none ++ [some zeroed]
      counters := log.counters ++ [0]
      numBlocks := log.numBlocks + 1
      counter := log.counter + 1
      block := log.block + 1 }
  else log

-- A null block or a list end that is dereferenced is a bad access.
def Log.load (log : Log) (block slot : Nat) : Option (Option SubscriberLogEntry) :=
  (log.blocks[block]?.join).map (fun cells => cells slot)

def Log.store (log : Log) (block slot : Nat) (entry : SubscriberLogEntry) : Option Log :=
  match log.blocks[block]?.join with
  | none => none
  | some cells => some { log with blocks := log.blocks.set block (some (Function.update cells slot (some entry))) }

structure Position where
  currentBlocks : Nat
  iterator : Nat
  blockIndex : Nat
deriving DecidableEq, Repr

def Position.init : Position := ⟨0, 0, 0⟩

-- insert spins on num_blocks_ while the block does not exist yet.
def Position.ready (log : Log) (position : Position) (gsn : Nat) : Prop :=
  gsn / numEntriesPerBlock < position.currentBlocks ∨ gsn / numEntriesPerBlock < log.numBlocks

instance (log : Log) (position : Position) (gsn : Nat) : Decidable (position.ready log gsn) :=
  inferInstanceAs (Decidable (_ ∨ _))

def Position.seek (log : Log) (position : Position) (gsn : Nat) : Position :=
  let block := gsn / numEntriesPerBlock
  let turns := block - position.blockIndex
  ⟨if block ≥ position.currentBlocks then log.numBlocks else position.currentBlocks,
    position.iterator + turns, position.blockIndex + turns⟩

def Position.insert (log : Log) (position : Position) (entry : SubscriberLogEntry) : Option (Log × Position) :=
  let position := position.seek log entry.gsn
  match log.store position.iterator (entry.gsn % numEntriesPerBlock) entry with
  | none => none
  | some log => some (log, position)

structure Iterator where
  entryIndex : Nat
  stride : Nat
  currentBlocks : Nat
  block : Nat
  counter : Nat
  blockIndex : Nat
  entry : Option (Nat × Nat)
deriving DecidableEq, Repr

-- The constructor leaves current_blocks_ unset.
def Iterator.init (index stride unset : Nat) : Iterator := ⟨index, stride, unset, 0, 0, 0, none⟩

structure SequentialIterator extends Iterator where
  index : Nat

def SequentialIterator.init (index stride unset : Nat) : SequentialIterator :=
  { Iterator.init index stride unset with entryIndex := 0, index := index }

-- counter_++ with a fetch_add on each counter that is passed.
def countPassed (counters : List Nat) (first : Nat) : Nat → List Nat
  | 0 => counters
  | turns + 1 => countPassed (counters.modify first (· + 1)) (first + 1) turns

def Iterator.turns (it : Iterator) : Nat := it.entryIndex / numEntriesPerBlock - it.blockIndex

def Iterator.place (it : Iterator) : Nat × Nat := (it.block + it.turns, it.entryIndex % numEntriesPerBlock)

def Iterator.advance (log : Log) (it : Iterator) : Log × Iterator :=
  ({ log with counters := countPassed log.counters it.counter it.turns },
    { it with
      currentBlocks := if it.entryIndex / numEntriesPerBlock ≥ it.currentBlocks then log.numBlocks else it.currentBlocks
      block := it.block + it.turns
      counter := it.counter + it.turns
      blockIndex := it.blockIndex + it.turns
      entry := some it.place
      entryIndex := uint64 (it.entryIndex + it.stride) })

def Iterator.check (log : Log) (it : Iterator) (entry : Nat × Nat) : Option (Log × Iterator × Option SubscriberLogEntry) :=
  match log.load entry.1 entry.2 with
  | none => none
  | some none => some (log, it, none)
  | some (some found) => some (log, { it with entry := none }, some found)

def Iterator.nextEntry (log : Log) (it : Iterator) : Option (Log × Iterator × Option SubscriberLogEntry) :=
  match it.entry with
  | some entry => it.check log entry
  | none =>
      if it.entryIndex / numEntriesPerBlock ≥ it.currentBlocks ∧ it.entryIndex / numEntriesPerBlock ≥ log.numBlocks then
        some (log, { it with currentBlocks := log.numBlocks }, none)
      else (it.advance log).2.check (it.advance log).1 it.place

-- The iterator of subscriber::process. Both operands of the conditional are
-- converted to their common base, so what is left of a sequential_iterator is
-- its entry_index_ and its stride_, with the next_entry of iterator.
def processIterator (sequential : Bool) (index applicationThreads unset : Nat) : Iterator :=
  if sequential then (SequentialIterator.init index applicationThreads unset).toIterator
  else Iterator.init index applicationThreads unset

end ZipLog.Subscriber
