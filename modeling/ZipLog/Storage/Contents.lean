import ZipLog.Storage.Log
import Mathlib.Data.List.GetD
import Mathlib.Data.List.Count

set_option autoImplicit false

namespace ZipLog.Storage

-- What the log is for: a growing sequence of slots, each with its GSN and the
-- client it is assigned to, and for every client the payloads its first slots
-- have been filled with. A slot that was skipped or closed holds no bytes.
structure Contents where
  slots : List (Nat × Nat)
  fills : Nat → List Bytes

def Contents.empty : Contents := ⟨[], fun _ => []⟩

def Contents.extend (contents : Contents) (slots : List (Nat × Nat)) : Contents :=
  { contents with slots := contents.slots ++ slots }

def Contents.push (contents : Contents) (client : Nat) (payloads : List Bytes) : Contents :=
  { contents with fills := Function.update contents.fills client (contents.fills client ++ payloads) }

-- The log indices of a client's slots, oldest first.
def chain (slots : List (Nat × Nat)) (client : Nat) : List Nat := slots.findIdxs (fun slot => slot.2 == client)

-- Their GSNs.
def gsns (slots : List (Nat × Nat)) (client : Nat) : List Nat :=
  (slots.filter (fun slot => slot.2 == client)).map Prod.fst

theorem chain_append (slots more : List (Nat × Nat)) (client : Nat) :
    ∃ rest, chain (slots ++ more) client = chain slots client ++ rest := by
  exact ⟨_, List.findIdxs_append⟩

theorem chain_snoc_same (slots : List (Nat × Nat)) (gsn client : Nat) :
    chain (slots ++ [(gsn, client)]) client = chain slots client ++ [slots.length] := by
  simp [chain]

theorem chain_snoc_other (slots : List (Nat × Nat)) (gsn client other : Nat) (different : other ≠ client) :
    chain (slots ++ [(gsn, client)]) other = chain slots other := by
  simp [chain, Ne.symm different]

theorem chain_member (slots : List (Nat × Nat)) (client index : Nat) :
    index ∈ chain slots client ↔ ∃ gsn, slots[index]? = some (gsn, client) := by
  rw [chain, List.mem_findIdxs_iff_exists_getElem_pos]
  constructor
  · rintro ⟨bound, owner⟩
    refine ⟨(slots[index]).1, ?_⟩
    rw [List.getElem?_eq_getElem bound]
    simp only [beq_iff_eq] at owner
    rw [← owner]
  · rintro ⟨gsn, access⟩
    obtain ⟨bound, value⟩ := List.getElem?_eq_some_iff.mp access
    exact ⟨bound, by simp [value]⟩

theorem chain_access (slots : List (Nat × Nat)) (client rank index : Nat)
    (access : (chain slots client)[rank]? = some index) : ∃ gsn, slots[index]? = some (gsn, client) :=
  (chain_member slots client index).mp (List.mem_of_getElem? access)

theorem chain_bound (slots : List (Nat × Nat)) (client rank index : Nat)
    (access : (chain slots client)[rank]? = some index) : index < slots.length := by
  obtain ⟨gsn, here⟩ := chain_access slots client rank index access
  exact (List.getElem?_eq_some_iff.mp here).1

theorem chain_rank_unique (slots : List (Nat × Nat)) (client first second index : Nat)
    (left : (chain slots client)[first]? = some index) (right : (chain slots client)[second]? = some index) :
    first = second := by
  have bound := (List.getElem?_eq_some_iff.mp left).1
  exact (List.getElem?_inj bound List.nodup_findIdxs).mp (left.trans right.symm)

theorem chain_owner_unique (slots : List (Nat × Nat)) (client other first second index : Nat)
    (left : (chain slots client)[first]? = some index) (right : (chain slots other)[second]? = some index) :
    client = other := by
  obtain ⟨gsn, here⟩ := chain_access slots client first index left
  obtain ⟨gsn', there⟩ := chain_access slots other second index right
  rw [here] at there
  exact (Prod.mk.inj (Option.some.inj there)).2

theorem chain_length (slots : List (Nat × Nat)) (client : Nat) :
    (chain slots client).length = (gsns slots client).length := by
  simp [chain, gsns, List.countP_eq_length_filter]

theorem gsns_access (slots : List (Nat × Nat)) (client rank index : Nat)
    (access : (chain slots client)[rank]? = some index) :
    (gsns slots client)[rank]? = slots[index]?.map Prod.fst := by
  obtain ⟨bound, value⟩ := List.getElem?_eq_some_iff.mp access
  have filtered : rank < (slots.filter (fun slot => slot.2 == client)).length := by
    rw [← List.countP_eq_length_filter]
    simpa [chain] using bound
  have same := List.getElem_filter_eq_getElem_getElem_findIdxs filtered
  have inside := chain_bound slots client rank index access
  rw [gsns, List.getElem?_map, List.getElem?_eq_getElem filtered, same]
  simp only [chain] at value
  simp [value, List.getElem?_eq_getElem inside]

theorem chain_rank_exists (slots : List (Nat × Nat)) (index gsn client : Nat)
    (access : slots[index]? = some (gsn, client)) : ∃ rank : Nat, (chain slots client)[rank]? = some index :=
  List.mem_iff_getElem?.mp ((chain_member slots client index).mpr ⟨gsn, access⟩)

-- The log index of the last slot a client has filled.
def Contents.cursor (contents : Contents) (client : Nat) : Option Nat :=
  if contents.fills client = [] then none
  else (chain contents.slots client)[(contents.fills client).length - 1]?

-- Where log index k lives.
def ptr (index : Nat) : Ptr := ⟨index / numEntriesPerBlock, index % numEntriesPerBlock⟩

theorem ptr_injective (first second : Nat) (same : ptr first = ptr second) : first = second := by
  have blocks : first / numEntriesPerBlock = second / numEntriesPerBlock := congrArg Ptr.block same
  have slots : first % numEntriesPerBlock = second % numEntriesPerBlock := congrArg Ptr.slot same
  rw [← Nat.div_add_mod first numEntriesPerBlock, ← Nat.div_add_mod second numEntriesPerBlock, blocks, slots]

theorem ptr_mul_add (block slot : Nat) (bound : slot < numEntriesPerBlock) :
    ptr (block * numEntriesPerBlock + slot) = ⟨block, slot⟩ := by
  simp only [ptr, Ptr.mk.injEq]
  rw [Nat.mul_comm, Nat.mul_add_div entries_per_block_pos, Nat.mul_add_mod, Nat.div_eq_of_lt bound, Nat.mod_eq_of_lt bound]
  simp

theorem read_modify (log : Log) (here other : Ptr) (change : Entry → Entry) :
    (log.modify here change).read other = if here = other then (log.read other).map change else log.read other := by
  obtain ⟨block, slot⟩ := here
  obtain ⟨otherBlock, otherSlot⟩ := other
  simp only [Log.read, Log.modify, List.getElem?_modify, Ptr.mk.injEq]
  cases found : log.blocks[otherBlock]? with
  | none => simp
  | some cells =>
      by_cases sameBlock : block = otherBlock
      · by_cases sameSlot : slot = otherSlot
        · simp [sameBlock, sameSlot]
        · simp [sameBlock, sameSlot, Function.update_of_ne (Ne.symm sameSlot)]
      · simp [sameBlock]

theorem read_congr (log other : Log) (same : log.blocks = other.blocks) (here : Ptr) : log.read here = other.read here := by
  rw [Log.read, Log.read, same]

theorem read_modify_same (log : Log) (here : Ptr) (change : Entry → Entry) :
    (log.modify here change).read here = (log.read here).map change := by
  rw [read_modify, if_pos rfl]

theorem read_modify_other (log : Log) (here other : Ptr) (change : Entry → Entry) (different : here ≠ other) :
    (log.modify here change).read other = log.read other := by
  rw [read_modify, if_neg different]

-- The entry at rank j of a client's chain, as the five operations leave it.
structure Cell (contents : Contents) (client rank index : Nat) (entry : Entry) : Prop where
  slot : contents.slots[index]? = some (entry.gsn, client)
  owner : entry.clientId = client
  next : entry.next = (chain contents.slots client)[rank + 1]?.map ptr
  prev : entry.prev = if rank = 0 then none else (chain contents.slots client)[rank - 1]?.map ptr
  set : entry.set = decide (rank < (contents.fills client).length)
  length : entry.dataLength = ((contents.fills client).getD rank []).length
  payload : entry.payload = (contents.fills client).getD rank []

structure Represents (log : Log) (contents : Contents) : Prop where
  blocks : log.blocks.length = log.block + 1
  entry : log.entry ≤ numEntriesPerBlock
  size : contents.slots.length = log.block * numEntriesPerBlock + log.entry
  count : log.currentEntries = contents.slots.length
  cells : ∀ client rank index, (chain contents.slots client)[rank]? = some index →
    ∃ entry, log.read (ptr index) = some entry ∧ Cell contents client rank index entry
  spare : ∀ slot, log.entry ≤ slot → slot < numEntriesPerBlock → log.read ⟨log.block, slot⟩ = some Entry.zero
  first : ∀ client, log.firstEntry client = (chain contents.slots client)[0]?.map ptr
  last : ∀ client, log.lastEntry client = (chain contents.slots client).getLast?.map ptr
  filled : ∀ client, (contents.fills client).length ≤ (chain contents.slots client).length

theorem init_represents : Represents (Log.init zeroed) Contents.empty := by
  refine ⟨rfl, Nat.zero_le _, by simp [Contents.empty, Log.init], rfl, ?_, ?_, ?_, ?_, ?_⟩
  · intro client rank index access
    simp [chain, Contents.empty] at access
  · intro slot _ _
    rfl
  · intro client
    rfl
  · intro client
    rfl
  · intro client
    simp [Contents.empty]

end ZipLog.Storage
