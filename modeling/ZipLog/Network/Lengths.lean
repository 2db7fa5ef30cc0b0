import ZipLog.Api
import ZipLog.Lib.Ring
import ZipLog.Lib.Word
import Mathlib.Algebra.BigOperators.Group.List.Basic
import Mathlib.Algebra.Ring.Nat

set_option autoImplicit false

namespace ZipLog.Network

-- What is in memory from the start of a buffer on, with what lies behind the
-- buffer.
abbrev Memory := Nat → UInt8

def word (memory : Memory) (offset : Nat) : Nat := Word.decode (Ring.read memory offset 8)

-- A struct with trailing arrays: its size, and where it keeps the number of
-- elements of each array with the size of an element.
structure Shape where
  size : Nat
  trailing : List (Nat × Nat)
deriving DecidableEq, Repr

-- length(), in unsigned long.
def Shape.length (shape : Shape) (memory : Memory) : Nat :=
  shape.trailing.foldl (fun sum part => uint64 (sum + uint64 (word memory part.1 * part.2))) (uint64 shape.size)

-- The bytes that the struct claims to have.
def Shape.claimed (shape : Shape) (memory : Memory) : Nat :=
  shape.size + (shape.trailing.map (fun part => word memory part.1 * part.2)).sum

structure MessageFormat where
  tag : Nat
  shape : Shape
deriving DecidableEq, Repr

def storageInsert : MessageFormat := ⟨2 ^ 16, 32, [(24, 1)]⟩
def orderClientData : MessageFormat := ⟨2 ^ 15, 48, [(40, 1)]⟩
def storageSlots : MessageFormat := ⟨2 ^ 17, 24, [(16, 16)]⟩
def storageClientPatch : MessageFormat := ⟨2 ^ 20, 32, [(24, 1)]⟩
def subscriberLogEntry : MessageFormat := ⟨2 ^ 22, 56, [(48, 1)]⟩
def clientStorageInfo : MessageFormat := ⟨2 ^ 9, 16, [(8, 16)]⟩
def subscriberStorageInfo : MessageFormat := ⟨2 ^ 23, 16, [(8, 16)]⟩

def dataMessages : List MessageFormat := [storageInsert, orderClientData, storageClientPatch, subscriberLogEntry]
def arrayMessages : List MessageFormat := [storageSlots, clientStorageInfo, subscriberStorageInfo]

-- The sizes of queue_info and of an XRC queue number.
def queueInfoSize : Nat := 32
def xrcSize : Nat := 4

def destinationInfo : Shape := ⟨48, [(24, queueInfoSize), (32, xrcSize), (40, 1)]⟩

-- What util::apply does with a packet: no action for its tag, an assertion that
-- fails, or a call of the handler for this format.
inductive Applied where
  | unknown
  | invalid
  | handled (format : MessageFormat)
deriving DecidableEq, Repr

def apply (memory : Memory) (length : Nat) : List MessageFormat → Applied
  | [] => .unknown
  | format :: formats =>
      if word memory 0 = format.tag then
        if length = format.shape.length memory then .handled format else .invalid
      else apply memory length formats

-- The length check of deserialize_connection.
def acceptsLength (memory : Memory) (length : Nat) : Prop := length = destinationInfo.length memory

-- What a struct claims differs from the length by whole turns of a 64-bit word.
def Overruns (shape : Shape) (memory : Memory) (length : Nat) : Prop :=
  ∃ turns, 0 < turns ∧ shape.claimed memory = length + turns * 2 ^ 64

theorem word_lt (memory : Memory) (offset : Nat) : word memory offset < 2 ^ 64 := by
  have small := Word.decode_lt (Ring.read memory offset 8)
  rwa [Ring.read, List.length_map, List.length_range] at small

theorem length_claimed (shape : Shape) (memory : Memory) : shape.length memory = uint64 (shape.claimed memory) := by
  have parts (trailing : List (Nat × Nat)) (sum : Nat) :
      trailing.foldl (fun sum part => uint64 (sum + uint64 (word memory part.1 * part.2))) (uint64 sum) =
        uint64 (sum + (trailing.map (fun part => word memory part.1 * part.2)).sum) := by
    induction trailing generalizing sum with
    | nil => rfl
    | cons part trailing ih =>
        have step : uint64 (uint64 sum + uint64 (word memory part.1 * part.2)) = uint64 (sum + word memory part.1 * part.2) := by
          unfold uint64
          omega
        rw [List.foldl_cons, step, ih, List.map_cons, List.sum_cons, Nat.add_assoc]
  exact parts shape.trailing shape.size

theorem trusted_iff (shape : Shape) (memory : Memory) (length : Nat) (small : length < 2 ^ 64) :
    (length = shape.length memory → shape.claimed memory = length) ↔ ¬ Overruns shape memory length := by
  rw [length_claimed, uint64]
  generalize whole : shape.claimed memory = claimed
  have parts := Nat.div_add_mod claimed (2 ^ 64)
  constructor
  · intro trusted overruns
    obtain ⟨turns, positive, same⟩ := overruns
    rw [whole] at same
    have exact_ := trusted (by rw [same, Nat.add_mul_mod_self_right, Nat.mod_eq_of_lt small])
    omega
  · intro never same
    by_contra different
    exact never ⟨claimed / 2 ^ 64, by omega, by rw [whole, Nat.mul_comm]; omega⟩

theorem apply_handled (memory : Memory) (length : Nat) (formats : List MessageFormat) (format : MessageFormat)
    (handled : apply memory length formats = .handled format) :
    word memory 0 = format.tag ∧ length = format.shape.length memory := by
  induction formats with
  | nil => cases handled
  | cons first formats ih =>
      rw [apply] at handled
      by_cases tag : word memory 0 = first.tag
      · rw [if_pos tag] at handled
        by_cases checked : length = first.shape.length memory
        · rw [if_pos checked] at handled
          cases handled
          exact ⟨tag, checked⟩
        · rw [if_neg checked] at handled
          cases handled
      · rw [if_neg tag] at handled
        exact ih handled

theorem handled_iff (format : MessageFormat) (memory : Memory) (length : Nat) (small : length < 2 ^ 64) :
    (∀ formats, apply memory length formats = .handled format → format.shape.claimed memory = length) ↔
      (word memory 0 = format.tag → ¬ Overruns format.shape memory length) := by
  constructor
  · intro trusted tag
    apply (trusted_iff format.shape memory length small).mp
    intro checked
    exact trusted [format] (by rw [apply, if_pos tag, if_pos checked])
  · intro never formats handled
    obtain ⟨tag, checked⟩ := apply_handled memory length formats format handled
    exact (trusted_iff format.shape memory length small).mpr (never tag) checked

-- data_length cannot wrap the length of a packet that holds the fixed part.
theorem data_never (format : MessageFormat) (member : format ∈ dataMessages) (memory : Memory) (length : Nat)
    (holds : format.shape.size ≤ length) : ¬ Overruns format.shape memory length := by
  intro overruns
  obtain ⟨turns, positive, same⟩ := overruns
  simp only [dataMessages, List.mem_cons, List.not_mem_nil, or_false] at member
  rcases member with rfl | rfl | rfl | rfl
  all_goals
    simp only [Shape.claimed, storageInsert, orderClientData, storageClientPatch, subscriberLogEntry, List.map_cons, List.map_nil,
      List.sum_cons, List.sum_nil] at same holds
  · have bound := word_lt memory 24
    omega
  · have bound := word_lt memory 40
    omega
  · have bound := word_lt memory 24
    omega
  · have bound := word_lt memory 48
    omega

-- The number of 16-byte elements can, from 2^60 on.
theorem array_overruns (format : MessageFormat) (member : format ∈ arrayMessages) (memory : Memory) (length : Nat)
    (holds : format.shape.size ≤ length) : Overruns format.shape memory length ↔ ∃ part ∈ format.shape.trailing, ∃ turns, 0 < turns ∧
      word memory part.1 * 16 = length - format.shape.size + turns * 2 ^ 60 * 16 := by
  simp only [arrayMessages, List.mem_cons, List.not_mem_nil, or_false] at member
  rcases member with rfl | rfl | rfl
  all_goals
    simp only [Overruns, Shape.claimed, storageSlots, clientStorageInfo, subscriberStorageInfo, List.map_cons, List.map_nil,
      List.sum_cons, List.sum_nil, List.mem_singleton, exists_eq_left] at holds ⊢
    apply exists_congr
    intro turns
    omega

-- The main result: of the eight formats, which lengths are trusted rightly.
theorem lengths_trusted_iff (memory : Memory) (length : Nat) (small : length < 2 ^ 64) :
    (∀ format ∈ dataMessages ++ arrayMessages,
      (∀ formats, apply memory length formats = .handled format → format.shape.claimed memory = length) ↔
        (word memory 0 = format.tag → ¬ Overruns format.shape memory length)) ∧
    ((acceptsLength memory length → destinationInfo.claimed memory = length) ↔ ¬ Overruns destinationInfo memory length) ∧
    (∀ format ∈ dataMessages, format.shape.size ≤ length → ¬ Overruns format.shape memory length) ∧
    (∀ format ∈ arrayMessages, format.shape.size ≤ length → (Overruns format.shape memory length ↔ ∃ part ∈ format.shape.trailing,
      ∃ turns, 0 < turns ∧ word memory part.1 * 16 = length - format.shape.size + turns * 2 ^ 60 * 16)) :=
  ⟨fun format _ => handled_iff format memory length small, trusted_iff destinationInfo memory length small,
    fun format member holds => data_never format member memory length holds,
    fun format member holds => array_overruns format member memory length holds⟩

def buffer (bytes : Bytes) : Memory := fun offset => bytes.getD offset 0

-- A storage_insert with three bytes of data.
def insertPacket : Bytes := Word.encode 8 (2 ^ 16) ++ Word.encode 8 7 ++ Word.encode 8 1 ++ Word.encode 8 3 ++ [1, 2, 3]

theorem lengths_trusted_insert : apply (buffer insertPacket) insertPacket.length [storageSlots, storageInsert] = .handled storageInsert ∧
    storageInsert.shape.claimed (buffer insertPacket) = insertPacket.length := by
  have handled : apply (buffer insertPacket) insertPacket.length [storageSlots, storageInsert] = .handled storageInsert := by decide
  have results := lengths_trusted_iff (buffer insertPacket) insertPacket.length (by decide)
  have never := results.2.2.1 storageInsert (by decide) (by decide)
  exact ⟨handled, (results.1 storageInsert (by decide)).mpr (fun _ => never) _ handled⟩

-- storage_slots of 2^60 clients in 24 bytes, and a connection of 2^59 queues in 48.
def slotsPacket : Bytes := Word.encode 8 (2 ^ 17) ++ Word.encode 8 0 ++ Word.encode 8 (2 ^ 60)

def connectionPacket : Bytes := List.replicate 24 0 ++ Word.encode 8 (2 ^ 59) ++ Word.encode 8 0 ++ Word.encode 8 0

theorem wrapped_lengths_trusted : apply (buffer slotsPacket) 24 [storageSlots] = .handled storageSlots ∧ slotsPacket.length = 24 ∧
    storageSlots.shape.claimed (buffer slotsPacket) = 24 + 2 ^ 64 ∧
    acceptsLength (buffer connectionPacket) 48 ∧ connectionPacket.length = 48 ∧
    destinationInfo.claimed (buffer connectionPacket) = 48 + 2 ^ 64 := by
  refine ⟨by decide, by decide, by decide, ?_, by decide, by decide⟩
  unfold acceptsLength
  decide

end ZipLog.Network
