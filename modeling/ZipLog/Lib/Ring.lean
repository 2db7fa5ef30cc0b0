import Mathlib.Data.Nat.Init
import Mathlib.Data.Nat.ModEq
import Mathlib.Logic.Function.Basic

set_option autoImplicit false

namespace Ring

-- A block of a circular buffer. Its start counts on from turn to turn, so it is
-- in the buffer at the start modulo the size.
structure Block where
  start : Nat
  length : Nat
deriving DecidableEq, Repr

-- Blocks laid out one after the other, each at most stride behind the last one.
def Spaced (stride : Nat) (blocks : List Block) : Prop :=
  ∀ i first second, blocks[i]? = some first → blocks[i + 1]? = some second →
    first.start + first.length ≤ second.start ∧ second.start ≤ first.start + stride

theorem spaced_nil (stride : Nat) : Spaced stride [] := by
  intro i first second left
  rw [List.getElem?_nil] at left
  cases left

theorem spaced_snoc (stride : Nat) (blocks : List Block) (block : Block) (spaced : Spaced stride blocks)
    (next : ∀ last, blocks.getLast? = some last → last.start + last.length ≤ block.start ∧ block.start ≤ last.start + stride) :
    Spaced stride (blocks ++ [block]) := by
  intro i first second left right
  have inside := (List.getElem?_eq_some_iff.mp right).1
  rw [List.length_append, List.length_singleton] at inside
  rw [List.getElem?_append_left (by omega)] at left
  by_cases last : i + 1 = blocks.length
  · rw [List.getElem?_append_right (by omega), last, Nat.sub_self] at right
    cases right
    apply next
    rw [List.getLast?_eq_getElem?, ← last, Nat.add_sub_cancel]
    exact left
  · rw [List.getElem?_append_left (by omega)] at right
    exact spaced i first second left right

-- Two blocks of a sequence are in order and not further apart than the steps
-- between them allow.
theorem spaced_far (stride : Nat) (blocks : List Block) (i gap : Nat) (first second : Block) (spaced : Spaced stride blocks)
    (left : blocks[i]? = some first) (right : blocks[i + gap + 1]? = some second) :
    first.start + first.length ≤ second.start ∧ second.start ≤ first.start + (gap + 1) * stride := by
  induction gap generalizing second with
  | zero =>
      rw [Nat.zero_add, Nat.one_mul]
      exact spaced i first second left right
  | succ gap ih =>
      have bound := (List.getElem?_eq_some_iff.mp right).1
      have middle := List.getElem?_eq_getElem (show i + gap + 1 < blocks.length by omega)
      obtain ⟨after, near⟩ := ih _ middle
      obtain ⟨behind, close⟩ := spaced (i + gap + 1) _ second middle right
      rw [Nat.add_mul (gap + 1) 1, Nat.one_mul]
      omega

-- Two blocks within one turn do not overlap in the buffer.
theorem disjoint (size : Nat) (first second : Block) (after : first.start + first.length ≤ second.start)
    (turn : second.start + second.length ≤ first.start + size) :
    first.start % size + first.length ≤ second.start % size ∨ second.start % size + second.length ≤ first.start % size := by
  have one := Nat.div_add_mod first.start size
  have two := Nat.div_add_mod second.start size
  have order : first.start / size ≤ second.start / size := Nat.div_le_div_right (by omega)
  by_cases same : second.start / size = first.start / size
  · left
    rw [same] at two
    omega
  · right
    have next : size * (first.start / size + 1) ≤ size * (second.start / size) := Nat.mul_le_mul_left size (by omega)
    rw [Nat.mul_add, Nat.mul_one] at next
    omega

-- Two blocks less than a turn apart are apart in the buffer only if they lie
-- within one turn.
theorem disjoint_iff (size : Nat) (first second : Block) (after : first.start + first.length ≤ second.start) (positive : 0 < first.length)
    (near : second.start < first.start + size) (fits : second.start % size + second.length ≤ size) :
    (first.start % size + first.length ≤ second.start % size ∨ second.start % size + second.length ≤ first.start % size) ↔
      second.start + second.length ≤ first.start + size := by
  refine ⟨?_, disjoint size first second after⟩
  intro apart
  have one := Nat.div_add_mod first.start size
  have two := Nat.div_add_mod second.start size
  have order : first.start / size ≤ second.start / size := Nat.div_le_div_right (by omega)
  by_cases same : second.start / size = first.start / size
  · rw [same] at two
    omega
  · have next : size * (first.start / size + 1) ≤ size * (second.start / size) := Nat.mul_le_mul_left size (by omega)
    rw [Nat.mul_add, Nat.mul_one] at next
    have last : second.start / size = first.start / size + 1 := by
      by_contra further
      have beyond : size * (first.start / size + 2) ≤ size * (second.start / size) := Nat.mul_le_mul_left size (by omega)
      rw [Nat.mul_add] at beyond
      have bound := Nat.mod_lt first.start (show 0 < size by omega)
      omega
    rw [last, Nat.mul_add, Nat.mul_one] at two
    omega

-- Blocks that fill turn after turn: a block starts where the one before it ends,
-- but for rounding, or with the next turn where it does not fit there.
def turn (size start : Nat) : Nat := size * (start / size)

def Follows (size most : Nat) (first second : Block) : Prop :=
  ∃ free, first.start + first.length ≤ free ∧ free ≤ first.start + most ∧
    (second.start = free ∧ turn size second.start = turn size first.start ∨
      second.start = turn size first.start + size ∧ free ≤ second.start ∧ second.start < free + second.length)

def Packed (size most : Nat) (blocks : List Block) : Prop :=
  (∀ block ∈ blocks, block.length ≤ most) ∧
    ∀ i first second, blocks[i]? = some first → blocks[i + 1]? = some second → Follows size most first second

theorem turn_next (size start : Nat) (positive : 0 < size) : turn size (turn size start + size) = turn size start + size := by
  unfold turn
  rw [← Nat.mul_succ, Nat.mul_div_cancel_left _ positive]

-- A sequence of blocks that is shorter than a turn starts at most one new turn,
-- and only there it skips bytes, fewer than the block that did not fit.
theorem packed_far (size most : Nat) (positive : 0 < size) (blocks : List Block) (packed : Packed size most blocks) (i gap : Nat)
    (first second : Block) (left : blocks[i]? = some first) (right : blocks[i + gap + 1]? = some second)
    (short : (gap + 1) * most ≤ size) : first.start + first.length ≤ second.start ∧
      (turn size second.start = turn size first.start ∧ second.start ≤ first.start + (gap + 1) * most ∨
        turn size second.start = turn size first.start + size ∧ second.start < first.start + (gap + 2) * most ∧
          second.start ≤ turn size second.start + gap * most) := by
  induction gap generalizing second with
  | zero =>
      obtain ⟨free, after, near, next⟩ := packed.2 i first second left right
      have small := packed.1 second (List.mem_of_getElem? right)
      obtain ⟨here, same⟩ | ⟨here, later, skipped⟩ := next
      · exact ⟨by omega, Or.inl ⟨same, by omega⟩⟩
      · have last : turn size second.start = turn size first.start + size := by rw [here, turn_next size _ positive]
        exact ⟨by omega, Or.inr ⟨last, by omega, by omega⟩⟩
  | succ gap ih =>
      have bound := (List.getElem?_eq_some_iff.mp right).1
      have middle := List.getElem?_eq_getElem (show i + gap + 1 < blocks.length by omega)
      generalize blocks[i + gap + 1] = between at middle
      rw [Nat.add_mul (gap + 1) 1, Nat.one_mul] at short
      obtain ⟨behind, place⟩ := ih between middle (by omega)
      obtain ⟨free, after, near, next⟩ := packed.2 (i + gap + 1) between second middle right
      have small := packed.1 second (List.mem_of_getElem? right)
      rw [Nat.add_mul (gap + 1) 1, Nat.one_mul, show gap + 1 + 2 = (gap + 2) + 1 by omega, Nat.add_mul (gap + 2) 1, Nat.one_mul,
        show gap + 2 = (gap + 1) + 1 by omega, Nat.add_mul (gap + 1) 1, Nat.one_mul]
      rw [show gap + 2 = (gap + 1) + 1 by omega, Nat.add_mul (gap + 1) 1, Nat.one_mul] at place
      have step : (gap + 1) * most = gap * most + most := by rw [Nat.add_mul, Nat.one_mul]
      obtain ⟨same, reach⟩ | ⟨same, reach, inside⟩ := place
      · obtain ⟨here, kept⟩ | ⟨here, later, skipped⟩ := next
        · exact ⟨by omega, Or.inl ⟨kept.trans same, by omega⟩⟩
        · have last : turn size second.start = turn size between.start + size := by rw [here, turn_next size _ positive]
          exact ⟨by omega, Or.inr ⟨by omega, by omega, by omega⟩⟩
      · obtain ⟨here, kept⟩ | ⟨here, later, skipped⟩ := next
        · exact ⟨by omega, Or.inr ⟨by omega, by omega, by omega⟩⟩
        · -- A second new turn would take a whole turn of blocks.
          omega

variable {α : Type}

def write (memory : Nat → α) (offset : Nat) : List α → Nat → α
  | [] => memory
  | head :: rest => Function.update (write memory (offset + 1) rest) offset head

def read (memory : Nat → α) (offset length : Nat) : List α := (List.range length).map (fun i => memory (offset + i))

theorem write_before (memory : Nat → α) (offset place : Nat) (data : List α) (before : place < offset) :
    write memory offset data place = memory place := by
  induction data generalizing offset with
  | nil => rfl
  | cons head rest ih =>
      rw [write, Function.update_of_ne (by omega)]
      exact ih (offset + 1) (by omega)

theorem write_behind (memory : Nat → α) (offset place : Nat) (data : List α) (behind : offset + data.length ≤ place) :
    write memory offset data place = memory place := by
  induction data generalizing offset with
  | nil => rfl
  | cons head rest ih =>
      rw [List.length_cons] at behind
      rw [write, Function.update_of_ne (by omega)]
      exact ih (offset + 1) (by omega)

theorem read_write (memory : Nat → α) (offset : Nat) (data : List α) : read (write memory offset data) offset data.length = data := by
  induction data generalizing offset with
  | nil => rfl
  | cons head rest ih =>
      rw [read, List.length_cons, List.range_succ_eq_map, List.map_cons, List.map_map, write]
      congr 1
      · exact Function.update_self _ _ _
      · refine Eq.trans ?_ (ih (offset + 1))
        apply List.map_congr_left
        intro i _
        rw [Function.comp_apply, Function.update_of_ne (by omega), Nat.succ_eq_add_one, Nat.add_comm i 1, ← Nat.add_assoc]

theorem read_write_apart (memory : Nat → α) (offset other length : Nat) (data : List α)
    (apart : other + length ≤ offset ∨ offset + data.length ≤ other) :
    read (write memory offset data) other length = read memory other length := by
  apply List.map_congr_left
  intro i inside
  rw [List.mem_range] at inside
  cases apart with
  | inl before => exact write_before memory offset (other + i) data (by omega)
  | inr behind => exact write_behind memory offset (other + i) data (by omega)

-- The places of a ring that are taken in turn from the given number on.
def places (size start count : Nat) : List Nat := (List.range' start count).map (fun k => k % size)

theorem places_snoc (size start count : Nat) : places size start (count + 1) = places size start count ++ [(start + count) % size] := by
  rw [places, List.range'_1_concat, List.map_append]
  rfl

theorem places_cons (size start count : Nat) : places size start (count + 1) = start % size :: places size (start + 1) count := by
  rw [places, List.range'_succ, List.map_cons]
  rfl

-- The next place is none of the last ones, as long as these are fewer than a turn.
theorem places_recent (size start count : Nat) (recent : List Nat) (suffix : recent <:+ places size start count)
    (short : recent.length < size) : (start + count) % size ∉ recent := by
  intro member
  obtain ⟨earlier, split⟩ := suffix
  obtain ⟨i, inside, here⟩ := List.mem_iff_getElem.mp member
  have lengths : earlier.length + recent.length = count := by
    have both := congrArg List.length split
    rwa [List.length_append, places, List.length_map, List.length_range'] at both
  have place : (places size start count)[earlier.length + i]? = some ((start + count) % size) := by
    rw [← split, List.getElem?_append_right (Nat.le_add_right _ _), Nat.add_sub_cancel_left, List.getElem?_eq_getElem inside, here]
  rw [places, List.getElem?_map, List.getElem?_range' (by omega)] at place
  have same : (start + 1 * (earlier.length + i)) % size = (start + count) % size := Option.some.inj place
  have split' : start + count = (start + 1 * (earlier.length + i)) + (recent.length - i) := by omega
  rw [split'] at same
  have zero := (Nat.modEq_iff_dvd' (Nat.le_add_right _ _)).mp same
  rw [Nat.add_sub_cancel_left] at zero
  have large := Nat.le_of_dvd (by omega) zero
  omega

end Ring
