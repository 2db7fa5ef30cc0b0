import ZipLog.Network.SendQueue
import Mathlib.Data.List.Induction

set_option autoImplicit false

namespace ZipLog.Network

-- A message in the ring of a send_queue, by its length alone.
structure Entry where
  offset : Nat
  length : Nat
  queue : Nat
  signaled : Bool
deriving DecidableEq, Repr

def Request.entry (request : Request) : Entry := ⟨request.offset, request.data.length, request.queue, request.signaled⟩

-- Where send puts a message and where it leaves offset_.
def spot (offset length : Nat) : Nat := if offset + length ≤ receiveBufferSize then offset else 0

def advance (offset length : Nat) : Nat := align messageAlignment (spot offset length + length)

-- send of a buffer, for the length of the message.
def Sender.sendLength (sender : Sender) (length destination : Nat) : Option (Sender × Entry) :=
  if sendBufferSize < length then none
  else
    let sentMessages := if sender.maxOutstanding ≤ sender.sentMessages then 0 else sender.sentMessages
    some ({ sender with offset := advance sender.offset length, sentMessages := sentMessages + 1 },
      ⟨spot sender.offset length, length, destination % sender.numQueues, decide (sender.maxOutstanding ≤ sentMessages + 1)⟩)

theorem send_entry (sender : Sender) (data : Bytes) (destination : Nat) :
    (sender.sendBuffer data destination false).map (fun result => (result.1, result.2.entry)) =
      sender.sendLength data.length destination := by
  unfold Sender.sendBuffer Sender.post Sender.sendLength
  split
  · rfl
  · simp only [Option.map_some, Bool.false_or, Request.entry]
    rfl

def skipped (offset length : Nat) : Nat := if offset + length ≤ receiveBufferSize then 0 else receiveBufferSize - offset

-- The bytes of the ring that messages of these lengths take from an offset on,
-- with the rounding and the bytes skipped at the end of the ring.
def taken (offset : Nat) : List Nat → Nat
  | [] => 0
  | length :: lengths =>
      skipped offset length + (advance offset length - spot offset length) + taken (advance offset length) lengths

theorem taken_append (offset : Nat) (lengths more : List Nat) :
    taken offset (lengths ++ more) = taken offset lengths + taken (lengths.foldl advance offset) more := by
  induction lengths generalizing offset with
  | nil => rw [List.nil_append, taken, Nat.zero_add, List.foldl_nil]
  | cons length lengths ih => rw [List.cons_append, taken, taken, ih, List.foldl_cons, Nat.add_assoc _ (taken _ _)]

-- The sizes that send accepts.
def Sized (length : Nat) : Prop := 1 ≤ length ∧ length ≤ sendBufferSize

theorem spot_fits (offset length : Nat) (sized : Sized length) : spot offset length + length ≤ receiveBufferSize := by
  obtain ⟨_, short⟩ := sized
  unfold spot
  split
  · assumption
  · unfold receiveBufferSize sendBufferSize at *
    omega

-- One message from a free place: it lies in one turn, and the next free place is
-- behind it.
theorem advance_bounds (offset length : Nat) (sized : Sized length) (multiple : offset % 64 = 0) :
    spot offset length % 64 = 0 ∧ spot offset length + length ≤ advance offset length ∧
      advance offset length ≤ spot offset length + sendBufferSize ∧ advance offset length % 64 = 0 ∧
      advance offset length ≤ receiveBufferSize ∧ advance offset length < spot offset length + length + 64 := by
  obtain ⟨positive, short⟩ := sized
  have even : spot offset length % 64 = 0 := by
    unfold spot
    split
    · exact multiple
    · rfl
  have fits := spot_fits offset length ⟨positive, short⟩
  rw [advance, align_eq _ (by omega) fits]
  unfold receiveBufferSize sendBufferSize at *
  omega

-- Free places count on from turn to turn.
theorem free_place (lengths : List Nat) (sized : ∀ length ∈ lengths, Sized length) :
    (lengths.foldl advance 0) % 64 = 0 ∧ lengths.foldl advance 0 ≤ receiveBufferSize ∧
      ∃ turns, taken 0 lengths = receiveBufferSize * turns + lengths.foldl advance 0 := by
  induction lengths using List.reverseRecOn with
  | nil => exact ⟨rfl, Nat.zero_le _, 0, rfl⟩
  | append_singleton lengths length ih =>
      obtain ⟨multiple, inside, turns, free⟩ := ih (fun other member => sized other (List.mem_append_left _ member))
      have own := sized length (List.mem_append_right _ List.mem_cons_self)
      obtain ⟨_, after, _, multiple', inside', _⟩ := advance_bounds _ length own multiple
      rw [List.foldl_append, List.foldl_cons, List.foldl_nil, taken_append, taken, taken, Nat.add_zero, free]
      refine ⟨multiple', inside', ?_⟩
      generalize lengths.foldl advance 0 = offset at *
      by_cases room : offset + length ≤ receiveBufferSize
      · have here : spot offset length = offset := if_pos room
        have nothing : skipped offset length = 0 := if_pos room
        refine ⟨turns, ?_⟩
        rw [here] at after
        rw [here, nothing]
        omega
      · have here : spot offset length = 0 := if_neg room
        have rest : skipped offset length = receiveBufferSize - offset := if_neg room
        refine ⟨turns + 1, ?_⟩
        rw [here, rest, Nat.mul_add]
        omega

-- The messages as blocks whose starts count on from turn to turn.
def block (lengths : List Nat) (index length : Nat) : Ring.Block :=
  ⟨taken 0 (lengths.take index) + skipped ((lengths.take index).foldl advance 0) length, length⟩

def blocks (lengths : List Nat) : List Ring.Block := lengths.mapIdx (fun index length => block lengths index length)

theorem blocks_access (lengths : List Nat) (index : Nat) : (blocks lengths)[index]? = lengths[index]?.map (block lengths index) :=
  List.getElem?_mapIdx

theorem take_next (lengths : List Nat) (index length : Nat) (access : lengths[index]? = some length) :
    lengths.take (index + 1) = lengths.take index ++ [length] := by
  rw [List.take_add_one, access, Option.toList_some]

-- A block in its turn, and the free place behind it.
theorem block_place (lengths : List Nat) (sized : ∀ length ∈ lengths, Sized length) (index length : Nat)
    (access : lengths[index]? = some length) : ∃ turns, (block lengths index length).start =
      receiveBufferSize * turns + spot ((lengths.take index).foldl advance 0) length ∧
    spot ((lengths.take index).foldl advance 0) length + length ≤ (lengths.take (index + 1)).foldl advance 0 ∧
    (lengths.take (index + 1)).foldl advance 0 ≤ spot ((lengths.take index).foldl advance 0) length + sendBufferSize ∧
    (lengths.take (index + 1)).foldl advance 0 ≤ receiveBufferSize ∧
    taken 0 (lengths.take (index + 1)) = receiveBufferSize * turns + (lengths.take (index + 1)).foldl advance 0 ∧
    (lengths.take (index + 1)).foldl advance 0 % 64 = 0 ∧ spot ((lengths.take index).foldl advance 0) length % 64 = 0 ∧
    (lengths.take (index + 1)).foldl advance 0 < spot ((lengths.take index).foldl advance 0) length + length + 64 := by
  have own := sized length (List.mem_of_getElem? access)
  obtain ⟨multiple, inside, turns, free⟩ := free_place (lengths.take index) (fun other member => sized other (List.mem_of_mem_take member))
  obtain ⟨even, after, near, multiple', inside', close⟩ := advance_bounds _ length own multiple
  rw [take_next lengths index length access, List.foldl_append, List.foldl_cons, List.foldl_nil, taken_append, taken, taken,
    Nat.add_zero, block, free]
  generalize (lengths.take index).foldl advance 0 = offset at *
  by_cases room : offset + length ≤ receiveBufferSize
  · have here : spot offset length = offset := if_pos room
    have nothing : skipped offset length = 0 := if_pos room
    rw [here] at after near even close
    rw [here, nothing]
    exact ⟨turns, rfl, after, near, inside', by omega, multiple', even, close⟩
  · have here : spot offset length = 0 := if_neg room
    have rest : skipped offset length = receiveBufferSize - offset := if_neg room
    rw [here] at after near even close
    rw [here, rest]
    refine ⟨turns + 1, ?_, after, near, inside', ?_, multiple', even, close⟩
    · rw [Nat.mul_succ]
      dsimp only
      omega
    · rw [Nat.mul_succ]
      omega

theorem turn_eq (turns offset : Nat) (inside : offset < receiveBufferSize) :
    Ring.turn receiveBufferSize (receiveBufferSize * turns + offset) = receiveBufferSize * turns := by
  rw [Ring.turn, Nat.mul_add_div (by decide), Nat.div_eq_of_lt inside, Nat.add_zero]

theorem blocks_packed (lengths : List Nat) (sized : ∀ length ∈ lengths, Sized length) :
    Ring.Packed receiveBufferSize sendBufferSize (blocks lengths) := by
  constructor
  · intro each member
    obtain ⟨index, access⟩ := List.mem_iff_getElem?.mp member
    rw [blocks_access] at access
    obtain ⟨length, there, rfl⟩ := Option.map_eq_some_iff.mp access
    exact (sized length (List.mem_of_getElem? there)).2
  · intro index first second left right
    rw [blocks_access] at left right
    obtain ⟨length, access, rfl⟩ := Option.map_eq_some_iff.mp left
    obtain ⟨length', access', rfl⟩ := Option.map_eq_some_iff.mp right
    obtain ⟨turns, start, after, near, inside, free, _, _, _⟩ := block_place lengths sized index length access
    have own := sized length (List.mem_of_getElem? access)
    have own' := sized length' (List.mem_of_getElem? access')
    have first_turn : Ring.turn receiveBufferSize (block lengths index length).start = receiveBufferSize * turns := by
      rw [start]
      exact turn_eq turns _ (by have := own.1; omega)
    have second_start : (block lengths (index + 1) length').start =
        taken 0 (lengths.take (index + 1)) + skipped ((lengths.take (index + 1)).foldl advance 0) length' := rfl
    have size : (block lengths index length).length = length := rfl
    refine ⟨taken 0 (lengths.take (index + 1)), by omega, by omega, ?_⟩
    rw [second_start, first_turn, free]
    generalize (lengths.take (index + 1)).foldl advance 0 = offset at *
    by_cases room : offset + length' ≤ receiveBufferSize
    · have nothing : skipped offset length' = 0 := if_pos room
      have positive := own'.1
      rw [nothing, Nat.add_zero, turn_eq turns offset (by omega)]
      exact Or.inl ⟨rfl, rfl⟩
    · have rest : skipped offset length' = receiveBufferSize - offset := if_neg room
      rw [rest]
      refine Or.inr ⟨by omega, by omega, ?_⟩
      change _ < _ + length'
      omega

-- What the messages from index on take, counted from the block of the first.
theorem window_taken (lengths : List Nat) (sized : ∀ length ∈ lengths, Sized length) (index count length : Nat)
    (access : lengths[index]? = some length) : taken 0 (lengths.take (index + (count + 1))) =
      (block lengths index length).start +
        taken (spot ((lengths.take index).foldl advance 0) length) ((lengths.drop index).take (count + 1)) := by
  have window : (lengths.drop index).take (count + 1) = length :: (lengths.drop (index + 1)).take count := by
    obtain ⟨bound, same⟩ := List.getElem?_eq_some_iff.mp access
    rw [List.drop_eq_getElem_cons bound, List.take_succ_cons, same]
  have fits := spot_fits ((lengths.take index).foldl advance 0) length (sized length (List.mem_of_getElem? access))
  rw [List.take_add, taken_append, window, taken, taken, block]
  generalize (lengths.take index).foldl advance 0 = offset at *
  have again : spot (spot offset length) length = spot offset length := if_pos fits
  have nothing : skipped (spot offset length) length = 0 := if_pos fits
  have next : advance (spot offset length) length = advance offset length := by rw [advance, again, advance]
  rw [again, nothing, next]
  dsimp only
  omega

section

variable (lengths : List Nat) (sized : ∀ length ∈ lengths, Sized length) (index gap length length' : Nat)
  (access : lengths[index]? = some length) (access' : lengths[index + gap + 1]? = some length')

-- The messages index and index + gap + 1 do not meet in the ring.
def Apart : Prop :=
  spot ((lengths.take index).foldl advance 0) length + length ≤ spot ((lengths.take (index + gap + 1)).foldl advance 0) length' ∨
    spot ((lengths.take (index + gap + 1)).foldl advance 0) length' + length' ≤ spot ((lengths.take index).foldl advance 0) length

include sized access access'

theorem spot_block : (block lengths index length).start % receiveBufferSize = spot ((lengths.take index).foldl advance 0) length ∧
    (block lengths (index + gap + 1) length').start % receiveBufferSize =
      spot ((lengths.take (index + gap + 1)).foldl advance 0) length' := by
  obtain ⟨turns, start, after, _, inside, _⟩ := block_place lengths sized index length access
  obtain ⟨turns', start', after', _, inside', _⟩ := block_place lengths sized (index + gap + 1) length' access'
  have own := (sized length (List.mem_of_getElem? access)).1
  have own' := (sized length' (List.mem_of_getElem? access')).1
  rw [start, start', Nat.mul_add_mod, Nat.mul_add_mod, Nat.mod_eq_of_lt (by omega), Nat.mod_eq_of_lt (by omega)]
  exact ⟨rfl, rfl⟩

theorem blocks_far (short : gap < 127) : (block lengths index length).start + length ≤ (block lengths (index + gap + 1) length').start ∧
    (block lengths (index + gap + 1) length').start < (block lengths index length).start + (gap + 2) * sendBufferSize := by
  have left : (blocks lengths)[index]? = some (block lengths index length) := by rw [blocks_access, access, Option.map_some]
  have right : (blocks lengths)[index + gap + 1]? = some (block lengths (index + gap + 1) length') := by
    rw [blocks_access, access', Option.map_some]
  obtain ⟨after, place⟩ := Ring.packed_far receiveBufferSize sendBufferSize (by decide) (blocks lengths) (blocks_packed lengths sized)
    index gap _ _ left right (by unfold receiveBufferSize sendBufferSize; omega)
  refine ⟨after, ?_⟩
  obtain ⟨_, near⟩ | ⟨_, near, _⟩ := place
  · unfold sendBufferSize at *
    omega
  · exact near

-- With the bytes skipped at the end of the ring, 127 messages always fit.
theorem window_apart (short : gap < 126) : Apart lengths index gap length length' := by
  obtain ⟨place, place'⟩ := spot_block lengths sized index gap length length' access access'
  obtain ⟨after, near⟩ := blocks_far lengths sized index gap length length' access access' (by omega)
  have own' := (sized length' (List.mem_of_getElem? access')).2
  have apart := Ring.disjoint receiveBufferSize (block lengths index length) (block lengths (index + gap + 1) length') after (by
    change _ + length' ≤ _
    unfold receiveBufferSize sendBufferSize at *
    omega)
  rw [place, place'] at apart
  exact apart

-- For 128 messages it depends on their lengths.
theorem window_full (last : gap = 126) : Apart lengths index gap length length' ↔
    taken (spot ((lengths.take index).foldl advance 0) length) ((lengths.drop index).take 128) ≤ receiveBufferSize := by
  obtain ⟨place, place'⟩ := spot_block lengths sized index gap length length' access access'
  obtain ⟨after, near⟩ := blocks_far lengths sized index gap length length' access access' (by omega)
  have own := sized length (List.mem_of_getElem? access)
  have own' := sized length' (List.mem_of_getElem? access')
  have whole := window_taken lengths sized index 127 length access
  obtain ⟨turns, start, _, _, _, _, _, even, _⟩ := block_place lengths sized index length access
  obtain ⟨turns', start', behind, _, inside, free, multiple, _, close⟩ := block_place lengths sized (index + gap + 1) length' access'
  have apart := Ring.disjoint_iff receiveBufferSize (block lengths index length) (block lengths (index + gap + 1) length') after own.1
    (by unfold receiveBufferSize sendBufferSize at *; omega) (by
      rw [place']
      exact spot_fits _ length' own')
  rw [place, place'] at apart
  refine apart.trans ?_
  change _ + length' ≤ _ ↔ _
  change taken 0 (lengths.take (index + 128)) = _ + taken _ ((lengths.drop index).take 128) at whole
  rw [show index + 128 = index + gap + 1 + 1 by omega, free] at whole
  unfold receiveBufferSize at *
  omega

end

end ZipLog.Network
