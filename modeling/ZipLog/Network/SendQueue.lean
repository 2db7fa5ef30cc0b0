import ZipLog.Api
import ZipLog.Lib.Ring

set_option autoImplicit false

namespace ZipLog.Network

-- util::align for a power of two.
def align (multiple value : Nat) : Nat := uint64 ((uint64 (value + uint64Max) &&& (2 ^ 64 - multiple)) + multiple)

-- What send reads and writes of a send_queue. numQueues is the number of
-- xrc_queue_nums_.
structure Sender where
  index : Nat
  offset : Nat
  sentMessages : Nat
  maxOutstanding : Nat
  numQueues : Nat
deriving DecidableEq, Repr

-- The work request: where the bytes go in the receive buffer of the peer, the
-- immediate value and the flags.
structure Request where
  offset : Nat
  imm : Nat
  data : Bytes
  inlined : Bool
  signaled : Bool
  queue : Nat
deriving DecidableEq, Repr

def immediate (index offset : Nat) : Nat := uint32 (index ||| offset * maxQueuePairs)

-- The common part of the two overloads of send, less the waits for completions:
-- the result is none where the assertion on the length fails.
def Sender.post (sender : Sender) (limit : Nat) (inlined : Bool) (data : Bytes) (destination : Nat) (synchronize : Bool) :
    Option (Sender × Request) :=
  if limit < data.length then none
  else
    let sentMessages := if sender.maxOutstanding ≤ sender.sentMessages then 0 else sender.sentMessages
    let signaled := synchronize || decide (sender.maxOutstanding ≤ sentMessages + 1)
    let offset := if sender.offset + data.length ≤ receiveBufferSize then sender.offset else 0
    some ({ sender with
        offset := align messageAlignment (offset + data.length)
        sentMessages := if synchronize then 0 else sentMessages + 1 },
      ⟨offset, immediate sender.index offset, data, inlined, signaled, destination % sender.numQueues⟩)

-- send of a void* and send of a buffer.
def Sender.sendInline (sender : Sender) (data : Bytes) (destination : Nat) (synchronize : Bool) : Option (Sender × Request) :=
  sender.post maxInlineData true data destination synchronize

def Sender.sendBuffer (sender : Sender) (data : Bytes) (destination : Nat) (synchronize : Bool) : Option (Sender × Request) :=
  sender.post sendBufferSize (decide (data.length ≤ maxInlineData)) data destination synchronize

-- How recv_queue::recv takes an immediate value apart.
def decode (imm : Nat) : Nat × Nat := (imm &&& (maxQueuePairs - 1), imm / maxQueuePairs)

theorem decode_immediate (index offset : Nat) (valid : index < maxQueuePairs) (inside : offset ≤ receiveBufferSize) :
    decode (immediate index offset) = (index, offset) := by
  have joined : index ||| offset * maxQueuePairs = offset * 2 ^ 11 + index := by
    rw [Nat.or_comm, Nat.mul_comm offset, Nat.mul_comm offset]
    exact (Nat.two_pow_add_eq_or_of_lt (i := 11) valid offset).symm
  have small : offset * 2 ^ 11 + index < 2 ^ 32 := by
    have one : offset ≤ 2 ^ 18 := inside
    have two : index < 2 ^ 11 := valid
    omega
  rw [immediate, uint32, joined, Nat.mod_eq_of_lt small, decode]
  have two : index < 2 ^ 11 := valid
  have low : offset * 2 ^ 11 + index &&& maxQueuePairs - 1 = index := by
    rw [show maxQueuePairs - 1 = 2 ^ 11 - 1 from rfl, Nat.and_two_pow_sub_one_eq_mod]
    omega
  have high : (offset * 2 ^ 11 + index) / maxQueuePairs = offset := by
    rw [show maxQueuePairs = 2 ^ 11 from rfl]
    omega
  rw [low, high]

theorem clear_low_bits (value : Nat) (small : value < 2 ^ 64) : value &&& (2 ^ 64 - 2 ^ 6) = value / 2 ^ 6 * 2 ^ 6 := by
  rw [show 2 ^ 64 - 2 ^ 6 = (2 ^ 58 - 1) <<< 6 from rfl, ← Nat.shiftRight_eq_div_pow, ← Nat.shiftLeft_eq]
  apply Nat.eq_of_testBit_eq
  intro i
  rw [Nat.testBit_and, Nat.testBit_shiftLeft, Nat.testBit_shiftLeft, Nat.testBit_shiftRight, Nat.testBit_two_pow_sub_one]
  by_cases low : 6 ≤ i
  · by_cases high : i < 64
    · have position : i - 6 < 58 := by omega
      rw [Nat.add_sub_of_le low]
      simp [low, position]
    · have zero := Nat.testBit_lt_two_pow (Nat.lt_of_lt_of_le small (Nat.pow_le_pow_right (by decide) (Nat.le_of_not_lt high)))
      rw [Nat.add_sub_of_le low]
      simp [zero]
  · simp [low]

theorem align_eq (value : Nat) (positive : 1 ≤ value) (bound : value ≤ receiveBufferSize) :
    align messageAlignment value = (value + 63) / 64 * 64 := by
  have limit : value ≤ 2 ^ 18 := bound
  have before : uint64 (value + uint64Max) = value - 1 := by
    rw [uint64, uint64Max]
    omega
  rw [align, before, show 2 ^ 64 - messageAlignment = 2 ^ 64 - 2 ^ 6 from rfl, clear_low_bits (value - 1) (by omega), uint64,
    show messageAlignment = 64 from rfl]
  omega

-- The messages of a send queue as blocks of the receive buffer. base is where
-- the current turn starts.
structure Layout (sender : Sender) (sent : List Request) (base : Nat) (blocks : List Ring.Block) : Prop where
  turn : base % receiveBufferSize = 0
  free : sender.offset % 64 = 0 ∧ sender.offset ≤ receiveBufferSize
  count : blocks.length = sent.length
  fits : ∀ (k : Nat) (request : Request) (block : Ring.Block), sent[k]? = some request → blocks[k]? = some block →
    block.start % receiveBufferSize = request.offset ∧ block.length = request.data.length ∧ request.data.length ≤ sendBufferSize
  spaced : Ring.Spaced (2 * sendBufferSize) blocks
  ends : ∀ last, blocks.getLast? = some last → last.start + last.length ≤ base + sender.offset ∧
    base + sender.offset ≤ last.start + sendBufferSize

theorem layout_init (sender : Sender) (empty : sender.offset = 0) : Layout sender [] 0 [] := by
  refine ⟨rfl, ?_, rfl, ?_, Ring.spaced_nil _, ?_⟩
  · rw [empty]
    exact ⟨rfl, Nat.zero_le _⟩
  · intro k request block access
    rw [List.getElem?_nil] at access
    cases access
  · intro last access
    cases access

theorem layout_snoc (sender next : Sender) (sent : List Request) (request : Request) (base start : Nat) (blocks : List Ring.Block)
    (layout : Layout sender sent base blocks) (positive : 1 ≤ request.data.length) (short : request.data.length ≤ sendBufferSize)
    (place : request.offset = start % receiveBufferSize) (inside : start % receiveBufferSize + request.data.length ≤ receiveBufferSize)
    (multiple : start % 64 = 0) (after : base + sender.offset ≤ start) (near : start ≤ base + sender.offset + sendBufferSize)
    (moved : next.offset = align messageAlignment (start % receiveBufferSize + request.data.length)) :
    Layout next (sent ++ [request]) (start - start % receiveBufferSize) (blocks ++ [⟨start, request.data.length⟩]) := by
  rw [align_eq _ (by omega) inside] at moved
  have ends := layout.ends
  unfold receiveBufferSize sendBufferSize at *
  refine ⟨?_, ?_, ?_, ?_, ?_, ?_⟩
  · unfold receiveBufferSize
    omega
  · unfold receiveBufferSize
    omega
  · rw [List.length_append, List.length_append, layout.count]
    rfl
  · intro k other block left right
    by_cases last : k < sent.length
    · rw [List.getElem?_append_left last] at left
      rw [List.getElem?_append_left (layout.count ▸ last)] at right
      exact layout.fits k other block left right
    · have here : k = sent.length := by
        have bound := (List.getElem?_eq_some_iff.mp left).1
        rw [List.length_append, List.length_singleton] at bound
        omega
      rw [here, List.getElem?_concat_length] at left
      rw [here, ← layout.count, List.getElem?_concat_length] at right
      cases left
      cases right
      exact ⟨place.symm, rfl, short⟩
  · apply Ring.spaced_snoc _ _ _ layout.spaced
    intro last access
    obtain ⟨before, close⟩ := ends last access
    unfold sendBufferSize
    dsimp only
    omega
  · intro last access
    rw [List.getLast?_concat] at access
    cases access
    unfold sendBufferSize
    dsimp only
    omega

theorem post_layout (sender next : Sender) (sent : List Request) (request : Request) (limit destination base : Nat) (inlined synchronize : Bool)
    (data : Bytes) (blocks : List Ring.Block) (layout : Layout sender sent base blocks) (positive : 1 ≤ data.length)
    (limited : limit ≤ sendBufferSize) (posted : sender.post limit inlined data destination synchronize = some (next, request)) :
    (next.index = sender.index ∧ request.data = data ∧ request.imm = immediate sender.index request.offset ∧
      request.offset ≤ receiveBufferSize) ∧
    ∃ later block, Layout next (sent ++ [request]) later (blocks ++ [block]) := by
  unfold Sender.post at posted
  rw [Option.ite_none_left_eq_some] at posted
  obtain ⟨short, taken⟩ := posted
  cases taken
  have turn := layout.turn
  obtain ⟨multiple, free⟩ := layout.free
  refine ⟨⟨rfl, rfl, rfl, ?_⟩, ?_⟩
  · dsimp only
    split
    · exact free
    · exact Nat.zero_le _
  · by_cases room : sender.offset + data.length ≤ receiveBufferSize
    · have here : (base + sender.offset) % receiveBufferSize = sender.offset := by
        unfold receiveBufferSize at *
        omega
      rw [if_pos room]
      refine ⟨_, _, layout_snoc sender _ sent _ base (base + sender.offset) blocks layout positive (by dsimp only; omega) here.symm
        (by rw [here]; exact room) ?_ (Nat.le_refl _) (Nat.le_add_right _ _) (by rw [here])⟩
      unfold receiveBufferSize at turn
      omega
    · have here : (base + receiveBufferSize) % receiveBufferSize = 0 := by
        rw [Nat.add_mod_right]
        exact turn
      rw [if_neg room]
      refine ⟨_, _, layout_snoc sender _ sent _ base (base + receiveBufferSize) blocks layout positive (by dsimp only; omega) here.symm
        ?_ ?_ (Nat.add_le_add_left free _) ?_ (by rw [here])⟩
      · rw [here]
        unfold receiveBufferSize sendBufferSize at *
        dsimp only
        omega
      · unfold receiveBufferSize at *
        omega
      · omega

-- Of the 63 messages before it a message overwrites none.
theorem layout_apart (sender : Sender) (sent : List Request) (base : Nat) (blocks : List Ring.Block) (layout : Layout sender sent base blocks)
    (i gap : Nat) (earlier later : Request) (left : sent[i]? = some earlier) (right : sent[i + gap + 1]? = some later)
    (close : gap + 1 < maxReceiveRequests) :
    earlier.offset + earlier.data.length ≤ later.offset ∨ later.offset + later.data.length ≤ earlier.offset := by
  have size : receiveBufferSize = 2 ^ 18 := rfl
  have small : sendBufferSize = 2 ^ 11 := rfl
  have window : maxReceiveRequests = 64 := rfl
  have one := (List.getElem?_eq_some_iff.mp left).1
  have two := (List.getElem?_eq_some_iff.mp right).1
  have first := List.getElem?_eq_getElem (layout.count ▸ one)
  have second := List.getElem?_eq_getElem (layout.count ▸ two)
  obtain ⟨place, length, -⟩ := layout.fits i earlier _ left first
  obtain ⟨place', length', short⟩ := layout.fits (i + gap + 1) later _ right second
  obtain ⟨after, near⟩ := Ring.spaced_far _ blocks i gap _ _ layout.spaced first second
  have far : (gap + 1) * (2 * sendBufferSize) ≤ 63 * (2 * sendBufferSize) := Nat.mul_le_mul_right _ (by omega)
  have apart := Ring.disjoint receiveBufferSize _ _ after (by omega)
  rw [place, place', length, length'] at apart
  exact apart

end ZipLog.Network
