import ZipLog.Lib.Run
import ZipLog.Network.SendQueue

set_option autoImplicit false

namespace ZipLog.Network

structure Completion where
  imm : Nat
  byteLen : Nat
deriving DecidableEq, Repr

-- An element of the result array of recv: a pointer into a receive buffer and a
-- length.
structure Slot where
  index : Nat
  offset : Nat
  length : Nat
deriving DecidableEq, Repr

-- A call of the handler, with the bytes it finds.
structure HandlerCall where
  slot : Slot
  data : Bytes
deriving DecidableEq, Repr

-- One send_queue and the recv_queue of the peer that its messages go to. posted
-- is the number of requests in the shared receive queue, numPosted the
-- num_posted_ of the recv_queue; batch is what a recv has polled and whose
-- handlers have not returned, running whether the first of them has been called.
-- sent, landed, returned and calls are history, of this connection but for the
-- last.
structure Transport where
  sender : Sender
  completions : Nat
  synchronizing : Bool
  inFlight : List Request
  buffers : Nat → Nat → UInt8
  posted : Nat
  completionQueue : List Completion
  numPosted : Nat
  batch : Option (List Slot)
  running : Bool
  sent : List Request
  landed : Nat
  returned : Nat
  calls : List HandlerCall

def Transport.init (index maxOutstanding numQueues : Nat) : Transport :=
  { sender := ⟨index, 0, 0, maxOutstanding, numQueues⟩
    completions := 0
    synchronizing := false
    inFlight := []
    buffers := fun _ _ => 0
    posted := maxReceiveRequests
    completionQueue := []
    numPosted := maxReceiveRequests
    batch := none
    running := false
    sent := []
    landed := 0
    returned := 0
    calls := [] }

inductive Transfer where
  | send (overload : Bool) (data : Bytes) (destination : Nat) (synchronize : Bool)
  | synchronized
  | land
  | landOther (index offset : Nat) (data : Bytes)
  | recv (maxPoll numPolled : Nat)
  | call
  | ret
  | arm
deriving DecidableEq, Repr

def Completion.slot (completion : Completion) : Slot :=
  ⟨(decode completion.imm).1, (decode completion.imm).2, completion.byteLen⟩

-- The write of a work request with the completion at the receiver.
def Transport.deliver (s : Transport) (index offset imm : Nat) (data : Bytes) : Transport :=
  { s with
    buffers := Function.update s.buffers index (Ring.write (s.buffers index) offset data)
    posted := s.posted - 1
    completionQueue := s.completionQueue ++ [⟨imm, data.length⟩] }

-- A send that has max_outstanding_ messages out takes a completion first.
def Transport.ready (s : Transport) : Prop :=
  s.synchronizing = false ∧ (s.sender.maxOutstanding ≤ s.sender.sentMessages → 0 < s.completions)

instance (s : Transport) : Decidable s.ready := inferInstanceAs (Decidable (_ = false ∧ (_ → _)))

def Transport.sending (s : Transport) (synchronize : Bool) (result : Sender × Request) : Transport :=
  { s with
    sender := result.1
    completions := if s.sender.maxOutstanding ≤ s.sender.sentMessages then s.completions - 1 else s.completions
    synchronizing := synchronize
    inFlight := s.inFlight ++ [result.2]
    sent := s.sent ++ [result.2] }

section

variable (queue : Nat)

-- All messages go to one receive queue, by destination. Writes land in order and
-- only on a posted receive request; the other senders of the receive queue have
-- other receive buffers. The polls of a completion queue return some of what is
-- there.
def Transport.step (s : Transport) : Transfer → Option Transport
  | .send overload data destination synchronize =>
      if s.ready ∧ 1 ≤ data.length ∧ destination % s.sender.numQueues = queue then
        (if overload then s.sender.sendBuffer data destination synchronize else s.sender.sendInline data destination synchronize).map
          (s.sending synchronize)
      else none
  | .synchronized =>
      if s.synchronizing = true ∧ 0 < s.completions then some { s with synchronizing := false, completions := s.completions - 1 } else none
  | .land =>
      match s.inFlight with
      | [] => none
      | request :: rest =>
          if 0 < s.posted then
            some { s.deliver s.sender.index request.offset request.imm request.data with
              inFlight := rest
              completions := if request.signaled then s.completions + 1 else s.completions
              landed := s.landed + 1 }
          else none
  | .landOther index offset data =>
      if 0 < s.posted ∧ index < maxQueuePairs ∧ index ≠ s.sender.index ∧ offset + data.length ≤ receiveBufferSize then
        some (s.deliver index offset (immediate index offset) data)
      else none
  | .recv maxPoll numPolled =>
      if s.batch = none ∧ maxPoll ≤ receiveBatchSize ∧ numPolled ≤ maxPoll ∧ numPolled ≤ s.completionQueue.length then
        some { s with
          numPosted := s.numPosted - numPolled
          batch := some ((s.completionQueue.take numPolled).map Completion.slot)
          completionQueue := s.completionQueue.drop numPolled }
      else none
  | .call =>
      match s.batch with
      | some (slot :: _) =>
          if s.running = false then
            some { s with
              running := true
              calls := s.calls ++ [⟨slot, Ring.read (s.buffers slot.index) slot.offset slot.length⟩] }
          else none
      | _ => none
  | .ret =>
      match s.batch with
      | some (slot :: rest) =>
          if s.running = true then
            some { s with
              running := false
              batch := some rest
              returned := if slot.index = s.sender.index then s.returned + 1 else s.returned }
          else none
      | _ => none
  | .arm =>
      if s.batch = some [] then
        some { s with
          batch := none
          posted := if s.numPosted < maxReceiveRequests / 2 then s.posted + (maxReceiveRequests - s.numPosted) else s.posted
          numPosted := if s.numPosted < maxReceiveRequests / 2 then maxReceiveRequests else s.numPosted }
      else none

end

-- What the handler is to see of a message.
def Request.slot (index : Nat) (request : Request) : Slot := ⟨index, request.offset, request.data.length⟩

def Request.call (index : Nat) (request : Request) : HandlerCall := ⟨request.slot index, request.data⟩

def Transport.own (s : Transport) (slot : Slot) : Bool := decide (slot.index = s.sender.index)

-- The slots whose handlers have not returned, oldest first.
def Transport.open_ (s : Transport) : List Slot := s.batch.getD [] ++ s.completionQueue.map Completion.slot

-- The messages of this connection that are in the receive buffer and whose
-- handlers have not returned.
def Transport.pending (s : Transport) : List Request := (s.sent.take s.landed).drop s.returned

-- How many of its handlers have been called.
def Transport.called (s : Transport) : Nat :=
  if s.running = true ∧ ((s.batch.getD []).head?.map s.own) = some true then s.returned + 1 else s.returned

structure Transport.Inv (s : Transport) : Prop where
  index : s.sender.index < maxQueuePairs
  layout : ∃ base blocks, Layout s.sender s.sent base blocks
  requests : ∀ request ∈ s.sent, request.imm = immediate s.sender.index request.offset ∧ request.offset ≤ receiveBufferSize
  flight : s.inFlight = s.sent.drop s.landed
  bounds : s.returned ≤ s.landed ∧ s.landed ≤ s.sent.length
  slots : s.open_.filter s.own = s.pending.map (Request.slot s.sender.index)
  posted : s.posted + s.completionQueue.length = s.numPosted
  armed : s.numPosted + (s.batch.getD []).length ≤ maxReceiveRequests
  memory : ∀ request ∈ s.pending, Ring.read (s.buffers s.sender.index) request.offset request.data.length = request.data
  handler : s.running = true → s.batch.getD [] ≠ []
  calls : s.calls.filter (fun call => s.own call.slot) = (s.sent.take s.called).map (Request.call s.sender.index)

theorem transport_init (index maxOutstanding numQueues : Nat) (valid : index < maxQueuePairs) :
    (Transport.init index maxOutstanding numQueues).Inv := by
  refine ⟨valid, ⟨0, [], layout_init _ rfl⟩, ?_, rfl, ⟨Nat.le_refl _, Nat.le_refl _⟩, rfl, rfl, Nat.le_refl _, ?_, ?_, rfl⟩
  · intro request member
    cases member
  · intro request member
    cases member
  · intro running
    cases running

-- The oldest open message of this connection is the next one whose handler
-- returns.
theorem open_head (s : Transport) (inv : s.Inv) (slot : Slot) (rest : List Slot) (batch : s.batch = some (slot :: rest))
    (own : s.own slot = true) : ∃ request, s.sent[s.returned]? = some request ∧ request.slot s.sender.index = slot ∧ request ∈ s.pending ∧
      s.returned < s.landed := by
  have slots := inv.slots
  rw [Transport.open_, batch, Option.getD_some, List.cons_append, List.filter_cons_of_pos own] at slots
  cases next : s.pending with
  | nil =>
      rw [next] at slots
      cases slots
  | cons request later =>
      rw [next, List.map_cons] at slots
      have first : s.pending[0]? = some request := by
        rw [next]
        rfl
      have access := first
      rw [Transport.pending, List.getElem?_drop, Nat.add_zero] at access
      have bound := (List.getElem?_eq_some_iff.mp access).1
      rw [List.length_take] at bound
      rw [List.getElem?_take_of_lt (by omega)] at access
      exact ⟨request, access, (List.cons.inj slots).1.symm, List.mem_cons_self, by omega⟩

theorem called_le (s : Transport) (inv : s.Inv) : s.called ≤ s.landed := by
  unfold Transport.called
  split
  · rename_i both
    cases batch : s.batch with
    | none =>
        rw [batch] at both
        cases both.2
    | some slots =>
        cases slots with
        | nil =>
            rw [batch] at both
            cases both.2
        | cons slot rest =>
            rw [batch] at both
            obtain ⟨-, -, -, -, before⟩ := open_head s inv slot rest batch (Option.some.inj both.2)
            exact before
  · exact inv.bounds.1

theorem pending_length (s : Transport) (inv : s.Inv) : s.landed - s.returned ≤ s.open_.length := by
  have length : s.pending.length = s.landed - s.returned := by
    rw [Transport.pending, List.length_drop, List.length_take, Nat.min_eq_left inv.bounds.2]
  have slots := congrArg List.length inv.slots
  rw [List.length_map, length] at slots
  rw [← slots]
  exact List.length_filter_le _ _

-- A message that lands has at most 63 open ones before it.
theorem open_apart (s : Transport) (inv : s.Inv) (request : Request) (rest : List Request) (next : s.inFlight = request :: rest)
    (free : 0 < s.posted) : ∀ earlier ∈ s.pending, earlier.offset + earlier.data.length ≤ request.offset ∨
      request.offset + request.data.length ≤ earlier.offset := by
  intro earlier member
  obtain ⟨base, blocks, layout⟩ := inv.layout
  obtain ⟨i, access⟩ := List.mem_iff_getElem?.mp member
  rw [Transport.pending, List.getElem?_drop] at access
  have bound := (List.getElem?_eq_some_iff.mp access).1
  rw [List.length_take] at bound
  rw [List.getElem?_take_of_lt (by omega)] at access
  have here : s.sent[s.landed]? = some request := by
    have head := congrArg List.head? (inv.flight.symm.trans next)
    rw [List.head?_drop] at head
    exact head
  have few := pending_length s inv
  have open_ : s.open_.length = (s.batch.getD []).length + s.completionQueue.length := by
    rw [Transport.open_, List.length_append, List.length_map]
  have posted := inv.posted
  have armed := inv.armed
  refine layout_apart s.sender s.sent base blocks layout (s.returned + i) (s.landed - (s.returned + i) - 1) earlier request access ?_ ?_
  · rw [show s.returned + i + (s.landed - (s.returned + i) - 1) + 1 = s.landed by omega]
    exact here
  · omega

theorem transport_sending (s : Transport) (inv : s.Inv) (limit destination : Nat) (inlined synchronize : Bool) (data : Bytes)
    (result : Sender × Request) (positive : 1 ≤ data.length) (limited : limit ≤ sendBufferSize)
    (posted : s.sender.post limit inlined data destination synchronize = some result) : (s.sending synchronize result).Inv := by
  obtain ⟨base, blocks, layout⟩ := inv.layout
  obtain ⟨⟨index, -, imm, inside⟩, later, block, after⟩ :=
    post_layout s.sender result.1 s.sent result.2 limit destination base inlined synchronize data blocks layout positive limited posted
  have own : (s.sending synchronize result).own = s.own := by
    funext slot
    change decide (slot.index = result.1.index) = _
    rw [index]
    rfl
  have pending : (s.sending synchronize result).pending = s.pending := by
    change ((s.sent ++ [result.2]).take s.landed).drop s.returned = _
    rw [List.take_append_of_le_length inv.bounds.2]
    rfl
  refine ⟨?_, ⟨later, _, after⟩, ?_, ?_, ⟨inv.bounds.1, ?_⟩, ?_, inv.posted, inv.armed, ?_, inv.handler, ?_⟩
  · change result.1.index < _
    rw [index]
    exact inv.index
  · intro request member
    change request.imm = immediate result.1.index request.offset ∧ _
    rw [index]
    cases List.mem_append.mp member with
    | inl earlier => exact inv.requests request earlier
    | inr last =>
        rw [List.mem_singleton.mp last]
        exact ⟨imm, inside⟩
  · change s.inFlight ++ [result.2] = (s.sent ++ [result.2]).drop s.landed
    rw [List.drop_append_of_le_length inv.bounds.2, inv.flight]
  · change s.landed ≤ (s.sent ++ [result.2]).length
    rw [List.length_append]
    exact Nat.le_add_right_of_le inv.bounds.2
  · rw [own, pending]
    change s.open_.filter s.own = s.pending.map (Request.slot result.1.index)
    rw [index]
    exact inv.slots
  · intro request member
    rw [pending] at member
    change Ring.read (s.buffers result.1.index) _ _ = _
    rw [index]
    exact inv.memory request member
  · have called : (s.sending synchronize result).called = s.called := by
      unfold Transport.called
      rw [own]
      rfl
    rw [own, called]
    change s.calls.filter (fun call => s.own call.slot) = ((s.sent ++ [result.2]).take s.called).map (Request.call result.1.index)
    rw [index, List.take_append_of_le_length (Nat.le_trans (called_le s inv) inv.bounds.2)]
    exact inv.calls

theorem transport_landed (s : Transport) (inv : s.Inv) (request : Request) (rest : List Request) (completions : Nat)
    (next : s.inFlight = request :: rest) (free : 0 < s.posted) :
    Transport.Inv { s.deliver s.sender.index request.offset request.imm request.data with
      inFlight := rest
      completions := completions
      landed := s.landed + 1 } := by
  have flight := inv.flight.symm.trans next
  have here : s.sent[s.landed]? = some request := by
    have head := congrArg List.head? flight
    rw [List.head?_drop] at head
    exact head
  have bound := (List.getElem?_eq_some_iff.mp here).1
  obtain ⟨imm, inside⟩ := inv.requests request (List.mem_of_getElem? here)
  have pending : (s.sent.take (s.landed + 1)).drop s.returned = s.pending ++ [request] := by
    rw [List.take_add_one, here, Option.toList_some, List.drop_append_of_le_length]
    · rfl
    · rw [List.length_take]
      have bounds := inv.bounds
      omega
  have slot : Completion.slot ⟨request.imm, request.data.length⟩ = request.slot s.sender.index := by
    rw [Completion.slot, imm, decode_immediate s.sender.index request.offset inv.index inside]
    rfl
  have mine : s.own (request.slot s.sender.index) = true := decide_eq_true rfl
  refine ⟨inv.index, inv.layout, inv.requests, ?_, ⟨Nat.le_succ_of_le inv.bounds.1, bound⟩, ?_, ?_, inv.armed, ?_, inv.handler, inv.calls⟩
  · change rest = s.sent.drop (s.landed + 1)
    rw [← List.tail_drop, flight, List.tail_cons]
  · change (s.batch.getD [] ++ (s.completionQueue ++ [Completion.mk request.imm request.data.length]).map Completion.slot).filter s.own =
      ((s.sent.take (s.landed + 1)).drop s.returned).map (Request.slot s.sender.index)
    rw [pending, List.map_append, List.map_append, List.map_singleton, List.map_singleton, slot, ← List.append_assoc, List.filter_append,
      ← inv.slots, List.filter_cons_of_pos mine]
    rfl
  · change s.posted - 1 + (s.completionQueue ++ [_]).length = s.numPosted
    have posted := inv.posted
    rw [List.length_append, List.length_singleton]
    omega
  · intro other member
    change other ∈ (s.sent.take (s.landed + 1)).drop s.returned at member
    change Ring.read (Function.update s.buffers s.sender.index _ s.sender.index) _ _ = _
    rw [Function.update_self]
    rw [pending] at member
    cases List.mem_append.mp member with
    | inl earlier =>
        rw [Ring.read_write_apart _ _ _ _ _ (open_apart s inv request rest next free other earlier)]
        exact inv.memory other earlier
    | inr last =>
        rw [List.mem_singleton.mp last]
        exact Ring.read_write _ _ _

theorem transport_other (s : Transport) (inv : s.Inv) (index offset : Nat) (data : Bytes) (free : 0 < s.posted) (valid : index < maxQueuePairs)
    (other : index ≠ s.sender.index) (inside : offset ≤ receiveBufferSize) : (s.deliver index offset (immediate index offset) data).Inv := by
  have slot : s.own (Completion.slot ⟨immediate index offset, data.length⟩) = false := by
    rw [Completion.slot, decode_immediate index offset valid inside]
    exact decide_eq_false other
  refine ⟨inv.index, inv.layout, inv.requests, inv.flight, inv.bounds, ?_, ?_, inv.armed, ?_, inv.handler, inv.calls⟩
  · change (s.batch.getD [] ++ (s.completionQueue ++ [Completion.mk (immediate index offset) data.length]).map Completion.slot).filter s.own = _
    rw [List.map_append, List.map_singleton, ← List.append_assoc, List.filter_append,
      List.filter_cons_of_neg (by rw [slot]; exact Bool.false_ne_true), List.filter_nil, List.append_nil]
    exact inv.slots
  · change s.posted - 1 + (s.completionQueue ++ [_]).length = s.numPosted
    have posted := inv.posted
    rw [List.length_append, List.length_singleton]
    omega
  · intro request member
    change Ring.read (Function.update s.buffers index _ s.sender.index) _ _ = _
    rw [Function.update_of_ne (Ne.symm other)]
    exact inv.memory request member

theorem transport_recv (s : Transport) (inv : s.Inv) (numPolled : Nat) (idle : s.batch = none) (there : numPolled ≤ s.completionQueue.length) :
    Transport.Inv { s with
      numPosted := s.numPosted - numPolled
      batch := some ((s.completionQueue.take numPolled).map Completion.slot)
      completionQueue := s.completionQueue.drop numPolled } := by
  have posted := inv.posted
  have armed := inv.armed
  have stopped : s.running = false := by
    cases running : s.running with
    | false => rfl
    | true =>
        have busy := inv.handler running
        rw [idle] at busy
        exact absurd rfl busy
  refine ⟨inv.index, inv.layout, inv.requests, inv.flight, inv.bounds, ?_, ?_, ?_, inv.memory, ?_, ?_⟩
  · have slots := inv.slots
    rw [Transport.open_, idle, Option.getD_none, List.nil_append] at slots
    change ((s.completionQueue.take numPolled).map Completion.slot ++ (s.completionQueue.drop numPolled).map Completion.slot).filter s.own = _
    rw [← List.map_append, List.take_append_drop]
    exact slots
  · change s.posted + (s.completionQueue.drop numPolled).length = s.numPosted - numPolled
    rw [List.length_drop]
    omega
  · change s.numPosted - numPolled + ((s.completionQueue.take numPolled).map Completion.slot).length ≤ _
    rw [List.length_map, List.length_take, Nat.min_eq_left there]
    omega
  · intro running
    exact Bool.noConfusion (stopped.symm.trans running)
  · have before := inv.calls
    rw [Transport.called, if_neg (fun both => Bool.noConfusion (stopped.symm.trans both.1))] at before
    rw [Transport.called, if_neg (fun both => Bool.noConfusion (stopped.symm.trans both.1))]
    exact before

theorem transport_call (s : Transport) (inv : s.Inv) (slot : Slot) (rest : List Slot) (batch : s.batch = some (slot :: rest))
    (idle : s.running = false) :
    Transport.Inv { s with
      running := true
      calls := s.calls ++ [⟨slot, Ring.read (s.buffers slot.index) slot.offset slot.length⟩] } := by
  have before := inv.calls
  rw [Transport.called, if_neg (fun both => Bool.noConfusion (idle.symm.trans both.1))] at before
  refine ⟨inv.index, inv.layout, inv.requests, inv.flight, inv.bounds, inv.slots, inv.posted, inv.armed, inv.memory, ?_, ?_⟩
  · intro _
    rw [batch]
    exact List.cons_ne_nil _ _
  · rw [Transport.called, batch]
    change (s.calls ++ [HandlerCall.mk slot (Ring.read (s.buffers slot.index) slot.offset slot.length)]).filter
      (fun call => s.own call.slot) = (s.sent.take (if true = true ∧ some (s.own slot) = some true then s.returned + 1 else s.returned)).map
        (Request.call s.sender.index)
    rw [List.filter_append, before]
    by_cases own : s.own slot = true
    · obtain ⟨request, access, same, member, -⟩ := open_head s inv slot rest batch own
      have found : HandlerCall.mk slot (Ring.read (s.buffers slot.index) slot.offset slot.length) = request.call s.sender.index := by
        rw [← same]
        exact congrArg (HandlerCall.mk _) (inv.memory request member)
      rw [if_pos ⟨rfl, congrArg some own⟩, List.filter_cons_of_pos (p := fun call : HandlerCall => s.own call.slot) (a := HandlerCall.mk slot _) own,
        List.filter_nil, found, List.take_add_one, access, List.map_append,
        Option.toList_some, List.map_singleton]
    · rw [if_neg (fun both => own (Option.some.inj both.2)),
        List.filter_cons_of_neg (p := fun call : HandlerCall => s.own call.slot) (a := HandlerCall.mk slot _) own,
        List.filter_nil, List.append_nil]

theorem transport_ret (s : Transport) (inv : s.Inv) (slot : Slot) (rest : List Slot) (batch : s.batch = some (slot :: rest))
    (running : s.running = true) :
    Transport.Inv { s with
      running := false
      batch := some rest
      returned := if slot.index = s.sender.index then s.returned + 1 else s.returned } := by
  have slots := inv.slots
  have armed := inv.armed
  have calls := inv.calls
  rw [Transport.open_, batch, Option.getD_some, List.cons_append] at slots
  rw [batch, Option.getD_some, List.length_cons] at armed
  rw [Transport.called, batch] at calls
  by_cases own : slot.index = s.sender.index
  · have mine : s.own slot = true := decide_eq_true own
    obtain ⟨request, access, same, member, before⟩ := open_head s inv slot rest batch mine
    have tail : (s.sent.take s.landed).drop (s.returned + 1) = s.pending.tail := by
      rw [Transport.pending, List.tail_drop]
    rw [if_pos own]
    refine ⟨inv.index, inv.layout, inv.requests, inv.flight, ⟨before, inv.bounds.2⟩, ?_, inv.posted, ?_, ?_, ?_, ?_⟩
    · rw [List.filter_cons_of_pos mine] at slots
      change (rest ++ s.completionQueue.map Completion.slot).filter s.own = ((s.sent.take s.landed).drop (s.returned + 1)).map _
      rw [tail, List.map_tail, ← slots]
      rfl
    · change s.numPosted + rest.length ≤ _
      omega
    · intro other inside
      change other ∈ (s.sent.take s.landed).drop (s.returned + 1) at inside
      rw [tail] at inside
      exact inv.memory other (List.mem_of_mem_tail inside)
    · intro now
      cases now
    · rw [if_pos ⟨running, congrArg some mine⟩] at calls
      rw [Transport.called, if_neg (fun both => by cases both.1)]
      exact calls
  · have foreign : s.own slot = false := decide_eq_false own
    rw [if_neg own]
    refine ⟨inv.index, inv.layout, inv.requests, inv.flight, inv.bounds, ?_, inv.posted, ?_, inv.memory, ?_, ?_⟩
    · rw [List.filter_cons_of_neg (by rw [foreign]; exact Bool.false_ne_true)] at slots
      exact slots
    · change s.numPosted + rest.length ≤ _
      omega
    · intro now
      cases now
    · rw [if_neg (fun both => by rw [Option.getD_some, List.head?_cons, Option.map_some, foreign] at both; cases both.2)] at calls
      rw [Transport.called, if_neg (fun both => by cases both.1)]
      exact calls

theorem transport_arm (s : Transport) (inv : s.Inv) (done : s.batch = some []) :
    Transport.Inv { s with
      batch := none
      posted := if s.numPosted < maxReceiveRequests / 2 then s.posted + (maxReceiveRequests - s.numPosted) else s.posted
      numPosted := if s.numPosted < maxReceiveRequests / 2 then maxReceiveRequests else s.numPosted } := by
  have slots := inv.slots
  have posted := inv.posted
  have armed := inv.armed
  have handler := inv.handler
  have calls := inv.calls
  rw [Transport.open_, done] at slots
  rw [done, Option.getD_some] at armed handler
  rw [Transport.called, done] at calls
  have half : maxReceiveRequests = 64 := rfl
  refine ⟨inv.index, inv.layout, inv.requests, inv.flight, inv.bounds, slots, ?_, ?_, inv.memory, handler, calls⟩
  · dsimp only
    split
    · rename_i few
      rw [half] at few ⊢
      omega
    · exact posted
  · change (if s.numPosted < maxReceiveRequests / 2 then maxReceiveRequests else s.numPosted) + 0 ≤ _
    split
    · exact Nat.le_refl _
    · exact armed

theorem transport_step (queue : Nat) (s next : Transport) (transfer : Transfer) (inv : s.Inv) (stepped : s.step queue transfer = some next) :
    next.Inv := by
  unfold Transport.step at stepped
  cases transfer with
  | send overload data destination synchronize =>
      dsimp only at stepped
      rw [Option.ite_none_right_eq_some] at stepped
      obtain ⟨⟨-, positive, -⟩, taken⟩ := stepped
      obtain ⟨result, posted, rfl⟩ := Option.map_eq_some_iff.mp taken
      cases overload with
      | true => exact transport_sending s inv sendBufferSize destination _ synchronize data result positive (Nat.le_refl _) posted
      | false => exact transport_sending s inv maxInlineData destination _ synchronize data result positive (by decide) posted
  | synchronized =>
      dsimp only at stepped
      rw [Option.ite_none_right_eq_some] at stepped
      cases stepped.2
      exact ⟨inv.index, inv.layout, inv.requests, inv.flight, inv.bounds, inv.slots, inv.posted, inv.armed, inv.memory, inv.handler, inv.calls⟩
  | land =>
      dsimp only at stepped
      split at stepped
      · cases stepped
      · rename_i request rest flight
        rw [Option.ite_none_right_eq_some] at stepped
        obtain ⟨free, taken⟩ := stepped
        cases taken
        exact transport_landed s inv request rest _ flight free
  | landOther index offset data =>
      dsimp only at stepped
      rw [Option.ite_none_right_eq_some] at stepped
      obtain ⟨⟨free, valid, other, inside⟩, taken⟩ := stepped
      cases taken
      exact transport_other s inv index offset data free valid other (Nat.le_of_add_right_le inside)
  | recv maxPoll numPolled =>
      dsimp only at stepped
      rw [Option.ite_none_right_eq_some] at stepped
      obtain ⟨⟨idle, -, -, there⟩, taken⟩ := stepped
      cases taken
      exact transport_recv s inv numPolled idle there
  | call =>
      dsimp only at stepped
      split at stepped
      · rename_i slot rest batch
        rw [Option.ite_none_right_eq_some] at stepped
        obtain ⟨idle, taken⟩ := stepped
        cases taken
        exact transport_call s inv slot rest batch idle
      · cases stepped
  | ret =>
      dsimp only at stepped
      split at stepped
      · rename_i slot rest batch
        rw [Option.ite_none_right_eq_some] at stepped
        obtain ⟨running, taken⟩ := stepped
        cases taken
        exact transport_ret s inv slot rest batch running
      · cases stepped
  | arm =>
      dsimp only at stepped
      rw [Option.ite_none_right_eq_some] at stepped
      obtain ⟨done, taken⟩ := stepped
      cases taken
      exact transport_arm s inv done

def Transfer.payload? : Transfer → Option Bytes
  | .send _ data _ _ => some data
  | _ => none

theorem post_data (sender next : Sender) (request : Request) (limit destination : Nat) (inlined synchronize : Bool) (data : Bytes)
    (posted : sender.post limit inlined data destination synchronize = some (next, request)) : request.data = data ∧ next.index = sender.index := by
  unfold Sender.post at posted
  rw [Option.ite_none_left_eq_some] at posted
  cases posted.2
  exact ⟨rfl, rfl⟩

-- The history of the sender.
theorem transport_sent (queue : Nat) (s next : Transport) (transfer : Transfer) (stepped : s.step queue transfer = some next) :
    next.sent.map Request.data = s.sent.map Request.data ++ transfer.payload?.toList ∧ next.sender.index = s.sender.index := by
  unfold Transport.step at stepped
  cases transfer with
  | send overload data destination synchronize =>
      dsimp only at stepped
      rw [Option.ite_none_right_eq_some] at stepped
      obtain ⟨result, posted, rfl⟩ := Option.map_eq_some_iff.mp stepped.2
      have kept : result.2.data = data ∧ result.1.index = s.sender.index := by
        cases overload with
        | true => exact post_data s.sender result.1 result.2 _ destination _ synchronize data posted
        | false => exact post_data s.sender result.1 result.2 _ destination _ synchronize data posted
      refine ⟨?_, kept.2⟩
      change (s.sent ++ [result.2]).map Request.data = _
      rw [List.map_append, List.map_singleton, kept.1]
      rfl
  | synchronized =>
      dsimp only at stepped
      rw [Option.ite_none_right_eq_some] at stepped
      cases stepped.2
      exact ⟨(List.append_nil _).symm, rfl⟩
  | land =>
      dsimp only at stepped
      split at stepped
      · cases stepped
      · rw [Option.ite_none_right_eq_some] at stepped
        cases stepped.2
        exact ⟨(List.append_nil _).symm, rfl⟩
  | landOther index offset data =>
      dsimp only at stepped
      rw [Option.ite_none_right_eq_some] at stepped
      cases stepped.2
      exact ⟨(List.append_nil _).symm, rfl⟩
  | recv maxPoll numPolled =>
      dsimp only at stepped
      rw [Option.ite_none_right_eq_some] at stepped
      cases stepped.2
      exact ⟨(List.append_nil _).symm, rfl⟩
  | call =>
      dsimp only at stepped
      split at stepped
      · rw [Option.ite_none_right_eq_some] at stepped
        cases stepped.2
        exact ⟨(List.append_nil _).symm, rfl⟩
      · cases stepped
  | ret =>
      dsimp only at stepped
      split at stepped
      · rw [Option.ite_none_right_eq_some] at stepped
        cases stepped.2
        exact ⟨(List.append_nil _).symm, rfl⟩
      · cases stepped
  | arm =>
      dsimp only at stepped
      rw [Option.ite_none_right_eq_some] at stepped
      cases stepped.2
      exact ⟨(List.append_nil _).symm, rfl⟩

-- The handlers see the messages of the connection in order, each at the place
-- and with the bytes that were sent, which stay until the handler returns; the
-- next write goes nowhere near them.
theorem messages_intact (index maxOutstanding numQueues queue : Nat) (valid : index < maxQueuePairs) (transfers : List Transfer) (s : Transport)
    (ran : Machine.run (Transport.step queue) (Transport.init index maxOutstanding numQueues) transfers = some s) :
    s.sent.map Request.data = transfers.filterMap Transfer.payload? ∧
    s.calls.filter (fun call => decide (call.slot.index = index)) = (s.sent.take s.called).map (Request.call index) ∧
    s.open_.filter (fun slot => decide (slot.index = index)) = s.pending.map (Request.slot index) ∧
    (∀ request ∈ s.pending, Ring.read (s.buffers index) request.offset request.data.length = request.data) ∧
    ∀ request rest, s.inFlight = request :: rest → 0 < s.posted → ∀ earlier ∈ s.pending,
      earlier.offset + earlier.data.length ≤ request.offset ∨ request.offset + request.data.length ≤ earlier.offset := by
  have inv : s.Inv := Machine.run_preserves (Transport.step queue) Transport.Inv
    (fun s transfer next inv stepped => transport_step queue s next transfer inv stepped) _ s
    (transport_init index maxOutstanding numQueues valid) transfers ran
  have history : s.sent.map Request.data = transfers.filterMap Transfer.payload? ∧ s.sender.index = index := by
    refine Machine.run_invariant (Transport.step queue) _
      (fun transfers s => s.sent.map Request.data = transfers.filterMap Transfer.payload? ∧ s.sender.index = index) ⟨rfl, rfl⟩ ?_ transfers s ran
    intro transfers s transfer next before stepped
    obtain ⟨sent, same⟩ := transport_sent queue s next transfer stepped
    refine ⟨?_, same.trans before.2⟩
    rw [sent, before.1, List.filterMap_append]
    congr 1
  obtain ⟨sent, same⟩ := history
  have calls := inv.calls
  have slots := inv.slots
  unfold Transport.own at calls slots
  rw [same] at calls slots
  refine ⟨sent, calls, slots, ?_, fun request rest next free => open_apart s inv request rest next free⟩
  · intro request member
    rw [← same]
    exact inv.memory request member

-- Two senders share the receive queue, and the second handler is running.
theorem messages_intact_two_senders :
    ∃ s, Machine.run (Transport.step 0) (Transport.init 3 4 1)
        [.send true [1, 2, 3] 0 false, .landOther 5 0 [9], .land, .recv 8 2, .call, .ret, .call, .send false [4] 0 true] = some s ∧
      s.running = true ∧ s.calls.length = 2 ∧ s.sent.map Request.data = [[1, 2, 3], [4]] ∧
      s.calls.filter (fun call => decide (call.slot.index = 3)) = (s.sent.take s.called).map (Request.call 3) := by
  have outcome : (Machine.run (Transport.step 0) (Transport.init 3 4 1)
      [.send true [1, 2, 3] 0 false, .landOther 5 0 [9], .land, .recv 8 2, .call, .ret, .call, .send false [4] 0 true]).map
        (fun s => (s.running, s.calls.length)) = some (true, 2) := by decide +kernel
  obtain ⟨s, ran, values⟩ := Option.map_eq_some_iff.mp outcome
  simp only [Prod.mk.injEq] at values
  obtain ⟨sent, calls, -, -, -⟩ := messages_intact 3 4 1 0 (by decide) _ s ran
  exact ⟨s, ran, values.1, values.2, sent, calls⟩

end ZipLog.Network
