import ZipLog.Network.Messages
import ZipLog.Network.Transport

set_option autoImplicit false

namespace ZipLog.Network

-- The threads that poll a receive queue.
inductive Poller where
  | orderLoop
  | storageControl
  | storageClient
  | clientLoop
  | subscriberControl
  | subscriberPoll
deriving DecidableEq, Repr

-- The handlers that each of them gives to recv_apply.
def Poller.handlers : Poller → List MessageType
  | .orderLoop => [.orderClientRate, .clientFinished, .subscriberFinished, .orderClientFreeze, .orderClientCut, .orderClientData]
  | .storageControl =>
      [.storageSlots, .storageClientFreeze, .storageClientCut, .storageClientPatch, .storageClientFinalize, .subscriberFinished]
  | .storageClient => [.storageInsert, .clientFinished]
  | .clientLoop => [.clientInsertAck, .clientNewEpoch, .storageFinished, .orderFinished, .clientStorageInfo, .clientHeartbeat]
  | .subscriberControl => [.subscriberStorageInfo, .orderFinished, .storageFinished]
  | .subscriberPoll => [.subscriberLogEntry]

-- recv_apply, given a buffer, calls the handler for this message and the handler
-- reads the message.
def Poller.Handles (poller : Poller) (memory : Memory) (length : Nat) (message : Message) : Prop :=
  apply memory length (poller.handlers.map MessageType.format) = .handled message.type.format ∧ message.type.read memory = some message

-- What has been posted is what was passed to send.
theorem history_run (index maxOutstanding numQueues queue : Nat) (transfers : List Transfer) (s : Transport)
    (ran : Machine.run (Transport.step queue) (Transport.init index maxOutstanding numQueues) transfers = some s) :
    s.sent.map Request.data = transfers.filterMap Transfer.payload? ∧ s.sender.index = index := by
  refine Machine.run_invariant (Transport.step queue) _
    (fun transfers s => s.sent.map Request.data = transfers.filterMap Transfer.payload? ∧ s.sender.index = index) ⟨rfl, rfl⟩ ?_ transfers s ran
  intro transfers s transfer next before stepped
  obtain ⟨sent, same⟩ := transport_sent queue s next transfer stepped
  refine ⟨?_, same.trans before.2⟩
  rw [sent, before.1, List.filterMap_append]
  rfl

theorem stored_handles (poller : Poller) (message : Message) (fits : message.Fits) (handled : message.type ∈ poller.handlers)
    (memory : Memory) (stored : message.Stored memory) : poller.Handles memory message.encode.length message := by
  refine ⟨?_, stored_read message memory stored⟩
  rw [stored_apply message fits memory stored, if_pos handled]

theorem carried_handles (poller : Poller) (message : Message) (fits : message.Fits) (handled : message.type ∈ poller.handlers)
    (call : HandlerCall) (carried : call.data = message.encode ∧ call.slot.length = message.encode.length) (memory : Memory)
    (received : Ring.read memory 0 call.slot.length = call.data) : poller.Handles memory call.slot.length message := by
  obtain ⟨data, length⟩ := carried
  rw [data, length] at received
  rw [length]
  exact stored_handles poller message fits handled memory (encode_stored message fits memory received)

-- The calls of the connection carry the encoded messages, a prefix of them in order.
theorem calls_carry (index maxOutstanding numQueues queue : Nat) (valid : index < maxQueuePairs) (messages : List Message)
    (transfers : List Transfer) (passed : transfers.filterMap Transfer.payload? = messages.map Message.encode) (s : Transport)
    (ran : Machine.run (Transport.step queue) (Transport.init index maxOutstanding numQueues) transfers = some s) :
    s.called ≤ messages.length ∧
    List.Forall₂ (fun call message => call.data = message.encode ∧ call.slot.length = message.encode.length)
      (s.calls.filter (fun call => decide (call.slot.index = index))) (messages.take s.called) := by
  have inv : s.Inv := Machine.run_preserves (Transport.step queue) Transport.Inv
    (fun s transfer next inv stepped => transport_step queue s next transfer inv stepped) _ s
    (transport_init index maxOutstanding numQueues valid) transfers ran
  obtain ⟨sent, same⟩ := history_run index maxOutstanding numQueues queue transfers s ran
  rw [passed] at sent
  have lengths : s.sent.length = messages.length := by
    have both := congrArg List.length sent
    rwa [List.length_map, List.length_map] at both
  have calls := inv.calls
  unfold Transport.own at calls
  rw [same] at calls
  refine ⟨(called_le s inv).trans (inv.bounds.2.trans lengths.le), ?_⟩
  rw [calls, List.forall₂_map_left_iff]
  apply List.forall₂_iff_get.mpr
  refine ⟨by rw [List.length_take, List.length_take, lengths], ?_⟩
  intro i first second
  have data : ((s.sent.take s.called).get ⟨i, first⟩).data = ((messages.take s.called).get ⟨i, second⟩).encode := by
    have at_place := congrArg (fun list : List Bytes => list[i]?) sent
    simp only [List.length_take] at first second
    simp only [List.getElem?_map] at at_place
    rw [List.getElem?_eq_getElem (by omega), List.getElem?_eq_getElem (by omega)] at at_place
    simpa using at_place
  exact ⟨data, by rw [← data]; rfl⟩

-- The handlers of a poller are called for messages that fit.
theorem carried_typed (poller : Poller) (calls : List HandlerCall) (messages : List Message)
    (fits : ∀ message ∈ messages, message.Fits ∧ message.type ∈ poller.handlers)
    (carried : List.Forall₂ (fun call message => call.data = message.encode ∧ call.slot.length = message.encode.length) calls messages) :
    List.Forall₂ (fun call message => ∀ memory : Memory, Ring.read memory 0 call.slot.length = call.data →
      poller.Handles memory call.slot.length message) calls messages := by
  induction carried with
  | nil => exact List.Forall₂.nil
  | cons here rest ih =>
      obtain ⟨fitting, handled⟩ := fits _ (List.mem_cons_self ..)
      exact List.Forall₂.cons (fun memory received => carried_handles poller _ fitting handled _ here memory received)
        (ih (fun message member => fits message (List.mem_cons_of_mem _ member)))

-- A storage server acknowledges an insert and says goodbye; the client has called
-- the handler of the first message.
def ackMessages : List Message := [.clientInsertAck ⟨1, 300⟩, .storageFinished 0 1]

def ackTransfers : List Transfer :=
  [.send false (Message.encode (.clientInsertAck ⟨1, 300⟩)) 0 false, .send false (Message.encode (.storageFinished 0 1)) 0 true,
    .land, .recv 8 1, .call]

theorem ack_fits (message : Message) (member : message ∈ ackMessages) : message.Fits ∧ message.type ∈ Poller.clientLoop.handlers := by
  simp only [ackMessages, List.mem_cons, List.not_mem_nil, or_false] at member
  rcases member with rfl | rfl
  · exact ⟨⟨by decide, fun widths array => (by cases array), by decide⟩, by decide⟩
  · exact ⟨⟨by decide, fun widths array => (by cases array), by decide⟩, by decide⟩

end ZipLog.Network
