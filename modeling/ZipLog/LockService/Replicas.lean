import ZipLog.Lib.Layout
import ZipLog.LockService.Callback
import ZipLog.System.TotalOrder

set_option autoImplicit false

namespace ZipLog.LockService

open ZipLog.System Streams

def LockAction.value : LockAction → Nat
  | .lock => 0
  | .unlock => 1

-- A LockRequest: the enum with four bytes of padding behind it and three words,
-- the last one the pointer to the flag.
def LockRequest.fields (padding : Nat) (request : LockRequest) : List (Nat × Nat) :=
  [(4, request.action.value), (4, padding), (8, request.client), (8, request.lockKey), (8, request.done)]

def LockRequest.encode (padding : Nat) (request : LockRequest) : Bytes := Layout.pack (request.fields padding)

-- The reinterpret_cast of callback. Shorter data would be read past its end.
def LockRequest.decode (data : Bytes) : Option LockRequest :=
  if data.length < 32 then none
  else
    match Layout.unpack [4, 4, 8, 8, 8] data with
    | [action, _, client, lockKey, done] => some ⟨if action = 0 then .lock else .unlock, client, lockKey, done⟩
    | _ => none

theorem decode_encode (padding : Nat) (request : LockRequest) (fits : Layout.Fits (request.fields padding)) (rest : Bytes) :
    LockRequest.decode (request.encode padding ++ rest) = some request := by
  have read := Layout.unpack_pack (request.fields padding) fits rest
  have enough : ¬ (request.encode padding ++ rest).length < 32 := by
    rw [LockRequest.encode, List.length_append, Layout.pack_length]
    exact Nat.not_lt_of_le (Nat.le_add_right 32 rest.length)
  unfold LockRequest.decode
  rw [if_neg enough]
  change Layout.unpack [4, 4, 8, 8, 8] (request.encode padding ++ rest) = _ at read
  rw [read]
  obtain ⟨action, client, lockKey, done⟩ := request
  cases action with
  | lock => rfl
  | unlock => rfl

-- callback with a delivered entry.
def Service.deliver (service : Service) (item : Nat × Nat × Bytes) : Option Service :=
  (LockRequest.decode item.2.2).bind service.callback

-- The instance of a client that runs on a subscriber.
def processed (cid numKeys : Nat) (reader : Reader) : Option Service :=
  Machine.run Service.deliver (Service.init cid numKeys) reader.calls

-- Whose instance it is decides on the flags only.
theorem callback_queue (first second : Service) (req : LockRequest) (same : first.lockQueue = second.lockQueue) :
    (first.callback req).map Service.lockQueue = (second.callback req).map Service.lockQueue := by
  unfold Service.callback
  rw [same]
  cases second.lockQueue[req.lockKey]? with
  | none => rfl
  | some queue =>
      dsimp only
      cases req.action with
      | lock =>
          dsimp only
          split
          · simp only [Option.map_some, store_queue, same]
          · simp only [Option.map_some, same]
      | unlock =>
          dsimp only
          cases queue with
          | nil => rfl
          | cons top rest =>
              dsimp only
              split
              · rfl
              · cases rest with
                | nil => simp only [Option.map_some, store_queue, same]
                | cons next rest => simp only [Option.map_some, store_queue, same]

theorem deliver_queue (first second : Service) (item : Nat × Nat × Bytes) (same : first.lockQueue = second.lockQueue) :
    (first.deliver item).map Service.lockQueue = (second.deliver item).map Service.lockQueue := by
  unfold Service.deliver
  cases LockRequest.decode item.2.2 with
  | none => rfl
  | some req => exact callback_queue first second req same

-- The clients insert what lock_service::request writes.
def Requests (s : Deployment) : Prop :=
  ∀ clientId caller, s.service.clients clientId = some caller → ∀ item ∈ caller.requested,
    ∃ (request : LockRequest) (padding : Nat), Layout.Fits (request.fields padding) ∧ item.1 = request.encode padding

theorem calls_requested (replicas : Nat → List Nat) (s : Deployment) (history : Nat → List StorageControl) (inv : s.Inv replicas history)
    (requests : Requests s) (subscriberId : Nat) (reader : Reader) (present : s.readers subscriberId = some reader) (turn : reader.InTurn)
    (item : Nat × Nat × Bytes) (called : item ∈ reader.calls) :
    ∃ caller request, ∃ (index response : Nat), s.service.clients item.2.1 = some caller ∧
      caller.requested[index]? = some (item.2.2, response) ∧ LockRequest.decode item.2.2 = some request := by
  obtain ⟨streamed, nonempty⟩ := List.mem_filter.mp called
  obtain ⟨taken, member, same⟩ := List.mem_map.mp streamed
  have passed := turn.kept _ (turn.taken taken member)
  rw [← same] at nonempty
  obtain ⟨caller, index, response, there, requested, _⟩ := genuine_request replicas s.service history inv.service taken.2
    ((inv.readers subscriberId reader present).passed taken.2 passed) (List.length_pos_iff.mp (of_decide_eq_true nonempty))
  obtain ⟨request, padding, fits, encoded⟩ := requests _ caller there _ (List.mem_of_getElem? requested)
  have read := decode_encode padding request fits []
  rw [List.append_nil, ← encoded] at read
  rw [← same]
  exact ⟨caller, request, index, response, there, requested, read⟩

-- A request of client 7 for key 0 at the instances of clients 7 and 8.
def lockKeyZero : LockRequest := ⟨.lock, 7, 0, 1⟩

end ZipLog.LockService
