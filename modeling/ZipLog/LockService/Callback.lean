import ZipLog.Lib.Run
import Mathlib.Data.List.TakeDrop
import Mathlib.Data.List.Count

set_option autoImplicit false

namespace ZipLog.LockService

inductive LockAction where
  | lock
  | unlock
deriving DecidableEq, Repr

-- done stands for the flag that the request points to; a client numbers the
-- flags of its requests.
structure LockRequest where
  action : LockAction
  client : Nat
  lockKey : Nat
  done : Nat
deriving DecidableEq, Repr

-- One instance of lock_service. done lists the flags it has set, which are all
-- flags of its own client.
structure Service where
  cid : Nat
  lockQueue : List (List LockRequest)
  done : List Nat
deriving DecidableEq, Repr

def Service.init (cid numKeys : Nat) : Service := ⟨cid, List.replicate numKeys [], []⟩

def Service.store (service : Service) (request : LockRequest) : Service :=
  if request.client = service.cid then { service with done := service.done ++ [request.done] } else service

-- The result is none where an assertion fails. The source reads the front after
-- popping it; the value is the one that was popped.
def Service.callback (service : Service) (req : LockRequest) : Option Service :=
  match service.lockQueue[req.lockKey]? with
  | none => none
  | some queue =>
      match req.action with
      | .lock =>
          let service := if queue.isEmpty then service.store req else service
          some { service with lockQueue := service.lockQueue.set req.lockKey (queue ++ [req]) }
      | .unlock =>
          match queue with
          | [] => none
          | top :: rest =>
              if top.action ≠ .lock ∨ top.client ≠ req.client ∨ top.lockKey ≠ req.lockKey then none
              else
                let service := service.store top
                let service := match rest with
                  | [] => service
                  | next :: _ => service.store next
                some { service with lockQueue := service.lockQueue.set req.lockKey rest }

@[simp] theorem store_cid (service : Service) (request : LockRequest) : (service.store request).cid = service.cid := by
  unfold Service.store
  split
  · rfl
  · rfl

@[simp] theorem store_queue (service : Service) (request : LockRequest) :
    (service.store request).lockQueue = service.lockQueue := by
  unfold Service.store
  split
  · rfl
  · rfl

@[simp] theorem mem_store (service : Service) (request : LockRequest) (flag : Nat) :
    flag ∈ (service.store request).done ↔ flag ∈ service.done ∨ request.client = service.cid ∧ request.done = flag := by
  unfold Service.store
  split
  · rename_i own
    simp [own, eq_comm]
  · rename_i other
    simp [other]

def replay (cid numKeys : Nat) (log : List LockRequest) : Option Service :=
  Machine.run Service.callback (Service.init cid numKeys) log

-- What the queues and the flags are in terms of the log alone.
def locks (log : List LockRequest) (key : Nat) : List LockRequest := log.filter (fun r => r.action = .lock ∧ r.lockKey = key)

def unlocks (log : List LockRequest) (key : Nat) : List LockRequest := log.filter (fun r => r.action = .unlock ∧ r.lockKey = key)

def waiting (log : List LockRequest) (key : Nat) : List LockRequest := (locks log key).drop (unlocks log key).length

def granted (log : List LockRequest) (key : Nat) : List LockRequest := (locks log key).take ((unlocks log key).length + 1)

theorem locks_append (log more : List LockRequest) (key : Nat) : locks (log ++ more) key = locks log key ++ locks more key :=
  List.filter_append _ _

theorem unlocks_append (log more : List LockRequest) (key : Nat) : unlocks (log ++ more) key = unlocks log key ++ unlocks more key :=
  List.filter_append _ _

theorem mem_locks (log : List LockRequest) (key : Nat) (r : LockRequest) :
    r ∈ locks log key ↔ r ∈ log ∧ r.action = .lock ∧ r.lockKey = key := by
  simp only [locks, List.mem_filter, decide_eq_true_eq]

-- A request for another key changes nothing for this one.
theorem other_key (log : List LockRequest) (req : LockRequest) (key : Nat) (other : req.lockKey ≠ key) :
    locks (log ++ [req]) key = locks log key ∧ unlocks (log ++ [req]) key = unlocks log key := by
  simp [locks, unlocks, other]

theorem after_lock (log : List LockRequest) (req : LockRequest) (action : req.action = .lock) :
    locks (log ++ [req]) req.lockKey = locks log req.lockKey ++ [req] ∧
      unlocks (log ++ [req]) req.lockKey = unlocks log req.lockKey := by
  simp [locks, unlocks, action]

theorem after_unlock (log : List LockRequest) (req : LockRequest) (action : req.action = .unlock) :
    locks (log ++ [req]) req.lockKey = locks log req.lockKey ∧
      unlocks (log ++ [req]) req.lockKey = unlocks log req.lockKey ++ [req] := by
  simp [locks, unlocks, action]

-- The state that a service is in after a log, whichever client it belongs to.
structure Replayed (numKeys : Nat) (log : List LockRequest) (service : Service) : Prop where
  queues : service.lockQueue = (List.range numKeys).map (waiting log)
  keys : ∀ r ∈ log, r.lockKey < numKeys
  bound : ∀ key, (unlocks log key).length ≤ (locks log key).length
  matched : ∀ key, (unlocks log key).map LockRequest.client = ((locks log key).take (unlocks log key).length).map LockRequest.client
  flags : ∀ flag, flag ∈ service.done ↔ ∃ key, ∃ r ∈ granted log key, r.client = service.cid ∧ r.done = flag

theorem queue_at (numKeys : Nat) (log : List LockRequest) (service : Service) (spec : Replayed numKeys log service) (key : Nat)
    (valid : key < numKeys) : service.lockQueue[key]? = some (waiting log key) := by
  rw [spec.queues, List.getElem?_map, List.getElem?_range valid, Option.map_some]

theorem callback_lock (numKeys : Nat) (log : List LockRequest) (service : Service) (spec : Replayed numKeys log service)
    (req : LockRequest) (valid : req.lockKey < numKeys) (action : req.action = .lock) :
    ∃ next, service.callback req = some next ∧ next.cid = service.cid ∧
      next.lockQueue = service.lockQueue.set req.lockKey (waiting log req.lockKey ++ [req]) ∧
      ∀ flag, flag ∈ next.done ↔
        flag ∈ service.done ∨ waiting log req.lockKey = [] ∧ req.client = service.cid ∧ req.done = flag := by
  unfold Service.callback
  rw [queue_at numKeys log service spec req.lockKey valid, action]
  refine ⟨_, rfl, ?_⟩
  cases waiting log req.lockKey with
  | nil => simp
  | cons top rest => simp

theorem callback_unlock (numKeys : Nat) (log : List LockRequest) (service : Service) (spec : Replayed numKeys log service)
    (req : LockRequest) (valid : req.lockKey < numKeys) (action : req.action = .unlock) (top : LockRequest) (rest : List LockRequest)
    (front : waiting log req.lockKey = top :: rest) (owner : top.client = req.client) :
    ∃ next, service.callback req = some next ∧ next.cid = service.cid ∧ next.lockQueue = service.lockQueue.set req.lockKey rest ∧
      ∀ flag, flag ∈ next.done ↔
        flag ∈ service.done ∨ ∃ r ∈ (top :: rest).take 2, r.client = service.cid ∧ r.done = flag := by
  have member : top ∈ locks log req.lockKey := List.mem_of_mem_drop (front ▸ List.mem_cons_self : top ∈ waiting log req.lockKey)
  obtain ⟨-, lock, key⟩ := (mem_locks _ _ _).mp member
  unfold Service.callback
  rw [queue_at numKeys log service spec req.lockKey valid, action, front]
  dsimp only
  rw [if_neg (by rw [lock, owner, key]; simp)]
  refine ⟨_, rfl, ?_⟩
  cases rest with
  | nil => simp
  | cons next rest => simp [or_assoc]

-- A request passes the assertions behind this log.
def Accepts (numKeys : Nat) (log : List LockRequest) (req : LockRequest) : Prop :=
  req.lockKey < numKeys ∧
    (req.action = .unlock → ∃ top rest, waiting log req.lockKey = top :: rest ∧ top.client = req.client)

theorem waiting_other (log : List LockRequest) (req : LockRequest) (key : Nat) (other : req.lockKey ≠ key) :
    waiting (log ++ [req]) key = waiting log key := by
  rw [waiting, waiting, (other_key log req key other).1, (other_key log req key other).2]

theorem granted_other (log : List LockRequest) (req : LockRequest) (key : Nat) (other : req.lockKey ≠ key) :
    granted (log ++ [req]) key = granted log key := by
  rw [granted, granted, (other_key log req key other).1, (other_key log req key other).2]

theorem waiting_lock (log : List LockRequest) (req : LockRequest) (action : req.action = .lock)
    (bound : (unlocks log req.lockKey).length ≤ (locks log req.lockKey).length) :
    waiting (log ++ [req]) req.lockKey = waiting log req.lockKey ++ [req] := by
  rw [waiting, waiting, (after_lock log req action).1, (after_lock log req action).2, List.drop_append_of_le_length bound]

theorem waiting_unlock (log : List LockRequest) (req : LockRequest) (action : req.action = .unlock) :
    waiting (log ++ [req]) req.lockKey = (waiting log req.lockKey).tail := by
  rw [waiting, waiting, (after_unlock log req action).1, (after_unlock log req action).2, List.length_append, List.length_singleton,
    List.tail_drop]

-- The granted requests are those that have been released and the front.
theorem granted_eq (log : List LockRequest) (key : Nat) :
    granted log key = (locks log key).take (unlocks log key).length ++ (waiting log key).take 1 := by
  rw [granted, waiting, List.take_add]

theorem queues_set (numKeys : Nat) (log : List LockRequest) (service : Service) (spec : Replayed numKeys log service)
    (req : LockRequest) : service.lockQueue.set req.lockKey (waiting (log ++ [req]) req.lockKey) =
      (List.range numKeys).map (waiting (log ++ [req])) := by
  rw [spec.queues]
  refine List.ext_getElem? (fun key => ?_)
  by_cases valid : key < numKeys
  · rw [List.getElem?_set, List.getElem?_map, List.getElem?_map, List.getElem?_range valid, List.length_map, List.length_range]
    by_cases same : req.lockKey = key
    · rw [if_pos same, same, if_pos valid]
      rfl
    · rw [if_neg same, Option.map_some, Option.map_some, waiting_other log req key same]
  · rw [List.getElem?_eq_none (by simpa using valid), List.getElem?_eq_none (by simpa using valid)]

theorem granted_extended (log : List LockRequest) (req : LockRequest) (extra : List LockRequest)
    (own : granted (log ++ [req]) req.lockKey = granted log req.lockKey ++ extra) (property : LockRequest → Prop) :
    (∃ key, ∃ r ∈ granted (log ++ [req]) key, property r) ↔
      (∃ key, ∃ r ∈ granted log key, property r) ∨ ∃ r ∈ extra, property r := by
  constructor
  · intro ⟨key, r, member, holds⟩
    by_cases mine : req.lockKey = key
    · rw [← mine, own] at member
      cases List.mem_append.mp member with
      | inl old => exact Or.inl ⟨req.lockKey, r, old, holds⟩
      | inr new => exact Or.inr ⟨r, new, holds⟩
    · rw [granted_other log req key mine] at member
      exact Or.inl ⟨key, r, member, holds⟩
  · intro cases_
    cases cases_ with
    | inl old =>
        obtain ⟨key, r, member, holds⟩ := old
        by_cases mine : req.lockKey = key
        · subst mine
          exact ⟨req.lockKey, r, by rw [own]; exact List.mem_append_left _ member, holds⟩
        · exact ⟨key, r, by rw [granted_other log req key mine]; exact member, holds⟩
    | inr new =>
        obtain ⟨r, member, holds⟩ := new
        exact ⟨req.lockKey, r, by rw [own]; exact List.mem_append_right _ member, holds⟩

theorem granted_lock (log : List LockRequest) (req : LockRequest) (action : req.action = .lock)
    (bound : (unlocks log req.lockKey).length ≤ (locks log req.lockKey).length) :
    granted (log ++ [req]) req.lockKey = granted log req.lockKey ++ if waiting log req.lockKey = [] then [req] else [] := by
  rw [granted_eq, granted_eq, waiting_lock log req action bound, (after_lock log req action).1, (after_lock log req action).2,
    List.take_append_of_le_length bound, List.append_assoc]
  cases waiting log req.lockKey with
  | nil => rfl
  | cons top rest => simp

theorem granted_unlock (log : List LockRequest) (req : LockRequest) (action : req.action = .unlock) :
    granted (log ++ [req]) req.lockKey = granted log req.lockKey ++ (waiting log req.lockKey).tail.take 1 := by
  rw [granted_eq, waiting_unlock log req action, (after_unlock log req action).1, (after_unlock log req action).2,
    List.length_append, List.length_singleton, granted]

theorem replayed_keys (numKeys : Nat) (log : List LockRequest) (req : LockRequest) (old : ∀ r ∈ log, r.lockKey < numKeys)
    (valid : req.lockKey < numKeys) : ∀ r ∈ log ++ [req], r.lockKey < numKeys := by
  intro r member
  cases List.mem_append.mp member with
  | inl earlier => exact old r earlier
  | inr last =>
      rw [List.mem_singleton.mp last]
      exact valid

theorem replayed_lock (numKeys : Nat) (log : List LockRequest) (service : Service) (spec : Replayed numKeys log service)
    (req : LockRequest) (valid : req.lockKey < numKeys) (action : req.action = .lock) :
    ∃ next, service.callback req = some next ∧ next.cid = service.cid ∧ Replayed numKeys (log ++ [req]) next := by
  obtain ⟨next, result, cid, queue, flags⟩ := callback_lock numKeys log service spec req valid action
  refine ⟨next, result, cid, ⟨?_, replayed_keys numKeys log req spec.keys valid, ?_, ?_, ?_⟩⟩
  · rw [queue, ← waiting_lock log req action (spec.bound _), queues_set numKeys log service spec req]
  · intro key
    by_cases mine : req.lockKey = key
    · rw [← mine, (after_lock log req action).1, (after_lock log req action).2, List.length_append]
      exact Nat.le_add_right_of_le (spec.bound _)
    · rw [(other_key log req key mine).1, (other_key log req key mine).2]
      exact spec.bound key
  · intro key
    by_cases mine : req.lockKey = key
    · rw [← mine, (after_lock log req action).1, (after_lock log req action).2, List.take_append_of_le_length (spec.bound _)]
      exact spec.matched _
    · rw [(other_key log req key mine).1, (other_key log req key mine).2]
      exact spec.matched key
  · intro flag
    rw [flags flag, spec.flags flag, granted_extended log req _ (granted_lock log req action (spec.bound _)), cid]
    by_cases empty : waiting log req.lockKey = []
    · simp [empty]
    · simp [empty]

theorem replayed_unlock (numKeys : Nat) (log : List LockRequest) (service : Service) (spec : Replayed numKeys log service)
    (req : LockRequest) (valid : req.lockKey < numKeys) (action : req.action = .unlock) (top : LockRequest) (rest : List LockRequest)
    (front : waiting log req.lockKey = top :: rest) (owner : top.client = req.client) :
    ∃ next, service.callback req = some next ∧ next.cid = service.cid ∧ Replayed numKeys (log ++ [req]) next := by
  obtain ⟨next, result, cid, queue, flags⟩ := callback_unlock numKeys log service spec req valid action top rest front owner
  have ahead : (locks log req.lockKey).take ((unlocks log req.lockKey).length + 1) =
      (locks log req.lockKey).take (unlocks log req.lockKey).length ++ [top] := by
    have split := granted_eq log req.lockKey
    rw [front] at split
    exact split
  have tail : waiting (log ++ [req]) req.lockKey = rest := by rw [waiting_unlock log req action, front, List.tail_cons]
  refine ⟨next, result, cid, ⟨?_, replayed_keys numKeys log req spec.keys valid, ?_, ?_, ?_⟩⟩
  · rw [queue, ← tail, queues_set numKeys log service spec req]
  · intro key
    by_cases mine : req.lockKey = key
    · have shorter := congrArg List.length front
      rw [waiting, List.length_drop, List.length_cons] at shorter
      rw [← mine, (after_unlock log req action).1, (after_unlock log req action).2, List.length_append, List.length_singleton]
      omega
    · rw [(other_key log req key mine).1, (other_key log req key mine).2]
      exact spec.bound key
  · intro key
    by_cases mine : req.lockKey = key
    · rw [← mine, (after_unlock log req action).1, (after_unlock log req action).2, List.length_append, List.length_singleton, ahead,
        List.map_append, List.map_append, spec.matched, List.map_singleton, List.map_singleton, owner]
    · rw [(other_key log req key mine).1, (other_key log req key mine).2]
      exact spec.matched key
  · intro flag
    rw [flags flag, spec.flags flag, granted_extended log req _ (granted_unlock log req action), cid, front, List.tail_cons]
    have first : top ∈ granted log req.lockKey := by
      rw [granted, ahead]
      exact List.mem_append_right _ List.mem_cons_self
    rw [List.take_succ_cons]
    constructor
    · intro cases_
      cases cases_ with
      | inl old => exact Or.inl old
      | inr new =>
          obtain ⟨r, member, holds⟩ := new
          cases List.mem_cons.mp member with
          | inl same => exact Or.inl ⟨req.lockKey, r, same ▸ first, holds⟩
          | inr later => exact Or.inr ⟨r, later, holds⟩
    · intro cases_
      cases cases_ with
      | inl old => exact Or.inl old
      | inr new =>
          obtain ⟨r, member, holds⟩ := new
          exact Or.inr ⟨r, List.mem_cons_of_mem _ member, holds⟩

theorem replayed_step (numKeys : Nat) (log : List LockRequest) (service : Service) (spec : Replayed numKeys log service)
    (req : LockRequest) (accepts : Accepts numKeys log req) :
    ∃ next, service.callback req = some next ∧ next.cid = service.cid ∧ Replayed numKeys (log ++ [req]) next := by
  cases action : req.action with
  | lock => exact replayed_lock numKeys log service spec req accepts.1 action
  | unlock =>
      obtain ⟨top, rest, front, owner⟩ := accepts.2 action
      exact replayed_unlock numKeys log service spec req accepts.1 action top rest front owner

-- No assertion fails on this log, whichever client the service belongs to.
def Accepted (numKeys : Nat) (log : List LockRequest) : Prop :=
  ∀ cid, ∃ service, replay cid numKeys log = some service ∧ service.cid = cid ∧ Replayed numKeys log service

theorem accepted_nil (numKeys : Nat) : Accepted numKeys [] := by
  intro cid
  refine ⟨Service.init cid numKeys, rfl, rfl, ⟨?_, ?_, fun _ => Nat.le_refl _, fun _ => rfl, ?_⟩⟩
  · refine List.ext_getElem (by simp [Service.init]) (fun key _ _ => ?_)
    simp [Service.init, waiting, locks]
  · intro r member
    cases member
  · intro flag
    simp [Service.init, granted, locks]

theorem accepted_snoc (numKeys : Nat) (log : List LockRequest) (req : LockRequest) (accepted : Accepted numKeys log)
    (accepts : Accepts numKeys log req) : Accepted numKeys (log ++ [req]) := by
  intro cid
  obtain ⟨service, ran, own, spec⟩ := accepted cid
  obtain ⟨next, result, same, spec'⟩ := replayed_step numKeys log service spec req accepts
  refine ⟨next, ?_, same.trans own, spec'⟩
  rw [replay, Machine.run_snoc]
  rw [replay] at ran
  rw [ran]
  exact result

end ZipLog.LockService
