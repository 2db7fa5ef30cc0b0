import ZipLog.Client.Pacing
import ZipLog.Order.Rations
import ZipLog.Storage.Supplied
import ZipLog.System.Finalized
import ZipLog.System.Links

set_option autoImplicit false

namespace ZipLog.System

open ZipLog.Order Storage

-- The cluster with its clients, none of which fails, and the account of their
-- slots: the last reading of a client's clock, the number of epochs it has
-- switched to, and that number for each of the inserts it has sent.
structure Supply where
  service : Service
  clock : Nat → Nat
  entered : Nat → Nat
  stamps : Nat → List Nat

def Supply.init (numShards : Nat) (replicas : Nat → List Nat) : Supply :=
  ⟨Service.init numShards replicas, fun _ => 0, fun _ => 0, fun _ => []⟩

-- A client is added, also under an ID that was used before. It has links of its
-- own; what was sent to an earlier client of that name is not for it.
def Cluster.welcomed (s : Cluster) (clientId shardId numSlots : Nat) : Cluster :=
  let result := s.order.addClient clientId shardId numSlots
  { s.ordered result with
    homes := Function.update s.homes clientId (some shardId)
    notices := Function.update (s.ordered result).notices clientId (result.2.filterMap (toClient clientId))
    replies := fun place => Function.update (s.replies place) clientId [] }

-- A replica handles an insert only after the storage_slots of the epoch that the
-- client was in when it sent the insert.
def Supply.due (s : Supply) (clientId replica : Nat) : Bool :=
  match s.service.clients clientId with
  | none => false
  | some caller =>
      match (s.stamps clientId)[caller.taken replica]? with
      | none => true
      | some stamp => stamp ≤ (rations clientId (s.service.cluster.seen (caller.loop.shardId, replica))).length

def Supply.moved (s : Supply) (service : Service) : Supply := { s with service := service }

-- A reading of the clock is a signed word and not before the last one.
def Supply.reading (s : Supply) (clientId now : Nat) : Prop := s.clock clientId ≤ now ∧ now < 2 ^ 63

instance (s : Supply) (clientId now : Nat) : Decidable (s.reading clientId now) :=
  inferInstanceAs (Decidable (s.clock clientId ≤ now ∧ now < 2 ^ 63))

-- The GSNs may wrap here. A client that order refuses learns of no storage
-- server and sends nothing.
def Supply.step (failures : Nat) (s : Supply) : Move → Option Supply
  | .join clientId shardId numSlots =>
      if refuses s.service.cluster.order clientId shardId then none
      else some
        { service := { s.service with cluster := s.service.cluster.welcomed clientId shardId numSlots }.setClient clientId
            (Caller.init clientId shardId failures)
          clock := Function.update s.clock clientId 0
          entered := Function.update s.entered clientId 0
          stamps := Function.update s.stamps clientId [] }
  | .epoch now =>
      if ∀ slot ∈ active s.service.cluster.order.clients, slot.numSlots * 5000 < 2 ^ 64 then
        some (s.moved { s.service with cluster := s.service.cluster.ordered (s.service.cluster.order.epoch now) })
      else none
  | .switchEpoch clientId now =>
      if s.reading clientId now then
        (s.service.step failures (.switchEpoch clientId now)).map (fun service =>
          { s.moved service with
            clock := Function.update s.clock clientId now
            entered := Function.update s.entered clientId
              (if (s.service.clients clientId).any (fun caller => caller.loop.switches now) then s.entered clientId + 1
                else s.entered clientId) })
      else none
  | .send clientId now =>
      if s.reading clientId now then
        (s.service.step failures (.send clientId now)).map (fun service =>
          { s.moved service with
            clock := Function.update s.clock clientId now
            stamps := Function.update s.stamps clientId (s.stamps clientId ++
              if (s.service.clients clientId).any (fun caller => (caller.loop.send now).2.isSome) then [s.entered clientId] else []) })
      else none
  | .serve clientId replica beyond =>
      if s.due clientId replica then (s.service.step failures (.serve clientId replica beyond)).map s.moved else none
  | .clientRate clientId numSlots => (s.service.step failures (.clientRate clientId numSlots)).map s.moved
  | .connect place clientId => (s.service.step failures (.connect place clientId)).map s.moved
  | .control place => (s.service.step failures (.control place)).map s.moved
  | .enqueue clientId data response => (s.service.step failures (.enqueue clientId data response)).map s.moved
  | .notice clientId => (s.service.step failures (.notice clientId)).map s.moved
  | .stop clientId => (s.service.step failures (.stop clientId)).map s.moved
  | .reply clientId replica => (s.service.step failures (.reply clientId replica)).map s.moved
  | .farewell clientId => (s.service.step failures (.farewell clientId)).map s.moved

-- The num_slots of the epochs that a client is told of.
def grant : ClientControl → Option Nat
  | .newEpoch _ numSlots => some numSlots
  | _ => none

def grants (notices : List ClientControl) : List Nat := notices.filterMap grant

theorem grants_append (notices more : List ClientControl) : grants (notices ++ more) = grants notices ++ grants more :=
  List.filterMap_append

theorem grants_take (notices : List ClientControl) (noticed : Nat) : grants (notices.take noticed) <+: grants notices := by
  have parts := grants_append (notices.take noticed) (notices.drop noticed)
  rw [List.take_append_drop] at parts
  rw [parts]
  exact List.prefix_append _ _

-- The account of one client: no insert lies beyond the epochs that the client had
-- entered when it sent the insert.
structure Account (replicas : List Nat) (notices : List ClientControl) (p : Caller) (entered clock : Nat) (stamps : List Nat) : Prop where
  told : ∃ rest, notices = .storageInfo replicas :: rest ∧ ∀ other, .storageInfo other ∉ rest
  noticed : p.noticed ≤ notices.length
  small : ∀ numSlots ∈ grants notices, numSlots * 5000 < 2 ^ 64
  paced : p.loop.Paced (grants (notices.take p.noticed)) entered clock (slotsTaken (p.sent.map Prod.fst))
  stamped : stamps.length = p.sent.length
  covered : ∀ (index : Nat) stamp, stamps[index]? = some stamp → stamp ≤ (grants notices).length ∧
    slotsTaken ((p.sent.map Prod.fst).take (index + 1)) ≤ ((grants notices).take stamp).sum

section

variable (replicas : List Nat) (notices : List ClientControl) (p : Caller) (entered clock : Nat) (stamps : List Nat)
  (account : Account replicas notices p entered clock stamps)

include account

-- Further messages of the ordering service.
theorem account_grow (more : List ClientControl) (plain : ∀ other, .storageInfo other ∉ more)
    (small : ∀ numSlots ∈ grants more, numSlots * 5000 < 2 ^ 64) : Account replicas (notices ++ more) p entered clock stamps := by
  constructor
  · obtain ⟨rest, same, first⟩ := account.told
    refine ⟨rest ++ more, by rw [same, List.cons_append], ?_⟩
    intro other member
    cases List.mem_append.mp member with
    | inl old => exact first other old
    | inr new => exact plain other new
  · rw [List.length_append]
    exact Nat.le_add_right_of_le account.noticed
  · intro numSlots member
    rw [grants_append] at member
    cases List.mem_append.mp member with
    | inl old => exact account.small numSlots old
    | inr new => exact small numSlots new
  · rw [List.take_append_of_le_length account.noticed]
    exact account.paced
  · exact account.stamped
  · intro index stamp access
    obtain ⟨inside, bound⟩ := account.covered index stamp access
    rw [grants_append, List.length_append, List.take_append_of_le_length inside]
    exact ⟨Nat.le_add_right_of_le inside, bound⟩

-- A turn that neither sends nor looks at the epochs.
theorem account_congr (q : Caller) (noticed : q.noticed = p.noticed) (sent : q.sent = p.sent)
    (paced : q.loop.Paced (grants (notices.take p.noticed)) entered clock (slotsTaken (p.sent.map Prod.fst))) :
    Account replicas notices q entered clock stamps := by
  constructor
  · exact account.told
  · rw [noticed]
    exact account.noticed
  · exact account.small
  · rw [noticed, sent]
    exact paced
  · rw [sent]
    exact account.stamped
  · rw [sent]
    exact account.covered

theorem account_notice (message : ClientControl) (access : notices[p.noticed]? = some message) :
    Account replicas notices (p.notice message) entered clock stamps := by
  have inside := (List.getElem?_eq_some_iff.mp access).1
  have seen : notices.take (p.noticed + 1) = notices.take p.noticed ++ [message] := by
    rw [List.take_add_one, access, Option.toList_some]
  refine ⟨account.told, inside, account.small, ?_, account.stamped, account.covered⟩
  change (p.notice message).loop.Paced (grants (notices.take (p.noticed + 1))) entered clock _
  rw [seen, grants_append]
  cases message with
  | storageInfo servers =>
      rw [show grants [ClientControl.storageInfo servers] = [] from rfl, List.append_nil]
      exact Client.paced_congr p.loop _ entered clock _ account.paced _ rfl rfl rfl rfl
  | newEpoch beginning numSlots =>
      exact Client.new_epoch_paced p.loop _ entered clock _ account.paced beginning numSlots
        (account.small numSlots (List.mem_filterMap.mpr ⟨_, List.mem_of_getElem? access, rfl⟩))
  | orderFinished =>
      rw [show grants [ClientControl.orderFinished] = [] from rfl, List.append_nil]
      exact Client.paced_congr p.loop _ entered clock _ account.paced _ rfl rfl rfl rfl

theorem account_switch (now : Nat) (later : clock ≤ now) :
    Account replicas notices { p with loop := p.loop.switchEpoch now } (if p.loop.switches now then entered + 1 else entered) now stamps := by
  have paced := Client.switch_epoch_paced p.loop _ entered clock _ now account.paced later
  exact ⟨account.told, account.noticed, account.small, paced, account.stamped, account.covered⟩

theorem account_send (now : Nat) (later : clock ≤ now) (word : now < 2 ^ 63) :
    Account replicas notices (p.send now) entered now (stamps ++ if (p.loop.send now).2.isSome then [entered] else []) := by
  obtain nothing | ⟨loop, message, result, paced⟩ := Client.send_paced p.loop _ entered clock _ now account.paced later word
  · have same : p.send now = p := by rw [Caller.send, nothing]
    rw [same, nothing, Option.isSome_none, if_neg Bool.false_ne_true, List.append_nil]
    exact ⟨account.told, account.noticed, account.small, Client.paced_later p.loop _ entered clock _ account.paced now later,
      account.stamped, account.covered⟩
  · have sent : (p.send now).sent.map Prod.fst = p.sent.map Prod.fst ++ [message] := by
      rw [Caller.send, result]
      exact List.map_append
    have kept : (p.send now).noticed = p.noticed ∧ (p.send now).loop = loop := by
      rw [Caller.send, result]
      exact ⟨rfl, rfl⟩
    have total : slotsTaken ((p.send now).sent.map Prod.fst) = slotsTaken (p.sent.map Prod.fst) + message.numSlots := by
      rw [sent, slotsTaken, List.map_append, List.sum_append, ← slotsTaken, List.map_singleton, List.sum_singleton]
    have length : ((p.send now).sent.map Prod.fst).length = p.sent.length + 1 := by
      rw [sent, List.length_append, List.length_map, List.length_singleton]
    rw [result, Option.isSome_some, if_pos rfl]
    constructor
    · exact account.told
    · rw [kept.1]
      exact account.noticed
    · exact account.small
    · rw [kept.1, kept.2, total]
      exact paced
    · rw [List.length_map] at length
      rw [length, List.length_append, account.stamped, List.length_singleton]
    · intro index stamp access
      have before := grants_take notices p.noticed
      rcases Nat.lt_or_ge index stamps.length with old | new
      · rw [List.getElem?_append_left old] at access
        rw [sent, List.take_append_of_le_length (by rw [List.length_map, ← account.stamped]; exact old)]
        exact account.covered index stamp access
      · -- The new insert is covered by the epochs entered so far.
        rw [List.getElem?_append_right new] at access
        obtain ⟨bound, same⟩ := List.getElem?_eq_some_iff.mp access
        rw [List.getElem_singleton] at same
        subst same
        have inside := Client.paced_entered loop _ entered now _ paced
        have covered := Client.paced_total loop _ entered now _ paced
        refine ⟨Nat.le_trans inside before.length_le, ?_⟩
        rw [List.take_of_length_le (by rw [length, ← account.stamped]; omega), total]
        obtain ⟨rest, whole⟩ := before
        rw [← whole, List.take_append_of_le_length inside]
        exact covered

end

end ZipLog.System
