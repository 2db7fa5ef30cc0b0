import ZipLog.System.TotalOrder

set_option autoImplicit false

namespace ZipLog.System

open Storage Quorum

-- A server keeps the entry of a request: it reads as set, with all of its bytes.
def Cluster.Keeps (s : Cluster) (place : Place) (clientId gsn : Nat) (data : Bytes) : Prop :=
  ∃ at_ptr entry, (s.servers place).log.read at_ptr = some entry ∧ entry.set = true ∧ entry.clientId = clientId ∧ entry.gsn = gsn ∧
    entry.dataLength = data.length ∧ entry.payload = data

theorem padded_keeps (messages : List StorageControl) (received : Nat → List StorageInsert) (clientId : Nat) :
    filledBy (received clientId) <+: (contentsAfter messages received).fills clientId := by
  simp only [contentsAfter]
  split
  · exact List.prefix_append _ _
  · exact List.prefix_rfl

-- An insert that a server has taken is in its log.
theorem received_kept (replicas : Nat → List Nat) (s : Service) (history : Nat → List StorageControl) (inv : s.Inv replicas history)
    (place : Place) (member : place.2 ∈ replicas place.1) (clientId turn gsn : Nat) (req : StorageInsert)
    (access : (s.cluster.received place clientId)[turn]? = some req)
    (slot : (gsns (slotsIn (history place.1)) clientId)[rankOf (s.cluster.received place clientId) turn]? = some gsn) :
    s.cluster.Keeps place clientId gsn req.data := by
  have rep := (inv.calm.serving place member).follows.tracks.rep
  have data := prefix_access _ _ (padded_keeps (s.cluster.seen place) _ clientId) _ _ (rank_of_access _ turn req access).2.2
  have bound := (List.getElem?_eq_some_iff.mp data).1
  have chained := List.getElem?_eq_getElem (Nat.lt_of_lt_of_le bound (rep.filled clientId))
  obtain ⟨entry, read, cell⟩ := rep.cells clientId _ _ chained
  have here := gsns_access _ _ _ _ chained
  rw [cell.slot, Option.map_some] at here
  have whole := prefix_access _ _ (gsns_grow _ _ clientId (slots_in_grow _ _
    (seen_history replicas s.cluster history _ place.2 inv.calm.ordered member))) _ _ here
  rw [slot] at whole
  have payload : ((contentsAfter (s.cluster.seen place) (s.cluster.received place)).fills clientId).getD
      (rankOf (s.cluster.received place clientId) turn) [] = req.data := by
    rw [List.getD_eq_getElem?_getD, data, Option.getD_some]
  refine ⟨_, entry, read, cell.set.trans (decide_eq_true bound), cell.owner, (Option.some.inj whole).symm, ?_, cell.payload.trans payload⟩
  rw [cell.length, payload]

-- The requests of one client are counted in the order in which they were sent,
-- so the responses set so far say which turns a majority has answered.
theorem response_turn (replicas : Nat → List Nat) (s : Service) (history : Nat → List StorageControl) (inv : s.Inv replicas history)
    (clientId index response gsn : Nat) (caller : Caller) (present : s.clients clientId = some caller)
    (told : caller.loop.stored[index]? = some (response, gsn)) : ∃ (turn : Nat) (item : StorageInsert × Option Nat),
      caller.sent[turn]? = some item ∧ caller.requested[index]? = some (item.1.data, response) ∧
      caller.loop.failures < count (replicas caller.loop.shardId) caller.acked turn ∧
      (gsns (slotsIn (history caller.loop.shardId)) clientId)[rankOf (caller.sent.map Prod.fst) turn]? = some gsn := by
  have bound := inv.bound clientId caller present
  obtain ⟨value, delivered, heard⟩ := bound.heard
  rw [heard.matched.stored] at told
  have reach := Client.matched_reach _ _ _ _ _ _ heard.matched
  rw [List.length_map] at reach
  obtain ⟨turn, item, less, access, answer, same, number⟩ := stored_turn caller.sent value delivered reach index response gsn told
  have enough := (heard.matched.quorum turn).mp less
  have slot := heard.known turn (Nat.lt_of_le_of_lt (Nat.zero_le _) enough)
  rw [← same] at slot
  refine ⟨turn, item, access, ?_, enough, slot⟩
  rw [bound.steady.requested, ← number]
  exact prefix_access _ _ (List.prefix_append _ _) _ _ (carried_access caller.sent turn item response access answer)

-- failures_ of a client is a parameter of the deployment.
def Service.Tolerates (failures : Nat) (s : Service) : Prop :=
  ∀ clientId caller, s.clients clientId = some caller → caller.loop.failures = failures

theorem insert_ack_failures (loop : Client.Loop) (ack : ClientInsertAck) : (loop.clientInsertAck ack).failures = loop.failures := by
  unfold Client.Loop.clientInsertAck
  split
  · rfl
  · split
    · rfl
    · split
      · rfl
      · dsimp only
        split
        · rfl
        · rfl

theorem switch_epoch_failures (loop : Client.Loop) (now : Nat) : (loop.switchEpoch now).failures = loop.failures := by
  unfold Client.Loop.switchEpoch
  split
  · rfl
  · split
    · rfl
    · rfl

theorem send_failures (caller : Caller) (now : Nat) : (caller.send now).loop.failures = caller.loop.failures := by
  obtain nothing | ⟨_, _, _, result, _, _, _, _, _, _, _, _, _, _, failures, _⟩ := caller_send_cases caller now
  · rw [nothing]
  · rw [result]
    exact failures

theorem notice_failures (caller : Caller) (message : Order.ClientControl) : (caller.notice message).loop.failures = caller.loop.failures := by
  cases message with
  | storageInfo replicas => rfl
  | newEpoch beginning numSlots => rfl
  | orderFinished => rfl

theorem stop_failures (caller : Caller) : caller.stop.loop.failures = caller.loop.failures := by
  unfold Caller.stop Client.Loop.checkStop
  cases caller.loop.stopped with
  | true => rfl
  | false => rfl

theorem reply_failures (caller : Caller) (replica : Nat) (message : StorageReply) :
    (caller.reply replica message).loop.failures = caller.loop.failures := by
  cases message with
  | insertAck ack => exact insert_ack_failures caller.loop ack
  | storageFinished shardId replicaId =>
      change (caller.loop.storageFinished shardId replicaId).1.failures = caller.loop.failures
      unfold Client.Loop.storageFinished
      split
      · rfl
      · rfl

-- What a client does in one move, with the counts of what was handled of its links.
inductive Caller.Acts (caller : Caller) : Caller → Prop where
  | enqueue (data : Bytes) (response : Nat) (small : data.length ≤ maxPayload) : caller.Acts (caller.enqueue data response)
  | notice (message : Order.ClientControl) : caller.Acts (caller.notice message)
  | switchEpoch (now : Nat) : caller.Acts { caller with loop := caller.loop.switchEpoch now }
  | send (now : Nat) : caller.Acts (caller.send now)
  | stop : caller.Acts caller.stop
  | reply (replica : Nat) (message : StorageReply) : caller.Acts (caller.reply replica message)
  | served (taken : Nat → Nat) : caller.Acts { caller with taken := taken }
  | farewell (departed : Nat) : caller.Acts { caller with departed := departed }

theorem acts_failures (caller next : Caller) (acts : caller.Acts next) : next.loop.failures = caller.loop.failures := by
  cases acts with
  | enqueue data response small => rfl
  | notice message => exact notice_failures caller message
  | switchEpoch now => exact switch_epoch_failures caller.loop now
  | send now => exact send_failures caller now
  | stop => exact stop_failures caller
  | reply replica message => exact reply_failures caller replica message
  | served taken => rfl
  | farewell departed => rfl

theorem set_client_acts (s : Service) (clientId : Nat) (caller next : Caller) (present : s.clients clientId = some caller)
    (acts : caller.Acts next) (client : Nat) (found : Caller) (there : (s.setClient clientId next).clients client = some found) :
    s.clients client = some found ∨ ∃ before, s.clients client = some before ∧ before.Acts found := by
  by_cases same : client = clientId
  · subst same
    simp only [Service.setClient, Function.update_self] at there
    cases there
    exact Or.inr ⟨caller, present, acts⟩
  · simp only [Service.setClient, Function.update_of_ne same] at there
    exact Or.inl there

theorem turn_acts (s next : Service) (clientId : Nat) (act : Caller → Option Caller) (acts : ∀ p q, act p = some q → p.Acts q)
    (stepped : s.turn clientId act = some next) (client : Nat) (found : Caller) (there : next.clients client = some found) :
    s.clients client = some found ∨ ∃ before, s.clients client = some before ∧ before.Acts found := by
  obtain ⟨p, q, present, acted, result⟩ := turn_cases s next clientId act stepped
  rw [result] at there
  exact set_client_acts s clientId p q present (acts p q acted) client found there

-- A client after a move: as before, after an act of its own, or new.
theorem step_acts (failures : Nat) (s next : Service) (move : Move) (stepped : s.step failures move = some next) (client : Nat)
    (found : Caller) (there : next.clients client = some found) :
    (s.clients client = some found ∨ ∃ before, s.clients client = some before ∧ before.Acts found) ∨
    ∃ shardId numSlots, move = .join client shardId numSlots ∧ found = Caller.init client shardId failures := by
  cases move with
  | join clientId shardId numSlots =>
      obtain ⟨_, joined⟩ := Option.ite_none_left_eq_some.mp stepped
      obtain ⟨cluster, _, rfl⟩ := Option.map_eq_some_iff.mp joined
      by_cases same : client = clientId
      · subst same
        simp only [Service.setClient, Function.update_self] at there
        cases there
        exact Or.inr ⟨shardId, numSlots, rfl, rfl⟩
      · simp only [Service.setClient, Function.update_of_ne same] at there
        exact Or.inl (Or.inl there)
  | clientRate clientId numSlots =>
      simp only [Service.step] at stepped
      obtain ⟨cluster, _, rfl⟩ := Option.map_eq_some_iff.mp stepped
      exact Or.inl (Or.inl there)
  | epoch now =>
      simp only [Service.step] at stepped
      obtain ⟨cluster, _, rfl⟩ := Option.map_eq_some_iff.mp stepped
      exact Or.inl (Or.inl there)
  | connect place clientId =>
      simp only [Service.step] at stepped
      obtain ⟨cluster, _, rfl⟩ := Option.map_eq_some_iff.mp stepped
      exact Or.inl (Or.inl there)
  | control place =>
      simp only [Service.step] at stepped
      obtain ⟨cluster, _, rfl⟩ := Option.map_eq_some_iff.mp stepped
      exact Or.inl (Or.inl there)
  | enqueue clientId data response =>
      obtain ⟨small, queued⟩ := Option.ite_none_right_eq_some.mp stepped
      obtain ⟨caller, present, rfl⟩ := Option.map_eq_some_iff.mp queued
      exact Or.inl (set_client_acts s clientId caller _ present (.enqueue data response small) client found there)
  | notice clientId =>
      refine Or.inl (turn_acts s next clientId _ ?_ stepped client found there)
      intro p q acted
      obtain ⟨message, _, rfl⟩ := Option.map_eq_some_iff.mp acted
      exact .notice message
  | switchEpoch clientId now =>
      refine Or.inl (turn_acts s next clientId _ ?_ stepped client found there)
      intro p q acted
      exact Option.some.inj acted ▸ .switchEpoch now
  | send clientId now =>
      refine Or.inl (turn_acts s next clientId _ ?_ stepped client found there)
      intro p q acted
      exact Option.some.inj acted ▸ .send now
  | stop clientId =>
      refine Or.inl (turn_acts s next clientId _ ?_ stepped client found there)
      intro p q acted
      exact Option.some.inj acted ▸ .stop
  | reply clientId replica =>
      refine Or.inl (turn_acts s next clientId _ ?_ stepped client found there)
      intro p q acted
      obtain ⟨message, _, rfl⟩ := Option.map_eq_some_iff.mp acted
      exact .reply replica message
  | serve clientId replica beyond =>
      simp only [Service.step] at stepped
      split at stepped
      · cases stepped
      · rename_i caller present
        split at stepped
        · cases stepped
        · obtain ⟨cluster, _, rfl⟩ := Option.map_eq_some_iff.mp stepped
          exact Or.inl (set_client_acts { s with cluster := cluster } clientId caller _ present (.served _) client found there)
  | farewell clientId =>
      simp only [Service.step] at stepped
      split at stepped
      · cases stepped
      · rename_i caller present
        obtain ⟨_, left⟩ := Option.ite_none_right_eq_some.mp stepped
        obtain ⟨cluster, _, rfl⟩ := Option.map_eq_some_iff.mp left
        exact Or.inl (set_client_acts { s with cluster := cluster } clientId caller _ present (.farewell _) client found there)

theorem tolerates_step (failures : Nat) (s next : Service) (tolerates : s.Tolerates failures) (move : Move)
    (stepped : s.step failures move = some next) : next.Tolerates failures := by
  intro client found there
  rcases step_acts failures s next move stepped client found there with (same | ⟨before, present, acts⟩) | ⟨_, _, _, new⟩
  · exact tolerates client found same
  · exact (acts_failures before found acts).trans (tolerates client before present)
  · rw [new]
    rfl

theorem feed_service (config : Config) (s next : Deployment) (place : Place) (index : Nat) (ran : s.feed config place index = some next) :
    next.service = s.service := by
  simp only [Deployment.feed] at ran
  split at ran
  · cases ran
  · cases ran
    rfl
  · cases ran
    rfl

-- A step of the deployment is a step of the service, or a subscriber thread takes
-- an entry, or neither the service nor the wires change.
theorem action_cases (config : Config) (s next : Deployment) (action : Action) (stepped : s.step config action = some next) :
    (∃ move, action = .service move ∧ s.service.step config.failures move = some next.service ∧ next.wires = s.wires) ∨
    (∃ place index, s.service.cluster.serves place = true ∧ index < config.subscriberThreads place ∧
      s.feed config place index = some next) ∨
    (next.service = s.service ∧ next.wires = s.wires) := by
  cases action with
  | service move =>
      obtain ⟨service, moved, result⟩ := Option.map_eq_some_iff.mp stepped
      subst result
      exact Or.inl ⟨move, rfl, moved, rfl⟩
  | launch at_id pollingThreads applicationThreads sequential unset =>
      simp only [Deployment.step] at stepped
      split at stepped
      · cases stepped
        exact Or.inr (Or.inr ⟨rfl, rfl⟩)
      · cases stepped
  | addSubscriber place at_id =>
      simp only [Deployment.step] at stepped
      split at stepped
      · cases stepped
      · split at stepped
        · cases stepped
          exact Or.inr (Or.inr ⟨rfl, rfl⟩)
        · cases stepped
          exact Or.inr (Or.inr ⟨rfl, rfl⟩)
  | subscriberFinished place at_id =>
      simp only [Deployment.step] at stepped
      split at stepped
      · cases stepped
        exact Or.inr (Or.inr ⟨rfl, rfl⟩)
      · cases stepped
        exact Or.inr (Or.inr ⟨rfl, rfl⟩)
  | change place index =>
      simp only [Deployment.step] at stepped
      split at stepped
      · obtain ⟨_, _, result⟩ := Option.map_eq_some_iff.mp stepped
        subst result
        exact Or.inr (Or.inr ⟨rfl, rfl⟩)
      · cases stepped
  | feed place index =>
      simp only [Deployment.step] at stepped
      split at stepped
      · rename_i enabled
        exact Or.inr (Or.inl ⟨place, index, enabled.1, enabled.2, stepped⟩)
      · cases stepped
  | poll wire =>
      simp only [Deployment.step] at stepped
      split at stepped
      · cases stepped
      · split at stepped
        · obtain ⟨_, _, result⟩ := Option.map_eq_some_iff.mp stepped
          subst result
          exact Or.inr (Or.inr ⟨rfl, rfl⟩)
        · cases stepped
  | store at_id queue =>
      simp only [Deployment.step] at stepped
      split at stepped
      · cases stepped
      · obtain ⟨_, _, result⟩ := Option.map_eq_some_iff.mp stepped
        subst result
        exact Or.inr (Or.inr ⟨rfl, rfl⟩)
  | process at_id index =>
      simp only [Deployment.step] at stepped
      split at stepped
      · cases stepped
      · split at stepped
        · obtain ⟨_, _, result⟩ := Option.map_eq_some_iff.mp stepped
          subst result
          exact Or.inr (Or.inr ⟨rfl, rfl⟩)
        · cases stepped
  | recycle at_id =>
      obtain ⟨_, _, result⟩ := Option.map_eq_some_iff.mp stepped
      subst result
      exact Or.inr (Or.inr ⟨rfl, rfl⟩)

theorem tolerates_run (config : Config) (s : Deployment) (actions : List Action)
    (ran : Machine.run (Deployment.step config) (Deployment.init config) actions = some s) : s.service.Tolerates config.failures := by
  refine Machine.run_preserves (Deployment.step config) (fun now => now.service.Tolerates config.failures) ?_ _ s ?_ actions ran
  · intro now action next before stepped
    rcases action_cases config now next action stepped with moved | fed | same
    · obtain ⟨move, _, step, _⟩ := moved
      exact tolerates_step config.failures now.service next.service before move step
    · obtain ⟨place, index, _, _, ran⟩ := fed
      rw [feed_service config now next place index ran]
      exact before
    · rw [same.1]
      exact before
  · intro clientId caller present
    cases present

theorem received_rank (first second : List StorageInsert) (turn : Nat) (req : StorageInsert) (access : first[turn]? = some req)
    (before : first <+: second) : second[turn]? = some req ∧ rankOf second turn = rankOf first turn :=
  ⟨prefix_access _ _ before _ _ access, rank_of_longer first second turn before (List.getElem?_eq_some_iff.mp access).1⟩

end ZipLog.System
