import ZipLog.System.Supply

set_option autoImplicit false

namespace ZipLog.System

open ZipLog.Order Storage

def Cluster.gone (s : Cluster) (place : Place) (clientId : Nat) : Bool := ((s.servers place).clientState clientId).disconnected

-- A replica that has been sent slots and finalizes only. It has closed the
-- connection of a client before order finalizes the client.
structure Host (s : Cluster) (place : Place) : Prop where
  shard : (s.servers place).shardId = place.1
  replica : (s.servers place).replicaId = place.2
  bounded : s.handled place ≤ (s.control place).length
  measured : ∀ message ∈ s.control place, Measured message
  supplied : (s.servers place).Supplied (s.seen place) (s.received place)
  final : ∀ clientId, .clientFinalize clientId ∈ s.control place → s.gone place clientId = true

-- What a replica has done with the messages of a client that is there for the
-- first time: order gives it there what it tells the client.
structure Linked (s : Cluster) (place : Place) (clientId : Nat) (inserts : List StorageInsert) (taken : Nat) (granted : List Nat) : Prop where
  received : s.received place clientId = inserts.take taken
  gone : s.gone place clientId = decide (inserts.length < taken)
  count : (s.replies place clientId).length = taken
  replies : ∀ (index : Nat) reply, (s.replies place clientId)[index]? = some reply →
    (index < inserts.length ∧ ∃ ack, reply = .insertAck ack) ∨ (index = inserts.length ∧ reply = .storageFinished place.1 place.2)
  granted : rations clientId (s.control place) = granted

-- A replica that a client of this name has left takes nothing from the next one.
structure Shut (s : Cluster) (place : Place) (clientId : Nat) : Prop where
  gone : s.gone place clientId = true
  silent : s.replies place clientId = []

-- The slots of other shards come under the name uint64Max.
structure Quiet (s : Cluster) (place : Place) (clientId : Nat) : Prop where
  received : s.received place clientId = []
  gone : s.gone place clientId = false
  granted : clientId ≠ uint64Max → rations clientId (s.control place) = []

structure Enrolled (replicas : Nat → List Nat) (s : Supply) (clientId : Nat) (p : Caller) : Prop where
  known : clientId < maxClients
  steady : p.Steady (replicas p.loop.shardId) clientId
  account : Account (replicas p.loop.shardId) (s.service.cluster.notices clientId) p (s.entered clientId) (s.clock clientId) (s.stamps clientId)
  outside : ∀ r, r ∉ replicas p.loop.shardId → s.service.cluster.replies (p.loop.shardId, r) clientId = []
  links : (∀ r ∈ replicas p.loop.shardId, Shut s.service.cluster (p.loop.shardId, r) clientId) ∨
    ∀ r ∈ replicas p.loop.shardId, Linked s.service.cluster (p.loop.shardId, r) clientId (p.sent.map Prod.fst) (p.taken r)
      (grants (s.service.cluster.notices clientId))

-- One client ID in the whole system: the client that has it now and what earlier
-- ones have left behind.
structure Fine (replicas : Nat → List Nat) (s : Supply) (clientId : Nat) : Prop where
  present : ∀ state, s.service.cluster.order.clientState clientId = some state →
    ∃ p, s.service.clients clientId = some p ∧ p.loop.shardId = state.shardId
  enrolled : ∀ p, s.service.clients clientId = some p → Enrolled replicas s clientId p
  parted : ∀ p, s.service.clients clientId = some p → s.service.cluster.order.clientState clientId = none →
    ∀ r ∈ replicas p.loop.shardId, s.service.cluster.gone (p.loop.shardId, r) clientId = true
  apart : ∀ shard, (∀ p, s.service.clients clientId = some p → p.loop.shardId ≠ shard) →
    (∀ r ∈ replicas shard, Quiet s.service.cluster (shard, r) clientId) ∨
      ∀ r ∈ replicas shard, s.service.cluster.gone (shard, r) clientId = true

structure Supply.Inv (replicas : Nat → List Nat) (s : Supply) : Prop where
  queues : s.service.cluster.order.storageQueues = replicas
  valid : s.service.cluster.order.Valid
  alive : ∀ client state, s.service.cluster.order.clientState client = some state → state.failed = false ∧ state.requested = false
  hosts : ∀ place : Place, place.2 ∈ replicas place.1 → Host s.service.cluster place
  fine : ∀ client, Fine replicas s client

-- The conditions on an ID whose client is known.
theorem fine_own (replicas : Nat → List Nat) (s : Supply) (clientId : Nat) (p : Caller) (here : s.service.clients clientId = some p)
    (enrolled : Enrolled replicas s clientId p)
    (home : ∀ state, s.service.cluster.order.clientState clientId = some state → p.loop.shardId = state.shardId)
    (parted : s.service.cluster.order.clientState clientId = none →
      ∀ r ∈ replicas p.loop.shardId, s.service.cluster.gone (p.loop.shardId, r) clientId = true)
    (apart : ∀ shard, p.loop.shardId ≠ shard → (∀ r ∈ replicas shard, Quiet s.service.cluster (shard, r) clientId) ∨
      ∀ r ∈ replicas shard, s.service.cluster.gone (shard, r) clientId = true) : Fine replicas s clientId := by
  have only : ∀ q, s.service.clients clientId = some q → q = p := by
    intro q there
    rw [here] at there
    exact (Option.some.inj there).symm
  constructor
  · intro state there
    exact ⟨p, here, home state there⟩
  · intro q there
    rw [only q there]
    exact enrolled
  · intro q there
    rw [only q there]
    exact parted
  · intro shard away
    exact apart shard (away p here)

theorem fine_home (replicas : Nat → List Nat) (s : Supply) (clientId : Nat) (p : Caller) (fine : Fine replicas s clientId)
    (here : s.service.clients clientId = some p) :
    ∀ state, s.service.cluster.order.clientState clientId = some state → p.loop.shardId = state.shardId := by
  intro state there
  obtain ⟨q, found, shard⟩ := fine.present state there
  rw [here] at found
  cases found
  exact shard

theorem fine_apart (replicas : Nat → List Nat) (s : Supply) (clientId : Nat) (p : Caller) (fine : Fine replicas s clientId)
    (here : s.service.clients clientId = some p) (shard : Nat) (away : p.loop.shardId ≠ shard) :
    (∀ r ∈ replicas shard, Quiet s.service.cluster (shard, r) clientId) ∨
      ∀ r ∈ replicas shard, s.service.cluster.gone (shard, r) clientId = true := by
  refine fine.apart shard ?_
  intro q found
  rw [here] at found
  cases found
  exact away

-- A step in which a client takes no part: it may be told of an epoch, of which
-- the replicas of its shard are told as well.
structure Feeds (replicas : Nat → List Nat) (clientId : Nat) (s next : Cluster) : Prop where
  received : ∀ place, next.received place clientId = s.received place clientId
  replies : ∀ place, next.replies place clientId = s.replies place clientId
  gone : ∀ place, next.gone place clientId = s.gone place clientId
  told : ∃ more, next.notices clientId = s.notices clientId ++ more ∧ (∀ other, .storageInfo other ∉ more) ∧
    (∀ numSlots ∈ grants more, numSlots * 5000 < 2 ^ 64) ∧ (s.order.clientState clientId = none → grants more = []) ∧
    ∀ place : Place, place.2 ∈ replicas place.1 → clientId ≠ uint64Max → rations clientId (next.control place) =
      rations clientId (s.control place) ++ if (s.order.clientState clientId).map ClientState.shardId = some place.1 then grants more else []

theorem feeds_same (replicas : Nat → List Nat) (clientId : Nat) (s next : Cluster)
    (received : ∀ place, next.received place clientId = s.received place clientId)
    (replies : ∀ place, next.replies place clientId = s.replies place clientId)
    (gone : ∀ place, next.gone place clientId = s.gone place clientId) (notices : next.notices clientId = s.notices clientId)
    (control : ∀ place : Place, place.2 ∈ replicas place.1 → rations clientId (next.control place) = rations clientId (s.control place)) :
    Feeds replicas clientId s next := by
  refine ⟨received, replies, gone, [], ?_, fun _ => List.not_mem_nil, fun _ member => absurd member List.not_mem_nil, fun _ => rfl, ?_⟩
  · rw [notices, List.append_nil]
  · intro place member _
    rw [control place member, show grants [] = [] from rfl, ite_self, List.append_nil]

section

variable (replicas : Nat → List Nat) (s next : Supply) (clientId : Nat) (fine : Fine replicas s clientId)
  (feeds : Feeds replicas clientId s.service.cluster next.service.cluster)

include fine feeds

theorem feeds_links (p : Caller) (present : s.service.clients clientId = some p) (taken : Nat → Nat) (inserts : List StorageInsert)
    (links : ∀ r ∈ replicas p.loop.shardId, Linked s.service.cluster (p.loop.shardId, r) clientId inserts (taken r)
      (grants (s.service.cluster.notices clientId))) :
    ∀ r ∈ replicas p.loop.shardId, Linked next.service.cluster (p.loop.shardId, r) clientId inserts (taken r)
      (grants (next.service.cluster.notices clientId)) := by
  intro r member
  obtain ⟨more, notices, _, _, unknown, rationed⟩ := feeds.told
  have link := links r member
  have known : clientId ≠ uint64Max := Nat.ne_of_lt (Nat.lt_trans (fine.enrolled p present).known max_clients_lt)
  refine ⟨(feeds.received _).trans link.received, (feeds.gone _).trans link.gone, by rw [feeds.replies]; exact link.count, ?_, ?_⟩
  · rw [feeds.replies]
    exact link.replies
  · rw [notices, grants_append, rationed (p.loop.shardId, r) member known, link.granted]
    congr 1
    cases state : s.service.cluster.order.clientState clientId with
    | none => rw [unknown state, ite_self]
    | some state' =>
        obtain ⟨q, there, shard⟩ := fine.present state' state
        rw [present] at there
        cases there
        rw [Option.map_some, if_pos (by rw [shard])]

theorem enrolled_feeds (p : Caller) (present : s.service.clients clientId = some p) (entered : next.entered clientId = s.entered clientId)
    (clock : next.clock clientId = s.clock clientId) (stamps : next.stamps clientId = s.stamps clientId) :
    Enrolled replicas next clientId p := by
  have enrolled := fine.enrolled p present
  refine ⟨enrolled.known, enrolled.steady, ?_, fun r absent => (feeds.replies _).trans (enrolled.outside r absent), ?_⟩
  · obtain ⟨more, notices, plain, small, _, _⟩ := feeds.told
    rw [notices, entered, clock, stamps]
    exact account_grow _ _ p _ _ _ enrolled.account more plain small
  · cases enrolled.links with
    | inl shut =>
        refine Or.inl ?_
        intro r member
        exact ⟨(feeds.gone _).trans (shut r member).gone, (feeds.replies _).trans (shut r member).silent⟩
    | inr links => exact Or.inr (feeds_links replicas s next clientId fine feeds p present p.taken _ links)

theorem apart_feeds (shard : Nat) (other : ∀ p, s.service.clients clientId = some p → p.loop.shardId ≠ shard) :
    (∀ r ∈ replicas shard, Quiet next.service.cluster (shard, r) clientId) ∨
      ∀ r ∈ replicas shard, next.service.cluster.gone (shard, r) clientId = true := by
  obtain ⟨more, _, _, _, unknown, rationed⟩ := feeds.told
  cases fine.apart shard other with
  | inl quiet =>
      refine Or.inl ?_
      intro r member
      have before := quiet r member
      refine ⟨(feeds.received _).trans before.received, (feeds.gone _).trans before.gone, ?_⟩
      intro known
      rw [rationed (shard, r) member known, before.granted known, List.nil_append]
      cases state : s.service.cluster.order.clientState clientId with
      | none => rw [unknown state, ite_self]
      | some state' =>
          obtain ⟨p, there, same⟩ := fine.present state' state
          rw [Option.map_some, if_neg]
          intro here
          exact other p there (same.trans (Option.some.inj here))
  | inr left =>
      refine Or.inr ?_
      intro r member
      rw [feeds.gone]
      exact left r member

theorem fine_feeds (clients : next.service.clients clientId = s.service.clients clientId)
    (home : (next.service.cluster.order.clientState clientId).map ClientState.shardId =
      (s.service.cluster.order.clientState clientId).map ClientState.shardId)
    (entered : next.entered clientId = s.entered clientId) (clock : next.clock clientId = s.clock clientId)
    (stamps : next.stamps clientId = s.stamps clientId) : Fine replicas next clientId := by
  constructor
  · intro state there
    rw [there, Option.map_some] at home
    obtain ⟨before, present, shard⟩ := Option.map_eq_some_iff.mp home.symm
    obtain ⟨p, here, same⟩ := fine.present before present
    exact ⟨p, clients.trans here, same.trans shard⟩
  · intro p present
    rw [clients] at present
    exact enrolled_feeds replicas s next clientId fine feeds p present entered clock stamps
  · intro p present none r member
    rw [clients] at present
    rw [none, Option.map_none] at home
    rw [feeds.gone]
    exact fine.parted p present (Option.map_eq_none_iff.mp home.symm) r member
  · intro shard other
    rw [clients] at other
    exact apart_feeds replicas s next clientId fine feeds shard other

end

theorem init_supply (numShards : Nat) (replicas : Nat → List Nat) : (Supply.init numShards replicas).Inv replicas := by
  constructor
  · rfl
  · intro client state present
    cases present
  · intro client state present
    cases present
  · intro place _
    refine ⟨rfl, rfl, Nat.le_refl _, ?_, init_supplied place.1 place.2, ?_⟩
    · intro message member
      cases member
    · intro client member
      cases member
  · intro client
    constructor
    · intro state present
      cases present
    · intro p present
      cases present
    · intro p present
      cases present
    · intro shard _
      exact Or.inl (fun r _ => ⟨rfl, rfl, fun _ => rfl⟩)

section

variable (replicas : Nat → List Nat) (s next : Supply) (inv : s.Inv replicas) (clientId : Nat) (p q : Caller)
  (present : s.service.clients clientId = some p) (cluster : next.service.cluster = s.service.cluster)

include inv present cluster

-- A client takes a turn, in which the cluster takes no part.
theorem turn_supply (clients : next.service.clients = Function.update s.service.clients clientId (some q))
    (shard : q.loop.shardId = p.loop.shardId)
    (others : ∀ other, other ≠ clientId → next.entered other = s.entered other ∧ next.clock other = s.clock other ∧
      next.stamps other = s.stamps other)
    (enrolled : Enrolled replicas next clientId q) : next.Inv replicas := by
  have here : next.service.clients clientId = some q := by rw [clients, Function.update_self]
  constructor
  · rw [cluster]
    exact inv.queues
  · rw [cluster]
    exact inv.valid
  · rw [cluster]
    exact inv.alive
  · rw [cluster]
    exact inv.hosts
  · intro other
    by_cases mine : other = clientId
    · subst mine
      refine fine_own replicas next other q here enrolled ?_ ?_ ?_
      · rw [cluster, shard]
        exact fine_home replicas s other p (inv.fine other) present
      · rw [cluster, shard]
        exact (inv.fine other).parted p present
      · intro at_shard elsewhere
        rw [cluster]
        exact fine_apart replicas s other p (inv.fine other) present at_shard (shard ▸ elsewhere)
    · obtain ⟨entered, clock, stamps⟩ := others other mine
      refine fine_feeds replicas s next other (inv.fine other) ?_ ?_ ?_ entered clock stamps
      · rw [cluster]
        exact feeds_same replicas other _ _ (fun _ => rfl) (fun _ => rfl) (fun _ => rfl) rfl (fun _ _ => rfl)
      · rw [clients, Function.update_of_ne mine]
      · rw [cluster]

theorem enrolled_turn (shard : q.loop.shardId = p.loop.shardId) (sent : q.sent = p.sent) (taken : q.taken = p.taken)
    (steady : q.Steady (replicas p.loop.shardId) clientId)
    (account : Account (replicas p.loop.shardId) (s.service.cluster.notices clientId) q (next.entered clientId) (next.clock clientId)
      (next.stamps clientId)) : Enrolled replicas next clientId q := by
  have enrolled := (inv.fine clientId).enrolled p present
  refine ⟨enrolled.known, ?_, ?_, ?_, ?_⟩
  · rw [shard]
    exact steady
  · rw [shard, cluster]
    exact account
  · rw [shard, cluster]
    exact enrolled.outside
  · rw [shard, cluster, sent, taken]
    exact enrolled.links

end

theorem linked_send (s : Cluster) (place : Place) (clientId : Nat) (inserts : List StorageInsert) (taken : Nat) (granted : List Nat)
    (req : StorageInsert) (link : Linked s place clientId inserts taken granted) (behind : taken ≤ inserts.length) :
    Linked s place clientId (inserts ++ [req]) taken granted := by
  refine ⟨?_, ?_, link.count, ?_, link.granted⟩
  · rw [link.received, List.take_append_of_le_length behind]
  · rw [link.gone, List.length_append]
    congr 1
    exact propext ⟨fun more => absurd more (by omega), fun more => absurd more (by omega)⟩
  · intro index reply access
    have bound := (List.getElem?_eq_some_iff.mp access).1
    rw [link.count] at bound
    cases link.replies index reply access with
    | inl insert => exact Or.inl ⟨by rw [List.length_append]; omega, insert.2⟩
    | inr last => exact absurd last.1 (by omega)

theorem reply_taken (p : Caller) (replica : Nat) (message : StorageReply) : (p.reply replica message).taken = p.taken ∧
    (p.reply replica message).noticed = p.noticed := by
  cases message with
  | insertAck ack => exact ⟨rfl, rfl⟩
  | storageFinished shardId replicaId => exact ⟨rfl, rfl⟩

theorem reply_counters (p : Caller) (replica : Nat) (message : StorageReply) : (p.reply replica message).loop.assigned = p.loop.assigned ∧
    (p.reply replica message).loop.consumed = p.loop.consumed ∧ (p.reply replica message).loop.epochs = p.loop.epochs ∧
    (p.reply replica message).loop.current = p.loop.current := by
  cases message with
  | insertAck ack =>
      simp only [Caller.reply, Client.Loop.clientInsertAck]
      split
      · exact ⟨rfl, rfl, rfl, rfl⟩
      · split
        · exact ⟨rfl, rfl, rfl, rfl⟩
        · split
          · exact ⟨rfl, rfl, rfl, rfl⟩
          · split
            · exact ⟨rfl, rfl, rfl, rfl⟩
            · exact ⟨rfl, rfl, rfl, rfl⟩
  | storageFinished shardId replicaId =>
      simp only [Caller.reply, Client.Loop.storageFinished]
      split
      · exact ⟨rfl, rfl, rfl, rfl⟩
      · exact ⟨rfl, rfl, rfl, rfl⟩

section

variable (replicas : Nat → List Nat) (failures : Nat) (s next : Supply) (inv : s.Inv replicas) (clientId : Nat)

include inv

-- The turns that neither send nor read the clock.
theorem plain_turn (act : Caller → Option Caller)
    (stepped : (s.service.turn clientId act).map s.moved = some next)
    (kept : ∀ p q, s.service.clients clientId = some p → act p = some q → Enrolled replicas s clientId p →
      q.loop.shardId = p.loop.shardId ∧ q.sent = p.sent ∧ q.taken = p.taken ∧ q.Steady (replicas p.loop.shardId) clientId ∧
      Account (replicas p.loop.shardId) (s.service.cluster.notices clientId) q (s.entered clientId) (s.clock clientId)
        (s.stamps clientId)) : next.Inv replicas := by
  obtain ⟨service, turned, result⟩ := Option.map_eq_some_iff.mp stepped
  subst result
  obtain ⟨p, q, present, acted, result⟩ := turn_cases s.service service clientId act turned
  subst result
  obtain ⟨shard, sent, taken, steady, account⟩ := kept p q present acted ((inv.fine clientId).enrolled p present)
  exact turn_supply replicas s _ inv clientId p q present rfl rfl shard (fun _ _ => ⟨rfl, rfl, rfl⟩)
    (enrolled_turn replicas s _ inv clientId p q present rfl shard sent taken steady account)

theorem notice_supply (stepped : s.step failures (.notice clientId) = some next) : next.Inv replicas := by
  refine plain_turn replicas s next inv clientId _ stepped ?_
  intro p q present acted enrolled
  obtain ⟨message, access, told⟩ := Option.map_eq_some_iff.mp acted
  subst told
  refine ⟨(caller_notice_kept p message).1, rfl, rfl, ?_, account_notice _ _ p _ _ _ enrolled.account message access⟩
  -- The list of the storage servers comes first and once.
  obtain ⟨rest, notices, first⟩ := enrolled.account.told
  rw [notices] at access
  refine notice_steady _ clientId p enrolled.steady message ?_
  cases told : p.noticed with
  | zero =>
      rw [told, List.getElem?_cons_zero] at access
      exact Or.inl ⟨rfl, (Option.some.inj access).symm⟩
  | succ index =>
      rw [told, List.getElem?_cons_succ] at access
      refine Or.inr ⟨Nat.succ_ne_zero index, ?_⟩
      intro other same
      exact first other (same ▸ List.mem_of_getElem? access)

theorem stop_supply (stepped : s.step failures (.stop clientId) = some next) : next.Inv replicas := by
  refine plain_turn replicas s next inv clientId _ stepped ?_
  intro p q present acted enrolled
  cases acted
  obtain ⟨shard, sent, _⟩ := caller_stop_kept p
  have same : p.stop.taken = p.taken ∧ p.stop.noticed = p.noticed ∧ p.stop.loop.assigned = p.loop.assigned ∧
      p.stop.loop.consumed = p.loop.consumed ∧ p.stop.loop.epochs = p.loop.epochs ∧ p.stop.loop.current = p.loop.current := by
    unfold Caller.stop Client.Loop.checkStop
    cases p.loop.stopped with
    | true => exact ⟨rfl, rfl, rfl, rfl, rfl, rfl⟩
    | false => exact ⟨rfl, rfl, rfl, rfl, rfl, rfl⟩
  obtain ⟨taken, noticed, assigned, consumed, epochs, current⟩ := same
  exact ⟨shard, sent, taken, stop_steady _ clientId p enrolled.steady, account_congr _ _ p _ _ _ enrolled.account _ noticed sent
    (Client.paced_congr p.loop _ _ _ _ enrolled.account.paced _ assigned consumed epochs current)⟩

theorem enqueue_supply (data : Bytes) (response : Nat) (stepped : s.step failures (.enqueue clientId data response) = some next) :
    next.Inv replicas := by
  obtain ⟨service, added, result⟩ := Option.map_eq_some_iff.mp stepped
  subst result
  simp only [Service.step, Option.ite_none_right_eq_some] at added
  obtain ⟨p, present, same⟩ := Option.map_eq_some_iff.mp added.2
  subst same
  have enrolled := (inv.fine clientId).enrolled p present
  refine turn_supply replicas s _ inv clientId p (p.enqueue data response) present rfl rfl rfl (fun _ _ => ⟨rfl, rfl, rfl⟩) ?_
  exact enrolled_turn replicas s _ inv clientId p _ present rfl rfl rfl rfl (enqueue_steady _ clientId p enrolled.steady data response)
    (account_congr _ _ p _ _ _ enrolled.account _ rfl rfl
      (Client.paced_congr p.loop _ _ _ _ enrolled.account.paced _ rfl rfl rfl rfl))

theorem switch_supply (now : Nat) (stepped : s.step failures (.switchEpoch clientId now) = some next) : next.Inv replicas := by
  simp only [Supply.step, Option.ite_none_right_eq_some] at stepped
  obtain ⟨⟨later, _⟩, moved⟩ := stepped
  obtain ⟨service, turned, result⟩ := Option.map_eq_some_iff.mp moved
  subst result
  obtain ⟨p, q, present, acted, result⟩ := turn_cases s.service service clientId _ turned
  cases acted
  subst result
  have enrolled := (inv.fine clientId).enrolled p present
  have same : (p.loop.switchEpoch now).clientId = p.loop.clientId ∧ (p.loop.switchEpoch now).queues = p.loop.queues ∧
      (p.loop.switchEpoch now).requests = p.loop.requests := by
    unfold Client.Loop.switchEpoch
    split
    · exact ⟨rfl, rfl, rfl⟩
    · split
      · exact ⟨rfl, rfl, rfl⟩
      · exact ⟨rfl, rfl, rfl⟩
  obtain ⟨shard, stopped⟩ := switch_epoch_kept p.loop now
  refine turn_supply replicas s _ inv clientId p _ present rfl rfl shard ?_ ?_
  · intro other different
    exact ⟨Function.update_of_ne different _ _, Function.update_of_ne different _ _, rfl⟩
  · refine enrolled_turn replicas s _ inv clientId p _ present rfl shard rfl rfl
      (loop_steady _ clientId p enrolled.steady _ same.1 same.2.1 stopped same.2.2) ?_
    have account := account_switch _ _ p _ _ _ enrolled.account now later
    dsimp only
    rw [Function.update_self, Function.update_self, present, Option.any_some]
    exact account

theorem send_supply (now : Nat) (stepped : s.step failures (.send clientId now) = some next) : next.Inv replicas := by
  simp only [Supply.step, Option.ite_none_right_eq_some] at stepped
  obtain ⟨⟨later, word⟩, moved⟩ := stepped
  obtain ⟨service, turned, result⟩ := Option.map_eq_some_iff.mp moved
  subst result
  obtain ⟨p, q, present, acted, result⟩ := turn_cases s.service service clientId _ turned
  cases acted
  subst result
  have enrolled := (inv.fine clientId).enrolled p present
  obtain ⟨shard, _, _⟩ := caller_send_kept p now
  refine turn_supply replicas s _ inv clientId p _ present rfl rfl shard ?_ ?_
  · intro other different
    exact ⟨rfl, Function.update_of_ne different _ _, Function.update_of_ne different _ _⟩
  · refine ⟨enrolled.known, ?_, ?_, ?_, ?_⟩
    · rw [shard]
      exact send_steady _ clientId p enrolled.steady now
    · have account := account_send _ _ p _ _ _ enrolled.account now later word
      rw [shard]
      dsimp only
      rw [Function.update_self, Function.update_self, present, Option.any_some]
      exact account
    · rw [shard]
      exact enrolled.outside
    · rw [shard]
      cases enrolled.links with
      | inl shut => exact Or.inl shut
      | inr links =>
          refine Or.inr ?_
          intro r member
          obtain nothing | ⟨message, response, loop, result, running, _⟩ := caller_send_cases p now
          · rw [nothing]
            exact links r member
          · rw [result]
            dsimp only
            rw [List.map_append]
            refine linked_send _ _ clientId _ _ _ message (links r member) ?_
            rw [List.length_map]
            exact (taken_bound _ clientId p enrolled.steady r member).2.1 running

theorem reply_supply (replica : Nat) (stepped : s.step failures (.reply clientId replica) = some next) : next.Inv replicas := by
  refine plain_turn replicas s next inv clientId _ stepped ?_
  intro p q present acted enrolled
  obtain ⟨message, access, told⟩ := Option.map_eq_some_iff.mp acted
  subst told
  obtain ⟨shard, sent, _⟩ := caller_reply_kept p replica message
  obtain ⟨assigned, consumed, epochs, current⟩ := reply_counters p replica message
  have account := account_congr _ _ p _ _ _ enrolled.account (p.reply replica message) (reply_taken p replica message).2 sent
    (Client.paced_congr p.loop _ _ _ _ enrolled.account.paced _ assigned consumed epochs current)
  refine ⟨shard, sent, (reply_taken p replica message).1, ?_, account⟩
  by_cases member : replica ∈ replicas p.loop.shardId
  · cases enrolled.links with
    | inl shut =>
        rw [(shut replica member).silent] at access
        cases access
    | inr links =>
        have link := links replica member
        have bound := (List.getElem?_eq_some_iff.mp access).1
        rw [link.count] at bound
        cases link.replies _ message access with
        | inl insert =>
            obtain ⟨_, ack, same⟩ := insert
            subst same
            exact ack_steady _ clientId p enrolled.steady replica ack bound
        | inr last =>
            obtain ⟨count, same⟩ := last
            subst same
            rw [List.length_map] at count
            exact finished_steady _ clientId p enrolled.steady replica p.loop.shardId member count bound
  · rw [enrolled.outside replica member] at access
    cases access

end

end ZipLog.System
