import ZipLog.System.Session

set_option autoImplicit false

namespace ZipLog.System

open Storage Quorum

-- What a server has done with the messages of a client: each insert it has
-- taken is answered by the GSN of its slot and the goodbye by storage_finished.
structure Served (s : Cluster) (place : Place) (clientId : Nat) (inserts : List StorageInsert) (taken : Nat) : Prop where
  received : s.received place clientId = inserts.take taken
  disconnected : ((s.servers place).clientState clientId).disconnected = decide (inserts.length < taken)
  count : (s.replies place clientId).length = taken
  replies : ∀ (index : Nat) reply, (s.replies place clientId)[index]? = some reply →
    (index < inserts.length ∧ ∃ gsn, reply = .insertAck ⟨place.2, gsn⟩ ∧
      (gsns (slotsIn (s.seen place)) clientId)[rankOf inserts index]? = some gsn) ∨
    (index = inserts.length ∧ reply = .storageFinished place.1 place.2)

-- One client in the cluster.
structure Bound (replicas : Nat → List Nat) (s : Cluster) (history : Nat → List StorageControl) (clientId : Nat) (p : Caller) : Prop where
  steady : p.Steady (replicas p.loop.shardId) clientId
  home : s.homes clientId = none ∨ s.homes clientId = some p.loop.shardId
  noticed : p.noticed ≤ (s.notices clientId).length
  served : ∀ r ∈ replicas p.loop.shardId, Served s (p.loop.shardId, r) clientId (p.sent.map Prod.fst) (p.taken r)
  outside : ∀ r, r ∉ replicas p.loop.shardId → s.replies (p.loop.shardId, r) clientId = []
  heard : ∃ gsn delivered, p.Matches (replicas p.loop.shardId) (slotsIn (history p.loop.shardId)) clientId gsn delivered
  final : ∀ shard, .clientFinalize clientId ∈ history shard → 0 < p.goodbyes

structure Fresh (s : Cluster) (history : Nat → List StorageControl) (clientId : Nat) : Prop where
  home : s.homes clientId = none
  received : ∀ place, s.received place clientId = []
  replies : ∀ place, s.replies place clientId = []
  disconnected : ∀ place, ((s.servers place).clientState clientId).disconnected = false
  final : ∀ shard, .clientFinalize clientId ∉ history shard

structure Service.Inv (replicas : Nat → List Nat) (s : Service) (history : Nat → List StorageControl) : Prop where
  calm : Calm replicas s.cluster history
  bound : ∀ client p, s.clients client = some p → Bound replicas s.cluster history client p
  fresh : ∀ client, s.clients client = none → Fresh s.cluster history client

theorem init_service (numShards : Nat) (replicas : Nat → List Nat) : (Service.init numShards replicas).Inv replicas (fun _ => []) := by
  refine ⟨init_calm numShards replicas, ?_, ?_⟩
  · intro client p present
    cases present
  · intro client _
    exact ⟨rfl, fun _ => rfl, fun _ => rfl, fun _ => rfl, fun _ => List.not_mem_nil⟩

theorem gsns_increasing (slots : List (Nat × Nat)) (clientId : Nat) (increasing : Increasing slots) :
    (gsns slots clientId).Pairwise (· < ·) :=
  List.Pairwise.map Prod.fst (fun _ _ less => less) (List.Pairwise.filter _ increasing)

theorem gsn_small (replicas : Nat → List Nat) (s : Cluster) (history : Nat → List StorageControl) (ordered : s.Ordered replicas history)
    (shard clientId rank gsn : Nat) (access : (gsns (slotsIn (history shard)) clientId)[rank]? = some gsn) : gsn < uint64Max := by
  obtain ⟨slot, member, same⟩ := List.mem_map.mp (List.mem_of_getElem? access)
  have below := ordered.below shard slot (List.mem_filter.mp member).1
  have word := ordered.word
  have last : uint64Max + 1 = 2 ^ 64 := by decide
  omega

theorem served_grow (s next : Cluster) (place : Place) (clientId : Nat) (inserts : List StorageInsert) (taken : Nat)
    (served : Served s place clientId inserts taken) (received : next.received place clientId = s.received place clientId)
    (replies : next.replies place clientId = s.replies place clientId)
    (states : ((next.servers place).clientState clientId).disconnected = ((s.servers place).clientState clientId).disconnected)
    (seen : s.seen place <+: next.seen place) : Served next place clientId inserts taken := by
  refine ⟨received.trans served.received, states.trans served.disconnected, by rw [replies]; exact served.count, ?_⟩
  intro index reply access
  rw [replies] at access
  cases served.replies index reply access with
  | inl insert =>
      obtain ⟨inside, gsn, same, value⟩ := insert
      exact Or.inl ⟨inside, gsn, same, prefix_access _ _ (gsns_grow _ _ clientId (slots_in_grow _ _ seen)) _ _ value⟩
  | inr last => exact Or.inr last

theorem bound_spares (replicas : Nat → List Nat) (s next : Cluster) (history after : Nat → List StorageControl) (clientId : Nat) (p : Caller)
    (bound : Bound replicas s history clientId p) (spares : Spares clientId s next history after) :
    Bound replicas next after clientId p := by
  constructor
  · exact bound.steady
  · rw [spares.homes]
    exact bound.home
  · exact Nat.le_trans bound.noticed spares.notices.length_le
  · intro r member
    exact served_grow s next _ clientId _ _ (bound.served r member) (spares.received _) (spares.replies _) (spares.states _) (spares.seen _)
  · intro r absent
    rw [spares.replies]
    exact bound.outside r absent
  · obtain ⟨gsn, delivered, heard⟩ := bound.heard
    exact ⟨gsn, delivered, matches_grow _ _ _ _ _ _ heard _ (slots_in_grow _ _ (spares.grows _))⟩
  · intro shard member
    exact bound.final shard (spares.final shard member)

theorem fresh_spares (s next : Cluster) (history after : Nat → List StorageControl) (clientId : Nat)
    (fresh : Fresh s history clientId) (spares : Spares clientId s next history after) : Fresh next after clientId :=
  ⟨spares.homes.trans fresh.home, fun place => (spares.received place).trans (fresh.received place),
    fun place => (spares.replies place).trans (fresh.replies place), fun place => (spares.states place).trans (fresh.disconnected place),
    fun shard member => fresh.final shard (spares.final shard member)⟩

-- A step of the cluster that no client takes part in.
theorem cluster_inv (replicas : Nat → List Nat) (s : Service) (next : Cluster) (history after : Nat → List StorageControl)
    (inv : s.Inv replicas history) (calm : Calm replicas next after)
    (spares : ∀ client, Spares client s.cluster next history after) : { s with cluster := next }.Inv replicas after :=
  ⟨calm, fun client p present => bound_spares replicas _ _ _ _ client p (inv.bound client p present) (spares client),
    fun client absent => fresh_spares _ _ _ _ client (inv.fresh client absent) (spares client)⟩

-- A step that one client takes part in.
theorem client_inv (replicas : Nat → List Nat) (s : Service) (next : Cluster) (history after : Nat → List StorageControl)
    (clientId : Nat) (p : Caller) (inv : s.Inv replicas history) (calm : Calm replicas next after)
    (spares : ∀ client, client ≠ clientId → Spares client s.cluster next history after)
    (bound : Bound replicas next after clientId p) : ({ s with cluster := next }.setClient clientId p).Inv replicas after := by
  refine ⟨calm, ?_, ?_⟩
  · intro client q present
    by_cases mine : client = clientId
    · subst mine
      simp only [Service.setClient, Function.update_self] at present
      cases present
      exact bound
    · simp only [Service.setClient, Function.update_of_ne mine] at present
      exact bound_spares replicas _ _ _ _ client q (inv.bound client q present) (spares client mine)
  · intro client absent
    by_cases mine : client = clientId
    · subst mine
      simp only [Service.setClient, Function.update_self] at absent
      cases absent
    · simp only [Service.setClient, Function.update_of_ne mine] at absent
      exact fresh_spares _ _ _ _ client (inv.fresh client absent) (spares client mine)

theorem spares_refl (s : Cluster) (history : Nat → List StorageControl) (client : Nat) : Spares client s s history history :=
  ⟨fun _ => rfl, fun _ => rfl, fun _ => rfl, fun _ => List.prefix_rfl, fun _ => List.prefix_rfl, rfl, List.prefix_rfl, fun _ => id⟩

theorem served_send (s : Cluster) (place : Place) (clientId : Nat) (inserts : List StorageInsert) (taken : Nat) (req : StorageInsert)
    (served : Served s place clientId inserts taken) (behind : taken ≤ inserts.length) :
    Served s place clientId (inserts ++ [req]) taken := by
  refine ⟨?_, ?_, served.count, ?_⟩
  · rw [served.received, List.take_append_of_le_length behind]
  · rw [served.disconnected, List.length_append]
    congr 1
    exact propext ⟨fun more => absurd more (by omega), fun more => absurd more (by omega)⟩
  · intro index reply access
    have bound := (List.getElem?_eq_some_iff.mp access).1
    rw [served.count] at bound
    cases served.replies index reply access with
    | inl insert =>
        obtain ⟨inside, gsn, same, value⟩ := insert
        refine Or.inl ⟨by rw [List.length_append]; omega, gsn, same, ?_⟩
        rw [rank_of_append _ _ _ inside]
        exact value
    | inr last => exact absurd last.1 (by omega)

theorem answered_served (s : Cluster) (place : Place) (clientId : Nat) (server : Server) (inserts taking : List StorageInsert) (taken : Nat)
    (reply : StorageReply) (served : Served s place clientId inserts taken)
    (received : inserts.take taken ++ taking = inserts.take (taken + 1))
    (disconnected : (server.clientState clientId).disconnected = decide (inserts.length < taken + 1))
    (answer : (taken < inserts.length ∧ ∃ gsn, reply = .insertAck ⟨place.2, gsn⟩ ∧
      (gsns (slotsIn (s.seen place)) clientId)[rankOf inserts taken]? = some gsn) ∨
      (taken = inserts.length ∧ reply = .storageFinished place.1 place.2)) :
    Served (s.answered place clientId server taking [reply]) place clientId inserts (taken + 1) := by
  obtain ⟨servers, receivedHere, replies⟩ := answered_here s place clientId server taking [reply]
  constructor
  · rw [receivedHere, Function.update_self, served.received, received]
  · rw [servers, disconnected]
  · rw [replies, Function.update_self, List.length_append, served.count]
    rfl
  · intro index item access
    rw [replies, Function.update_self] at access
    rcases Nat.lt_or_ge index taken with old | new
    · rw [List.getElem?_append_left (by rw [served.count]; exact old)] at access
      exact served.replies index item access
    · rw [List.getElem?_append_right (by rw [served.count]; exact new), served.count] at access
      have last : index = taken := by
        have bound := (List.getElem?_eq_some_iff.mp access).1
        rw [List.length_singleton] at bound
        omega
      subst last
      rw [Nat.sub_self, List.getElem?_cons_zero] at access
      rw [← Option.some.inj access]
      exact answer

section

variable (replicas : Nat → List Nat) (s : Cluster) (history : Nat → List StorageControl) (clientId : Nat) (p : Caller)
  (bound : Bound replicas s history clientId p)

include bound

-- A turn of the loop of the client, in which the cluster takes no part.
theorem turn_bound (q : Caller) (shard : q.loop.shardId = p.loop.shardId) (steady : q.Steady (replicas p.loop.shardId) clientId)
    (noticed : q.noticed ≤ (s.notices clientId).length)
    (served : ∀ r ∈ replicas p.loop.shardId, Served s (p.loop.shardId, r) clientId (q.sent.map Prod.fst) (q.taken r))
    (heard : ∃ gsn delivered, q.Matches (replicas p.loop.shardId) (slotsIn (history p.loop.shardId)) clientId gsn delivered)
    (goodbyes : p.goodbyes ≤ q.goodbyes) : Bound replicas s history clientId q := by
  rw [← shard] at steady served heard
  refine ⟨steady, ?_, noticed, served, ?_, heard, ?_⟩
  · rw [shard]
    exact bound.home
  · rw [shard]
    exact bound.outside
  · intro at_shard member
    exact Nat.lt_of_lt_of_le (bound.final at_shard member) goodbyes

theorem loop_bound (loop : Client.Loop) (shard : loop.shardId = p.loop.shardId) (name : loop.clientId = p.loop.clientId)
    (queues : loop.queues = p.loop.queues) (stopped : loop.stopped = p.loop.stopped) (requests : loop.requests = p.loop.requests)
    (failures : loop.failures = p.loop.failures) (latest : loop.latestGsn = p.loop.latestGsn)
    (outstanding : loop.outstanding = p.loop.outstanding) (stored : loop.stored = p.loop.stored) :
    Bound replicas s history clientId { p with loop := loop } := by
  obtain ⟨gsn, delivered, heard⟩ := bound.heard
  exact turn_bound replicas s history clientId p bound _ shard
    (loop_steady _ clientId p bound.steady loop name queues stopped requests) bound.noticed bound.served
    ⟨gsn, delivered, matches_congr _ _ clientId p gsn delivered heard _ rfl (fun _ _ => rfl) failures latest outstanding stored⟩
    (Nat.le_refl _)

theorem switch_epoch_bound (now : Nat) : Bound replicas s history clientId { p with loop := p.loop.switchEpoch now } := by
  have same : p.loop.switchEpoch now = p.loop ∨ ∃ current epochs, p.loop.switchEpoch now = { p.loop with current := current, epochs := epochs } := by
    unfold Client.Loop.switchEpoch
    split
    · exact Or.inl rfl
    · split
      · exact Or.inr ⟨_, _, rfl⟩
      · exact Or.inl rfl
  cases same with
  | inl same =>
      rw [same]
      exact bound
  | inr moved =>
      obtain ⟨current, epochs, moved⟩ := moved
      rw [moved]
      exact loop_bound replicas s history clientId p bound _ rfl rfl rfl rfl rfl rfl rfl rfl rfl

theorem enqueue_bound (data : Bytes) (response : Nat) : Bound replicas s history clientId (p.enqueue data response) := by
  obtain ⟨gsn, delivered, heard⟩ := bound.heard
  exact turn_bound replicas s history clientId p bound _ rfl (enqueue_steady _ clientId p bound.steady data response) bound.noticed
    bound.served ⟨gsn, delivered, matches_congr _ _ clientId p gsn delivered heard _ rfl (fun _ _ => rfl) rfl rfl rfl rfl⟩ (Nat.le_refl _)

-- The list of the storage servers comes first and once.
theorem notice_kind (message : Order.ClientControl) (calm : Calm replicas s history)
    (access : (s.notices clientId)[p.noticed]? = some message) :
    p.noticed = 0 ∧ message = .storageInfo (replicas p.loop.shardId) ∨ p.noticed ≠ 0 ∧ ∀ other, message ≠ .storageInfo other := by
  cases bound.home with
  | inl none =>
      rw [calm.unknown clientId none] at access
      cases access
  | inr home =>
      obtain ⟨rest, notices, first⟩ := calm.notices clientId _ home
      rw [notices] at access
      cases told : p.noticed with
      | zero =>
          rw [told, List.getElem?_cons_zero] at access
          exact Or.inl ⟨rfl, (Option.some.inj access).symm⟩
      | succ index =>
          rw [told, List.getElem?_cons_succ] at access
          refine Or.inr ⟨Nat.succ_ne_zero index, ?_⟩
          intro other same
          exact first other (same ▸ List.mem_of_getElem? access)

theorem notice_bound (message : Order.ClientControl) (calm : Calm replicas s history)
    (access : (s.notices clientId)[p.noticed]? = some message) : Bound replicas s history clientId (p.notice message) := by
  obtain ⟨gsn, delivered, heard⟩ := bound.heard
  have same : (p.notice message).loop.shardId = p.loop.shardId ∧ (p.notice message).loop.failures = p.loop.failures ∧
      (p.notice message).loop.latestGsn = p.loop.latestGsn ∧ (p.notice message).loop.outstanding = p.loop.outstanding ∧
      (p.notice message).loop.stored = p.loop.stored := by
    cases message with
    | storageInfo replicas => exact ⟨rfl, rfl, rfl, rfl, rfl⟩
    | newEpoch beginning numSlots => exact ⟨rfl, rfl, rfl, rfl, rfl⟩
    | orderFinished => exact ⟨rfl, rfl, rfl, rfl, rfl⟩
  exact turn_bound replicas s history clientId p bound _ same.1
    (notice_steady _ clientId p bound.steady message (notice_kind replicas s history clientId p bound message calm access))
    (List.getElem?_eq_some_iff.mp access).1 bound.served
    ⟨gsn, delivered, matches_congr _ _ clientId p gsn delivered heard _ rfl (fun _ _ => rfl) same.2.1 same.2.2.1 same.2.2.2.1 same.2.2.2.2⟩
    (Nat.le_refl _)

theorem send_bound (now : Nat) : Bound replicas s history clientId (p.send now) := by
  obtain ⟨gsn, delivered, heard⟩ := bound.heard
  have steady := send_steady _ clientId p bound.steady now
  have after := send_matches _ _ clientId p gsn delivered heard bound.steady now
  obtain nothing | ⟨message, response, loop, result, running, _, _, _, _, _, _, shard, _⟩ := caller_send_cases p now
  · rw [nothing]
    exact bound
  · rw [result] at steady after ⊢
    refine turn_bound replicas s history clientId p bound _ shard steady bound.noticed ?_ ⟨gsn, delivered, after⟩ (Nat.le_refl _)
    intro r member
    have behind := (taken_bound _ clientId p bound.steady r member).2.1 running
    have extended := served_send s _ clientId _ _ message (bound.served r member) (by rwa [List.length_map])
    change Served s _ clientId ((p.sent ++ [(message, response)]).map Prod.fst) (p.taken r)
    rw [List.map_append]
    exact extended

theorem stop_bound : Bound replicas s history clientId p.stop := by
  obtain ⟨gsn, delivered, heard⟩ := bound.heard
  have steady := stop_steady _ clientId p bound.steady
  have same : p.stop.sent = p.sent ∧ p.stop.heard = p.heard ∧ p.stop.taken = p.taken ∧ p.stop.noticed = p.noticed ∧
      p.stop.goodbyes = p.goodbyes ∧ ∃ stopped, p.stop.loop = { p.loop with stopped := stopped } := by
    unfold Caller.stop Client.Loop.checkStop
    cases p.loop.stopped with
    | true => exact ⟨rfl, rfl, rfl, rfl, rfl, p.loop.stopped, rfl⟩
    | false => exact ⟨rfl, rfl, rfl, rfl, rfl, true, rfl⟩
  obtain ⟨sent, heardSame, taken, noticed, goodbyes, stopped, loop⟩ := same
  have acked : ∀ r ∈ replicas p.loop.shardId, p.stop.acked r = p.acked r := by
    intro r _
    rw [Caller.acked, Caller.acked, sent, heardSame]
  refine turn_bound replicas s history clientId p bound _ (by rw [loop]) steady (by rw [noticed]; exact bound.noticed) ?_ ⟨gsn, delivered, ?_⟩
    (Nat.le_of_eq goodbyes.symm)
  · intro r member
    rw [sent, taken]
    exact bound.served r member
  · exact matches_congr _ _ clientId p gsn delivered heard _ sent acked (by rw [loop]) (by rw [loop]) (by rw [loop]) (by rw [loop])

theorem reply_bound (nodup : ∀ shard, (replicas shard).Nodup) (r : Nat) (message : StorageReply) (calm : Calm replicas s history)
    (access : (s.replies (p.loop.shardId, r) clientId)[p.heard r]? = some message) :
    Bound replicas s history clientId (p.reply r message) := by
  have member : r ∈ replicas p.loop.shardId := by
    by_contra absent
    rw [bound.outside r absent] at access
    cases access
  obtain ⟨gsn, delivered, heard⟩ := bound.heard
  have served := bound.served r member
  have pending : p.heard r < p.taken r := served.count ▸ (List.getElem?_eq_some_iff.mp access).1
  cases served.replies _ message access with
  | inl insert =>
      obtain ⟨inside, value, same, found⟩ := insert
      subst same
      rw [List.length_map] at inside
      have named := prefix_access _ _ (gsns_grow _ _ clientId (slots_in_grow _ _
        (seen_history replicas s history _ r calm.ordered member))) _ _ found
      obtain ⟨gsn', delivered', after⟩ := ack_matches _ _ clientId p gsn delivered heard (nodup _)
        (gsns_increasing _ clientId (calm.ordered.increasing _)) r r value member inside named
        (gsn_small replicas s history calm.ordered _ clientId _ value named)
      exact turn_bound replicas s history clientId p bound _ (insert_ack_same p.loop _).2.1
        (ack_steady _ clientId p bound.steady r _ pending) bound.noticed bound.served ⟨gsn', delivered', after⟩ (Nat.le_refl _)
  | inr last =>
      obtain ⟨index, same⟩ := last
      subst same
      rw [List.length_map] at index
      refine turn_bound replicas s history clientId p bound _ ?_ (finished_steady _ clientId p bound.steady r _ member index pending)
        bound.noticed bound.served ⟨gsn, delivered, finished_matches _ _ clientId p gsn delivered heard r _ index⟩ ?_
      · simp only [Caller.reply, Client.Loop.storageFinished]
        split
        · rfl
        · rfl
      · simp only [Caller.reply]
        split
        · exact Nat.le_succ _
        · exact Nat.le_refl _

-- Once the ordering service has been told that the client is done, every server
-- has seen its goodbye.
theorem finalized_parted (shard : Nat) (final : .clientFinalize clientId ∈ history shard) :
    p.loop.stopped = true ∧ ∀ r ∈ replicas p.loop.shardId, p.sent.length < p.taken r := by
  obtain ⟨stopped, all⟩ := bound.steady.goodbye (bound.final shard final)
  exact ⟨stopped, fun r member => Nat.lt_of_lt_of_le (all r member) (bound.steady.heard r member)⟩

-- The client while one of its servers takes the next message. next and after are
-- the cluster and the client then.
theorem served_bound (next : Cluster) (r : Nat) (member : r ∈ replicas p.loop.shardId)
    (room : p.taken r < (p.outbox r).length) (homes : next.homes = s.homes) (notices : next.notices = s.notices)
    (elsewhere : ∀ place, place ≠ (p.loop.shardId, r) → next.received place = s.received place ∧
      next.replies place = s.replies place ∧ next.servers place = s.servers place)
    (seen : ∀ place, s.seen place <+: next.seen place)
    (here : Served next (p.loop.shardId, r) clientId (p.sent.map Prod.fst) (p.taken r + 1)) :
    Bound replicas next history clientId { p with taken := Function.update p.taken r (p.taken r + 1) } := by
  obtain ⟨gsn, delivered, heard⟩ := bound.heard
  refine ⟨taken_steady _ clientId p bound.steady r room, ?_, ?_, ?_, ?_, ⟨gsn, delivered, ?_⟩, bound.final⟩
  · rw [homes]
    exact bound.home
  · rw [notices]
    exact bound.noticed
  · intro other inside
    by_cases same : other = r
    · subst same
      simp only [Function.update_self]
      exact here
    · simp only [Function.update_of_ne same]
      have place : (p.loop.shardId, other) ≠ (p.loop.shardId, r) := fun equal => same (Prod.mk.inj equal).2
      obtain ⟨received, replies, servers⟩ := elsewhere _ place
      exact served_grow s next _ clientId _ _ (bound.served other inside) (by rw [received]) (by rw [replies]) (by rw [servers]) (seen _)
  · intro other absent
    have place : (p.loop.shardId, other) ≠ (p.loop.shardId, r) := by
      intro equal
      exact absent ((Prod.mk.inj equal).2 ▸ member)
    change next.replies (p.loop.shardId, other) clientId = []
    rw [(elsewhere _ place).2.1]
    exact bound.outside other absent
  · exact matches_congr _ _ clientId p gsn delivered heard _ rfl (fun _ _ => rfl) rfl rfl rfl rfl

-- A server that is to take an insert of the client has not been told that the
-- client has left.
theorem insert_ready (calm : Calm replicas s history) (r : Nat) (item : StorageInsert × Option Nat) (member : r ∈ replicas p.loop.shardId)
    (found : p.sent[p.taken r]? = some item) : 1 ≤ item.1.numSlots ∧ item.1.clientId = clientId ∧
      ((s.servers (p.loop.shardId, r)).clientState item.1.clientId).disconnected = false ∧
      (r ∈ replicas p.loop.shardId → .clientFinalize item.1.clientId ∉ s.seen (p.loop.shardId, r)) := by
  have inside := (List.getElem?_eq_some_iff.mp found).1
  obtain ⟨positive, name, _⟩ := bound.steady.inserts item (List.mem_of_getElem? found)
  refine ⟨positive, name, ?_, ?_⟩
  · rw [name, (bound.served r member).disconnected, List.length_map]
    exact decide_eq_false (by omega)
  · intro _ final
    rw [name] at final
    have whole := (seen_history replicas s history _ r calm.ordered member).subset final
    have parted := (finalized_parted replicas s history clientId p bound _ whole).2 r member
    omega

theorem serve_bound (calm : Calm replicas s history) (r : Nat) (beyond : Bytes) (request : StorageRequest) (next : Cluster)
    (access : (p.outbox r)[p.taken r]? = some request)
    (stepped : s.step (served (p.loop.shardId, r) beyond request) = some next) :
    Calm replicas next history ∧ (∀ client, client ≠ clientId → Spares client s next history history) ∧
      Bound replicas next history clientId { p with taken := Function.update p.taken r (p.taken r + 1) } := by
  have member : r ∈ replicas p.loop.shardId := by
    apply serves_member replicas s history calm (p.loop.shardId, r)
    cases request with
    | insert req =>
        simp only [served, Cluster.step] at stepped
        split at stepped
        · rename_i enabled
          exact enabled.1
        · cases stepped
    | clientFinished clientId =>
        simp only [served, Cluster.step] at stepped
        split at stepped
        · rename_i enabled
          exact enabled.1
        · cases stepped
  have before := bound.served r member
  have room := (List.getElem?_eq_some_iff.mp access).1
  cases request_cases _ clientId p bound.steady r request member access with
  | inl insert =>
      obtain ⟨item, found, same⟩ := insert
      subst same
      have inside := (List.getElem?_eq_some_iff.mp found).1
      have found' : (p.sent.map Prod.fst)[p.taken r]? = some item.1 := by rw [List.getElem?_map, found, Option.map_some]
      obtain ⟨positive, name, joined, open_⟩ := insert_ready replicas s history clientId p bound calm r item member found
      obtain ⟨server, gsn, result, _, _, after, spares, states, seen, value⟩ :=
        calm_insert replicas s history calm (p.loop.shardId, r) item.1 beyond next positive joined open_ stepped
      have taking : (p.sent.map Prod.fst).take (p.taken r) ++ [item.1] = (p.sent.map Prod.fst).take (p.taken r + 1) := by
        rw [List.take_add_one, found', Option.toList_some]
      rw [name] at result spares states value
      rw [before.received, taking] at value
      refine ⟨after, spares, served_bound replicas s history clientId p bound next r member room ?_ ?_ ?_ seen ?_⟩
      · rw [result]
        rfl
      · rw [result]
        rfl
      · intro place different
        rw [result]
        obtain ⟨servers, received, replies⟩ := answered_other s _ place clientId server [item.1] [.insertAck ⟨r, gsn⟩] different
        exact ⟨received, replies, servers⟩
      · rw [result]
        refine answered_served s _ clientId server _ [item.1] _ _ before taking ?_ (Or.inl ⟨by rwa [List.length_map], gsn, rfl, value⟩)
        rw [states, List.length_map]
        exact (decide_eq_false (by omega)).symm
  | inr last =>
      obtain ⟨index, same⟩ := last
      subst same
      have joined : ((s.servers (p.loop.shardId, r)).clientState clientId).disconnected = false := by
        rw [before.disconnected, List.length_map]
        exact decide_eq_false (by omega)
      obtain ⟨result, _, after, spares, seen⟩ := calm_leave replicas s history calm (p.loop.shardId, r) clientId next joined stepped
      refine ⟨after, spares, served_bound replicas s history clientId p bound next r member room ?_ ?_ ?_ seen ?_⟩
      · rw [result]
        rfl
      · rw [result]
        rfl
      · intro place different
        rw [result]
        obtain ⟨servers, received, replies⟩ := answered_other s _ place clientId _ [] [.storageFinished p.loop.shardId r] different
        exact ⟨received, replies, servers⟩
      · rw [result]
        refine answered_served s _ clientId _ _ [] _ _ before ?_ ?_ (Or.inr ⟨by rw [List.length_map]; exact index, rfl⟩)
        · rw [List.append_nil, List.take_of_length_le (by rw [List.length_map]; omega),
            List.take_of_length_le (by rw [List.length_map]; omega)]
        · have gone : (((s.servers (p.loop.shardId, r)).disconnect clientId).clientState clientId).disconnected = true := by
            simp [Server.disconnect, client_state_same]
          rw [gone, List.length_map]
          exact (decide_eq_true (by omega)).symm

theorem finish_bound (next : Cluster) (after : Nat → List StorageControl) (departed : Nat) (some : 0 < p.goodbyes)
    (received : next.received = s.received) (replies : next.replies = s.replies) (servers : next.servers = s.servers)
    (homes : next.homes = s.homes) (seen : ∀ place, s.seen place <+: next.seen place) (grows : ∀ shard, history shard <+: after shard)
    (notices : s.notices clientId <+: next.notices clientId) : Bound replicas next after clientId { p with departed := departed } := by
  obtain ⟨gsn, delivered, heard⟩ := bound.heard
  have steady := bound.steady
  constructor
  · exact ⟨steady.name, steady.waiting, steady.queues, steady.outbox, steady.taken, steady.heard, steady.inserts, steady.requested,
      steady.parting, steady.goodbye⟩
  · rw [homes]
    exact bound.home
  · exact Nat.le_trans bound.noticed notices.length_le
  · intro r member
    exact served_grow s next _ clientId _ _ (bound.served r member) (by rw [received]) (by rw [replies]) (by rw [servers]) (seen _)
  · rw [replies]
    exact bound.outside
  · have whole := matches_grow _ _ clientId p gsn delivered heard _ (slots_in_grow _ _ (grows p.loop.shardId))
    exact ⟨gsn, delivered, matches_congr _ _ clientId p gsn delivered whole _ rfl (fun _ _ => rfl) rfl rfl rfl rfl⟩
  · intro shard _
    exact some

end

theorem join_bound (replicas : Nat → List Nat) (s next : Cluster) (history : Nat → List StorageControl) (clientId shardId failures : Nat)
    (fresh : Fresh s history clientId) (home : next.homes clientId = none ∨ next.homes clientId = some shardId)
    (received : next.received = s.received) (replies : next.replies = s.replies) (servers : next.servers = s.servers) :
    Bound replicas next history clientId (Caller.init clientId shardId failures) := by
  refine ⟨init_steady _ clientId shardId failures, home, Nat.zero_le _, ?_, ?_, ⟨fun _ => 0, 0, init_matches _ _ clientId shardId failures _⟩, ?_⟩
  · intro r _
    have quiet : next.replies (shardId, r) clientId = [] := by
      rw [replies]
      exact fresh.replies _
    refine ⟨?_, ?_, ?_, ?_⟩
    · rw [received]
      exact fresh.received _
    · rw [servers]
      exact fresh.disconnected _
    · exact congrArg List.length quiet
    · intro index reply access
      change (next.replies (shardId, r) clientId)[index]? = some reply at access
      rw [quiet] at access
      cases access
  · intro r _
    rw [replies]
    exact fresh.replies _
  · intro shard member
    exact absurd member (fresh.final shard)

-- What never changes back.
structure Extends (s next : Service) : Prop where
  seen : ∀ place, s.cluster.seen place <+: next.cluster.seen place
  received : ∀ place client, s.cluster.received place client <+: next.cluster.received place client
  clients : ∀ client p, s.clients client = some p → ∃ q, next.clients client = some q ∧ q.loop.shardId = p.loop.shardId ∧
    p.sent <+: q.sent ∧ (p.loop.stopped = true → q.loop.stopped = true ∧ q.sent = p.sent)

theorem extends_refl (s : Service) : Extends s s :=
  ⟨fun _ => List.prefix_rfl, fun _ _ => List.prefix_rfl, fun _ p present => ⟨p, present, rfl, List.prefix_rfl, fun stopped => ⟨stopped, rfl⟩⟩⟩

theorem extends_trans (first second third : Service) (left : Extends first second) (right : Extends second third) :
    Extends first third := by
  refine ⟨fun place => (left.seen place).trans (right.seen place), fun place client => (left.received place client).trans
    (right.received place client), ?_⟩
  intro client p present
  obtain ⟨q, there, shard, sent, kept⟩ := left.clients client p present
  obtain ⟨r, last, shard', sent', kept'⟩ := right.clients client q there
  refine ⟨r, last, shard'.trans shard, sent.trans sent', ?_⟩
  intro stopped
  obtain ⟨stays, same⟩ := kept stopped
  obtain ⟨still, same'⟩ := kept' stays
  exact ⟨still, same'.trans same⟩

-- The cluster moves on and at most one client with it.
theorem extends_client (s : Service) (next : Cluster) (clientId : Nat) (q : Caller)
    (seen : ∀ place, s.cluster.seen place <+: next.seen place)
    (received : ∀ place client, s.cluster.received place client <+: next.received place client)
    (mine : ∀ p, s.clients clientId = some p → q.loop.shardId = p.loop.shardId ∧ p.sent <+: q.sent ∧
      (p.loop.stopped = true → q.loop.stopped = true ∧ q.sent = p.sent)) :
    Extends s ({ s with cluster := next }.setClient clientId q) := by
  refine ⟨seen, received, ?_⟩
  intro client p present
  by_cases same : client = clientId
  · subst same
    exact ⟨q, Function.update_self _ _ _, mine p present⟩
  · exact ⟨p, (Function.update_of_ne same _ _).trans present, rfl, List.prefix_rfl, fun stopped => ⟨stopped, rfl⟩⟩

theorem extends_cluster (s : Service) (next : Cluster) (progress : Progresses s.cluster next) :
    Extends s { s with cluster := next } :=
  ⟨progress.seen, progress.received, fun _ p present => ⟨p, present, rfl, List.prefix_rfl, fun stopped => ⟨stopped, rfl⟩⟩⟩

theorem caller_send_kept (p : Caller) (now : Nat) : (p.send now).loop.shardId = p.loop.shardId ∧ p.sent <+: (p.send now).sent ∧
    (p.loop.stopped = true → (p.send now).loop.stopped = true ∧ (p.send now).sent = p.sent) := by
  obtain nothing | ⟨message, response, loop, result, running, _, _, _, _, _, _, shard, _⟩ := caller_send_cases p now
  · rw [nothing]
    exact ⟨rfl, List.prefix_rfl, fun stopped => ⟨stopped, rfl⟩⟩
  · rw [result]
    refine ⟨shard, List.prefix_append _ _, ?_⟩
    intro stopped
    rw [stopped] at running
    cases running

theorem caller_stop_kept (p : Caller) : p.stop.loop.shardId = p.loop.shardId ∧ p.stop.sent = p.sent ∧
    (p.loop.stopped = true → p.stop.loop.stopped = true) := by
  unfold Caller.stop Client.Loop.checkStop
  cases already : p.loop.stopped with
  | true => exact ⟨rfl, rfl, fun _ => already⟩
  | false => exact ⟨rfl, rfl, fun _ => rfl⟩

theorem caller_notice_kept (p : Caller) (message : Order.ClientControl) : (p.notice message).loop.shardId = p.loop.shardId ∧
    (p.notice message).loop.stopped = p.loop.stopped := by
  cases message with
  | storageInfo replicas => exact ⟨rfl, rfl⟩
  | newEpoch beginning numSlots => exact ⟨rfl, rfl⟩
  | orderFinished => exact ⟨rfl, rfl⟩

theorem caller_reply_kept (p : Caller) (r : Nat) (message : StorageReply) : (p.reply r message).loop.shardId = p.loop.shardId ∧
    (p.reply r message).sent = p.sent ∧ (p.reply r message).loop.stopped = p.loop.stopped := by
  cases message with
  | insertAck ack =>
      obtain ⟨_, shard, _, stopped, _⟩ := insert_ack_same p.loop ack
      exact ⟨shard, rfl, stopped⟩
  | storageFinished shardId replicaId =>
      have same : (p.loop.storageFinished shardId replicaId).1.shardId = p.loop.shardId ∧
          (p.loop.storageFinished shardId replicaId).1.stopped = p.loop.stopped := by
        unfold Client.Loop.storageFinished
        split
        · exact ⟨rfl, rfl⟩
        · exact ⟨rfl, rfl⟩
      exact ⟨same.1, rfl, same.2⟩

theorem switch_epoch_kept (loop : Client.Loop) (now : Nat) : (loop.switchEpoch now).shardId = loop.shardId ∧
    (loop.switchEpoch now).stopped = loop.stopped := by
  unfold Client.Loop.switchEpoch
  split
  · exact ⟨rfl, rfl⟩
  · split
    · exact ⟨rfl, rfl⟩
    · exact ⟨rfl, rfl⟩

theorem turn_cases (s next : Service) (clientId : Nat) (act : Caller → Option Caller) (stepped : s.turn clientId act = some next) :
    ∃ p q, s.clients clientId = some p ∧ act p = some q ∧ next = s.setClient clientId q := by
  unfold Service.turn at stepped
  cases present : s.clients clientId with
  | none =>
      rw [present] at stepped
      cases stepped
  | some p =>
      rw [present] at stepped
      simp only at stepped
      split at stepped
      · cases stepped
      · obtain ⟨q, acted, result⟩ := Option.map_eq_some_iff.mp stepped
        exact ⟨p, q, rfl, acted, result.symm⟩

section

variable (replicas : Nat → List Nat) (nodup : ∀ shard, (replicas shard).Nodup) (failures : Nat) (s : Service)
  (history : Nat → List StorageControl) (inv : s.Inv replicas history)

include inv

-- A client takes a turn.
theorem turn_inv (clientId : Nat) (p q : Caller) (present : s.clients clientId = some p)
    (bound : Bound replicas s.cluster history clientId q) (shard : q.loop.shardId = p.loop.shardId) (sent : p.sent <+: q.sent)
    (kept : p.loop.stopped = true → q.loop.stopped = true ∧ q.sent = p.sent) :
    ∃ after, (s.setClient clientId q).Inv replicas after ∧ (∀ shard, history shard <+: after shard) ∧ Extends s (s.setClient clientId q) := by
  refine ⟨history, client_inv replicas s s.cluster history history clientId q inv inv.calm (fun client _ => spares_refl _ _ client) bound,
    fun _ => List.prefix_rfl, ?_⟩
  refine extends_client s s.cluster clientId q (fun _ => List.prefix_rfl) (fun _ _ => List.prefix_rfl) ?_
  intro p' present'
  rw [present] at present'
  cases present'
  exact ⟨shard, sent, kept⟩

-- The cluster takes a step together with a client.
theorem joint_inv (event : Event) (cluster : Cluster) (after : Nat → List StorageControl) (clientId : Nat) (q : Caller)
    (moved : s.cluster.step event = some cluster) (calm : Calm replicas cluster after)
    (spares : ∀ client, client ≠ clientId → Spares client s.cluster cluster history after)
    (bound : Bound replicas cluster after clientId q) (grows : ∀ shard, history shard <+: after shard)
    (mine : ∀ p, s.clients clientId = some p → q.loop.shardId = p.loop.shardId ∧ p.sent <+: q.sent ∧
      (p.loop.stopped = true → q.loop.stopped = true ∧ q.sent = p.sent)) :
    ∃ after, ({ s with cluster := cluster }.setClient clientId q).Inv replicas after ∧ (∀ shard, history shard <+: after shard) ∧
      Extends s ({ s with cluster := cluster }.setClient clientId q) := by
  have progress := step_progresses s.cluster cluster event inv.calm.halting moved
  exact ⟨after, client_inv replicas s cluster history after clientId q inv calm spares bound, grows,
    extends_client s cluster clientId q progress.seen progress.received mine⟩

-- The cluster takes a step on its own.
theorem move_inv (event : Event) (next : Service) (stepped : (s.cluster.step event).map (fun cluster => { s with cluster := cluster }) = some next)
    (calm : ∀ cluster, s.cluster.step event = some cluster → ∃ after, Calm replicas cluster after ∧
      ∀ client, Spares client s.cluster cluster history after) :
    ∃ after, next.Inv replicas after ∧ (∀ shard, history shard <+: after shard) ∧ Extends s next := by
  obtain ⟨cluster, moved, result⟩ := Option.map_eq_some_iff.mp stepped
  subst result
  obtain ⟨after, calm, spares⟩ := calm cluster moved
  exact ⟨after, cluster_inv replicas s cluster history after inv calm spares, (spares 0).grows,
    extends_cluster s cluster (step_progresses s.cluster cluster event inv.calm.halting moved)⟩

include nodup

theorem service_step (next : Service) (move : Move) (stepped : s.step failures move = some next) :
    ∃ after, next.Inv replicas after ∧ (∀ shard, history shard <+: after shard) ∧ Extends s next := by
  cases move with
  | join clientId shardId numSlots =>
      simp only [Service.step] at stepped
      split at stepped
      · cases stepped
      · rename_i unused
        have absent : s.clients clientId = none := by simpa using unused
        obtain ⟨cluster, moved, result⟩ := Option.map_eq_some_iff.mp stepped
        subst result
        obtain ⟨calm, home, _, received, replies, servers, spares⟩ :=
          calm_join replicas nodup s.cluster history inv.calm clientId shardId numSlots cluster moved
        have bound := join_bound replicas s.cluster cluster history clientId shardId failures (inv.fresh clientId absent) home received
          replies servers
        refine joint_inv replicas s history inv _ cluster history clientId _ moved calm spares bound (fun _ => List.prefix_rfl) ?_
        intro p present
        rw [absent] at present
        cases present
  | clientRate clientId numSlots =>
      exact move_inv replicas s history inv (.clientRate clientId numSlots) next stepped (calm_rate replicas nodup s.cluster history inv.calm clientId numSlots)
  | epoch now => exact move_inv replicas s history inv (.epoch now) next stepped (calm_epoch replicas nodup s.cluster history inv.calm now)
  | connect place clientId =>
      exact move_inv replicas s history inv (.connect place clientId) next stepped (fun cluster moved =>
        ⟨history, calm_connect replicas s.cluster history inv.calm place clientId cluster moved⟩)
  | control place =>
      exact move_inv replicas s history inv (.control place []) next stepped (fun cluster moved =>
        ⟨history, calm_control replicas s.cluster history inv.calm place [] cluster moved⟩)
  | enqueue clientId data response =>
      simp only [Service.step] at stepped
      split at stepped
      · obtain ⟨p, present, result⟩ := Option.map_eq_some_iff.mp stepped
        subst result
        exact turn_inv replicas s history inv clientId p _ present
          (enqueue_bound replicas s.cluster history clientId p (inv.bound clientId p present) data response) rfl List.prefix_rfl
          (fun stopped => ⟨stopped, rfl⟩)
      · cases stepped
  | notice clientId =>
      obtain ⟨p, q, present, acted, result⟩ := turn_cases s next clientId _ stepped
      subst result
      obtain ⟨message, access, told⟩ := Option.map_eq_some_iff.mp acted
      subst told
      obtain ⟨shard, stays⟩ := caller_notice_kept p message
      exact turn_inv replicas s history inv clientId p _ present
        (notice_bound replicas s.cluster history clientId p (inv.bound clientId p present) message inv.calm access) shard List.prefix_rfl
        (fun stopped => ⟨stays.trans stopped, rfl⟩)
  | switchEpoch clientId now =>
      obtain ⟨p, q, present, acted, result⟩ := turn_cases s next clientId _ stepped
      cases acted
      subst result
      obtain ⟨shard, stays⟩ := switch_epoch_kept p.loop now
      exact turn_inv replicas s history inv clientId p _ present
        (switch_epoch_bound replicas s.cluster history clientId p (inv.bound clientId p present) now) shard List.prefix_rfl
        (fun stopped => ⟨stays.trans stopped, rfl⟩)
  | send clientId now =>
      obtain ⟨p, q, present, acted, result⟩ := turn_cases s next clientId _ stepped
      cases acted
      subst result
      obtain ⟨shard, sent, kept⟩ := caller_send_kept p now
      exact turn_inv replicas s history inv clientId p _ present
        (send_bound replicas s.cluster history clientId p (inv.bound clientId p present) now) shard sent kept
  | stop clientId =>
      obtain ⟨p, q, present, acted, result⟩ := turn_cases s next clientId _ stepped
      cases acted
      subst result
      obtain ⟨shard, sent, stays⟩ := caller_stop_kept p
      exact turn_inv replicas s history inv clientId p _ present
        (stop_bound replicas s.cluster history clientId p (inv.bound clientId p present)) shard (sent ▸ List.prefix_rfl)
        (fun stopped => ⟨stays stopped, sent⟩)
  | reply clientId replica =>
      obtain ⟨p, q, present, acted, result⟩ := turn_cases s next clientId _ stepped
      subst result
      obtain ⟨message, access, told⟩ := Option.map_eq_some_iff.mp acted
      subst told
      obtain ⟨shard, sent, stays⟩ := caller_reply_kept p replica message
      exact turn_inv replicas s history inv clientId p _ present
        (reply_bound replicas s.cluster history clientId p (inv.bound clientId p present) nodup replica message inv.calm access) shard
        (sent ▸ List.prefix_rfl) (fun stopped => ⟨stays.trans stopped, sent⟩)
  | serve clientId replica beyond =>
      simp only [Service.step] at stepped
      split at stepped
      · cases stepped
      · rename_i p present
        split at stepped
        · cases stepped
        · rename_i request access
          obtain ⟨cluster, moved, result⟩ := Option.map_eq_some_iff.mp stepped
          subst result
          obtain ⟨calm, spares, bound⟩ := serve_bound replicas s.cluster history clientId p (inv.bound clientId p present) inv.calm
            replica beyond request cluster access moved
          refine joint_inv replicas s history inv _ cluster history clientId _ moved calm spares bound (fun _ => List.prefix_rfl) ?_
          intro p' present'
          rw [present] at present'
          cases present'
          exact ⟨rfl, List.prefix_rfl, fun stopped => ⟨stopped, rfl⟩⟩
  | farewell clientId =>
      simp only [Service.step] at stepped
      split at stepped
      · cases stepped
      · rename_i p present
        split at stepped
        · rename_i pending
          obtain ⟨cluster, moved, result⟩ := Option.map_eq_some_iff.mp stepped
          subst result
          obtain ⟨after, calm, spares, received, replies, servers, homes, seen, grows, notices⟩ :=
            calm_finish replicas nodup s.cluster history inv.calm clientId cluster moved
          have bound := finish_bound replicas s.cluster history clientId p (inv.bound clientId p present) cluster after (p.departed + 1)
            (Nat.lt_of_le_of_lt (Nat.zero_le _) pending) received replies servers homes seen grows notices
          refine joint_inv replicas s history inv _ cluster after clientId _ moved calm spares bound grows ?_
          intro p' present'
          rw [present] at present'
          cases present'
          exact ⟨rfl, List.prefix_rfl, fun stopped => ⟨stopped, rfl⟩⟩
        · cases stepped

end

end ZipLog.System
