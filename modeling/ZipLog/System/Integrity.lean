import ZipLog.System.Genuine

set_option autoImplicit false

namespace ZipLog.System

open Storage Quorum

theorem increasing_owner (slots : List (Nat × Nat)) (gsn client client' : Nat) (increasing : Increasing slots)
    (left : (gsn, client) ∈ slots) (right : (gsn, client') ∈ slots) : client = client' := by
  obtain ⟨first, bound, here⟩ := List.mem_iff_getElem.mp left
  obtain ⟨second, bound', there⟩ := List.mem_iff_getElem.mp right
  have sorted := List.pairwise_iff_getElem.mp increasing
  rcases Nat.lt_trichotomy first second with less | same | more
  · have less_gsn := sorted first second bound bound' less
    rw [here, there] at less_gsn
    exact absurd less_gsn (Nat.lt_irrefl gsn)
  · subst same
    exact (Prod.mk.inj (here.symm.trans there)).2
  · have less_gsn := sorted second first bound' bound more
    rw [here, there] at less_gsn
    exact absurd less_gsn (Nat.lt_irrefl gsn)

-- A GSN is one slot of one client.
theorem slot_unique (replicas : Nat → List Nat) (s : Cluster) (history : Nat → List StorageControl) (ordered : s.Ordered replicas history)
    (shard other client client' rank rank' gsn : Nat) (left : (gsns (slotsIn (history shard)) client)[rank]? = some gsn)
    (right : (gsns (slotsIn (history other)) client')[rank']? = some gsn) : shard = other ∧ client = client' ∧ rank = rank' := by
  have slot : ∀ shard client (rank : Nat), (gsns (slotsIn (history shard)) client)[rank]? = some gsn → (gsn, client) ∈ slotsIn (history shard) := by
    intro shard client rank access
    obtain ⟨⟨at_gsn, owner⟩, member, same⟩ := List.mem_map.mp (List.mem_of_getElem? access)
    obtain ⟨inside, mine⟩ := List.mem_filter.mp member
    simp only at same
    have equal : owner = client := by simpa using mine
    rw [← same, ← equal]
    exact inside
  obtain rfl := ordered.alone shard other gsn client client' (slot shard client rank left) (slot other client' rank' right)
  obtain rfl := increasing_owner _ gsn client client' (ordered.increasing shard) (slot shard client rank left)
    (slot shard client' rank' right)
  refine ⟨rfl, rfl, ?_⟩
  obtain ⟨bound, value⟩ := List.getElem?_eq_some_iff.mp left
  obtain ⟨bound', value'⟩ := List.getElem?_eq_some_iff.mp right
  have sorted := List.pairwise_iff_getElem.mp (gsns_increasing _ client (ordered.increasing shard))
  rcases Nat.lt_trichotomy rank rank' with less | same | more
  · have := sorted rank rank' bound bound' less
    omega
  · exact same
  · have := sorted rank' rank bound' bound more
    omega

theorem carried_append (sent more : List (StorageInsert × Option Nat)) : carried (sent ++ more) = carried sent ++ carried more := by
  rw [carried, carried, carried, List.filterMap_append]

theorem carried_take_mono (sent : List (StorageInsert × Option Nat)) (first second : Nat) (least : first ≤ second) :
    (carried (sent.take first)).length ≤ (carried (sent.take second)).length := by
  obtain ⟨more, same⟩ := List.take_prefix_take_left (l := sent) least
  rw [← same, carried_append, List.length_append]
  exact Nat.le_add_right _ _

theorem carried_take_succ (sent : List (StorageInsert × Option Nat)) (turn : Nat) (item : StorageInsert × Option Nat) (response : Nat)
    (access : sent[turn]? = some item) (answer : item.2 = some response) :
    carried (sent.take (turn + 1)) = carried (sent.take turn) ++ [(item.1.data, response)] := by
  rw [List.take_add_one, access, Option.toList_some, carried, List.filterMap_append]
  simp [carried, answer]

theorem carried_access (sent : List (StorageInsert × Option Nat)) (turn : Nat) (item : StorageInsert × Option Nat) (response : Nat)
    (access : sent[turn]? = some item) (answer : item.2 = some response) :
    (carried sent)[(carried (sent.take turn)).length]? = some (item.1.data, response) := by
  have whole : carried (sent.take (turn + 1)) <+: carried sent :=
    ⟨carried (sent.drop (turn + 1)), by rw [← carried_append, List.take_append_drop]⟩
  apply prefix_access _ _ whole
  rw [carried_take_succ sent turn item response access answer, List.getElem?_append_right (Nat.le_refl _), Nat.sub_self]
  rfl

-- The requests of a client are counted in the order in which they were sent.
theorem carried_turns (sent : List (StorageInsert × Option Nat)) (first second : Nat) (item : StorageInsert × Option Nat) (response : Nat)
    (access : sent[first]? = some item) (answer : item.2 = some response)
    (least : (carried (sent.take second)).length ≤ (carried (sent.take first)).length) : second ≤ first := by
  by_contra more
  have step := congrArg List.length (carried_take_succ sent first item response access answer)
  have grown := carried_take_mono sent (first + 1) second (by omega)
  rw [List.length_append, List.length_singleton] at step
  omega

-- The responses that have been set are those of the first requests.
theorem stored_turn (sent : List (StorageInsert × Option Nat)) (gsn : Nat → Nat) (delivered : Nat) (reach : delivered ≤ sent.length)
    (index response value : Nat)
    (access : ((List.range delivered).filterMap (fun k => (sent.map Prod.snd)[k]?.join.map (fun r => (r, gsn k))))[index]? =
      some (response, value)) :
    ∃ turn item, turn < delivered ∧ sent[turn]? = some item ∧ item.2 = some response ∧ value = gsn turn ∧
      (carried (sent.take turn)).length = index := by
  have counted : ∀ n, n ≤ sent.length →
      ((List.range n).filterMap (fun k => (sent.map Prod.snd)[k]?.join.map (fun r => (r, gsn k)))).length = (carried (sent.take n)).length := by
    intro n
    induction n with
    | zero =>
        intro _
        rfl
    | succ n ih =>
        intro bound
        have here : sent[n]? = some sent[n] := List.getElem?_eq_getElem bound
        rw [List.range_succ, List.filterMap_append, List.length_append, ih (by omega), List.take_add_one, here, Option.toList_some, carried,
          carried, List.filterMap_append, List.length_append]
        cases answer : sent[n].2 with
        | none => simp [here, answer]
        | some response => simp [here, answer]
  induction delivered with
  | zero => cases access
  | succ n ih =>
      have here : sent[n]? = some sent[n] := List.getElem?_eq_getElem reach
      have length := counted n (by omega)
      rw [List.range_succ, List.filterMap_append] at access
      rcases Nat.lt_or_ge index (carried (sent.take n)).length with old | new
      · rw [List.getElem?_append_left (by rw [length]; exact old)] at access
        obtain ⟨turn, item, less, rest⟩ := ih (by omega) access
        exact ⟨turn, item, Nat.lt_succ_of_lt less, rest⟩
      · rw [List.getElem?_append_right (by rw [length]; exact new), length] at access
        cases answer : sent[n].2 with
        | none =>
            simp [here, answer] at access
        | some found =>
            simp only [List.filterMap_cons, List.filterMap_nil, List.getElem?_map, here, Option.map_some, answer, Option.join_some] at access
            have first : index - (carried (sent.take n)).length = 0 := by
              have bound := (List.getElem?_eq_some_iff.mp access).1
              rw [List.length_singleton] at bound
              omega
            rw [first, List.getElem?_cons_zero] at access
            cases access
            exact ⟨n, sent[n], Nat.lt_succ_self n, here, answer, rfl, by omega⟩

-- Some replica has answered the insert that carried the request with the given
-- number of client::insert with this GSN. A server answers every message of a
-- client, so its replies are numbered like the inserts.
def Service.Assigned (s : Service) (clientId index gsn : Nat) : Prop :=
  ∃ caller, s.clients clientId = some caller ∧ ∃ (turn : Nat) (item : StorageInsert × Option Nat) (response replica : Nat),
    caller.sent[turn]? = some item ∧ item.2 = some response ∧ (carried (caller.sent.take turn)).length = index ∧
    (s.cluster.replies (caller.loop.shardId, replica) clientId)[turn]? = some (.insertAck ⟨replica, gsn⟩)

section

variable (replicas : Nat → List Nat) (s : Service) (history : Nat → List StorageControl) (inv : s.Inv replicas history)

include inv

theorem assigned_slot (clientId index gsn : Nat) (caller : Caller) (present : s.clients clientId = some caller)
    (assigned : s.Assigned clientId index gsn) : ∃ (turn : Nat) (item : StorageInsert × Option Nat) (response : Nat),
      caller.sent[turn]? = some item ∧ item.2 = some response ∧ (carried (caller.sent.take turn)).length = index ∧
      (gsns (slotsIn (history caller.loop.shardId)) clientId)[rankOf (caller.sent.map Prod.fst) turn]? = some gsn := by
  obtain ⟨other, there, turn, item, response, replica, access, answer, number, reply⟩ := assigned
  rw [present] at there
  cases there
  have bound := inv.bound clientId caller present
  have member : replica ∈ replicas caller.loop.shardId := by
    by_contra absent
    rw [bound.outside replica absent] at reply
    cases reply
  refine ⟨turn, item, response, access, answer, number, ?_⟩
  cases (bound.served replica member).replies turn _ reply with
  | inl insert =>
      obtain ⟨_, value, same, slot⟩ := insert
      cases same
      exact prefix_access _ _ (gsns_grow _ _ clientId (slots_in_grow _ _
        (seen_history replicas _ history _ replica inv.calm.ordered member))) _ _ slot
  | inr last => cases last.2

-- A request gets one GSN, and a later one a larger GSN.
theorem assigned_order (clientId first second left right : Nat) (least : first ≤ second) (early : s.Assigned clientId first left)
    (late : s.Assigned clientId second right) : left ≤ right ∧ (first < second → left < right) := by
  obtain ⟨caller, present, _⟩ := id early
  have bound := inv.bound clientId caller present
  obtain ⟨turn, item, response, access, answer, number, slot⟩ := assigned_slot replicas s history inv clientId first left caller present early
  obtain ⟨turn', item', response', access', answer', number', slot'⟩ :=
    assigned_slot replicas s history inv clientId second right caller present late
  have order := carried_turns caller.sent turn' turn item' response' access' answer' (by omega)
  have sorted := List.pairwise_iff_getElem.mp (gsns_increasing _ clientId (inv.calm.ordered.increasing caller.loop.shardId))
  obtain ⟨inside, value⟩ := List.getElem?_eq_some_iff.mp slot
  obtain ⟨inside', value'⟩ := List.getElem?_eq_some_iff.mp slot'
  have reach : turn' < (caller.sent.map Prod.fst).length := by
    rw [List.length_map]
    exact (List.getElem?_eq_some_iff.mp access').1
  rcases Nat.lt_or_eq_of_le order with before | same
  · have less := sorted _ _ inside inside' (rank_of_increasing _ turn turn' before reach)
    rw [value, value'] at less
    exact ⟨Nat.le_of_lt less, fun _ => less⟩
  · subst same
    rw [slot] at slot'
    cases slot'
    exact ⟨Nat.le_refl _, fun less => absurd (number.symm.trans number') (Nat.ne_of_lt less)⟩

theorem assigned_client (clientId other index index' gsn : Nat) (left : s.Assigned clientId index gsn)
    (right : s.Assigned other index' gsn) : clientId = other ∧ index = index' := by
  obtain ⟨caller, present, _⟩ := id left
  obtain ⟨caller', present', _⟩ := id right
  obtain ⟨turn, item, response, access, answer, number, slot⟩ := assigned_slot replicas s history inv clientId index gsn caller present left
  obtain ⟨turn', item', response', access', answer', number', slot'⟩ :=
    assigned_slot replicas s history inv other index' gsn caller' present' right
  obtain ⟨_, same, rank⟩ := slot_unique replicas s.cluster history inv.calm.ordered _ _ clientId other _ _ gsn slot slot'
  subst same
  rw [present] at present'
  cases present'
  refine ⟨rfl, ?_⟩
  have reach : ∀ (k : Nat) (found : StorageInsert × Option Nat), caller.sent[k]? = some found → k < (caller.sent.map Prod.fst).length := by
    intro k found here
    rw [List.length_map]
    exact (List.getElem?_eq_some_iff.mp here).1
  have turns : turn = turn' := by
    rcases Nat.lt_trichotomy turn turn' with less | equal | more
    · have := rank_of_increasing _ turn turn' less (reach turn' item' access')
      omega
    · exact equal
    · have := rank_of_increasing _ turn' turn more (reach turn item access)
      omega
  rw [← number, ← number', turns]

-- The entry that a subscriber gets under the GSN of an insert.
theorem genuine_insert (clientId gsn turn : Nat) (caller : Caller) (item : StorageInsert × Option Nat) (entry : SubscriberLogEntry)
    (present : s.clients clientId = some caller) (access : caller.sent[turn]? = some item)
    (slot : (gsns (slotsIn (history caller.loop.shardId)) clientId)[rankOf (caller.sent.map Prod.fst) turn]? = some gsn)
    (genuine : Genuine replicas s entry) (same : entry.gsn = gsn) : entry.clientId = clientId ∧ entry.data = item.1.data := by
  obtain ⟨r, member, rank, found, fill⟩ := genuine
  have whole := genuine_history replicas s history inv entry r rank member found
  rw [same] at whole
  obtain ⟨shard, owner, ranks⟩ := slot_unique replicas s.cluster history inv.calm.ordered _ _ entry.clientId clientId _ _ gsn whole slot
  have bound := inv.bound clientId caller present
  have inside : (caller.sent.map Prod.fst)[turn]? = some item.1 := by rw [List.getElem?_map, access, Option.map_some]
  have put := (rank_of_access _ turn item.1 inside).2.2
  refine ⟨owner, ?_⟩
  cases fill with
  | inl data =>
      rw [owner, shard, (bound.served r (shard ▸ member)).received] at data
      have all := prefix_access _ _ (filled_by_grows _ _ (List.take_prefix _ _)) _ _ data
      rw [ranks, put] at all
      exact (Option.some.inj all).symm
  | inr closed =>
      obtain ⟨_, p, there, _, beyond⟩ := closed
      rw [owner, present] at there
      cases there
      have limit := (List.getElem?_eq_some_iff.mp put).1
      omega

-- Where the data of an entry comes from.
theorem genuine_request (entry : SubscriberLogEntry) (genuine : Genuine replicas s entry) (nonempty : entry.data ≠ []) :
    ∃ caller index response, s.clients entry.clientId = some caller ∧ caller.requested[index]? = some (entry.data, response) ∧
      s.Assigned entry.clientId index entry.gsn := by
  obtain ⟨r, member, rank, found, fill⟩ := genuine
  have data : (filledBy (s.cluster.received (entry.shardId, r) entry.clientId))[rank]? = some entry.data := by
    cases fill with
    | inl data => exact data
    | inr closed => exact absurd closed.1 nonempty
  have whole := genuine_history replicas s history inv entry r rank member found
  cases present : s.clients entry.clientId with
  | none =>
      rw [(inv.fresh _ present).received] at data
      cases data
  | some caller =>
      have bound := inv.bound _ caller present
      have home : caller.loop.shardId = entry.shardId := by
        obtain ⟨⟨at_gsn, owner⟩, inside, _⟩ := List.mem_map.mp (List.mem_of_getElem? whole)
        obtain ⟨slot, mine⟩ := List.mem_filter.mp inside
        have owned := inv.calm.ordered.owned _ _ slot
        rw [show owner = entry.clientId by simpa using mine] at owned
        cases bound.home with
        | inl none =>
            rw [owned] at none
            cases none
        | inr same => exact (Option.some.inj (owned.symm.trans same)).symm
      have served := bound.served r (home ▸ member)
      rw [← home, served.received] at data
      obtain ⟨turn, req, access, place, same⟩ := fill_source _ rank entry.data data nonempty
      have taken : turn < caller.taken r := by
        have inside := (List.getElem?_eq_some_iff.mp access).1
        rw [List.length_take] at inside
        omega
      rw [List.getElem?_take, if_pos taken, List.getElem?_map] at access
      obtain ⟨item, sent, first⟩ := Option.map_eq_some_iff.mp access
      have rank_eq : rank = rankOf (caller.sent.map Prod.fst) turn := by
        rw [place, rankOf, rankOf, List.take_take, Nat.min_eq_left taken]
      cases answer : item.2 with
      | none =>
          have noOp := (bound.steady.inserts item (List.mem_of_getElem? sent)).2.2 answer
          rw [first, same] at noOp
          exact absurd noOp nonempty
      | some response =>
          have reached : turn < (s.cluster.replies (caller.loop.shardId, r) entry.clientId).length := by
            rw [served.count]
            exact taken
          have reply := List.getElem?_eq_getElem reached
          refine ⟨caller, (carried (caller.sent.take turn)).length, response, rfl, ?_, caller, present, turn, item, response, r, sent, answer,
            rfl, ?_⟩
          · rw [bound.steady.requested]
            apply prefix_access _ _ (List.prefix_append _ _)
            rw [carried_access caller.sent turn item response sent answer, first, same]
          · rw [reply]
            cases served.replies turn _ reply with
            | inl insert =>
                obtain ⟨_, value, equal, slot⟩ := insert
                rw [equal]
                rw [← rank_eq, home, found] at slot
                rw [Option.some.inj slot]
            | inr last =>
                have inside := (List.getElem?_eq_some_iff.mp sent).1
                rw [List.length_map] at last
                exact absurd last.1 (Nat.ne_of_lt inside)

-- What the client is told.
theorem response_request (clientId index response gsn : Nat) (caller : Caller) (present : s.clients clientId = some caller)
    (stored : caller.loop.stored[index]? = some (response, gsn)) : ∃ data, caller.requested[index]? = some (data, response) ∧
      s.Assigned clientId index gsn ∧ ∀ entry, Genuine replicas s entry → entry.gsn = gsn → entry.clientId = clientId ∧ entry.data = data := by
  have bound := inv.bound clientId caller present
  obtain ⟨value, delivered, heard⟩ := bound.heard
  rw [heard.matched.stored] at stored
  have reach := Client.matched_reach _ _ _ _ _ _ heard.matched
  rw [List.length_map] at reach
  obtain ⟨turn, item, less, access, answer, same, number⟩ := stored_turn caller.sent value delivered reach index response gsn stored
  have enough := (heard.matched.quorum turn).mp less
  have some_ack : 0 < count (replicas caller.loop.shardId) caller.acked turn := by omega
  have slot := heard.known turn some_ack
  rw [← same] at slot
  obtain ⟨r, member, acked⟩ := count_member _ _ _ some_ack
  refine ⟨item.1.data, ?_, ⟨caller, present, turn, item, response, r, access, answer, number, ?_⟩, ?_⟩
  · rw [bound.steady.requested, ← number]
    exact prefix_access _ _ (List.prefix_append _ _) _ _ (carried_access caller.sent turn item response access answer)
  · have served := bound.served r member
    have reached : turn < (s.cluster.replies (caller.loop.shardId, r) clientId).length := by
      rw [served.count]
      exact Nat.lt_of_lt_of_le (Nat.lt_of_lt_of_le acked (Nat.min_le_left _ _)) (bound.steady.heard r member)
    have reply := List.getElem?_eq_getElem reached
    rw [reply]
    cases served.replies turn _ reply with
    | inl insert =>
        obtain ⟨_, given, equal, found⟩ := insert
        have whole := prefix_access _ _ (gsns_grow _ _ clientId (slots_in_grow _ _
          (seen_history replicas _ history _ r inv.calm.ordered member))) _ _ found
        rw [slot] at whole
        rw [equal, Option.some.inj whole]
    | inr last =>
        have inside := (List.getElem?_eq_some_iff.mp access).1
        rw [List.length_map] at last
        exact absurd last.1 (Nat.ne_of_lt inside)
  · intro entry genuine equal
    exact genuine_insert replicas s history inv clientId gsn turn caller item entry present access slot genuine equal

end

-- Integrity from the clients to the subscribers. passed lists what a subscriber
-- hands to its log.
structure Deployment.Integrity (s : Deployment) : Prop where
  responses : ∀ clientId caller (index response gsn : Nat), s.service.clients clientId = some caller →
    caller.loop.stored[index]? = some (response, gsn) → ∃ data, caller.requested[index]? = some (data, response) ∧
      s.service.Assigned clientId index gsn ∧ ∀ subscriberId reader, s.readers subscriberId = some reader → ∀ entry ∈ reader.passed,
        entry.gsn = gsn → entry.clientId = clientId ∧ entry.data.length = data.length ∧ entry.data = data
  entries : ∀ subscriberId reader, s.readers subscriberId = some reader → ∀ entry ∈ reader.passed, 0 < entry.data.length →
    ∃ caller index response, s.service.clients entry.clientId = some caller ∧ caller.requested[index]? = some (entry.data, response) ∧
      s.service.Assigned entry.clientId index entry.gsn ∧
      ∀ clientId other, s.service.Assigned clientId other entry.gsn → clientId = entry.clientId ∧ other = index
  once : ∀ clientId index gsn gsn', s.service.Assigned clientId index gsn → s.service.Assigned clientId index gsn' → gsn = gsn'
  order : ∀ clientId first second gsn gsn', first < second → s.service.Assigned clientId first gsn →
    s.service.Assigned clientId second gsn' → gsn < gsn'

theorem end_to_end_integrity (config : Config) (nodup : ∀ shard, (config.replicas shard).Nodup) (actions : List Action) (s : Deployment)
    (ran : Machine.run (Deployment.step config) (Deployment.init config) actions = some s) : s.Integrity := by
  obtain ⟨history, inv⟩ := deployment_run config nodup actions s ran
  constructor
  · intro clientId caller index response gsn present stored
    obtain ⟨data, requested, assigned, all⟩ :=
      response_request config.replicas s.service history inv.service clientId index response gsn caller present stored
    refine ⟨data, requested, assigned, ?_⟩
    intro subscriberId reader there entry passed same
    obtain ⟨owner, bytes⟩ := all entry ((inv.readers subscriberId reader there).passed entry passed) same
    exact ⟨owner, congrArg List.length bytes, bytes⟩
  · intro subscriberId reader there entry passed nonempty
    obtain ⟨caller, index, response, present, requested, assigned⟩ := genuine_request config.replicas s.service history inv.service entry
      ((inv.readers subscriberId reader there).passed entry passed) (List.length_pos_iff.mp nonempty)
    refine ⟨caller, index, response, present, requested, assigned, ?_⟩
    intro clientId other also
    exact assigned_client config.replicas s.service history inv.service clientId entry.clientId other index entry.gsn also assigned
  · intro clientId index gsn gsn' left right
    have least := (assigned_order config.replicas s.service history inv.service clientId index index gsn gsn' (Nat.le_refl _) left right).1
    have most := (assigned_order config.replicas s.service history inv.service clientId index index gsn' gsn (Nat.le_refl _) right left).1
    exact Nat.le_antisymm least most
  · intro clientId first second gsn gsn' less early late
    exact (assigned_order config.replicas s.service history inv.service clientId first second gsn gsn' (Nat.le_of_lt less) early late).2 less

def twoReplicas : Config := ⟨1, fun _ => [0, 1], 1, fun _ => 1⟩

-- One request of three bytes goes through both replicas to the subscriber.
def oneRequest : List Action :=
  [.service (.join 7 0 3), .service (.connect (0, 0) 7), .service (.connect (0, 1) 7), .service (.epoch 0), .service (.control (0, 0)),
    .service (.control (0, 1)), .service (.enqueue 7 [1, 2, 3] 40), .service (.notice 7), .service (.notice 7),
    .service (.switchEpoch 7 5000000), .service (.send 7 6700000), .service (.serve 7 0 []), .service (.serve 7 1 [9]),
    .service (.reply 7 1), .service (.reply 7 0), .launch 5 1 1 true (fun _ => 0), .addSubscriber (0, 0) 5, .addSubscriber (0, 1) 5,
    .change (0, 0) 0, .change (0, 1) 0, .feed (0, 1) 0, .feed (0, 0) 0, .poll ⟨(0, 1), 0, 5, 1⟩, .poll ⟨(0, 0), 0, 5, 1⟩, .store 5 1,
    .process 5 0]

theorem end_to_end_integrity_one_request : ∃ s,
    Machine.run (Deployment.step twoReplicas) (Deployment.init twoReplicas) oneRequest = some s ∧
    (s.service.clients 7).map (fun p => p.loop.stored) = some [(40, 0)] ∧
    (s.readers 5).map Reader.passed = some [⟨2, 0, 0, 7, 0, [1, 2, 3]⟩] ∧ s.Integrity := by
  have enabled : (Machine.run (Deployment.step twoReplicas) (Deployment.init twoReplicas) oneRequest).map (fun s =>
      ((s.service.clients 7).map (fun p => p.loop.stored), (s.readers 5).map Reader.passed)) =
      some (some [(40, 0)], some [⟨2, 0, 0, 7, 0, [1, 2, 3]⟩]) := by decide +kernel
  obtain ⟨s, ran, seen⟩ := Option.map_eq_some_iff.mp enabled
  obtain ⟨stored, passed⟩ := Prod.mk.inj seen
  exact ⟨s, ran, stored, passed, end_to_end_integrity twoReplicas (fun _ => by simp [twoReplicas]) oneRequest s ran⟩

end ZipLog.System
