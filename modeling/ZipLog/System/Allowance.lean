import ZipLog.System.Provision

set_option autoImplicit false

namespace ZipLog.System

open ZipLog.Order Storage

theorem answered_nothing (s : Cluster) (here : Place) (clientId : Nat) : s.answered here clientId (s.servers here) [] [] = s := by
  simp only [Cluster.answered, Cluster.setServer, List.append_nil, Function.update_eq_self]

theorem answered_gone (s : Cluster) (here : Place) (clientId : Nat) (server : Server) (inserts : List StorageInsert)
    (replies : List StorageReply) (place : Place) (client : Nat) : (s.answered here clientId server inserts replies).gone place client =
      if place = here then (server.clientState client).disconnected else s.gone place client := by
  by_cases same : place = here
  · rw [if_pos same, same, Cluster.gone, (answered_here s here clientId server inserts replies).1]
  · rw [if_neg same, Cluster.gone, (answered_other s here place clientId server inserts replies same).1]
    rfl

section

variable (replicas : Nat → List Nat) (s : Cluster) (here : Place) (clientId : Nat) (server : Server) (inserts : List StorageInsert)
  (replies : List StorageReply)
  (others : ∀ client, client ≠ clientId → (server.clientState client).disconnected = s.gone here client)
  (stays : s.gone here clientId = true → (server.clientState clientId).disconnected = true)

theorem answered_later (others : ∀ client, client ≠ clientId → (server.clientState client).disconnected = s.gone here client)
    (stays : s.gone here clientId = true → (server.clientState clientId).disconnected = true) (place : Place) (client : Nat)
    (before : s.gone place client = true) : (s.answered here clientId server inserts replies).gone place client = true := by
  rw [answered_gone]
  split
  · rename_i same
    subst same
    by_cases mine : client = clientId
    · subst mine
      exact stays before
    · rw [others client mine]
      exact before
  · exact before

include others in
theorem answered_feeds (client : Nat) (different : client ≠ clientId) :
    Feeds replicas client s (s.answered here clientId server inserts replies) := by
  refine feeds_same replicas client _ _ ?_ ?_ ?_ rfl (fun _ _ => rfl)
  · intro place
    rw [answered_received, if_neg (fun both => different both.2), List.append_nil]
  · intro place
    rw [answered_replies, if_neg (fun both => different both.2), List.append_nil]
  · intro place
    rw [answered_gone]
    split
    · rename_i same
      rw [same]
      exact others client different
    · rfl

include others stays in
theorem answered_host (place : Place) (host : Host s place)
    (identity : server.shardId = (s.servers here).shardId ∧ server.replicaId = (s.servers here).replicaId)
    (supplied : server.Supplied (s.seen here) (Function.update (s.received here) clientId (s.received here clientId ++ inserts))) :
    Host (s.answered here clientId server inserts replies) place := by
  by_cases same : place = here
  · subst same
    obtain ⟨servers, received, _⟩ := answered_here s place clientId server inserts replies
    refine host_server s _ place host ?_ ?_ ?_ (answered_later s place clientId server inserts replies others stays place) rfl rfl
    · rw [servers]
      exact identity.1
    · rw [servers]
      exact identity.2
    · rw [servers, received]
      exact supplied
  · obtain ⟨servers, received, _⟩ := answered_other s here place clientId server inserts replies same
    exact host_congr s _ place host servers rfl received rfl

-- What a client has with the other replicas is as before.
theorem answered_linked (place : Place) (different : place ≠ here) (sent : List StorageInsert) (taken : Nat) (granted : List Nat)
    (link : Linked s place clientId sent taken granted) :
    Linked (s.answered here clientId server inserts replies) place clientId sent taken granted := by
  obtain ⟨_, received, replied⟩ := answered_other s here place clientId server inserts replies different
  refine ⟨by rw [received]; exact link.received, ?_, by rw [replied]; exact link.count, by rw [replied]; exact link.replies, link.granted⟩
  rw [answered_gone, if_neg different]
  exact link.gone

theorem answered_quiet (place : Place) (different : place ≠ here) (quiet : Quiet s place clientId) :
    Quiet (s.answered here clientId server inserts replies) place clientId := by
  obtain ⟨_, received, _⟩ := answered_other s here place clientId server inserts replies different
  refine ⟨by rw [received]; exact quiet.received, ?_, quiet.granted⟩
  rw [answered_gone, if_neg different]
  exact quiet.gone

end

section

variable (replicas : Nat → List Nat) (s : Supply) (inv : s.Inv replicas) (clientId : Nat) (p : Caller)
  (present : s.service.clients clientId = some p) (r : Nat) (member : r ∈ replicas p.loop.shardId)
  (room : p.taken r < (p.outbox r).length)

include inv present member room

-- A replica takes the next message of a client.
theorem answered_supply (server : Server) (inserts : List StorageInsert) (replies : List StorageReply)
    (identity : server.shardId = (s.service.cluster.servers (p.loop.shardId, r)).shardId ∧
      server.replicaId = (s.service.cluster.servers (p.loop.shardId, r)).replicaId)
    (supplied : server.Supplied (s.service.cluster.seen (p.loop.shardId, r)) (Function.update (s.service.cluster.received (p.loop.shardId, r))
      clientId (s.service.cluster.received (p.loop.shardId, r) clientId ++ inserts)))
    (others : ∀ client, client ≠ clientId →
      (server.clientState client).disconnected = s.service.cluster.gone (p.loop.shardId, r) client)
    (stays : s.service.cluster.gone (p.loop.shardId, r) clientId = true → (server.clientState clientId).disconnected = true)
    (links : (∀ r' ∈ replicas p.loop.shardId, Shut s.service.cluster (p.loop.shardId, r') clientId) ∧ replies = [] ∨
      (∀ r' ∈ replicas p.loop.shardId, Linked s.service.cluster (p.loop.shardId, r') clientId (p.sent.map Prod.fst) (p.taken r')
        (grants (s.service.cluster.notices clientId))) ∧
      Linked (s.service.cluster.answered (p.loop.shardId, r) clientId server inserts replies) (p.loop.shardId, r) clientId
        (p.sent.map Prod.fst) (p.taken r + 1) (grants (s.service.cluster.notices clientId))) :
    (s.moved ({ s.service with cluster := s.service.cluster.answered (p.loop.shardId, r) clientId server inserts replies }.setClient clientId
      { p with taken := Quorum.advance p.taken r })).Inv replicas := by
  have fine := inv.fine clientId
  have enrolled := fine.enrolled p present
  have later := answered_later s.service.cluster (p.loop.shardId, r) clientId server inserts replies others stays
  have replied := answered_replies s.service.cluster (p.loop.shardId, r) clientId server inserts replies
  refine ⟨inv.queues, inv.valid, inv.alive, ?_, ?_⟩
  · intro place inside
    exact answered_host s.service.cluster (p.loop.shardId, r) clientId server inserts replies others stays place (inv.hosts place inside)
      identity supplied
  · intro client
    by_cases mine : client = clientId
    · subst mine
      refine fine_own replicas _ client { p with taken := Quorum.advance p.taken r } (Function.update_self _ _ _) ?_
        (fine_home replicas s client p fine present) ?_ ?_
      · refine ⟨enrolled.known, taken_steady _ client p enrolled.steady r room,
          account_congr _ _ p _ _ _ enrolled.account _ rfl rfl enrolled.account.paced, ?_, ?_⟩
        · intro other absent
          have different : ¬ ((p.loop.shardId, other) = (p.loop.shardId, r) ∧ client = client) :=
            fun same => absent ((Prod.mk.inj same.1).2 ▸ member)
          refine (replied (p.loop.shardId, other) client).trans ?_
          rw [if_neg different, List.append_nil]
          exact enrolled.outside other absent
        · cases links with
          | inl shut =>
              refine Or.inl ?_
              intro other inside
              refine ⟨later _ client (shut.1 other inside).gone, (replied (p.loop.shardId, other) client).trans ?_⟩
              rw [(shut.1 other inside).silent, shut.2, ite_self]
              rfl
          | inr linked =>
              refine Or.inr ?_
              intro other inside
              by_cases same : other = r
              · subst same
                simp only [Quorum.advance, Function.update_self]
                exact linked.2
              · simp only [Quorum.advance, Function.update_of_ne same]
                exact answered_linked s.service.cluster _ client server inserts replies _ (fun equal => same (Prod.mk.inj equal).2) _ _ _
                  (linked.1 other inside)
      · intro none other inside
        exact later _ client (fine.parted p present none other inside)
      · intro shard away
        cases fine_apart replicas s client p fine present shard away with
        | inl quiet =>
            refine Or.inl ?_
            intro other inside
            exact answered_quiet s.service.cluster _ client server inserts replies _ (fun equal => away (Prod.mk.inj equal).1.symm)
              (quiet other inside)
        | inr left => exact Or.inr (fun other inside => later _ client (left other inside))
    · exact fine_feeds replicas s _ client (inv.fine client)
        (answered_feeds replicas s.service.cluster (p.loop.shardId, r) clientId server inserts replies others client mine)
        (Function.update_of_ne mine _ _) rfl rfl rfl rfl

-- A replica that has closed the connection ignores what still comes.
theorem ignored_supply (gone : s.service.cluster.gone (p.loop.shardId, r) clientId = true) (behind : p.taken r ≤ p.sent.length) :
    (s.moved (s.service.setClient clientId { p with taken := Quorum.advance p.taken r })).Inv replicas := by
  have after := answered_supply replicas s inv clientId p present r member room
    (s.service.cluster.servers (p.loop.shardId, r)) [] [] ⟨rfl, rfl⟩ ?_ (fun _ _ => rfl) id ?_
  · rw [answered_nothing] at after
    exact after
  · rw [List.append_nil, Function.update_eq_self]
    exact (inv.hosts (p.loop.shardId, r) member).supplied
  · cases ((inv.fine clientId).enrolled p present).links with
    | inl shut => exact Or.inl ⟨shut, rfl⟩
    | inr links =>
        have open_ := (links r member).gone
        rw [gone, List.length_map] at open_
        exact absurd (of_decide_eq_true open_.symm) (by omega)

end

-- The insert that a replica is to take next, when the client has not been there
-- before.
theorem linked_insert (s : Cluster) (place : Place) (clientId : Nat) (sent : List (StorageInsert × Option Nat)) (taken : Nat)
    (granted : List Nat) (item : StorageInsert × Option Nat) (server : Server) (ack : ClientInsertAck)
    (link : Linked s place clientId (sent.map Prod.fst) taken granted) (found : sent[taken]? = some item)
    (same : (server.clientState clientId).disconnected = s.gone place clientId) :
    Linked (s.answered place clientId server [item.1] [.insertAck ack]) place clientId (sent.map Prod.fst) (taken + 1) granted := by
  have inside := (List.getElem?_eq_some_iff.mp found).1
  have entry : (sent.map Prod.fst)[taken]? = some item.1 := by rw [List.getElem?_map, found, Option.map_some]
  constructor
  · rw [answered_received, if_pos ⟨rfl, rfl⟩, link.received, List.take_add_one, entry, Option.toList_some]
  · rw [answered_gone, if_pos rfl, same, link.gone, List.length_map]
    exact (decide_eq_false (by omega)).trans (decide_eq_false (by omega)).symm
  · rw [answered_replies, if_pos ⟨rfl, rfl⟩, List.length_append, link.count, List.length_singleton]
  · intro index reply access
    rw [answered_replies, if_pos ⟨rfl, rfl⟩] at access
    rcases Nat.lt_or_ge index taken with old | new
    · rw [List.getElem?_append_left (by rw [link.count]; exact old)] at access
      exact link.replies index reply access
    · rw [List.getElem?_append_right (by rw [link.count]; exact new)] at access
      obtain ⟨bound, value⟩ := List.getElem?_eq_some_iff.mp access
      rw [List.length_singleton, link.count] at bound
      refine Or.inl ⟨by rw [List.length_map]; omega, ack, ?_⟩
      rw [← value, List.getElem_singleton]
  · exact link.granted

theorem linked_leave (s : Cluster) (place : Place) (clientId : Nat) (sent : List (StorageInsert × Option Nat)) (taken : Nat)
    (granted : List Nat) (link : Linked s place clientId (sent.map Prod.fst) taken granted) (last : taken = sent.length) :
    Linked (s.answered place clientId ((s.servers place).disconnect clientId) [] [.storageFinished place.1 place.2]) place clientId
      (sent.map Prod.fst) (taken + 1) granted := by
  constructor
  · rw [answered_received, if_pos ⟨rfl, rfl⟩, List.append_nil, link.received, List.take_of_length_le (by rw [List.length_map, last]),
      List.take_of_length_le (by rw [List.length_map, last]; exact Nat.le_succ _)]
  · rw [answered_gone, if_pos rfl, List.length_map, (disconnect_states (s.servers place) clientId clientId).2.2.mpr (Or.inl rfl)]
    exact (decide_eq_true (by omega)).symm
  · rw [answered_replies, if_pos ⟨rfl, rfl⟩, List.length_append, link.count, List.length_singleton]
  · intro index reply access
    rw [answered_replies, if_pos ⟨rfl, rfl⟩] at access
    rcases Nat.lt_or_ge index taken with old | new
    · rw [List.getElem?_append_left (by rw [link.count]; exact old)] at access
      exact link.replies index reply access
    · rw [List.getElem?_append_right (by rw [link.count]; exact new)] at access
      obtain ⟨bound, value⟩ := List.getElem?_eq_some_iff.mp access
      rw [List.length_singleton, link.count] at bound
      refine Or.inr ⟨by rw [List.length_map]; omega, ?_⟩
      rw [← value, List.getElem_singleton]
  · exact link.granted

section

variable (replicas : Nat → List Nat) (s : Supply) (inv : s.Inv replicas) (clientId : Nat) (p : Caller)
  (present : s.service.clients clientId = some p) (r : Nat) (member : r ∈ replicas p.loop.shardId)

include inv present

-- The links of a client whose connection a replica has not closed.
theorem open_links (inside : r ∈ replicas p.loop.shardId) (open_ : s.service.cluster.gone (p.loop.shardId, r) clientId = false) :
    ∀ r' ∈ replicas p.loop.shardId, Linked s.service.cluster (p.loop.shardId, r') clientId (p.sent.map Prod.fst) (p.taken r')
      (grants (s.service.cluster.notices clientId)) := by
  cases ((inv.fine clientId).enrolled p present).links with
  | inl shut =>
      rw [(shut r inside).gone] at open_
      cases open_
  | inr links => exact links

include member

theorem serve_insert (item : StorageInsert × Option Nat) (beyond : Bytes) (cluster : Cluster) (found : p.sent[p.taken r]? = some item)
    (room : p.taken r < (p.outbox r).length)
    (stepped : s.service.cluster.step (.insert (p.loop.shardId, r) item.1 beyond) = some cluster) :
    (s.moved ({ s.service with cluster := cluster }.setClient clientId { p with taken := Quorum.advance p.taken r })).Inv replicas := by
  simp only [Cluster.step, Option.ite_none_right_eq_some] at stepped
  have outcome := stepped.2
  have host := inv.hosts (p.loop.shardId, r) member
  have inside := (List.getElem?_eq_some_iff.mp found).1
  obtain ⟨positive, name, _⟩ := ((inv.fine clientId).enrolled p present).steady.inserts item (List.mem_of_getElem? found)
  cases gone : s.service.cluster.gone (p.loop.shardId, r) clientId with
  | true =>
      have ignored : (s.service.cluster.servers (p.loop.shardId, r)).storageInsert item.1 beyond =
          .ok (s.service.cluster.servers (p.loop.shardId, r), none) := by
        unfold Server.storageInsert
        rw [name]
        exact if_pos gone
      rw [ignored] at outcome
      cases outcome
      exact ignored_supply replicas s inv clientId p present r member room gone (Nat.le_of_lt inside)
  | false =>
      have joined : ((s.service.cluster.servers (p.loop.shardId, r)).clientState item.1.clientId).disconnected = false := by
        rw [name]
        exact gone
      have links := open_links replicas s inv clientId p present r member gone
      split at outcome
      · cases outcome
      · rename_i ran
        obtain ⟨fills, tracks, _⟩ := host.supplied
        obtain ⟨gsn, answer, _⟩ := storage_insert_tracks _ _ _ item.1 beyond none tracks positive joined ran
        cases answer
      · rename_i server ack ran
        cases outcome
        have states := (insert_answered _ server item.1 beyond ack ran).2
        obtain ⟨supplied, identity⟩ := insert_supplied _ server _ _ item.1 beyond ack host.supplied positive joined ran
        rw [name] at supplied
        rw [name]
        exact answered_supply replicas s inv clientId p present r member room server [item.1] [.insertAck ack] identity supplied
          (fun client _ => (states client).1) (fun before => (states clientId).1.trans before)
          (Or.inr ⟨links, linked_insert _ _ clientId p.sent (p.taken r) _ item server ack (links r member) found (states clientId).1⟩)

theorem serve_leave (cluster : Cluster) (last : p.taken r = p.sent.length) (room : p.taken r < (p.outbox r).length)
    (stepped : s.service.cluster.step (.leave (p.loop.shardId, r) clientId) = some cluster) :
    (s.moved ({ s.service with cluster := cluster }.setClient clientId { p with taken := Quorum.advance p.taken r })).Inv replicas := by
  simp only [Cluster.step, Option.ite_none_right_eq_some] at stepped
  cases stepped.2
  have host := inv.hosts (p.loop.shardId, r) member
  obtain ⟨fills, tracks, filled⟩ := host.supplied
  obtain ⟨same, gone⟩ | ⟨same, open_⟩ := client_finished_cases (s.service.cluster.servers (p.loop.shardId, r)) clientId
  · rw [same, Option.toList_none, answered_nothing]
    exact ignored_supply replicas s inv clientId p present r member room gone (Nat.le_of_eq last)
  · have links := open_links replicas s inv clientId p present r member open_
    rw [same, host.shard, host.replica]
    refine answered_supply replicas s inv clientId p present r member room _ [] [.storageFinished _ _] ⟨rfl, rfl⟩ ?_ ?_ ?_
      (Or.inr ⟨links, linked_leave _ _ clientId p.sent (p.taken r) _ (links r member) last⟩)
    · rw [List.append_nil, Function.update_eq_self]
      exact ⟨fills, disconnect_tracks _ _ clientId tracks, filled⟩
    · intro client different
      rw [Server.disconnect, client_state_other _ _ _ _ different]
      rfl
    · intro _
      exact (disconnect_states _ clientId clientId).2.2.mpr (Or.inl rfl)

end

theorem serve_supply (replicas : Nat → List Nat) (s : Supply) (inv : s.Inv replicas) (failures clientId r : Nat) (beyond : Bytes)
    (next : Supply) (stepped : s.step failures (.serve clientId r beyond) = some next) : next.Inv replicas := by
  simp only [Supply.step, Option.ite_none_right_eq_some] at stepped
  obtain ⟨service, taken, result⟩ := Option.map_eq_some_iff.mp stepped.2
  subst result
  simp only [Service.step] at taken
  split at taken
  · cases taken
  · rename_i p present
    split at taken
    · cases taken
    · rename_i request access
      obtain ⟨cluster, moved, result⟩ := Option.map_eq_some_iff.mp taken
      subst result
      have member : r ∈ replicas p.loop.shardId := by
        rw [← inv.queues]
        cases request with
        | insert req =>
            simp only [served, Cluster.step, Option.ite_none_right_eq_some] at moved
            exact of_decide_eq_true moved.1.1
        | clientFinished name =>
            simp only [served, Cluster.step, Option.ite_none_right_eq_some] at moved
            exact of_decide_eq_true moved.1.1
      have room := (List.getElem?_eq_some_iff.mp access).1
      have steady := ((inv.fine clientId).enrolled p present).steady
      obtain ⟨item, found, same⟩ | ⟨last, same⟩ := request_cases _ clientId p steady r request member access
      · subst same
        exact serve_insert replicas s inv clientId p present r member item beyond cluster found room moved
      · subst same
        exact serve_leave replicas s inv clientId p present r member cluster last room moved

-- A client that order is told of has left every replica of its shard.
theorem goodbye_gone (replicas : Nat → List Nat) (s : Supply) (clientId : Nat) (p : Caller) (enrolled : Enrolled replicas s clientId p)
    (some : 0 < p.goodbyes) : ∀ r ∈ replicas p.loop.shardId, s.service.cluster.gone (p.loop.shardId, r) clientId = true := by
  intro r member
  have heard := (enrolled.steady.goodbye some).2 r member
  have taken := enrolled.steady.heard r member
  cases enrolled.links with
  | inl shut => exact (shut r member).gone
  | inr links =>
      rw [(links r member).gone, List.length_map]
      exact decide_eq_true (by omega)

theorem finished_state (order : State) (clientId : Nat) : (order.clientFinished clientId).1.clientState clientId = none := by
  unfold State.clientFinished
  cases present : order.clientState clientId with
  | none => exact present
  | some state => exact set_client_state_same _ _ _

section

variable (replicas : Nat → List Nat) (nodup : ∀ shard, (replicas shard).Nodup) (s : Supply) (inv : s.Inv replicas)

include nodup inv

-- What order sends when a client has finished: one finalize, to the shard of the
-- client.
theorem finish_posted (clientId : Nat) : ∃ shard messages,
    s.service.cluster.order.Moves (s.service.cluster.order.clientFinished clientId).1 (s.service.cluster.order.clientFinished clientId).2
      clientId shard messages ∧ (∀ message ∈ messages, message = .clientFinalize clientId) ∧
    ∀ place : Place, place.2 ∈ replicas place.1 →
      (s.service.cluster.ordered (s.service.cluster.order.clientFinished clientId)).control place =
        s.service.cluster.control place ++ if place.1 = shard then messages else [] := by
  obtain ⟨shard, messages, moves, kind⟩ := moves_client_finished_alive s.service.cluster.order clientId
    (fun state there => (inv.alive clientId state there).2)
  refine ⟨shard, messages, moves, kind, ?_⟩
  intro place member
  rw [← moves_posted _ _ _ clientId shard messages place moves (by rw [inv.queues]; exact nodup shard) (by rw [inv.queues]; exact member)]
  rfl

theorem finish_feeds (clientId client : Nat) : Feeds replicas client s.service.cluster
    (s.service.cluster.ordered (s.service.cluster.order.clientFinished clientId)) := by
  obtain ⟨shard, messages, _, kind, posted⟩ := finish_posted replicas nodup s inv clientId
  have plain := finished_told s.service.cluster.order clientId client
  have none : grants ((s.service.cluster.order.clientFinished clientId).2.filterMap (toClient client)) = [] := by
    apply List.filterMap_eq_nil_iff.mpr
    intro message inside
    rw [(plain message inside).2.1]
    rfl
  refine ⟨fun _ => rfl, fun _ => rfl, fun _ => rfl, _, rfl, ?_, ?_, fun _ => none, ?_⟩
  · intro other inside
    cases (plain _ inside).2.1
  · intro numSlots inside
    rw [none] at inside
    cases inside
  · intro place member _
    have quiet : rations client (if place.1 = shard then messages else []) = [] := by
      apply List.flatMap_eq_nil_iff.mpr
      intro message inside
      split at inside
      · rw [kind message inside]
        rfl
      · cases inside
    rw [none, ite_self, List.append_nil, posted place member, rations_append, quiet, List.append_nil]

theorem finish_host (clientId : Nat) (p : Caller) (present : s.service.clients clientId = some p)
    (gone : ∀ r ∈ replicas p.loop.shardId, s.service.cluster.gone (p.loop.shardId, r) clientId = true) (place : Place)
    (member : place.2 ∈ replicas place.1) :
    Host (s.service.cluster.ordered (s.service.cluster.order.clientFinished clientId)) place := by
  obtain ⟨shard, messages, moves, kind, posted⟩ := finish_posted replicas nodup s inv clientId
  refine host_grow s.service.cluster _ place (inv.hosts place member) _ rfl rfl rfl (posted place member) ?_ ?_
  · intro message inside
    split at inside
    · rw [kind message inside]
      trivial
    · cases inside
  · intro client inside
    split at inside
    · rename_i here
      obtain ⟨state, there, home⟩ := moves.home (List.ne_nil_of_mem inside)
      have same := fine_home replicas s clientId p (inv.fine clientId) present state there
      cases kind _ inside
      obtain ⟨first, second⟩ := place
      have shards : first = p.loop.shardId := by rw [same, home, ← here]
      subst shards
      exact gone second member
    · cases inside

theorem farewell_supply (failures clientId : Nat) (next : Supply) (stepped : s.step failures (.farewell clientId) = some next) :
    next.Inv replicas := by
  obtain ⟨service, parted, result⟩ := Option.map_eq_some_iff.mp
    (show (s.service.step failures (.farewell clientId)).map s.moved = some next from stepped)
  subst result
  simp only [Service.step] at parted
  split at parted
  · cases parted
  · rename_i p present
    simp only [Option.ite_none_right_eq_some] at parted
    obtain ⟨pending, moved⟩ := parted
    obtain ⟨cluster, finished, result⟩ := Option.map_eq_some_iff.mp moved
    subst result
    cases finished
    have fine := inv.fine clientId
    have gone := goodbye_gone replicas s clientId p (fine.enrolled p present) (Nat.lt_of_le_of_lt (Nat.zero_le _) pending)
    have feeds := finish_feeds replicas nodup s inv clientId
    obtain ⟨_, _, moves, _, _⟩ := finish_posted replicas nodup s inv clientId
    have removed := finished_state s.service.cluster.order clientId
    refine ⟨moves.keeps.queues.trans inv.queues, moves.keeps.valid inv.valid, ?_,
      finish_host replicas nodup s inv clientId p present gone, ?_⟩
    · intro client state there
      by_cases mine : client = clientId
      · subst mine
        exact absurd (there.symm.trans removed) (by simp)
      · exact inv.alive client state ((moves.others client mine).symm.trans there)
    · intro client
      by_cases mine : client = clientId
      · subst mine
        refine fine_own replicas _ client { p with departed := p.departed + 1 } (Function.update_self _ _ _) ?_ ?_ (fun _ => gone) ?_
        · obtain ⟨known, steady, account, outside, links⟩ := enrolled_feeds replicas s
            (s.moved { s.service with cluster := s.service.cluster.ordered (s.service.cluster.order.clientFinished client) }) client fine
            (feeds client) p present rfl rfl rfl
          exact ⟨known, ⟨steady.name, steady.waiting, steady.queues, steady.outbox, steady.taken, steady.heard, steady.inserts,
            steady.requested, steady.parting, steady.goodbye⟩, account_congr _ _ p _ _ _ account _ rfl rfl account.paced, outside, links⟩
        · intro state there
          exact absurd (there.symm.trans removed) (by simp)
        · intro shard away
          refine apart_feeds replicas s
            (s.moved { s.service with cluster := s.service.cluster.ordered (s.service.cluster.order.clientFinished client) }) client fine
            (feeds client) shard ?_
          intro q there same
          rw [present] at there
          cases there
          exact away same
      · exact fine_feeds replicas s _ client (inv.fine client) (feeds client) (Function.update_of_ne mine _ _)
          (congrArg (Option.map ClientState.shardId) (moves.others client mine)) rfl rfl rfl

theorem supply_step (failures : Nat) (move : Move) (next : Supply) (stepped : s.step failures move = some next) : next.Inv replicas := by
  cases move with
  | join clientId shardId numSlots => exact join_supply replicas s inv failures clientId shardId numSlots next stepped
  | clientRate clientId numSlots => exact rate_supply replicas s inv failures clientId numSlots next stepped
  | epoch now => exact epoch_supply replicas nodup s inv failures now next stepped
  | connect place clientId => exact connect_supply replicas s inv failures place clientId next stepped
  | control place => exact control_supply replicas s inv failures place next stepped
  | enqueue clientId data response => exact enqueue_supply replicas failures s next inv clientId data response stepped
  | notice clientId => exact notice_supply replicas failures s next inv clientId stepped
  | switchEpoch clientId now => exact switch_supply replicas failures s next inv clientId now stepped
  | send clientId now => exact send_supply replicas failures s next inv clientId now stepped
  | stop clientId => exact stop_supply replicas failures s next inv clientId stepped
  | reply clientId replica => exact reply_supply replicas failures s next inv clientId replica stepped
  | serve clientId replica beyond => exact serve_supply replicas s inv failures clientId replica beyond next stepped
  | farewell clientId => exact farewell_supply replicas nodup s inv failures clientId next stepped

end

theorem supply_run (numShards failures : Nat) (replicas : Nat → List Nat) (nodup : ∀ shard, (replicas shard).Nodup) (moves : List Move)
    (s : Supply) (ran : Machine.run (Supply.step failures) (Supply.init numShards replicas) moves = some s) : s.Inv replicas :=
  Machine.run_preserves (Supply.step failures) (Supply.Inv replicas)
    (fun before move after inv stepped => supply_step replicas nodup before inv failures move after stepped)
    _ s (init_supply numShards replicas) moves ran

theorem take_sum_le (counts : List Nat) (length : Nat) : (counts.take length).sum ≤ counts.sum := by
  have whole := congrArg List.sum (List.take_append_drop length counts)
  rw [List.sum_append] at whole
  omega

-- What the next insert of a client asks for, when it is due and the replica has
-- not closed the connection.
theorem insert_room (replicas : Nat → List Nat) (s : Supply) (inv : s.Inv replicas) (clientId : Nat) (p : Caller)
    (present : s.service.clients clientId = some p) (r : Nat) (member : r ∈ replicas p.loop.shardId) (req : StorageInsert)
    (access : (p.outbox r)[p.taken r]? = some (.insert req)) (due : s.due clientId r = true)
    (open_ : s.service.cluster.gone (p.loop.shardId, r) clientId = false) :
    1 ≤ req.numSlots ∧ req.clientId = clientId ∧ slotsTaken (s.service.cluster.received (p.loop.shardId, r) clientId ++ [req]) ≤
      (chain (slotsIn (s.service.cluster.seen (p.loop.shardId, r))) clientId).length := by
  have enrolled := (inv.fine clientId).enrolled p present
  have host := inv.hosts (p.loop.shardId, r) member
  have known : clientId ≠ uint64Max := Nat.ne_of_lt (Nat.lt_trans enrolled.known max_clients_lt)
  obtain ⟨item, found, same⟩ | ⟨_, same⟩ := request_cases _ clientId p enrolled.steady r _ member access
  · cases same
    obtain ⟨positive, name, _⟩ := enrolled.steady.inserts item (List.mem_of_getElem? found)
    refine ⟨positive, name, ?_⟩
    cases enrolled.links with
    | inl shut =>
        rw [(shut r member).gone] at open_
        cases open_
    | inr links =>
        have link := links r member
        have entry : (p.sent.map Prod.fst)[p.taken r]? = some item.1 := by rw [List.getElem?_map, found, Option.map_some]
        have inside : p.taken r < (s.stamps clientId).length := by
          rw [enrolled.account.stamped]
          exact (List.getElem?_eq_some_iff.mp found).1
        have stamp := List.getElem?_eq_getElem inside
        obtain ⟨_, covered⟩ := enrolled.account.covered (p.taken r) _ stamp
        simp only [Supply.due, present, stamp, decide_eq_true_eq] at due
        have before : rations clientId (s.service.cluster.seen (p.loop.shardId, r)) <+: grants (s.service.cluster.notices clientId) := by
          rw [← link.granted]
          exact rations_grow clientId _ _ (List.take_prefix _ _)
        obtain ⟨rest, whole⟩ := before
        rw [← whole, List.take_append_of_le_length due, List.take_add_one, entry, Option.toList_some] at covered
        have measured : ∀ message ∈ s.service.cluster.seen (p.loop.shardId, r), Measured message :=
          fun message seen => host.measured message (List.mem_of_mem_take seen)
        rw [link.received, chain_rations clientId _ known measured]
        exact Nat.le_trans covered (take_sum_le _ _)
  · cases same

-- No replica runs out of slots for a client, as long as it handles an insert
-- after the storage_slots of the epoch in which the client sent it.
theorem slots_suffice (numShards failures : Nat) (replicas : Nat → List Nat) (nodup : ∀ shard, (replicas shard).Nodup) (moves : List Move)
    (s : Supply) (ran : Machine.run (Supply.step failures) (Supply.init numShards replicas) moves = some s) :
    (∀ place : Place, place.2 ∈ replicas place.1 → ∀ clientId, slotsTaken (s.service.cluster.received place clientId) ≤
      ((s.service.cluster.servers place).log.clientGsns clientId).length) ∧
    ∀ clientId p, s.service.clients clientId = some p → ∀ r ∈ replicas p.loop.shardId, ∀ req beyond,
      (p.outbox r)[p.taken r]? = some (.insert req) → s.due clientId r = true →
      (∃ result, (s.service.cluster.servers (p.loop.shardId, r)).storageInsert req beyond = .ok result) ∧
      (((s.service.cluster.servers (p.loop.shardId, r)).clientState clientId).disconnected = false →
        slotsTaken (s.service.cluster.received (p.loop.shardId, r) clientId ++ [req]) ≤
          ((s.service.cluster.servers (p.loop.shardId, r)).log.clientGsns clientId).length) := by
  have inv := supply_run numShards failures replicas nodup moves s ran
  constructor
  · intro place member clientId
    obtain ⟨entries, taken⟩ := supplied_entries _ _ _ clientId (inv.hosts place member).supplied
    rw [entries]
    exact taken
  · intro clientId p present r member req beyond access due
    have host := inv.hosts (p.loop.shardId, r) member
    have enrolled := (inv.fine clientId).enrolled p present
    cases gone : s.service.cluster.gone (p.loop.shardId, r) clientId with
    | true =>
        refine ⟨⟨(s.service.cluster.servers (p.loop.shardId, r), none), ?_⟩, fun open_ => absurd (gone.symm.trans open_) (by simp)⟩
        obtain ⟨item, found, same⟩ | ⟨_, same⟩ := request_cases _ clientId p enrolled.steady r _ member access
        · cases same
          unfold Server.storageInsert
          rw [(enrolled.steady.inserts item (List.mem_of_getElem? found)).2.1]
          exact if_pos gone
        · cases same
    | false =>
        obtain ⟨positive, name, room⟩ := insert_room replicas s inv clientId p present r member req access due gone
        have unsealed : .clientFinalize clientId ∉ s.service.cluster.seen (p.loop.shardId, r) := by
          intro final
          rw [host.final clientId (List.mem_of_mem_take final)] at gone
          cases gone
        constructor
        · refine supplied_insert _ _ _ req beyond host.supplied positive (by rw [name]; exact unsealed) ?_
          rw [slotsTaken, List.map_append, List.sum_append, ← slotsTaken, List.map_singleton, List.sum_singleton] at room
          rw [name]
          exact room
        · intro _
          rw [(supplied_entries _ _ _ clientId host.supplied).1]
          exact room

-- A client that has two slots in an epoch sends a no-op in each half of it.
theorem slots_suffice_two_halves :
    ∃ s p, Machine.run (Supply.step 0) (Supply.init 1 (fun _ => [0]))
        [.join 0 0 2, .connect (0, 0) 0, .epoch 0, .notice 0, .notice 0, .control (0, 0), .switchEpoch 0 5000000, .send 0 7500000,
          .serve 0 0 [], .reply 0 0, .send 0 10000000] = some s ∧
      s.service.clients 0 = some p ∧ (p.outbox 0)[p.taken 0]? = some (.insert ⟨0, 1, []⟩) ∧
      ((s.service.cluster.servers (p.loop.shardId, 0)).log.clientGsns 0).length = 2 ∧
      slotsTaken (s.service.cluster.received (p.loop.shardId, 0) 0 ++ [⟨0, 1, []⟩]) ≤
        ((s.service.cluster.servers (p.loop.shardId, 0)).log.clientGsns 0).length ∧
      ∃ result, (s.service.cluster.servers (p.loop.shardId, 0)).storageInsert ⟨0, 1, []⟩ [] = .ok result := by
  have outcome : (Machine.run (Supply.step 0) (Supply.init 1 (fun _ => [0]))
      [.join 0 0 2, .connect (0, 0) 0, .epoch 0, .notice 0, .notice 0, .control (0, 0), .switchEpoch 0 5000000, .send 0 7500000,
        .serve 0 0 [], .reply 0 0, .send 0 10000000]).map (fun s => (s.due 0 0, (s.service.clients 0).map (fun p =>
          (p.loop.shardId, (p.outbox 0)[p.taken 0]?, ((s.service.cluster.servers (p.loop.shardId, 0)).log.clientGsns 0).length,
            ((s.service.cluster.servers (p.loop.shardId, 0)).clientState 0).disconnected)))) =
        some (true, some (0, some (.insert ⟨0, 1, []⟩), 2, false)) := by decide +kernel
  obtain ⟨s, ran, values⟩ := Option.map_eq_some_iff.mp outcome
  obtain ⟨due, found⟩ := Prod.mk.inj values
  obtain ⟨p, present, fields⟩ := Option.map_eq_some_iff.mp found
  simp only [Prod.mk.injEq] at fields
  obtain ⟨shard, access, entries, joined⟩ := fields
  obtain ⟨runs, room⟩ := (slots_suffice 1 0 (fun _ => [0]) (fun _ => List.nodup_singleton 0) _ s ran).2 0 p present 0
    (List.mem_singleton_self 0) _ [] access due
  exact ⟨s, p, ran, present, access, entries, room joined, runs⟩

end ZipLog.System
