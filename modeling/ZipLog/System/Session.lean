import ZipLog.System.Calm
import ZipLog.System.Service

set_option autoImplicit false

namespace ZipLog.System

open Storage Quorum

-- An insert lies in the last of its client's slots that it takes.
def rankOf (inserts : List StorageInsert) (index : Nat) : Nat := (filledBy (inserts.take (index + 1))).length - 1

theorem filled_by_take_succ (inserts : List StorageInsert) (index : Nat) (req : StorageInsert) (access : inserts[index]? = some req) :
    filledBy (inserts.take (index + 1)) = filledBy (inserts.take index) ++ payloads req := by
  rw [List.take_add_one, access, Option.toList_some, filled_by_snoc]

theorem filled_by_take_mono (inserts : List StorageInsert) (first second : Nat) (least : first ≤ second) :
    (filledBy (inserts.take first)).length ≤ (filledBy (inserts.take second)).length :=
  (filled_by_grows _ _ (List.take_prefix_take_left least)).length_le

theorem rank_of_access (inserts : List StorageInsert) (index : Nat) (req : StorageInsert) (access : inserts[index]? = some req) :
    (filledBy (inserts.take index)).length ≤ rankOf inserts index ∧
      rankOf inserts index + 1 = (filledBy (inserts.take (index + 1))).length ∧ (filledBy inserts)[rankOf inserts index]? = some req.data := by
  have taken := filled_by_take_succ inserts index req access
  have longer := congrArg List.length taken
  rw [payloads, List.length_append, List.length_append, List.length_replicate, List.length_singleton] at longer
  refine ⟨by rw [rankOf]; omega, by rw [rankOf]; omega, ?_⟩
  apply prefix_access _ _ (filled_by_grows _ _ (List.take_prefix (index + 1) inserts))
  rw [taken, rankOf, longer, payloads, List.getElem?_append_right (by omega), List.getElem?_append_right (by rw [List.length_replicate]; omega)]
  simp only [List.length_replicate]
  rw [show (filledBy (inserts.take index)).length + (req.numSlots - 1 + 1) - 1 - (filledBy (inserts.take index)).length -
    (req.numSlots - 1) = 0 by omega]
  rfl

theorem rank_of_increasing (inserts : List StorageInsert) (first second : Nat) (less : first < second) (inside : second < inserts.length) :
    rankOf inserts first < rankOf inserts second := by
  have later := (rank_of_access inserts second _ (List.getElem?_eq_getElem inside)).1
  have earlier := (rank_of_access inserts first _ (List.getElem?_eq_getElem (Nat.lt_trans less inside))).2.1
  have grown := filled_by_take_mono inserts (first + 1) second less
  omega

-- A payload that is not empty was put there by one insert.
theorem fill_source (inserts : List StorageInsert) (rank : Nat) (data : Bytes) (access : (filledBy inserts)[rank]? = some data)
    (nonempty : data ≠ []) : ∃ index req, inserts[index]? = some req ∧ rank = rankOf inserts index ∧ req.data = data := by
  induction inserts using List.reverseRecOn with
  | nil => cases access
  | append_singleton inserts last ih =>
      rw [filled_by_snoc] at access
      rcases Nat.lt_or_ge rank (filledBy inserts).length with inside | outside
      · rw [List.getElem?_append_left inside] at access
        obtain ⟨index, req, found, place, same⟩ := ih access
        have bound := (List.getElem?_eq_some_iff.mp found).1
        refine ⟨index, req, by rw [List.getElem?_append_left bound]; exact found, ?_, same⟩
        rw [place, rankOf, rankOf, List.take_append_of_le_length bound]
      · rw [List.getElem?_append_right outside, payloads] at access
        have place : rank - (filledBy inserts).length = last.numSlots - 1 := by
          rcases Nat.lt_trichotomy (rank - (filledBy inserts).length) (last.numSlots - 1) with before | here | after
          · rw [List.getElem?_append_left (by rwa [List.length_replicate])] at access
            exact absurd (List.eq_of_mem_replicate (List.mem_of_getElem? access)) nonempty
          · exact here
          · rw [List.getElem?_eq_none (by simp only [List.length_append, List.length_replicate, List.length_singleton]; omega)] at access
            cases access
        rw [place, List.getElem?_append_right (by simp)] at access
        refine ⟨inserts.length, last, by simp, ?_, by simpa using access⟩
        rw [rankOf, List.take_of_length_le (by simp), filled_by_snoc, payloads]
        simp only [List.length_append, List.length_replicate, List.length_singleton]
        omega

-- What a client has sent of the requests, the no-ops left out.
def carried (sent : List (StorageInsert × Option Nat)) : List (Bytes × Nat) :=
  sent.filterMap (fun item => item.2.map (fun response => (item.1.data, response)))

-- The loop of a client and its links as it sees them. Until the ordering service
-- has named the storage servers nothing is sent; a server is dropped when it has
-- answered all inserts and the goodbye.
structure Caller.Steady (replicas : List Nat) (clientId : Nat) (p : Caller) : Prop where
  name : p.loop.clientId = clientId
  waiting : p.noticed = 0 → p.loop.queues = [] ∧ p.sent = []
  queues : p.loop.stopped = false → p.noticed ≠ 0 → p.loop.queues = replicas
  outbox : ∃ bye, (bye = [] ∨ bye = [.clientFinished clientId] ∧ p.loop.stopped = true) ∧
    ∀ r ∈ replicas, p.outbox r = p.sent.map (fun item => .insert item.1) ++ bye
  taken : ∀ r ∈ replicas, p.taken r ≤ (p.outbox r).length
  heard : ∀ r ∈ replicas, p.heard r ≤ p.taken r
  inserts : ∀ item ∈ p.sent, 1 ≤ item.1.numSlots ∧ item.1.clientId = clientId ∧ (item.2 = none → item.1.data = [])
  requested : p.requested = carried p.sent ++ p.loop.requests
  parting : p.noticed ≠ 0 → ∀ r ∈ replicas, r ∉ p.loop.queues → p.sent.length < p.heard r
  goodbye : 0 < p.goodbyes → p.loop.stopped = true ∧ ∀ r ∈ replicas, p.sent.length < p.heard r

theorem init_steady (replicas : List Nat) (clientId shardId failures : Nat) :
    (Caller.init clientId shardId failures).Steady replicas clientId := by
  constructor
  · rfl
  · intro _
    exact ⟨rfl, rfl⟩
  · intro _ told
    exact absurd rfl told
  · exact ⟨[], Or.inl rfl, fun _ _ => rfl⟩
  · intro r _
    exact Nat.le_refl 0
  · intro r _
    exact Nat.le_refl 0
  · intro item member
    cases member
  · rfl
  · intro told
    exact absurd rfl told
  · intro some
    exact absurd some (Nat.lt_irrefl 0)

section

variable (replicas : List Nat) (clientId : Nat) (p : Caller) (steady : p.Steady replicas clientId)

include steady

-- The replies of a server cannot run ahead of what has been sent to it.
theorem taken_bound (r : Nat) (member : r ∈ replicas) : p.taken r ≤ p.sent.length + 1 ∧
    (p.loop.stopped = false → p.taken r ≤ p.sent.length) ∧ (p.taken r ≤ p.sent.length ∨ p.loop.stopped = true) := by
  obtain ⟨bye, kind, outbox⟩ := steady.outbox
  have bound := steady.taken r member
  rw [outbox r member, List.length_append, List.length_map] at bound
  cases kind with
  | inl none =>
      subst none
      simp only [List.length_nil] at bound
      exact ⟨by omega, fun _ => by omega, Or.inl (by omega)⟩
  | inr gone =>
      obtain ⟨same, stopped⟩ := gone
      subst same
      simp only [List.length_singleton] at bound
      refine ⟨by omega, fun running => ?_, Or.inr stopped⟩
      rw [stopped] at running
      cases running

-- The next message for a replica is an insert or, after all of them, the goodbye.
theorem request_cases (r : Nat) (request : StorageRequest) (member : r ∈ replicas) (access : (p.outbox r)[p.taken r]? = some request) :
    (∃ item, p.sent[p.taken r]? = some item ∧ request = .insert item.1) ∨
      p.taken r = p.sent.length ∧ request = .clientFinished clientId := by
  obtain ⟨bye, kind, outbox⟩ := steady.outbox
  rw [outbox r member] at access
  rcases Nat.lt_or_ge (p.taken r) p.sent.length with inside | outside
  · rw [List.getElem?_append_left (by rwa [List.length_map]), List.getElem?_map] at access
    obtain ⟨item, found, same⟩ := Option.map_eq_some_iff.mp access
    exact Or.inl ⟨item, found, same.symm⟩
  · rw [List.getElem?_append_right (by rwa [List.length_map]), List.length_map] at access
    cases kind with
    | inl none =>
        rw [none] at access
        cases access
    | inr gone =>
        rw [gone.1] at access
        have first : p.taken r - p.sent.length = 0 := by
          have bound := (List.getElem?_eq_some_iff.mp access).1
          rw [List.length_singleton] at bound
          omega
        rw [first, List.getElem?_cons_zero] at access
        exact Or.inr ⟨by omega, (Option.some.inj access).symm⟩

theorem taken_steady (r : Nat) (room : p.taken r < (p.outbox r).length) :
    { p with taken := advance p.taken r }.Steady replicas clientId := by
  refine ⟨steady.name, steady.waiting, steady.queues, steady.outbox, ?_, ?_, steady.inserts, steady.requested, steady.parting,
    steady.goodbye⟩
  · intro other inside
    by_cases same : other = r
    · subst same
      simp only [advance, Function.update_self]
      exact room
    · simp only [advance, Function.update_of_ne same]
      exact steady.taken other inside
  · intro other inside
    by_cases same : other = r
    · subst same
      simp only [advance, Function.update_self]
      exact Nat.le_succ_of_le (steady.heard other inside)
    · simp only [advance, Function.update_of_ne same]
      exact steady.heard other inside

theorem enqueue_steady (data : Bytes) (response : Nat) : (p.enqueue data response).Steady replicas clientId :=
  ⟨steady.name, steady.waiting, steady.queues, steady.outbox, steady.taken, steady.heard, steady.inserts,
    by simp only [Caller.enqueue, Client.Loop.insert, steady.requested, List.append_assoc], steady.parting, steady.goodbye⟩

-- A step of the loop that leaves its links alone.
theorem loop_steady (loop : Client.Loop) (name : loop.clientId = p.loop.clientId) (queues : loop.queues = p.loop.queues)
    (stopped : loop.stopped = p.loop.stopped) (requests : loop.requests = p.loop.requests) :
    { p with loop := loop }.Steady replicas clientId := by
  constructor
  · exact name.trans steady.name
  · intro fresh
    rw [queues]
    exact steady.waiting fresh
  · rw [stopped, queues]
    exact steady.queues
  · rw [stopped]
    exact steady.outbox
  · exact steady.taken
  · exact steady.heard
  · exact steady.inserts
  · rw [requests]
    exact steady.requested
  · rw [queues]
    exact steady.parting
  · rw [stopped]
    exact steady.goodbye

theorem notice_steady (message : Order.ClientControl)
    (kind : p.noticed = 0 ∧ message = .storageInfo replicas ∨ p.noticed ≠ 0 ∧ ∀ other, message ≠ .storageInfo other) :
    (p.notice message).Steady replicas clientId := by
  cases kind with
  | inl first =>
      obtain ⟨fresh, same⟩ := first
      subst same
      have queues : (p.notice (.storageInfo replicas)).loop.queues = replicas := by
        simp [Caller.notice, Client.Loop.clientStorageInfo, (steady.waiting fresh).1]
      constructor
      · exact steady.name
      · intro none
        cases none
      · intro _ _
        exact queues
      · exact steady.outbox
      · exact steady.taken
      · exact steady.heard
      · exact steady.inserts
      · exact steady.requested
      · intro _ r member gone
        rw [queues] at gone
        exact absurd member gone
      · exact steady.goodbye
  | inr later =>
      obtain ⟨told, other⟩ := later
      have same : (p.notice message).loop.clientId = p.loop.clientId ∧ (p.notice message).loop.queues = p.loop.queues ∧
          (p.notice message).loop.stopped = p.loop.stopped ∧ (p.notice message).loop.requests = p.loop.requests := by
        cases message with
        | storageInfo replicas => exact absurd rfl (other replicas)
        | newEpoch beginning numSlots => exact ⟨rfl, rfl, rfl, rfl⟩
        | orderFinished => exact ⟨rfl, rfl, rfl, rfl⟩
      have before := loop_steady replicas clientId p steady _ same.1 same.2.1 same.2.2.1 same.2.2.2
      constructor
      · exact before.name
      · intro none
        cases none
      · intro running _
        exact before.queues running told
      · exact before.outbox
      · exact before.taken
      · exact before.heard
      · exact before.inserts
      · exact before.requested
      · intro _
        exact before.parting told
      · exact before.goodbye

omit steady in
-- A turn of the send branch, with the message it puts on every queue.
theorem caller_send_cases (now : Nat) : p.send now = p ∨ ∃ message response loop,
    p.send now = { p.post (.insert message) with loop := loop, sent := p.sent ++ [(message, response)] } ∧
    p.loop.stopped = false ∧ p.loop.queues ≠ [] ∧ 1 ≤ message.numSlots ∧ message.clientId = p.loop.clientId ∧
    (response = none → message.data = []) ∧ p.loop.requests = response.toList.map (fun r => (message.data, r)) ++ loop.requests ∧
    loop.clientId = p.loop.clientId ∧ loop.shardId = p.loop.shardId ∧ loop.queues = p.loop.queues ∧ loop.stopped = p.loop.stopped ∧
    loop.failures = p.loop.failures ∧ loop.latestGsn = p.loop.latestGsn ∧ loop.stored = p.loop.stored ∧
    loop.outstanding = p.loop.outstanding ++ [⟨response, uint64Max, 0⟩] := by
  cases turn : p.loop.send now with
  | mk loop message =>
      cases message with
      | none =>
          left
          have same : loop = p.loop := by
            obtain nothing | ⟨_, _, _, some, _⟩ := Client.send_cases p.loop now
            · rw [nothing] at turn
              cases turn
              rfl
            · rw [some] at turn
              cases turn
          rw [Caller.send, turn, same]
      | some message =>
          right
          have written : p.send now = { p.post (.insert message) with
              loop := loop
              sent := p.sent ++ [(message, loop.outstanding.getLast?.bind Client.Outstanding.response)] } := by
            rw [Caller.send, turn]
          unfold Client.Loop.send at turn
          split at turn
          · rename_i allowed
            have some_queue : p.loop.queues ≠ [] := by
              intro none
              have enough := allowed.2.2.1
              rw [none] at enough
              exact absurd enough (Nat.not_lt_zero _)
            have behind : 1 ≤ p.loop.ideal now - p.loop.consumed := Nat.sub_pos_of_lt allowed.2.1
            dsimp only at turn
            split at turn
            · rename_i data response requests pending
              refine ⟨message, some response, loop, ?_⟩
              cases turn
              refine ⟨?_, allowed.1, some_queue, behind, rfl, ?_, pending, rfl, rfl, rfl, rfl, rfl, rfl, rfl, rfl⟩
              · rw [written]
                simp
              · intro none
                cases none
            · rename_i pending
              split at turn
              · rename_i idle
                refine ⟨message, none, loop, ?_⟩
                cases turn
                refine ⟨?_, allowed.1, some_queue, behind, rfl, fun _ => rfl, rfl, rfl, rfl, rfl, rfl, rfl, rfl, rfl, ?_⟩
                · rw [written]
                  simp
                · rw [idle]
                  rfl
              · cases turn
          · cases turn

theorem send_steady (now : Nat) : (p.send now).Steady replicas clientId := by
  obtain nothing | ⟨message, response, loop, result, running, some_queue, positive, named, noOp, requests, name, _, queues, stopped, _⟩ :=
    caller_send_cases p now
  · rw [nothing]
    exact steady
  · rw [result]
    have told : p.noticed ≠ 0 := fun fresh => some_queue (steady.waiting fresh).1
    have all := steady.queues running told
    obtain ⟨bye, kind, outbox⟩ := steady.outbox
    have none : bye = [] := by
      cases kind with
      | inl none => exact none
      | inr gone =>
          rw [gone.2] at running
          cases running
    subst none
    have posted : ∀ r ∈ replicas, (p.post (.insert message)).outbox r =
        (p.sent ++ [(message, response)]).map (fun item => StorageRequest.insert item.1) ++ [] := by
      intro r member
      simp only [Caller.post, all, if_pos member, outbox r member, List.append_nil, List.map_append, List.map_cons, List.map_nil]
    constructor
    · exact name.trans steady.name
    · intro fresh
      exact absurd fresh told
    · intro _ _
      exact queues.trans all
    · exact ⟨[], Or.inl rfl, posted⟩
    · intro r member
      have bound := steady.taken r member
      rw [outbox r member, List.append_nil, List.length_map] at bound
      change p.taken r ≤ ((p.post (.insert message)).outbox r).length
      rw [posted r member, List.append_nil, List.length_map, List.length_append]
      omega
    · exact steady.heard
    · intro item member
      cases List.mem_append.mp member with
      | inl old => exact steady.inserts item old
      | inr new =>
          rw [List.mem_singleton.mp new]
          exact ⟨positive, named.trans steady.name, noOp⟩
    · change p.requested = carried (p.sent ++ [(message, response)]) ++ loop.requests
      rw [steady.requested, requests, carried, carried, List.filterMap_append, List.append_assoc]
      cases response with
      | none => rfl
      | some response => rfl
    · intro _ r member gone
      change r ∉ loop.queues at gone
      rw [queues, all] at gone
      exact absurd member gone
    · intro some
      rw [(steady.goodbye some).1] at running
      cases running

theorem stop_steady : p.stop.Steady replicas clientId := by
  unfold Caller.stop Client.Loop.checkStop
  cases already : p.loop.stopped with
  | true =>
      simp only [if_true]
      exact steady
  | false =>
      simp only [Bool.false_eq_true, if_false]
      obtain ⟨bye, kind, outbox⟩ := steady.outbox
      have none : bye = [] := by
        cases kind with
        | inl none => exact none
        | inr gone =>
            rw [gone.2] at already
            cases already
      subst none
      by_cases told : p.noticed = 0
      · have quiet := (steady.waiting told).1
        have silent : ∀ r, (p.post (.clientFinished p.loop.clientId)).outbox r = p.outbox r := by
          intro r
          simp [Caller.post, quiet]
        constructor
        · exact steady.name
        · exact steady.waiting
        · intro running
          cases running
        · exact ⟨[], Or.inl rfl, fun r member => (silent r).trans (outbox r member)⟩
        · intro r member
          change p.taken r ≤ ((p.post (.clientFinished p.loop.clientId)).outbox r).length
          rw [silent r]
          exact steady.taken r member
        · exact steady.heard
        · exact steady.inserts
        · exact steady.requested
        · exact steady.parting
        · intro some
          exact ⟨rfl, (steady.goodbye some).2⟩
      · have all := steady.queues already told
        have posted : ∀ r ∈ replicas, (p.post (.clientFinished p.loop.clientId)).outbox r =
            p.sent.map (fun item => StorageRequest.insert item.1) ++ [.clientFinished clientId] := by
          intro r member
          simp only [Caller.post, all, if_pos member, outbox r member, List.append_nil, steady.name]
        constructor
        · exact steady.name
        · exact steady.waiting
        · intro running
          cases running
        · exact ⟨_, Or.inr ⟨rfl, rfl⟩, posted⟩
        · intro r member
          have bound := steady.taken r member
          rw [outbox r member, List.append_nil] at bound
          change p.taken r ≤ ((p.post (.clientFinished p.loop.clientId)).outbox r).length
          rw [posted r member, List.length_append]
          omega
        · exact steady.heard
        · exact steady.inserts
        · exact steady.requested
        · exact steady.parting
        · intro some
          exact ⟨rfl, (steady.goodbye some).2⟩

theorem heard_steady (r : Nat) (pending : p.heard r < p.taken r) :
    { p with heard := advance p.heard r }.Steady replicas clientId := by
  have more : ∀ other, p.heard other ≤ advance p.heard r other := by
    intro other
    by_cases same : other = r
    · subst same
      rw [advance, Function.update_self]
      exact Nat.le_succ _
    · rw [advance, Function.update_of_ne same]
  refine ⟨steady.name, steady.waiting, steady.queues, steady.outbox, steady.taken, ?_, steady.inserts, steady.requested, ?_, ?_⟩
  · intro other member
    by_cases same : other = r
    · subst same
      simp only [advance, Function.update_self]
      exact pending
    · simp only [advance, Function.update_of_ne same]
      exact steady.heard other member
  · intro told other member gone
    exact Nat.lt_of_lt_of_le (steady.parting told other member gone) (more other)
  · intro some
    obtain ⟨stopped, all⟩ := steady.goodbye some
    exact ⟨stopped, fun other member => Nat.lt_of_lt_of_le (all other member) (more other)⟩

omit steady in
theorem insert_ack_same (loop : Client.Loop) (ack : ClientInsertAck) : (loop.clientInsertAck ack).clientId = loop.clientId ∧
    (loop.clientInsertAck ack).shardId = loop.shardId ∧ (loop.clientInsertAck ack).queues = loop.queues ∧
    (loop.clientInsertAck ack).stopped = loop.stopped ∧ (loop.clientInsertAck ack).requests = loop.requests := by
  unfold Client.Loop.clientInsertAck
  split
  · exact ⟨rfl, rfl, rfl, rfl, rfl⟩
  · split
    · exact ⟨rfl, rfl, rfl, rfl, rfl⟩
    · split
      · exact ⟨rfl, rfl, rfl, rfl, rfl⟩
      · dsimp only
        split
        · exact ⟨rfl, rfl, rfl, rfl, rfl⟩
        · exact ⟨rfl, rfl, rfl, rfl, rfl⟩

theorem ack_steady (r : Nat) (ack : ClientInsertAck) (pending : p.heard r < p.taken r) :
    (p.reply r (.insertAck ack)).Steady replicas clientId := by
  obtain ⟨name, _, queues, stopped, requests⟩ := insert_ack_same p.loop ack
  exact loop_steady replicas clientId _ (heard_steady replicas clientId p steady r pending) _ name queues stopped requests

-- The last message of a server.
theorem finished_steady (r shardId : Nat) (member : r ∈ replicas) (last : p.heard r = p.sent.length) (pending : p.heard r < p.taken r) :
    (p.reply r (.storageFinished shardId r)).Steady replicas clientId := by
  have before := heard_steady replicas clientId p steady r pending
  have stopped : p.loop.stopped = true := by
    cases (taken_bound replicas clientId p steady r member).2.2 with
    | inl more => omega
    | inr stopped => exact stopped
  simp only [Caller.reply, Client.Loop.storageFinished]
  by_cases foreign : shardId ≠ p.loop.shardId ∨ r ∉ p.loop.queues
  · simp only [if_pos foreign, Bool.false_eq_true, if_false]
    exact before
  · simp only [if_neg foreign]
    have served : r ∈ p.loop.queues := by
      by_contra absent
      exact foreign (Or.inr absent)
    have told : p.noticed ≠ 0 := by
      intro fresh
      rw [(steady.waiting fresh).1] at served
      cases served
    have parting : ∀ other ∈ replicas, other ∉ p.loop.queues.filter (fun other => other ≠ r) →
        p.sent.length < Function.update p.heard r (p.heard r + 1) other := by
      intro other inside gone
      by_cases same : other = r
      · subst same
        rw [Function.update_self]
        omega
      · apply before.parting told other inside
        intro queued
        exact gone (List.mem_filter.mpr ⟨queued, by simpa using same⟩)
    refine ⟨before.name, fun fresh => absurd fresh told, ?_, before.outbox, before.taken, before.heard, before.inserts, before.requested,
      fun _ => parting, ?_⟩
    · intro running
      rw [show p.loop.stopped = true from stopped] at running
      cases running
    · intro some
      refine ⟨stopped, ?_⟩
      by_cases empty : p.loop.queues.filter (fun other => other ≠ r) = []
      · intro other inside
        exact parting other inside (by rw [empty]; exact List.not_mem_nil)
      · simp only [empty, decide_false, Bool.false_eq_true, if_false] at some
        exact (before.goodbye some).2

end

theorem rank_of_append (inserts more : List StorageInsert) (index : Nat) (inside : index < inserts.length) :
    rankOf (inserts ++ more) index = rankOf inserts index := by
  rw [rankOf, rankOf, List.take_append_of_le_length inside]

-- How many ACKs of a replica the client has handled.
def Caller.acked (p : Caller) (r : Nat) : Nat := min (p.heard r) p.sent.length

-- The ACK handler, and the slots that the GSNs it has seen belong to.
structure Caller.Matches (replicas : List Nat) (slots : List (Nat × Nat)) (clientId : Nat) (p : Caller) (gsn : Nat → Nat)
    (delivered : Nat) : Prop where
  matched : Client.Matched replicas p.acked (p.sent.map Prod.snd) gsn p.loop delivered
  known : ∀ i, 0 < count replicas p.acked i → (gsns slots clientId)[rankOf (p.sent.map Prod.fst) i]? = some (gsn i)

theorem init_matches (replicas : List Nat) (slots : List (Nat × Nat)) (clientId shardId failures : Nat) (gsn : Nat → Nat) :
    (Caller.init clientId shardId failures).Matches replicas slots clientId gsn 0 := by
  have none : (Caller.init clientId shardId failures).acked = fun _ => 0 := by
    funext r
    rfl
  constructor
  · rw [none]
    exact Client.matched_init replicas _ gsn rfl rfl rfl
  · intro i heard
    rw [none, count_none] at heard
    exact absurd heard (Nat.lt_irrefl 0)

section

variable (replicas : List Nat) (slots : List (Nat × Nat)) (clientId : Nat) (p : Caller) (gsn : Nat → Nat) (delivered : Nat)
  (heard : p.Matches replicas slots clientId gsn delivered)

include heard

theorem matches_grow (more : List (Nat × Nat)) (grown : slots <+: more) : p.Matches replicas more clientId gsn delivered :=
  ⟨heard.matched, fun i some => prefix_access _ _ (gsns_grow _ _ clientId grown) _ _ (heard.known i some)⟩

theorem matches_congr (other : Caller) (sent : other.sent = p.sent) (acked : ∀ r ∈ replicas, other.acked r = p.acked r)
    (failures : other.loop.failures = p.loop.failures) (latest : other.loop.latestGsn = p.loop.latestGsn)
    (outstanding : other.loop.outstanding = p.loop.outstanding) (stored : other.loop.stored = p.loop.stored) :
    other.Matches replicas slots clientId gsn delivered := by
  have same : ∀ i, count replicas other.acked i = count replicas p.acked i := fun i => count_congr replicas _ _ i acked
  have before := Client.matched_congr _ _ _ _ _ other.loop _ heard.matched failures latest outstanding stored
  rw [← sent] at before
  constructor
  · exact Client.matched_progress _ _ _ _ _ _ _ before acked
  · simp only [same, sent]
    exact heard.known

theorem send_matches (steady : p.Steady replicas clientId) (now : Nat) :
    (p.send now).Matches replicas slots clientId gsn delivered := by
  obtain nothing | ⟨message, response, loop, result, running, _, _, _, _, _, _, _, _, _, failures, latest, stored, outstanding⟩ :=
    caller_send_cases p now
  · rw [nothing]
    exact heard
  · rw [result]
    have bounded : ∀ r ∈ replicas, p.heard r ≤ p.sent.length := by
      intro r member
      exact Nat.le_trans (steady.heard r member) ((taken_bound replicas clientId p steady r member).2.1 running)
    have same : ∀ r ∈ replicas, min (p.heard r) (p.sent ++ [(message, response)]).length = p.acked r := by
      intro r member
      have bound := bounded r member
      rw [Caller.acked, List.length_append]
      omega
    have extended := Client.matched_send _ _ _ _ _ loop _ response heard.matched failures latest outstanding stored
    constructor
    · change Client.Matched replicas (fun r => min (p.heard r) (p.sent ++ [(message, response)]).length)
        ((p.sent ++ [(message, response)]).map Prod.snd) gsn loop delivered
      rw [List.map_append]
      exact Client.matched_progress _ _ _ _ _ _ _ extended same
    · intro i some
      change 0 < count replicas (fun r => min (p.heard r) (p.sent ++ [(message, response)]).length) i at some
      rw [count_congr replicas _ _ i same] at some
      have inside : i < (p.sent.map Prod.fst).length := by
        by_contra beyond
        rw [List.length_map] at beyond
        have none := Client.matched_beyond _ _ _ _ _ _ heard.matched i (by rw [List.length_map]; omega)
        omega
      change (gsns slots clientId)[rankOf ((p.sent ++ [(message, response)]).map Prod.fst) i]? = _
      rw [List.map_append, rank_of_append _ _ _ inside]
      exact heard.known i some

theorem ack_matches (nodup : replicas.Nodup) (increasing : (gsns slots clientId).Pairwise (· < ·)) (r replicaId value : Nat)
    (member : r ∈ replicas) (pending : p.heard r < p.sent.length)
    (named : (gsns slots clientId)[rankOf (p.sent.map Prod.fst) (p.heard r)]? = some value) (small : value < uint64Max) :
    ∃ gsn' delivered', (p.reply r (.insertAck ⟨replicaId, value⟩)).Matches replicas slots clientId gsn' delivered' := by
  have index : p.acked r = p.heard r := by
    rw [Caller.acked]
    omega
  have inside : p.heard r < (p.sent.map Prod.fst).length := by rwa [List.length_map]
  have above : ∀ i, i < p.acked r → gsn i < value := by
    intro i less
    have first := heard.known i (count_pos _ _ _ r member less)
    obtain ⟨bound, least⟩ := List.getElem?_eq_some_iff.mp first
    obtain ⟨limit, most⟩ := List.getElem?_eq_some_iff.mp named
    rw [← least, ← most]
    exact List.pairwise_iff_getElem.mp increasing _ _ bound limit (rank_of_increasing _ _ _ (index ▸ less) inside)
  have agrees : 0 < count replicas p.acked (p.acked r) → value = gsn (p.acked r) := by
    intro some
    have known := heard.known _ some
    rw [index] at known ⊢
    exact Option.some.inj (named.symm.trans known)
  obtain ⟨delivered', matched⟩ := Client.ack_matched replicas p.acked _ gsn p.loop delivered r replicaId value nodup heard.matched member
    (by rwa [index, List.length_map]) agrees above small
  have moved : (p.reply r (.insertAck ⟨replicaId, value⟩)).acked = advance p.acked r := by
    funext other
    change min (Function.update p.heard r (p.heard r + 1) other) p.sent.length = advance p.acked r other
    by_cases same : other = r
    · subst same
      rw [Function.update_self, advance, Function.update_self, index]
      omega
    · rw [Function.update_of_ne same, advance, Function.update_of_ne same]
      rfl
  refine ⟨Function.update gsn (p.acked r) value, delivered', ?_, ?_⟩
  · rw [moved]
    exact matched
  · intro i some
    rw [moved] at some
    change (gsns slots clientId)[rankOf (p.sent.map Prod.fst) i]? = _
    by_cases same : i = p.acked r
    · subst same
      rw [Function.update_self, index]
      exact named
    · rw [Function.update_of_ne same]
      cases Client.heard_advance replicas p.acked r i nodup member some with
      | inl old => exact heard.known i old
      | inr new => exact absurd new same

theorem finished_matches (r shardId : Nat) (last : p.heard r = p.sent.length) :
    (p.reply r (.storageFinished shardId r)).Matches replicas slots clientId gsn delivered := by
  have same : ∀ other ∈ replicas, (p.reply r (.storageFinished shardId r)).acked other = p.acked other := by
    intro other _
    change min (Function.update p.heard r (p.heard r + 1) other) p.sent.length = min (p.heard other) p.sent.length
    by_cases mine : other = r
    · subst mine
      rw [Function.update_self]
      omega
    · rw [Function.update_of_ne mine]
  refine matches_congr replicas slots clientId p gsn delivered heard _ rfl same ?_ ?_ ?_ ?_
  all_goals
    simp only [Caller.reply, Client.Loop.storageFinished]
    split
    · rfl
    · rfl

end

end ZipLog.System
