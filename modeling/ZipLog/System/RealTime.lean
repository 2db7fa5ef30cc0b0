import ZipLog.System.Integrity

set_option autoImplicit false

namespace ZipLog.System

open Storage

-- The slot of the insert that a server is to take next.
theorem insert_slot (replicas : Nat → List Nat) (s next : Cluster) (history : Nat → List StorageControl) (clientId r : Nat) (p : Caller)
    (req : StorageInsert) (beyond : Bytes) (bound : Bound replicas s history clientId p) (calm : Calm replicas s history)
    (access : (p.outbox r)[p.taken r]? = some (.insert req))
    (stepped : s.step (.insert (p.loop.shardId, r) req beyond) = some next) :
    r ∈ replicas p.loop.shardId ∧ p.taken r < p.sent.length ∧ ∃ server gsn,
      (s.servers (p.loop.shardId, r)).storageInsert req beyond = .ok (server, some ⟨r, gsn⟩) ∧
      (gsns (slotsIn (history p.loop.shardId)) clientId)[rankOf (p.sent.map Prod.fst) (p.taken r)]? = some gsn := by
  have member : r ∈ replicas p.loop.shardId := by
    apply serves_member replicas s history calm (p.loop.shardId, r)
    simp only [Cluster.step] at stepped
    split at stepped
    · rename_i enabled
      exact enabled.1
    · cases stepped
  cases request_cases _ clientId p bound.steady r _ member access with
  | inr last => cases last.2
  | inl insert =>
      obtain ⟨item, found, same⟩ := insert
      cases same
      obtain ⟨positive, name, joined, open_⟩ := insert_ready replicas s history clientId p bound calm r item member found
      obtain ⟨server, gsn, _, ran, _, _, _, _, _, value⟩ :=
        calm_insert replicas s history calm (p.loop.shardId, r) item.1 beyond next positive joined open_ stepped
      have taking : (p.sent.map Prod.fst).take (p.taken r) ++ [item.1] = (p.sent.map Prod.fst).take (p.taken r + 1) := by
        rw [List.take_add_one, List.getElem?_map, found, Option.map_some, Option.toList_some]
      rw [name, (bound.served r member).received, taking] at value
      exact ⟨member, (List.getElem?_eq_some_iff.mp found).1, server, gsn, ran, prefix_access _ _ (gsns_grow _ _ clientId
        (slots_in_grow _ _ (seen_history replicas s history _ r calm.ordered member))) _ _ value⟩

-- A slot that has been handed over belongs to an insert that was sent before.
theorem handed_before (replicas : Nat → List Nat) (s now : Service) (history after : Nat → List StorageControl)
    (inv : s.Inv replicas history) (later : now.Inv replicas after) (extended : Extends s now) (entry : SubscriberLogEntry)
    (genuine : Genuine replicas s entry) (clientId turn : Nat) (caller : Caller) (present : now.clients clientId = some caller)
    (inside : turn < caller.sent.length)
    (fresh : ∀ before, s.clients clientId = some before → before.sent.length ≤ turn)
    (slot : (gsns (slotsIn (after caller.loop.shardId)) clientId)[rankOf (caller.sent.map Prod.fst) turn]? = some entry.gsn) : False := by
  obtain ⟨r, member, rank, found, fill⟩ := genuine
  have grown := prefix_access _ _ (gsns_grow _ _ _ (slots_in_grow _ _ (extended.seen _))) _ _ found
  have whole := genuine_history replicas now after later entry r rank member grown
  obtain ⟨shard, owner, ranks⟩ := slot_unique replicas now.cluster after later.calm.ordered _ _ entry.clientId clientId _ _ entry.gsn whole slot
  obtain ⟨req, reach⟩ : ∃ req, (caller.sent.map Prod.fst)[turn]? = some req :=
    ⟨_, List.getElem?_eq_getElem (by rwa [List.length_map])⟩
  have least := (rank_of_access _ turn req reach).1
  cases present' : s.clients clientId with
  | none =>
      -- A client that had not joined had sent nothing.
      cases fill with
      | inl data =>
          rw [owner, (inv.fresh clientId present').received] at data
          cases data
      | inr closed =>
          obtain ⟨_, p, joined, _⟩ := closed
          rw [owner, present'] at joined
          cases joined
  | some before =>
      have early := fresh before present'
      obtain ⟨same, now_there, home, sent, kept⟩ := extended.clients clientId before present'
      rw [present] at now_there
      cases now_there
      cases fill with
      | inl data =>
          have bound := inv.bound clientId before present'
          rw [owner, shard, home, (bound.served r (home ▸ shard ▸ member)).received] at data
          have limit := (List.getElem?_eq_some_iff.mp data).1
          have all := (filled_by_grows _ _ (List.take_prefix (before.taken r) (before.sent.map Prod.fst))).length_le
          have first : filledBy (before.sent.map Prod.fst) <+: filledBy ((caller.sent.map Prod.fst).take turn) := by
            apply filled_by_grows
            apply List.prefix_take_iff.mpr
            exact ⟨sent.map Prod.fst, by rwa [List.length_map]⟩
          have short := first.length_le
          omega
      | inr closed =>
          obtain ⟨_, p, joined, stopped, _⟩ := closed
          rw [owner, present'] at joined
          cases joined
          have none := (kept stopped).2
          rw [none] at inside
          omega

-- The main result. After s, in which the subscriber has taken entry, the server
-- handles an insert that was not on its link in s.
theorem real_time_order (config : Config) (nodup : ∀ shard, (config.replicas shard).Nodup) (earlier later : List Action)
    (s now after : Deployment) (ran : Machine.run (Deployment.step config) (Deployment.init config) earlier = some s)
    (continued : Machine.run (Deployment.step config) s later = some now) (subscriberId : Nat) (reader : Reader)
    (subscribed : s.readers subscriberId = some reader) (single : reader.applicationThreads = 1) (index : Nat) (entry : SubscriberLogEntry)
    (handed : (index, entry) ∈ reader.taken) (clientId replica : Nat) (caller : Caller)
    (present : now.service.clients clientId = some caller) (req : StorageInsert) (beyond : Bytes)
    (access : (caller.outbox replica)[caller.taken replica]? = some (.insert req))
    (afterwards : ∀ before, s.service.clients clientId = some before → (before.outbox replica).length ≤ caller.taken replica)
    (stepped : now.step config (.service (.serve clientId replica beyond)) = some after) :
    ∃ server ack, (now.service.cluster.servers (caller.loop.shardId, replica)).storageInsert req beyond = .ok (server, some ack) ∧
      entry.gsn < ack.gsn := by
  obtain ⟨history, inv⟩ := deployment_run config nodup earlier s ran
  obtain ⟨final, good, _, extended⟩ := deployment_extends config s history inv nodup later now continued
  have bound := good.service.bound clientId caller present
  obtain ⟨service, served, _⟩ := Option.map_eq_some_iff.mp stepped
  simp only [Service.step, present, access] at served
  obtain ⟨cluster, moved, _⟩ := Option.map_eq_some_iff.mp served
  obtain ⟨member, inside, server, gsn, inserted, slot⟩ := insert_slot config.replicas now.service.cluster cluster final clientId replica caller
    req beyond bound good.service.calm access moved
  refine ⟨server, _, inserted, ?_⟩
  by_contra small
  obtain ⟨next, _, taken, complete⟩ := (inv.readers subscriberId reader subscribed).order single
  have below := taken (index, entry) handed
  simp only at small below
  obtain ⟨other, stored, same⟩ := complete gsn (by omega)
  have genuine := (inv.readers subscriberId reader subscribed).stored other stored
  refine handed_before config.replicas s.service now.service history final inv.service good.service extended other genuine clientId
    (caller.taken replica) caller present inside ?_ (by rw [same]; exact slot)
  intro before joined
  obtain ⟨_, there, home, _⟩ := extended.clients clientId before joined
  rw [present] at there
  cases there
  obtain ⟨bye, _, outbox⟩ := (inv.service.bound clientId before joined).steady.outbox
  have limit := afterwards before joined
  rw [outbox replica (home ▸ member), List.length_append, List.length_map] at limit
  omega

-- The client of the run above sends a second request after the first was taken.
def secondRequest : List Action := [.service (.enqueue 7 [4] 41), .service (.send 7 9000000)]

theorem real_time_order_second_request : ∃ s now reader caller server ack,
    Machine.run (Deployment.step twoReplicas) (Deployment.init twoReplicas) oneRequest = some s ∧
    Machine.run (Deployment.step twoReplicas) s secondRequest = some now ∧
    s.readers 5 = some reader ∧ now.service.clients 7 = some caller ∧
    reader.taken.map (fun item => item.2.gsn) = [0] ∧
    (now.service.cluster.servers (caller.loop.shardId, 1)).storageInsert ⟨7, 1, [4]⟩ [] = .ok (server, some ack) ∧ 0 < ack.gsn := by
  have enabled : ((Machine.run (Deployment.step twoReplicas) (Deployment.init twoReplicas) oneRequest).bind (fun s =>
      (Machine.run (Deployment.step twoReplicas) s secondRequest).bind (fun now =>
        (s.readers 5).bind (fun reader => (now.service.clients 7).bind (fun caller => (s.service.clients 7).map (fun before =>
          ((reader.applicationThreads, reader.taken), (caller.outbox 1)[caller.taken 1]?,
            decide ((before.outbox 1).length ≤ caller.taken 1),
            (now.step twoReplicas (.service (.serve 7 1 []))).isSome))))))) =
      some ((1, [(0, ⟨2, 0, 0, 7, 0, [1, 2, 3]⟩)]), some (.insert ⟨7, 1, [4]⟩), true, true) := by decide +kernel
  obtain ⟨s, ran, enabled⟩ := Option.bind_eq_some_iff.mp enabled
  obtain ⟨now, continued, enabled⟩ := Option.bind_eq_some_iff.mp enabled
  obtain ⟨reader, subscribed, enabled⟩ := Option.bind_eq_some_iff.mp enabled
  obtain ⟨caller, present, enabled⟩ := Option.bind_eq_some_iff.mp enabled
  obtain ⟨before, joined, enabled⟩ := Option.map_eq_some_iff.mp enabled
  obtain ⟨first, access, limit, serves⟩ : _ ∧ _ ∧ _ ∧ _ := by simpa only [Prod.mk.injEq] using enabled
  obtain ⟨after, stepped⟩ := Option.isSome_iff_exists.mp serves
  have limit' : ∀ before, s.service.clients 7 = some before → (before.outbox 1).length ≤ caller.taken 1 := by
    intro other same
    rw [joined] at same
    cases same
    exact of_decide_eq_true limit
  obtain ⟨server, ack, inserted, less⟩ := real_time_order twoReplicas (fun _ => by simp [twoReplicas]) oneRequest secondRequest s now after ran
    continued 5 reader subscribed first.1 0 ⟨2, 0, 0, 7, 0, [1, 2, 3]⟩ (by rw [first.2]; simp) 7 1 caller present ⟨7, 1, [4]⟩ [] access
    limit' stepped
  exact ⟨s, now, reader, caller, server, ack, ran, continued, subscribed, present, by rw [first.2]; rfl, inserted, less⟩

end ZipLog.System
