import ZipLog.System.Durability

set_option autoImplicit false

namespace ZipLog.System

open Storage Quorum

theorem range_filter_map {α β : Type} (items : List α) (f : α → Option β) (count : Nat) (reach : count ≤ items.length) :
    (List.range count).filterMap (fun k => items[k]?.bind f) = (items.take count).filterMap f := by
  induction count with
  | zero => rfl
  | succ count ih =>
      have here : items[count]? = some items[count] := List.getElem?_eq_getElem reach
      rw [List.range_succ, List.filterMap_append, ih (by omega), List.take_add_one, here, Option.toList_some, List.filterMap_append]
      congr 1
      rw [List.filterMap_cons, List.filterMap_cons, here, Option.bind_some]
      rfl

theorem carried_responses (sent : List (StorageInsert × Option Nat)) : (carried sent).map Prod.snd = (sent.map Prod.snd).filterMap id := by
  rw [carried, List.map_filterMap, List.filterMap_map]
  congr 1
  funext item
  obtain ⟨insert, answer⟩ := item
  cases answer with
  | none => rfl
  | some response => rfl

-- A request is queued, outstanding or answered; no step loses one, makes one up
-- or passes another one over.
theorem responses_in_order (replicas : Nat → List Nat) (s : Service) (history : Nat → List StorageControl) (inv : s.Inv replicas history)
    (clientId : Nat) (caller : Caller) (present : s.clients clientId = some caller) :
    caller.requested.map Prod.snd = caller.loop.stored.map Prod.fst ++ (caller.loop.outstanding.filterMap Client.Outstanding.response ++
      caller.loop.requests.map Prod.snd) := by
  have bound := inv.bound clientId caller present
  obtain ⟨value, delivered, heard⟩ := bound.heard
  have reach := Client.matched_reach _ _ _ _ _ _ heard.matched
  have answered : caller.loop.stored.map Prod.fst = ((caller.sent.map Prod.snd).take delivered).filterMap id := by
    rw [heard.matched.stored, List.map_filterMap, ← range_filter_map _ id delivered reach]
    congr 1
    funext k
    cases (caller.sent.map Prod.snd)[k]? with
    | none => rfl
    | some response =>
        cases response with
        | none => rfl
        | some response => rfl
  have waiting : caller.loop.outstanding.map Client.Outstanding.response = (caller.sent.map Prod.snd).drop delivered := by
    apply List.ext_getElem?
    intro index
    rw [List.getElem?_map, heard.matched.outstanding, List.getElem?_drop, Option.map_map]
    cases (caller.sent.map Prod.snd)[delivered + index]? with
    | none => rfl
    | some response => rfl
  have pending : caller.loop.outstanding.filterMap Client.Outstanding.response = ((caller.sent.map Prod.snd).drop delivered).filterMap id := by
    rw [← waiting, List.filterMap_map]
    rfl
  rw [bound.steady.requested, List.map_append, carried_responses, answered, pending, ← List.append_assoc, ← List.filterMap_append,
    List.take_append_drop]

-- Every replica of the client has handled what was sent to it, and the client
-- all of its replies.
def Service.Drained (s : Service) (replicas : List Nat) (clientId : Nat) (caller : Caller) : Prop :=
  ∀ r ∈ replicas, caller.taken r = (caller.outbox r).length ∧
    caller.heard r = (s.cluster.replies (caller.loop.shardId, r) clientId).length

theorem drained_outstanding (replicas : Nat → List Nat) (s : Service) (history : Nat → List StorageControl) (inv : s.Inv replicas history)
    (clientId : Nat) (caller : Caller) (present : s.clients clientId = some caller)
    (few : caller.loop.failures < (replicas caller.loop.shardId).length)
    (drained : s.Drained (replicas caller.loop.shardId) clientId caller) : caller.loop.outstanding = [] := by
  have bound := inv.bound clientId caller present
  obtain ⟨value, delivered, heard⟩ := bound.heard
  obtain ⟨bye, _, outbox⟩ := bound.steady.outbox
  have all : ∀ r ∈ replicas caller.loop.shardId, caller.sent.length ≤ caller.acked r := by
    intro r member
    obtain ⟨taken, replies⟩ := drained r member
    have sent := congrArg List.length (outbox r member)
    rw [List.length_append, List.length_map] at sent
    rw [(bound.served r member).count] at replies
    rw [Caller.acked]
    omega
  have reach := Client.matched_reach _ _ _ _ _ _ heard.matched
  rw [List.length_map] at reach
  have whole : delivered = caller.sent.length := by
    by_contra short
    have everyone : count (replicas caller.loop.shardId) caller.acked delivered = (replicas caller.loop.shardId).length := by
      apply List.countP_eq_length.mpr
      intro r member
      have ahead := all r member
      exact decide_eq_true (by omega)
    have more := (heard.matched.quorum delivered).mpr (by rw [everyone]; exact few)
    exact Nat.lt_irrefl _ more
  apply List.eq_nil_of_length_eq_zero
  by_contra some
  have first := heard.matched.outstanding 0
  rw [Nat.add_zero, List.getElem?_eq_none (l := caller.sent.map Prod.snd) (by rw [List.length_map, whole]), Option.map_none] at first
  have none := List.getElem?_eq_none_iff.mp first
  omega

end ZipLog.System
