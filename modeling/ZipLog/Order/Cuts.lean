import ZipLog.Order.Moves

set_option autoImplicit false

namespace ZipLog.Order

-- The ORDER_CLIENT_CUT messages of a shard, in the order of their arrival.
def State.recordCuts (state : State) (clientId shardId : Nat) (cutOf : Nat → Nat) (arrivals : List Nat) : State :=
  arrivals.foldl (fun state replicaId => (state.clientCut ⟨clientId, shardId, replicaId, cutOf replicaId⟩).1) state

-- 2^64 - 1 stands for a server that has received nothing.
def lowestCut (cuts : List Nat) : Nat := if uint64Max ∈ cuts then uint64Max else cuts.min?.getD uint64Max

-- What is to be sent when all cuts are there.
def State.cutDecision (state : State) (clientId shardId : Nat) (cuts : List Nat) : List Sent :=
  if ∀ cut ∈ cuts, ∀ other ∈ cuts, cut = other then state.broadcast shardId (.clientFinalize clientId)
  else state.broadcast shardId (.clientCut ⟨clientId, lowestCut cuts⟩)

-- std::map keeps its keys in order.
theorem insert_key_sorted {ν : Type} (key : Nat) (value : ν) (items : List (Nat × ν)) (sorted : items.Pairwise (fun first second => first.1 < second.1))
    (fresh : key ∉ items.map Prod.fst) : (insertKey key value items).Pairwise (fun first second => first.1 < second.1) := by
  induction items with
  | nil => exact List.pairwise_singleton _ _
  | cons head rest ih =>
      obtain ⟨least, tail⟩ := List.pairwise_cons.mp sorted
      rw [List.map_cons, List.mem_cons, not_or] at fresh
      unfold insertKey
      split
      · rename_i before
        refine List.pairwise_cons.mpr ⟨?_, sorted⟩
        intro item member
        cases List.mem_cons.mp member with
        | inl same =>
            rw [same]
            exact before
        | inr inside => exact Nat.lt_trans before (least item inside)
      · rename_i after
        refine List.pairwise_cons.mpr ⟨?_, ih tail fresh.2⟩
        intro item member
        cases List.mem_cons.mp ((insert_key_perm key value rest).mem_iff.mp member) with
        | inl same =>
            rw [same]
            exact Nat.lt_of_le_of_ne (Nat.le_of_not_lt after) (fun equal => fresh.1 equal.symm)
        | inr inside => exact least item inside

theorem head_smallest (items : List (Nat × Nat)) (sorted : items.Pairwise (fun first second => first.1 < second.1)) (item : Nat × Nat)
    (member : item ∈ items) (smallest : ∀ other ∈ items, item.1 ≤ other.1) : items.head? = some item := by
  cases items with
  | nil => cases member
  | cons head rest =>
      cases List.mem_cons.mp member with
      | inl same => rw [same, List.head?_cons]
      | inr inside =>
          have less := (List.pairwise_cons.mp sorted).1 item inside
          have least := smallest head List.mem_cons_self
          omega

theorem last_largest (items : List (Nat × Nat)) (sorted : items.Pairwise (fun first second => first.1 < second.1)) (item : Nat × Nat)
    (member : item ∈ items) (largest : ∀ other ∈ items, other.1 ≤ item.1) : items.getLast? = some item := by
  rw [← List.head?_reverse]
  have backwards : items.reverse.Pairwise (fun first second => second.1 < first.1) := List.pairwise_reverse.mpr sorted
  have inside : item ∈ items.reverse := List.mem_reverse.mpr member
  cases reversed : items.reverse with
  | nil =>
      rw [reversed] at inside
      cases inside
  | cons head rest =>
      rw [reversed] at inside backwards
      cases List.mem_cons.mp inside with
      | inl same => rw [same, List.head?_cons]
      | inr later =>
          have less := (List.pairwise_cons.mp backwards).1 item later
          have most := largest head (List.mem_reverse.mp (by rw [reversed]; exact List.mem_cons_self))
          omega

-- The handler on a cut that it accepts.
theorem client_cut_accepted (state : State) (cut : OrderClientCut) (client : ClientState)
    (present : state.clientState cut.clientId = some client) (failed : client.failed = true) (open_ : client.requested = false)
    (home : client.shardId = cut.shardId) (absent : cut.replicaId ∉ client.cuts.map Prod.fst) :
    state.clientCut cut = if (state.withCut client cut).1.cuts.length = (state.storageQueues client.shardId).length then
      (if minCut (state.withCut client cut).1.cuts = maxCut (state.withCut client cut).1.cuts then
        (state.withCut client cut).2.finalized cut.clientId (state.withCut client cut).1
      else (state.withCut client cut).2.requested cut.clientId (state.withCut client cut).1 (minCut (state.withCut client cut).1.cuts))
      else ((state.withCut client cut).2, []) := by
  have wrong : ¬ (client.shardId ≠ cut.shardId ∨ cut.replicaId ∈ client.cuts.map Prod.fst) := by
    rw [not_or]
    exact ⟨fun different => different home, absent⟩
  unfold State.clientCut
  rw [present]
  dsimp only
  rw [if_neg (by rw [failed]; exact Bool.true_eq_false.mp), if_neg wrong]
  by_cases complete : (state.withCut client cut).1.cuts.length = (state.storageQueues client.shardId).length
  · rw [if_pos complete]
    exact if_pos ⟨open_, complete⟩
  · rw [if_neg complete]
    exact if_neg (fun both => complete both.2)

theorem record_cuts_snoc (state : State) (clientId shardId : Nat) (cutOf : Nat → Nat) (arrivals : List Nat) (last : Nat) :
    state.recordCuts clientId shardId cutOf (arrivals ++ [last]) =
      ((state.recordCuts clientId shardId cutOf arrivals).clientCut ⟨clientId, shardId, last, cutOf last⟩).1 := by
  simp only [State.recordCuts, List.foldl_append, List.foldl_cons, List.foldl_nil]

theorem cut_absent (cutOf : Nat → Nat) (arrivals : List Nat) (last : Nat) (cuts : List (Nat × Nat)) (nodup : (arrivals ++ [last]).Nodup)
    (perm : cuts.Perm (arrivals.map (fun r => (r, cutOf r)))) : last ∉ cuts.map Prod.fst := by
  intro member
  have inside := (perm.map Prod.fst).mem_iff.mp member
  rw [List.map_map] at inside
  exact (List.nodup_append.mp nodup).2.2 last (by simpa using inside) last (List.mem_singleton_self last) rfl

section

variable (state : State) (clientId : Nat) (client : ClientState) (cutOf : Nat → Nat)
  (present : state.clientState clientId = some client) (failed : client.failed = true) (open_ : client.requested = false)
  (none : client.cuts = [])

include present failed open_ none

-- Before the last message the cuts are only noted.
theorem record_cuts (arrivals : List Nat) (nodup : arrivals.Nodup)
    (incomplete : arrivals.length < (state.storageQueues client.shardId).length) :
    ∃ cuts, (state.recordCuts clientId client.shardId cutOf arrivals).clientState clientId = some { client with cuts := cuts } ∧
      (state.recordCuts clientId client.shardId cutOf arrivals).storageQueues = state.storageQueues ∧
      cuts.Perm (arrivals.map (fun r => (r, cutOf r))) ∧ cuts.Pairwise (fun first second => first.1 < second.1) := by
  induction arrivals using List.reverseRecOn with
  | nil => exact ⟨[], by rw [← none]; exact present, rfl, List.Perm.refl _, List.Pairwise.nil⟩
  | append_singleton arrivals last ih =>
      rw [List.length_append, List.length_singleton] at incomplete
      obtain ⟨cuts, there, queues, perm, sorted⟩ := ih (List.nodup_append.mp nodup).1 (by omega)
      have absent := cut_absent cutOf arrivals last cuts nodup perm
      have more := insert_key_perm last (cutOf last) cuts
      have few : ¬ ((insertKey last (cutOf last) cuts).length =
          ((state.recordCuts clientId client.shardId cutOf arrivals).storageQueues client.shardId).length) := by
        rw [more.length_eq, List.length_cons, perm.length_eq, List.length_map, queues]
        omega
      have step : state.recordCuts clientId client.shardId cutOf (arrivals ++ [last]) =
          ((state.recordCuts clientId client.shardId cutOf arrivals).withCut { client with cuts := cuts }
            ⟨clientId, client.shardId, last, cutOf last⟩).2 := by
        rw [record_cuts_snoc,
          client_cut_accepted _ ⟨clientId, client.shardId, last, cutOf last⟩ { client with cuts := cuts } there failed open_ rfl absent]
        exact congrArg Prod.fst (if_neg few)
      refine ⟨insertKey last (cutOf last) cuts, ?_, ?_, ?_, insert_key_sorted last (cutOf last) cuts sorted absent⟩
      · rw [step]
        exact set_client_state_same _ _ _
      · rw [step]
        exact queues
      · refine more.trans ?_
        rw [List.map_append, List.map_singleton]
        exact (perm.cons _).trans (List.perm_append_singleton _ _).symm

-- The last message.
theorem last_cut (arrivals : List Nat) (final : Nat) (nodup : (arrivals ++ [final]).Nodup)
    (complete : (arrivals ++ [final]).length = (state.storageQueues client.shardId).length) :
    ∃ cuts, cuts.Perm ((arrivals ++ [final]).map (fun r => (r, cutOf r))) ∧ cuts.Pairwise (fun first second => first.1 < second.1) ∧
      ((state.recordCuts clientId client.shardId cutOf arrivals).clientCut ⟨clientId, client.shardId, final, cutOf final⟩).2 =
        if minCut cuts = maxCut cuts then state.broadcast client.shardId (.clientFinalize clientId)
        else state.broadcast client.shardId (.clientCut ⟨clientId, minCut cuts⟩) := by
  rw [List.length_append, List.length_singleton] at complete
  obtain ⟨cuts, there, queues, perm, sorted⟩ := record_cuts state clientId client cutOf present failed open_ none arrivals
    (List.nodup_append.mp nodup).1 (by omega)
  have absent := cut_absent cutOf arrivals final cuts nodup perm
  have more := insert_key_perm final (cutOf final) cuts
  refine ⟨insertKey final (cutOf final) cuts, ?_, insert_key_sorted final (cutOf final) cuts sorted absent, ?_⟩
  · refine more.trans ?_
    rw [List.map_append, List.map_singleton]
    exact (perm.cons _).trans (List.perm_append_singleton _ _).symm
  · have all : (insertKey final (cutOf final) cuts).length =
        ((state.recordCuts clientId client.shardId cutOf arrivals).storageQueues client.shardId).length := by
      rw [more.length_eq, List.length_cons, perm.length_eq, List.length_map, queues]
      exact complete
    have cast : ∀ message, (state.recordCuts clientId client.shardId cutOf arrivals).broadcast client.shardId message =
        state.broadcast client.shardId message := by
      intro message
      rw [State.broadcast, State.broadcast, queues]
    have accepted := client_cut_accepted _ ⟨clientId, client.shardId, final, cutOf final⟩ { client with cuts := cuts } there failed
      open_ rfl absent
    rw [accepted.trans (if_pos all)]
    change (if minCut (insertKey final (cutOf final) cuts) = maxCut (insertKey final (cutOf final) cuts) then _ else _ :
      State × List Sent).2 = _
    split
    · rw [← cast]
      simp only [State.finalized, State.withCut, open_, Bool.false_eq_true, if_false, List.nil_append]
      rfl
    · rw [← cast]
      rfl

end

theorem lowest_cut_sentinel (cuts : List Nat) (some : uint64Max ∈ cuts) : lowestCut cuts = uint64Max := if_pos some

-- The cut that the code takes for the largest one.
theorem max_cut_plain (cuts : List (Nat × Nat)) (last : Nat × Nat) (ends : cuts.getLast? = some last)
    (plain : minCut cuts = last.2 ∨ last.2 ≠ uint64Max) : maxCut cuts = last.2 := by
  unfold maxCut
  rw [ends]
  dsimp only [Option.map_some, Option.getD_some]
  rw [if_neg]
  intro both
  cases plain with
  | inl same => exact both.1 same
  | inr other => exact other both.2

theorem broadcast_distinct (state : State) (shardId : Nat) (message other : StorageControl) (some : state.storageQueues shardId ≠ [])
    (same : state.broadcast shardId message = state.broadcast shardId other) : message = other := by
  rw [State.broadcast, State.broadcast] at same
  cases queues : state.storageQueues shardId with
  | nil => exact absurd queues some
  | cons head rest =>
      rw [queues, List.map_cons, List.map_cons] at same
      cases (List.cons.inj same).1
      rfl

-- What the handler does with the last cut is what it should do unless the
-- replica with the smallest ID is not behind all others, or the one with the
-- largest ID is as far behind while one in between is not.
theorem cut_decision_iff (state : State) (clientId : Nat) (client : ClientState) (cutOf : Nat → Nat)
    (present : state.clientState clientId = some client) (failed : client.failed = true) (open_ : client.requested = false)
    (none : client.cuts = []) (arrivals : List Nat) (final : Nat) (nodup : (arrivals ++ [final]).Nodup)
    (complete : (arrivals ++ [final]).length = (state.storageQueues client.shardId).length) (first last : Nat)
    (smallest : first ∈ arrivals ++ [final] ∧ ∀ r ∈ arrivals ++ [final], first ≤ r)
    (largest : last ∈ arrivals ++ [final] ∧ ∀ r ∈ arrivals ++ [final], r ≤ last) :
    ((state.recordCuts clientId client.shardId cutOf arrivals).clientCut ⟨clientId, client.shardId, final, cutOf final⟩).2 =
        state.cutDecision clientId client.shardId ((arrivals ++ [final]).map cutOf) ↔
      (∀ r ∈ arrivals ++ [final], cutOf r = cutOf first) ∨
        (cutOf first = lowestCut ((arrivals ++ [final]).map cutOf) ∧ cutOf last ≠ cutOf first) := by
  obtain ⟨cuts, perm, sorted, result⟩ := last_cut state clientId client cutOf present failed open_ none arrivals final nodup complete
  have keyed : ∀ item ∈ cuts, item.1 ∈ arrivals ++ [final] ∧ item.2 = cutOf item.1 := by
    intro item member
    obtain ⟨r, inside, same⟩ := List.mem_map.mp (perm.mem_iff.mp member)
    rw [← same]
    exact ⟨inside, rfl⟩
  have listed : ∀ r ∈ arrivals ++ [final], (r, cutOf r) ∈ cuts :=
    fun r member => perm.mem_iff.mpr (List.mem_map_of_mem (f := fun r => (r, cutOf r)) member)
  have head := head_smallest cuts sorted (first, cutOf first) (listed first smallest.1) (fun item member => smallest.2 _ (keyed item member).1)
  have back := last_largest cuts sorted (last, cutOf last) (listed last largest.1) (fun item member => largest.2 _ (keyed item member).1)
  have least : minCut cuts = cutOf first := by rw [minCut, head, Option.map_some, Option.getD_some]
  have some_queue : state.storageQueues client.shardId ≠ [] := by
    intro empty
    rw [empty, List.length_append, List.length_singleton, List.length_nil] at complete
    omega
  have equal_iff : (∀ cut ∈ (arrivals ++ [final]).map cutOf, ∀ other ∈ (arrivals ++ [final]).map cutOf, cut = other) ↔
      ∀ r ∈ arrivals ++ [final], cutOf r = cutOf first := by
    constructor
    · intro same r member
      exact same _ (List.mem_map_of_mem member) _ (List.mem_map_of_mem smallest.1)
    · intro same cut member other member'
      obtain ⟨r, inside, value⟩ := List.mem_map.mp member
      obtain ⟨r', inside', value'⟩ := List.mem_map.mp member'
      rw [← value, ← value', same r inside, same r' inside']
  rw [result, State.cutDecision, least]
  by_cases equal : ∀ r ∈ arrivals ++ [final], cutOf r = cutOf first
  · have top : maxCut cuts = cutOf last := max_cut_plain cuts (last, cutOf last) back (Or.inl (least.trans (equal last largest.1).symm))
    rw [if_pos (equal_iff.mpr equal), if_pos (by rw [top, equal last largest.1])]
    exact ⟨fun _ => Or.inl equal, fun _ => rfl⟩
  · rw [if_neg (fun same => equal (equal_iff.mp same))]
    constructor
    · intro sent
      right
      by_cases agree : cutOf first = maxCut cuts
      · rw [if_pos agree] at sent
        cases broadcast_distinct state client.shardId _ _ some_queue sent
      · rw [if_neg agree] at sent
        have cut := broadcast_distinct state client.shardId _ _ some_queue sent
        refine ⟨(StorageClientCut.mk.inj (StorageControl.clientCut.inj cut)).2, ?_⟩
        intro same
        exact agree (same.symm.trans (max_cut_plain cuts (last, cutOf last) back (Or.inl (least.trans same.symm))).symm)
    · intro cases_
      obtain ⟨lowest, apart⟩ : cutOf first = lowestCut ((arrivals ++ [final]).map cutOf) ∧ cutOf last ≠ cutOf first := by
        cases cases_ with
        | inl same => exact absurd same equal
        | inr other => exact other
      have plain : cutOf last ≠ uint64Max := by
        intro sentinel
        have lowered := lowest_cut_sentinel _ (sentinel ▸ List.mem_map_of_mem (f := cutOf) largest.1)
        exact apart (sentinel.trans (lowest.trans lowered).symm)
      have top : maxCut cuts = cutOf last := max_cut_plain cuts (last, cutOf last) back (Or.inr plain)
      rw [if_neg (by rw [top]; exact fun same => apart same.symm), lowest]

-- One shard with the given replicas, and client 7 marked as failed.
def failedClient (replicas : List Nat) : State :=
  { State.init 1 with
    storageQueues := Function.update (fun _ => []) 0 replicas
    clientState := Function.update (fun _ => none) 7 (some { ClientState.init 0 10 with failed := true }) }

theorem cut_decision_iff_two_replicas :
    (((failedClient [0, 1]).recordCuts 7 0 (fun r => 3 + 2 * r) [1]).clientCut ⟨7, 0, 0, 3⟩).2 =
      [.storage 0 0 (.clientCut ⟨7, 3⟩), .storage 0 1 (.clientCut ⟨7, 3⟩)] := by
  have decided := (cut_decision_iff (failedClient [0, 1]) 7 { ClientState.init 0 10 with failed := true } (fun r => 3 + 2 * r)
    rfl rfl rfl rfl [1] 0 (by decide) rfl 0 1 (by decide) (by decide)).mpr (Or.inr (by decide))
  exact decided.trans (by decide)

-- The second of three replicas is ahead, or the second of two has nothing: the
-- client is finalized either way. The first of two is ahead: the data is
-- requested from too high a GSN.
theorem cut_decision_wrong :
    (((failedClient [0, 1, 2]).recordCuts 7 0 (fun r => if r = 1 then 7 else 5) [0, 1]).clientCut ⟨7, 0, 2, 5⟩).2 ≠
        (failedClient [0, 1, 2]).cutDecision 7 0 [5, 7, 5] ∧
      (((failedClient [0, 1]).recordCuts 7 0 (fun r => if r = 1 then uint64Max else 5) [0]).clientCut ⟨7, 0, 1, uint64Max⟩).2 ≠
        (failedClient [0, 1]).cutDecision 7 0 [5, uint64Max] ∧
      (((failedClient [0, 1]).recordCuts 7 0 (fun r => if r = 1 then 5 else 7) [0]).clientCut ⟨7, 0, 1, 5⟩).2 ≠
        (failedClient [0, 1]).cutDecision 7 0 [7, 5] := by
  decide +kernel

end ZipLog.Order
