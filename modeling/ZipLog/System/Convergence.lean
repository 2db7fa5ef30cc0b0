import ZipLog.System.Recovery

set_option autoImplicit false

namespace ZipLog.System

open Storage

section

variable (replicas : Nat → List Nat)

-- No replica has to be rolled forward: what one replica has of a failed client
-- and another has not are no-ops.
def NoRollForward (s : Cluster) : Prop :=
  ∀ shard client, AllFrozen replicas s shard client → ∀ first ∈ replicas shard, ∀ second ∈ replicas shard, ∀ (k : Nat) req,
    (s.received (shard, first) client).length ≤ k → (s.received (shard, second) client)[k]? = some req → req.data = []

theorem no_roll_forward_before (s next : Cluster) (progress : Progresses s next) (rolled : NoRollForward replicas next) :
    NoRollForward replicas s := by
  intro shard client frozen first firstMember second secondMember k req beyond access
  have left := progress.halted (shard, first) client (frozen first firstMember)
  have right := progress.halted (shard, second) client (frozen second secondMember)
  refine rolled shard client (all_frozen_mono replicas s next progress shard client frozen) first firstMember second secondMember
    k req ?_ ?_
  · rw [left]
    exact beyond
  · rw [right]
    exact access

theorem payloads_of_no_ops (received : List StorageInsert) (empty : ∀ req ∈ received, req.data = []) :
    ∀ data ∈ filledBy received, data = [] := by
  intro data member
  obtain ⟨req, inside, found⟩ := List.mem_flatMap.mp member
  cases List.mem_append.mp found with
  | inl closed => exact List.eq_of_mem_replicate closed
  | inr last => rw [List.mem_singleton.mp last, empty req inside]

-- Two replicas differ in no-ops only, so a payload that one has the other has
-- at the same rank.
theorem payload_shared (s : Cluster) (inserts : Nat → List StorageInsert) (shard client first second rank : Nat) (data : Bytes)
    (prefixes : ∀ place client, s.received place client <+: inserts client) (rolled : NoRollForward replicas s)
    (frozen : AllFrozen replicas s shard client) (firstMember : first ∈ replicas shard) (secondMember : second ∈ replicas shard)
    (access : (filledBy (s.received (shard, second) client))[rank]? = some data) (nonempty : data ≠ []) :
    (filledBy (s.received (shard, first) client))[rank]? = some data := by
  rcases List.prefix_or_prefix_of_prefix (prefixes (shard, first) client) (prefixes (shard, second) client) with shorter | longer
  · obtain ⟨more, grown⟩ := shorter
    have empty : ∀ req ∈ more, req.data = [] := by
      intro req member
      obtain ⟨k, there⟩ := List.mem_iff_getElem?.mp member
      apply rolled shard client frozen first firstMember second secondMember ((s.received (shard, first) client).length + k) req
        (Nat.le_add_right _ _)
      rw [← grown, List.getElem?_append_right (Nat.le_add_right _ _), Nat.add_sub_cancel_left]
      exact there
    rw [← grown, filledBy, List.flatMap_append, ← filledBy, ← filledBy] at access
    rcases Nat.lt_or_ge rank (filledBy (s.received (shard, first) client)).length with inside | outside
    · rw [List.getElem?_append_left inside] at access
      exact access
    · rw [List.getElem?_append_right outside] at access
      exact absurd (payloads_of_no_ops more empty data (List.mem_of_getElem? access)) nonempty
  · exact prefix_access _ _ (filled_by_grows _ _ longer) rank data access

theorem gsns_shared (slots others history : List (Nat × Nat)) (client rank gsn : Nat) (left : slots <+: history)
    (right : others <+: history) (access : (gsns others client)[rank]? = some gsn) (inside : rank < (gsns slots client).length) :
    (gsns slots client)[rank]? = some gsn := by
  have whole := prefix_access _ _ (gsns_grow _ _ client right) rank gsn access
  have here := prefix_access _ _ (gsns_grow _ _ client left) rank _ (List.getElem?_eq_getElem inside)
  rw [List.getElem?_eq_getElem inside]
  exact here.symm.trans whole

theorem patch_inside (s : Cluster) (inserts : Nat → List StorageInsert) (history : Nat → List StorageControl) (shard replica : Nat)
    (patch : StorageClientPatch) (rec : Recovering replicas s history)
    (prefixes : ∀ place client, s.received place client <+: inserts client) (rolled : NoRollForward replicas s)
    (member : replica ∈ replicas shard) (sent : .clientPatch patch ∈ history shard) :
    ∃ rank : Nat, (gsns (slotsIn (s.seen (shard, replica))) patch.clientId)[rank]? = some patch.gsn ∧
      rank < (filledBy (s.received (shard, replica) patch.clientId)).length := by
  obtain ⟨frozen, other, otherMember, rank, slot, fill, nonempty⟩ := rec.messages shard _ sent
  have shared := payload_shared replicas s inserts shard patch.clientId replica other rank patch.data prefixes rolled frozen member
    otherMember fill nonempty
  have inside := (List.getElem?_eq_some_iff.mp shared).1
  have bound := filled_bound (s.servers (shard, replica)) _ _ patch.clientId (rec.serving (shard, replica) member).follows.tracks
  rw [chain_length] at bound
  refine ⟨rank, ?_, inside⟩
  exact gsns_shared _ _ (slotsIn (history shard)) patch.clientId rank patch.gsn
    (slots_in_grow _ _ (seen_history replicas s history shard replica rec.ordered member))
    (slots_in_grow _ _ (seen_history replicas s history shard other rec.ordered otherMember)) slot (Nat.lt_of_lt_of_le inside bound)

section Servers

variable (inserts : Nat → List StorageInsert) (s : Cluster) (history : Nat → List StorageControl)
  (rec : Recovering replicas s history) (halting : s.Halting)

include rec halting

theorem control_recovering (next : Cluster) (place : Place) (beyond : Bytes) (member : place.2 ∈ replicas place.1)
    (prefixes : ∀ place client, s.received place client <+: inserts client) (rolled : NoRollForward replicas s)
    (stepped : s.step (.control place beyond) = some next) : Recovering replicas next history := by
  obtain ⟨-, message, pending, outcome⟩ := control_taken s next place beyond stepped
  obtain ⟨access, before, _⟩ := pending_seen s place message pending
  have link := rec.ordered.links place.1 place.2 member
  have serving := rec.serving place member
  have seen : s.seen place ++ [message] <+: history place.1 := link ▸ before
  obtain ⟨server, reports, ran, follows, shard, replica, reported, _⟩ := control_follows (s.servers place) (s.seen place)
    (s.received place) message beyond serving.follows ((rec.ordered.settled place.1).sublist seen.sublist) (by
      intro patch same
      subst same
      have sent : .clientPatch patch ∈ history place.1 := seen.subset (by simp)
      obtain ⟨rank, slot, inside⟩ := patch_inside replicas s inserts history place.1 place.2 patch rec prefixes rolled member sent
      have sorted : Increasing (slotsIn (s.seen place)) := (rec.ordered.increasing place.1).sublist
        (slots_in_grow _ _ ((List.prefix_append _ _).trans seen)).sublist
      exact patch_skipped (s.servers place) (s.seen place) (s.received place) patch beyond rank serving.follows sorted slot inside)
  obtain ⟨fault, failed, -⟩ | ⟨_, _, same, rfl⟩ := outcome
  · rw [ran] at failed
    cases failed
  rw [ran] at same
  cases same
  have progress := controlled_progresses s place server reports message beyond halting pending ran
  refine server_recovering replicas s _ progress history rec place rfl rfl rfl rfl ?_ ?_ ?_
  · intro other inside
    exact controlled_serving s place other server reports message (rec.serving other inside) pending ⟨shard, replica⟩ follows
  · intro other different
    exact (controlled_other s place other server reports different).2.2.2
  · intro _ report inside
    rw [(controlled_here s place server reports message pending).2.2.2] at inside
    cases List.mem_append.mp inside with
    | inl old => exact Or.inl old
    | inr new =>
        right
        have fact := reported report new
        cases report with
        | clientFreeze client => trivial
        | clientCut cut =>
            obtain ⟨same, shards, replicasSame⟩ := fact
            refine ⟨shards.trans serving.shard, replicasSame.trans serving.replica, ?_⟩
            rw [(controlled_here s place server reports message pending).2.1, same]
            simp
        | clientData data =>
            obtain ⟨_, shards, value⟩ := fact
            refine ⟨shards.trans serving.shard, ?_⟩
            cases value with
            | inl flush => exact Or.inl flush
            | inr recorded =>
                exact Or.inr (recorded_mono _ _ _ _ _ _ _ (slots_in_grow _ _ (progress.seen place))
                  (progress.received place data.clientId) recorded)

theorem insert_recovering (place : Place) (server : Server) (req : StorageInsert) (beyond : Bytes) (ack : ClientInsertAck)
    (positive : 1 ≤ req.numSlots) (member : place.2 ∈ replicas place.1)
    (ran : (s.servers place).storageInsert req beyond = .ok (server, some ack)) :
    Recovering replicas (s.answered place req.clientId server [req] [.insertAck ack]) history := by
  obtain ⟨joined, states⟩ := insert_answered (s.servers place) server req beyond ack ran
  have open_ : .clientFinalize req.clientId ∉ s.seen place := by
    intro final
    have sent := (seen_history replicas s history place.1 place.2 rec.ordered member).subset final
    have frozen := rec.messages place.1 _ sent place.2 member
    rw [halting.stopped place req.clientId frozen] at joined
    cases joined
  refine server_recovering replicas s _ ?_ history rec place rfl rfl rfl rfl ?_ (fun other _ => rfl) (fun _ report old => Or.inl old)
  · exact answered_progresses s place req.clientId server [req] [.insertAck ack] halting
      (fun client gone => (states client).1.trans gone) (fun _ => joined)
  · intro other inside
    exact insert_serving s place other server req beyond ack (rec.serving other inside) positive joined open_ ran

end Servers

end

-- The moves of the order service and of a poll that finds a client gone.
section Moves

variable (replicas : Nat → List Nat) (s : Cluster) (history : Nat → List StorageControl) (rec : Recovering replicas s history)

include rec

theorem joined_recovering (clientId shardId numSlots : Nat) (fresh : s.homes clientId = none)
    (progress : Progresses s (s.joined clientId shardId numSlots)) : Recovering replicas (s.joined clientId shardId numSlots) history := by
  refine order_recovering replicas s _ progress history history rec
    (joined_ordered replicas s history clientId shardId numSlots rec.ordered fresh) rfl rfl ?_ ?_ ?_
  · intro place member
    exact serving_congr s _ place (rec.serving place member) rfl rfl rfl (List.prefix_append _ _)
  · intro client state present
    change (s.order.addClient clientId shardId numSlots).1.clientState client = some state at present
    obtain refused | ⟨_, accepted⟩ := add_client_cases s.order clientId shardId numSlots
    · rw [refused] at present
      exact client_ok_mono replicas s _ progress client state (rec.clients client state present)
    · rw [accepted] at present
      by_cases mine : client = clientId
      · subst mine
        rw [Order.set_client_state_same] at present
        cases present
        exact ⟨fun asked => absurd asked Bool.false_ne_true, List.nodup_nil, fun replica member => absurd member List.not_mem_nil,
          fun item member => absurd member List.not_mem_nil⟩
      · rw [Order.set_client_state_other _ _ _ _ mine] at present
        exact client_ok_mono replicas s _ progress client state (rec.clients client state present)
  · intro shard message member
    exact message_ok_mono replicas s _ progress shard message (rec.messages shard message member)

theorem epoch_recovering (nodup : ∀ shard, (replicas shard).Nodup) (now : Nat) (fits : s.order.Fits)
    (progress : Progresses s (s.ordered (s.order.epoch now))) : ∃ after, Recovering replicas (s.ordered (s.order.epoch now)) after := by
  refine ⟨_, order_recovering replicas s _ progress history _ rec (epoch_ordered replicas s history now nodup rec.ordered fits) rfl rfl
    ?_ ?_ ?_⟩
  · intro place member
    exact ordered_serving s _ place (rec.serving place member)
  · intro client state present
    exact client_ok_mono replicas s _ progress client state (rec.clients client state present)
  · intro shard message member
    cases List.mem_append.mp member with
    | inl old => exact message_ok_mono replicas s _ progress shard message (rec.messages shard message old)
    | inr new =>
        unfold epochMessages at new
        split at new
        · rw [List.mem_singleton.mp new]
          trivial
        · cases new

theorem suspected_recovering (place : Place) (clientId : Nat) (progress : Progresses s (s.suspected place clientId)) :
    Recovering replicas (s.suspected place clientId) history := by
  refine server_recovering replicas s _ progress history rec place rfl rfl rfl rfl
    (fun other inside => suspected_serving s place other clientId (rec.serving other inside)) ?_ ?_
  · intro other different
    exact Function.update_of_ne different _ _
  · intro _ report inside
    change report ∈ Function.update s.reports place _ place at inside
    rw [Function.update_self] at inside
    cases List.mem_append.mp inside with
    | inl old => exact Or.inl old
    | inr new =>
        rw [List.mem_singleton.mp new]
        exact Or.inr trivial

end Moves

theorem step_recovering (replicas : Nat → List Nat) (nodup : ∀ shard, (replicas shard).Nodup) (inserts : Nat → List StorageInsert)
    (positive : ∀ client, ∀ req ∈ inserts client, 1 ≤ req.numSlots) (s next : Cluster) (event : Event)
    (history : Nat → List StorageControl) (rec : Recovering replicas s history) (halting : s.Halting)
    (prefixes : ∀ place client, next.received place client <+: inserts client) (rolled : NoRollForward replicas next)
    (stays : ∀ client, event ≠ .finish client) (stepped : s.step event = some next) : ∃ after, Recovering replicas next after := by
  have progress := step_progresses s next event halting stepped
  have queues := rec.ordered.queues
  have serves : ∀ place, s.serves place = true → place.2 ∈ replicas place.1 := by
    intro place enabled
    rw [Cluster.serves, decide_eq_true_eq, queues] at enabled
    exact enabled
  have before : ∀ place client, s.received place client <+: inserts client :=
    fun place client => (progress.received place client).trans (prefixes place client)
  have rolledBefore := no_roll_forward_before replicas s next progress rolled
  cases event with
  | addClient clientId shardId numSlots =>
      obtain ⟨fresh, taken⟩ := Option.ite_none_left_eq_some.mp stepped
      cases taken
      exact ⟨history, joined_recovering replicas s history rec clientId shardId numSlots (by simpa using fresh) progress⟩
  | clientRate clientId numSlots =>
      cases stepped
      exact rate_recovering replicas nodup s history rec halting clientId numSlots
  | epoch now =>
      obtain ⟨fits, taken⟩ := Option.ite_none_right_eq_some.mp stepped
      cases taken
      exact epoch_recovering replicas s history rec nodup now fits progress
  | detect clientId =>
      cases stepped
      exact freeze_recovering replicas nodup s history rec halting _ clientId (Or.inl rfl)
  | finish clientId => exact absurd rfl (stays clientId)
  | report place =>
      obtain ⟨enabled, heard⟩ := Option.ite_none_right_eq_some.mp stepped
      obtain ⟨message, access, rfl⟩ := Option.map_eq_some_iff.mp heard
      have member := serves place enabled
      have ok := rec.reports place member message (List.mem_of_getElem? access)
      cases message with
      | clientFreeze clientId => exact freeze_recovering replicas nodup s history rec halting _ clientId (Or.inr ⟨_, rfl⟩)
      | clientCut cut => exact cut_recovering replicas nodup s history rec halting _ cut place member ok _ rfl
      | clientData data => exact data_recovering replicas nodup s history rec halting _ data place member ok _ rfl
  | connect place clientId =>
      cases (Option.ite_none_right_eq_some.mp stepped).2
      exact ⟨history, server_recovering replicas s _ progress history rec place rfl rfl rfl rfl
        (fun other inside => connect_serving s place other clientId (rec.serving other inside)) (fun other _ => rfl)
        (fun _ report old => Or.inl old)⟩
  | control place beyond =>
      have enabled := (control_taken s next place beyond stepped).1
      exact ⟨history, control_recovering replicas inserts s history rec halting next place beyond (serves place enabled) before
        rolledBefore stepped⟩
  | insert place req beyond =>
      obtain ⟨enabled, -, ⟨server, -, rfl⟩ | ⟨server, ack, ran, rfl⟩⟩ := insert_taken s next place req beyond stepped
      · exact ⟨history, rec⟩
      · have taken : req ∈ inserts req.clientId := by
          apply (prefixes place req.clientId).subset
          rw [(answered_here s place req.clientId server [req] [.insertAck ack]).2.1, Function.update_self]
          simp
        exact ⟨history, insert_recovering replicas s history rec halting place server req beyond ack
          (positive req.clientId req taken) (serves place enabled) ran⟩
  | leave place clientId =>
      cases (Option.ite_none_right_eq_some.mp stepped).2
      exact ⟨history, server_recovering replicas s _ progress history rec place rfl rfl rfl rfl
        (fun other inside => leave_serving s place other clientId (rec.serving other inside)) (fun other _ => rfl)
        (fun _ report old => Or.inl old)⟩
  | suspect place clientId =>
      cases (Option.ite_none_right_eq_some.mp stepped).2
      exact ⟨history, suspected_recovering replicas s history rec place clientId progress⟩

theorem init_halting (numShards : Nat) (replicas : Nat → List Nat) : (Cluster.init numShards replicas).Halting := by
  constructor
  · intro place
    exact Nat.le_refl 0
  · intro place client member
    cases member

theorem run_recovering (numShards : Nat) (replicas : Nat → List Nat) (nodup : ∀ shard, (replicas shard).Nodup)
    (inserts : Nat → List StorageInsert) (positive : ∀ client, ∀ req ∈ inserts client, 1 ≤ req.numSlots) (events : List Event)
    (s : Cluster) (ran : Machine.run Cluster.step (Cluster.init numShards replicas) events = some s)
    (stays : ∀ client, .finish client ∉ events) (prefixes : ∀ place client, s.received place client <+: inserts client)
    (rolled : NoRollForward replicas s) : ∃ history, Recovering replicas s history := by
  have whole := Machine.run_invariant Cluster.step (Cluster.init numShards replicas)
    (fun events s => s.Halting ∧ ((∀ client, .finish client ∉ events) →
      (∀ place client, s.received place client <+: inserts client) → NoRollForward replicas s →
      ∃ history, Recovering replicas s history))
    ⟨init_halting numShards replicas, fun _ _ _ => ⟨_, init_recovering replicas numShards⟩⟩ ?_ events s ran
  · exact whole.2 stays prefixes rolled
  · intro events s event next inv stepped
    obtain ⟨halting, earlier⟩ := inv
    have progress := step_progresses s next event halting stepped
    refine ⟨progress.halting, ?_⟩
    intro stays prefixes rolled
    obtain ⟨history, rec⟩ := earlier (fun client member => stays client (List.mem_append_left _ member))
      (fun place client => (progress.received place client).trans (prefixes place client))
      (no_roll_forward_before replicas s next progress rolled)
    exact step_recovering replicas nodup inserts positive s next event history rec halting prefixes rolled
      (fun client same => stays client (by simp [same])) stepped

-- After the finalize no slot of the client comes.
theorem finalized_gsns (first second : List StorageControl) (client : Nat) (before : first <+: second)
    (settled : second.Pairwise Settled) (final : .clientFinalize client ∈ first) :
    gsns (slotsIn second) client = gsns (slotsIn first) client := by
  obtain ⟨more, rfl⟩ := before
  have foreign : gsns (slotsIn more) client = [] := by
    rw [gsns, List.filter_eq_nil_iff.mpr]
    · rfl
    · intro slot member
      obtain ⟨message, inside, found⟩ := List.mem_flatMap.mp member
      have apart := ((List.pairwise_append.mp settled).2.2 _ final message inside client).1 (Or.inr rfl) slot found
      simpa using apart
  rw [slotsIn, List.flatMap_append, ← slotsIn, ← slotsIn, gsns_append, foreign, List.append_nil]

section

variable (replicas : Nat → List Nat) (s : Cluster) (history : Nat → List StorageControl) (rec : Recovering replicas s history)

include rec

theorem finalized_agree (shard client first second : Nat) (firstMember : first ∈ replicas shard) (secondMember : second ∈ replicas shard)
    (final : ∀ replica ∈ replicas shard, .clientFinalize client ∈ s.seen (shard, replica)) :
    gsns (slotsIn (s.seen (shard, first))) client = gsns (slotsIn (s.seen (shard, second))) client := by
  have left := seen_history replicas s history shard first rec.ordered firstMember
  have right := seen_history replicas s history shard second rec.ordered secondMember
  have settled := rec.ordered.settled shard
  exact (finalized_gsns _ _ client left settled (final first firstMember)).symm.trans
    (finalized_gsns _ _ client right settled (final second secondMember))

-- Every entry of a finalized client is set and holds what was received for it.
theorem finalized_entry (shard client replica index : Nat) (entry : Observation) (member : replica ∈ replicas shard)
    (final : .clientFinalize client ∈ s.seen (shard, replica))
    (observed : (s.servers (shard, replica)).log.observe index = some entry) (owner : entry.clientId = client) :
    entry.set = true ∧ entry.dataLength = entry.payload.length ∧
      ∃ rank : Nat, (gsns (slotsIn (s.seen (shard, replica))) client)[rank]? = some entry.gsn ∧
        entry.payload = (filledBy (s.received (shard, replica) client)).getD rank [] := by
  have tracks := (rec.serving (shard, replica) member).follows.tracks
  have inside : index < (slotsIn (s.seen (shard, replica))).length := by
    unfold Log.observe at observed
    split at observed
    · rename_i bound
      rw [tracks.rep.count] at bound
      exact bound
    · cases observed
  obtain ⟨rank, access⟩ := chain_rank_exists _ index _ _ (List.getElem?_eq_getElem inside)
  obtain ⟨gsn, slot, seen⟩ := observe_represents _ _ tracks.rep _ rank index access
  rw [observed] at seen
  cases seen
  simp only at owner
  rw [owner] at access slot ⊢
  have fills : (contentsAfter (s.seen (shard, replica)) (s.received (shard, replica))).fills client =
      padded (slotsIn (s.seen (shard, replica))) client (filledBy (s.received (shard, replica) client)) := if_pos final
  have bound := filled_bound _ _ _ client tracks
  have chained := (List.getElem?_eq_some_iff.mp access).1
  refine ⟨?_, rfl, rank, ?_, ?_⟩
  · rw [fills, padded, List.length_append, List.length_replicate]
    simp only [decide_eq_true_eq]
    change rank < (chain (slotsIn (s.seen (shard, replica))) client).length at chained
    omega
  · rw [gsns_access _ _ _ _ access, show (slotsIn (s.seen (shard, replica)))[index]? = _ from slot]
    rfl
  · rw [fills, padded]
    simp only [List.getD_eq_getElem?_getD]
    rcases Nat.lt_or_ge rank (filledBy (s.received (shard, replica) client)).length with filled | closed
    · rw [List.getElem?_append_left filled]
    · rw [List.getElem?_append_right closed, List.getElem?_eq_none closed, List.getElem?_replicate]
      split <;> rfl

end

theorem payload_of_longest (replicas : Nat → List Nat) (s : Cluster) (inserts : Nat → List StorageInsert)
    (shard client replica longest rank : Nat) (prefixes : ∀ place client, s.received place client <+: inserts client)
    (rolled : NoRollForward replicas s) (frozen : AllFrozen replicas s shard client) (member : replica ∈ replicas shard)
    (longestMember : longest ∈ replicas shard)
    (most : (s.received (shard, replica) client).length ≤ (s.received (shard, longest) client).length) :
    (filledBy (s.received (shard, replica) client)).getD rank [] = (filledBy (s.received (shard, longest) client)).getD rank [] := by
  have shorter := List.prefix_of_prefix_length_le (prefixes (shard, replica) client) (prefixes (shard, longest) client) most
  simp only [List.getD_eq_getElem?_getD]
  cases there : (filledBy (s.received (shard, longest) client))[rank]? with
  | none =>
      have beyond := List.getElem?_eq_none_iff.mp there
      have least := (filled_by_grows _ _ shorter).length_le
      rw [List.getElem?_eq_none (Nat.le_trans least beyond)]
  | some data =>
      by_cases empty : data = []
      · cases here : (filledBy (s.received (shard, replica) client))[rank]? with
        | none => rw [empty]; rfl
        | some found =>
            have same := prefix_access _ _ (filled_by_grows _ _ shorter) rank found here
            rw [there] at same
            cases same
            rfl
      · rw [payload_shared replicas s inserts shard client replica longest rank data prefixes rolled frozen member longestMember
          there empty]

-- The main result. Recovery without a roll forward: whatever the order of the
-- steps, no handler faults, and once all replicas have finalized a client they
-- agree on all its entries, which are those of the longest prefix.
theorem recovery_converges (numShards : Nat) (replicas : Nat → List Nat) (nodup : ∀ shard, (replicas shard).Nodup)
    (inserts : Nat → List StorageInsert) (positive : ∀ client, ∀ req ∈ inserts client, 1 ≤ req.numSlots) (events : List Event)
    (s : Cluster) (ran : Machine.run Cluster.step (Cluster.init numShards replicas) events = some s)
    (stays : ∀ client, .finish client ∉ events) (prefixes : ∀ place client, s.received place client <+: inserts client)
    (rolled : NoRollForward replicas s) :
    s.fault = false ∧ ∀ shard client, (∀ replica ∈ replicas shard, .clientFinalize client ∈ s.seen (shard, replica)) →
      ∀ replica ∈ replicas shard, ∀ longest ∈ replicas shard,
        (∀ other ∈ replicas shard, (s.received (shard, other) client).length ≤ (s.received (shard, longest) client).length) →
        (s.servers (shard, replica)).log.clientGsns client = (s.servers (shard, longest)).log.clientGsns client ∧
        ∀ index entry, (s.servers (shard, replica)).log.observe index = some entry → entry.clientId = client →
          entry.set = true ∧ entry.dataLength = entry.payload.length ∧
          ∃ rank : Nat, ((s.servers (shard, longest)).log.clientGsns client)[rank]? = some entry.gsn ∧
            entry.payload = ((s.received (shard, longest) client).flatMap payloads).getD rank [] := by
  obtain ⟨history, rec⟩ := run_recovering numShards replicas nodup inserts positive events s ran stays prefixes rolled
  refine ⟨rec.fault, ?_⟩
  intro shard client final replica member longest longestMember most
  have gsns_of : ∀ other ∈ replicas shard,
      (s.servers (shard, other)).log.clientGsns client = gsns (slotsIn (s.seen (shard, other))) client := fun other inside =>
    client_gsns_represents _ _ (rec.serving (shard, other) inside).follows.tracks.rep client
  have agree := finalized_agree replicas s history rec shard client replica longest member longestMember final
  have frozen : AllFrozen replicas s shard client :=
    rec.messages shard _ ((seen_history replicas s history shard replica rec.ordered member).subset (final replica member))
  refine ⟨by rw [gsns_of replica member, gsns_of longest longestMember, agree], ?_⟩
  intro index entry observed owner
  obtain ⟨set, length, rank, slot, payload⟩ := finalized_entry replicas s history rec shard client replica index entry member
    (final replica member) observed owner
  refine ⟨set, length, rank, ?_, ?_⟩
  · rw [gsns_of longest longestMember, ← agree]
    exact slot
  · rw [payload]
    exact payload_of_longest replicas s inserts shard client replica longest rank prefixes rolled frozen member longestMember
      (most replica member)

-- Inserts only come from the events of the run.
theorem step_received (s next : Cluster) (event : Event) (stepped : s.step event = some next) (place : Place) (client : Nat) :
    ∀ req ∈ next.received place client, req ∈ s.received place client ∨
      req.clientId = client ∧ ∃ beyond, event = .insert place req beyond := by
  have answered : ∀ (here : Place) (owner : Nat) (server : Server) (inserts : List StorageInsert) (replies : List StorageReply),
      ∀ req ∈ (s.answered here owner server inserts replies).received place client,
        req ∈ s.received place client ∨ place = here ∧ client = owner ∧ req ∈ inserts := by
    intro here owner server inserts replies req member
    by_cases same : place = here
    · subst same
      rw [(answered_here s place owner server inserts replies).2.1] at member
      by_cases mine : client = owner
      · subst mine
        rw [Function.update_self] at member
        cases List.mem_append.mp member with
        | inl old => exact Or.inl old
        | inr new => exact Or.inr ⟨rfl, rfl, new⟩
      · rw [Function.update_of_ne mine] at member
        exact Or.inl member
    · rw [(answered_other s here place owner server inserts replies same).2.1] at member
      exact Or.inl member
  intro req member
  cases event with
  | addClient clientId shardId numSlots =>
      cases (Option.ite_none_left_eq_some.mp stepped).2
      exact Or.inl member
  | clientRate clientId numSlots =>
      cases stepped
      exact Or.inl member
  | epoch now =>
      cases (Option.ite_none_right_eq_some.mp stepped).2
      exact Or.inl member
  | detect clientId =>
      cases stepped
      exact Or.inl member
  | finish clientId =>
      cases stepped
      exact Or.inl member
  | report here =>
      obtain ⟨message, -, rfl⟩ := Option.map_eq_some_iff.mp (Option.ite_none_right_eq_some.mp stepped).2
      exact Or.inl member
  | connect here clientId =>
      cases (Option.ite_none_right_eq_some.mp stepped).2
      exact Or.inl member
  | control here beyond =>
      obtain ⟨-, message, -, ⟨fault, -, rfl⟩ | ⟨server, reports, -, rfl⟩⟩ := control_taken s next here beyond stepped
      · exact Or.inl member
      · exact Or.inl member
  | insert here req' beyond =>
      obtain ⟨-, -, ⟨server, -, rfl⟩ | ⟨server, ack, -, rfl⟩⟩ := insert_taken s next here req' beyond stepped
      · exact Or.inl member
      · obtain old | ⟨rfl, rfl, inside⟩ := answered here req'.clientId _ [req'] _ req member
        · exact Or.inl old
        · obtain rfl := List.mem_singleton.mp inside
          exact Or.inr ⟨rfl, beyond, rfl⟩
  | leave here clientId =>
      cases (Option.ite_none_right_eq_some.mp stepped).2
      obtain old | ⟨-, -, inside⟩ := answered here clientId _ [] _ req member
      · exact Or.inl old
      · exact absurd inside List.not_mem_nil
  | suspect here clientId =>
      cases (Option.ite_none_right_eq_some.mp stepped).2
      exact Or.inl member

theorem received_events (numShards : Nat) (replicas : Nat → List Nat) (events : List Event) (s : Cluster)
    (ran : Machine.run Cluster.step (Cluster.init numShards replicas) events = some s) (place : Place) (client : Nat) :
    ∀ req ∈ s.received place client, req.clientId = client ∧ ∃ beyond, .insert place req beyond ∈ events := by
  revert place client
  refine Machine.run_invariant Cluster.step (Cluster.init numShards replicas) (fun events s => ∀ (place : Place) (client : Nat),
    ∀ req ∈ s.received place client, req.clientId = client ∧ ∃ beyond, .insert place req beyond ∈ events) ?_ ?_ events s ran
  · intro place client req member
    cases member
  · intro events s event next before stepped place client req member
    cases step_received s next event stepped place client req member with
    | inl old =>
        obtain ⟨owner, beyond, earlier⟩ := before place client req old
        exact ⟨owner, beyond, List.mem_append_left _ earlier⟩
    | inr new =>
        obtain ⟨owner, beyond, now⟩ := new
        exact ⟨owner, beyond, by rw [now]; simp⟩

-- Replica 0 has a payload and a no-op, replica 1 only the payload.
def onlyNoOpMissing : List Event :=
  [.addClient 0 0 3, .connect (0, 0) 0, .connect (0, 1) 0, .epoch 0, .control (0, 0) [], .control (0, 1) [],
    .insert (0, 0) ⟨0, 1, [7]⟩ [], .insert (0, 1) ⟨0, 1, [7]⟩ [], .insert (0, 0) ⟨0, 1, []⟩ [], .detect 0, .control (0, 0) [],
    .control (0, 1) [], .report (0, 0), .report (0, 1), .control (0, 0) [], .control (0, 1) [], .report (0, 0), .report (0, 1),
    .control (0, 0) [], .control (0, 1) []]

def payloadAndNoOp (client : Nat) : List StorageInsert := if client = 0 then [⟨0, 1, [7]⟩, ⟨0, 1, []⟩] else []

theorem recovery_converges_no_op : ∃ s,
    Machine.run Cluster.step (Cluster.init 1 (fun _ => [0, 1])) onlyNoOpMissing = some s ∧ s.fault = false ∧
    (s.servers (0, 1)).log.clientGsns 0 = (s.servers (0, 0)).log.clientGsns 0 := by
  have outcome : (Machine.run Cluster.step (Cluster.init 1 (fun _ => [0, 1])) onlyNoOpMissing).map (fun s =>
      (decide (∀ replica ∈ ([0, 1] : List Nat), StorageControl.clientFinalize 0 ∈ s.seen (0, replica)), s.received (0, 0) 0,
        s.received (0, 1) 0)) = some (true, [⟨0, 1, [7]⟩, ⟨0, 1, []⟩], [⟨0, 1, [7]⟩]) := by decide +kernel
  obtain ⟨s, ran, values⟩ := Option.map_eq_some_iff.mp outcome
  simp only [Prod.mk.injEq, decide_eq_true_eq] at values
  obtain ⟨final, first, second⟩ := values
  have elsewhere : ∀ place client, s.received place client = [] ∨ client = 0 ∧ (place = (0, 0) ∨ place = (0, 1)) := by
    intro place client
    cases there : s.received place client with
    | nil => exact Or.inl rfl
    | cons req rest =>
        obtain ⟨rfl, beyond, event⟩ := received_events 1 _ onlyNoOpMissing s ran place client req (by rw [there]; simp)
        simp only [onlyNoOpMissing, List.mem_cons, List.not_mem_nil, or_false, reduceCtorEq, false_or, Event.insert.injEq] at event
        right
        rcases event with ⟨rfl, rfl, _⟩ | ⟨rfl, rfl, _⟩ | ⟨rfl, rfl, _⟩ <;> simp
  have prefixes : ∀ place client, s.received place client <+: payloadAndNoOp client := by
    intro place client
    obtain none | ⟨rfl, rfl | rfl⟩ := elsewhere place client
    · rw [none]
      exact List.nil_prefix
    · rw [first]
      decide
    · rw [second]
      decide
  have rolled : NoRollForward (fun _ => [0, 1]) s := by
    intro shard client _ left leftMember right rightMember k req beyond access
    obtain none | ⟨rfl, same⟩ := elsewhere (shard, right) client
    · rw [none] at access
      cases access
    · obtain rfl : shard = 0 := by
        cases same with
        | inl same => exact congrArg Prod.fst same
        | inr same => exact congrArg Prod.fst same
      simp only [List.mem_cons, List.not_mem_nil, or_false] at leftMember
      have least : 1 ≤ k := by
        rcases leftMember with rfl | rfl
        · rw [first] at beyond
          exact Nat.le_of_succ_le beyond
        · rw [second] at beyond
          exact beyond
      cases same with
      | inl same =>
          rw [same, first] at access
          obtain ⟨bound, value⟩ := List.getElem?_eq_some_iff.mp access
          obtain rfl : k = 1 := by
            simp only [List.length_cons, List.length_nil] at bound
            omega
          rw [← value]
          rfl
      | inr same =>
          rw [same, second] at access
          rw [List.getElem?_eq_none (by simpa using least)] at access
          cases access
  have positive : ∀ client, ∀ req ∈ payloadAndNoOp client, 1 ≤ req.numSlots := by
    intro client req member
    unfold payloadAndNoOp at member
    split at member
    · simp only [List.mem_cons, List.not_mem_nil, or_false] at member
      rcases member with rfl | rfl <;> decide
    · cases member
  obtain ⟨fault, converged⟩ := recovery_converges 1 (fun _ => [0, 1]) (fun _ => by decide) payloadAndNoOp positive onlyNoOpMissing s ran
    (fun client => by simp [onlyNoOpMissing]) prefixes rolled
  refine ⟨s, ran, fault, (converged 0 0 final 1 (by decide) 0 (by decide) ?_).1⟩
  intro other member
  simp only [List.mem_cons, List.not_mem_nil, or_false] at member
  rcases member with rfl | rfl
  · exact Nat.le_refl _
  · rw [first, second]
    decide

def firstPayloadLost : List Event :=
  [.addClient 0 0 2, .connect (0, 0) 0, .connect (0, 1) 0, .epoch 0, .control (0, 0) [], .control (0, 1) [],
    .insert (0, 0) ⟨0, 1, [7]⟩ [], .detect 0, .control (0, 0) [], .control (0, 1) [], .report (0, 0), .report (0, 1),
    .control (0, 0) [], .control (0, 1) []]

-- One of two replicas has a payload and the other has nothing. The ordering
-- service takes the cuts for equal and finalizes without a patch.
theorem recovery_diverges : ∃ s, Machine.run Cluster.step (Cluster.init 1 (fun _ => [0, 1])) firstPayloadLost = some s ∧
    (∀ replica ∈ [0, 1], .clientFinalize 0 ∈ s.seen (0, replica)) ∧
    s.received (0, 0) 0 = [⟨0, 1, [7]⟩] ∧ s.received (0, 1) 0 = [] ∧
    (s.servers (0, 0)).log.observe 0 = some ⟨0, 0, 1, [7], true⟩ ∧ (s.servers (0, 1)).log.observe 0 = some ⟨0, 0, 0, [], true⟩ := by
  have outcome : (Machine.run Cluster.step (Cluster.init 1 (fun _ => [0, 1])) firstPayloadLost).map (fun s =>
      (decide (∀ replica ∈ ([0, 1] : List Nat), StorageControl.clientFinalize 0 ∈ s.seen (0, replica)), s.received (0, 0) 0, s.received (0, 1) 0,
        (s.servers (0, 0)).log.observe 0, (s.servers (0, 1)).log.observe 0)) =
      some (true, [⟨0, 1, [7]⟩], [], some ⟨0, 0, 1, [7], true⟩, some ⟨0, 0, 0, [], true⟩) := by decide +kernel
  obtain ⟨s, ran, values⟩ := Option.map_eq_some_iff.mp outcome
  simp only [Prod.mk.injEq, decide_eq_true_eq] at values
  exact ⟨s, ran, values⟩

end ZipLog.System
