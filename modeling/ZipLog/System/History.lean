import ZipLog.Order.Moves
import ZipLog.System.Cluster

set_option autoImplicit false

namespace ZipLog.System

open Storage

theorem flat_map_single {ν : Type} (items : List Nat) (wanted : Nat) (value : Nat → List ν) (nodup : items.Nodup) :
    items.flatMap (fun item => if item = wanted then value item else []) = if wanted ∈ items then value wanted else [] := by
  induction items with
  | nil => rfl
  | cons head tail ih =>
      obtain ⟨fresh, rest⟩ := List.nodup_cons.mp nodup
      rw [List.flatMap_cons, ih rest]
      by_cases here : head = wanted
      · subst here
        rw [if_pos rfl, if_neg fresh, if_pos List.mem_cons_self, List.append_nil]
      · rw [if_neg here, List.nil_append]
        simp [Ne.symm here]

theorem broadcast_posted (order : Order.State) (shard : Nat) (place : Place) (message : StorageControl)
    (nodup : (order.storageQueues shard).Nodup) (member : place.2 ∈ order.storageQueues place.1) :
    (order.broadcast shard message).filterMap (toStorage place) = if place.1 = shard then [message] else [] := by
  have single := flat_map_single (order.storageQueues shard) place.2
    (fun _ => if place.1 = shard then [message] else []) nodup
  rw [Order.State.broadcast, List.filterMap_map, List.filterMap_eq_flatMap_toList]
  by_cases here : place.1 = shard
  · subst here
    rw [if_pos rfl, if_pos member] at single
    rw [if_pos rfl, ← single]
    congr 1
    funext replica
    by_cases mine : replica = place.2
    · simp [toStorage, mine]
    · have different : ¬ (place.1, replica) = place := fun same => mine (congrArg Prod.snd same)
      simp [toStorage, mine, different]
  · rw [if_neg here]
    apply List.flatMap_eq_nil_iff.mpr
    intro replica _
    have different : ¬ (shard, replica) = place := fun same => here (congrArg Prod.fst same).symm
    simp [toStorage, different]

theorem talk_posted (front : List Order.Sent) (place : Place) (talk : ∀ item ∈ front, ∃ other message, item = .client other message) :
    front.filterMap (toStorage place) = [] := by
  apply List.filterMap_eq_nil_iff.mpr
  intro item member
  obtain ⟨other, message, rfl⟩ := talk item member
  rfl

theorem moves_posted (state next : Order.State) (sent : List Order.Sent) (clientId shard : Nat) (messages : List StorageControl)
    (place : Place) (moves : state.Moves next sent clientId shard messages) (nodup : (state.storageQueues shard).Nodup)
    (member : place.2 ∈ state.storageQueues place.1) :
    sent.filterMap (toStorage place) = if place.1 = shard then messages else [] := by
  obtain ⟨front, rfl, talk⟩ := moves.sent
  rw [List.filterMap_append, talk_posted front place talk, List.nil_append, List.filterMap_flatMap]
  simp only [broadcast_posted state shard place _ nodup member]
  by_cases here : place.1 = shard
  · simp [here]
  · simp [here]

theorem epoch_posted (order : Order.State) (now : Nat) (place : Place) (nodup : ∀ shard, (order.storageQueues shard).Nodup)
    (member : place.2 ∈ order.storageQueues place.1) : (order.epoch now).2.filterMap (toStorage place) =
      if place.1 < order.numShards then [.slots (order.storageSlots place.1)] else [] := by
  have single := flat_map_single (List.range order.numShards) place.1
    (fun shard => [StorageControl.slots (order.storageSlots shard)]) List.nodup_range
  rw [Order.State.epoch, List.filterMap_append, talk_posted _ place, List.nil_append, List.filterMap_flatMap]
  · simp only [List.mem_range] at single
    rw [← single]
    congr 1
    funext shard
    rw [broadcast_posted order shard place _ (nodup shard) member]
    simp only [eq_comm]
  · intro item inside
    obtain ⟨slot, _, rfl⟩ := List.mem_map.mp inside
    exact ⟨_, _, rfl⟩

-- After a freeze or a finalize no slots of the client follow, and a client is
-- finalized once.
def Settled (earlier later : StorageControl) : Prop :=
  ∀ client, (earlier = .clientFreeze client ∨ earlier = .clientFinalize client → ∀ slot ∈ controlSlots later, slot.2 ≠ client) ∧
    (earlier = .clientFinalize client → later ≠ .clientFinalize client)

-- All servers of a shard are sent one history.
structure Cluster.Ordered (replicas : Nat → List Nat) (s : Cluster) (history : Nat → List StorageControl) : Prop where
  queues : s.order.storageQueues = replicas
  valid : s.order.Valid
  links : ∀ shard, ∀ replica ∈ replicas shard, s.control (shard, replica) = history shard
  home : ∀ client state, s.order.clientState client = some state → s.homes client = some state.shardId
  owned : ∀ shard, ∀ slot ∈ slotsIn (history shard), s.homes slot.2 = some shard
  increasing : ∀ shard, Increasing (slotsIn (history shard))
  below : ∀ shard, ∀ slot ∈ slotsIn (history shard), slot.1 < s.order.gsnBase
  word : s.order.gsnBase < 2 ^ 64
  alone : ∀ first second gsn client client', (gsn, client) ∈ slotsIn (history first) → (gsn, client') ∈ slotsIn (history second) →
    first = second
  settled : ∀ shard, (history shard).Pairwise Settled
  frozen : ∀ shard client, .clientFreeze client ∈ history shard →
    s.homes client = some shard ∧ ∀ state, s.order.clientState client = some state → state.failed = true
  finalized : ∀ shard client, .clientFinalize client ∈ history shard →
    s.homes client = some shard ∧ s.order.clientState client = none

theorem init_ordered (numShards : Nat) (replicas : Nat → List Nat) :
    (Cluster.init numShards replicas).Ordered replicas (fun _ => []) := by
  constructor
  · rfl
  · intro client state present
    cases present
  · intro shard replica _
    rfl
  · intro client state present
    cases present
  · intro shard slot member
    cases member
  · intro shard
    exact List.Pairwise.nil
  · intro shard slot member
    cases member
  · exact Nat.pow_pos (by decide)
  · intro first second gsn client client' member
    cases member
  · intro shard
    exact List.Pairwise.nil
  · intro shard client member
    cases member
  · intro shard client member
    cases member

-- Steps of the servers do not concern the ordering service.
theorem ordered_congr (replicas : Nat → List Nat) (s next : Cluster) (history : Nat → List StorageControl)
    (ordered : s.Ordered replicas history) (order : next.order = s.order) (homes : next.homes = s.homes)
    (control : next.control = s.control) : next.Ordered replicas history := by
  constructor
  · rw [order]
    exact ordered.queues
  · rw [order]
    exact ordered.valid
  · rw [control]
    exact ordered.links
  · rw [order, homes]
    exact ordered.home
  · rw [homes]
    exact ordered.owned
  · exact ordered.increasing
  · rw [order]
    exact ordered.below
  · rw [order]
    exact ordered.word
  · exact ordered.alone
  · exact ordered.settled
  · rw [order, homes]
    exact ordered.frozen
  · rw [order, homes]
    exact ordered.finalized

theorem quiet_slots (messages : List StorageControl) (quiet : ∀ message ∈ messages, ∀ slots, message ≠ .slots slots) :
    slotsIn messages = [] ∧ ∀ message ∈ messages, controlSlots message = [] := by
  have each : ∀ message ∈ messages, controlSlots message = [] := by
    intro message member
    cases message with
    | slots slots => exact absurd rfl (quiet _ member slots)
    | clientFreeze clientId => rfl
    | clientCut cut => rfl
    | clientPatch patch => rfl
    | clientFinalize clientId => rfl
  exact ⟨List.flatMap_eq_nil_iff.mpr each, each⟩

-- The history after a handler of the ordering service has sent messages.
def extended (history : Nat → List StorageControl) (shard : Nat) (messages : List StorageControl) : Nat → List StorageControl :=
  Function.update history shard (history shard ++ messages)

theorem extended_eq (history : Nat → List StorageControl) (shard : Nat) (messages : List StorageControl) (at_shard : Nat) :
    extended history shard messages at_shard = history at_shard ++ if at_shard = shard then messages else [] := by
  by_cases here : at_shard = shard
  · subst here
    rw [if_pos rfl, extended, Function.update_self]
  · rw [if_neg here, extended, Function.update_of_ne here, List.append_nil]

theorem extended_slots (history : Nat → List StorageControl) (shard : Nat) (messages : List StorageControl) (at_shard : Nat)
    (quiet : ∀ message ∈ messages, ∀ slots, message ≠ .slots slots) :
    slotsIn (extended history shard messages at_shard) = slotsIn (history at_shard) := by
  rw [extended_eq]
  split
  · rw [slotsIn, List.flatMap_append, ← slotsIn, ← slotsIn, (quiet_slots messages quiet).1, List.append_nil]
  · rw [List.append_nil]

theorem extended_member (history : Nat → List StorageControl) (shard : Nat) (messages : List StorageControl) (at_shard : Nat)
    (message : StorageControl) (member : message ∈ extended history shard messages at_shard) :
    message ∈ history at_shard ∨ at_shard = shard ∧ message ∈ messages := by
  rw [extended_eq] at member
  cases List.mem_append.mp member with
  | inl old => exact Or.inl old
  | inr new =>
      split at new
      · rename_i here
        exact Or.inr ⟨here, new⟩
      · cases new

section

variable (replicas : Nat → List Nat) (s : Cluster) (history : Nat → List StorageControl) (next : Order.State)
  (sent : List Order.Sent) (clientId shard : Nat) (messages : List StorageControl) (ordered : s.Ordered replicas history)
  (moves : s.order.Moves next sent clientId shard messages)

include ordered moves

-- A handler only sends about a client that it knows.
theorem moves_present (message : StorageControl) (member : message ∈ messages) :
    s.homes clientId = some shard ∧ ∃ state, s.order.clientState clientId = some state := by
  obtain ⟨state, there, home⟩ := moves.home (List.ne_nil_of_mem member)
  exact ⟨home ▸ ordered.home clientId state there, state, there⟩

theorem moves_settled (at_shard : Nat) : (extended history shard messages at_shard).Pairwise Settled := by
  rw [extended_eq]
  split
  · apply List.pairwise_append.mpr
    refine ⟨ordered.settled at_shard, ?_, ?_⟩
    · refine moves.last.imp_of_mem ?_
      intro earlier later _ second open_ client
      rw [(quiet_slots messages moves.quiet).2 later second]
      exact ⟨fun _ slot member => absurd member List.not_mem_nil, fun final => absurd final (open_ client)⟩
    · intro earlier first later second client
      rw [(quiet_slots messages moves.quiet).2 later second]
      refine ⟨fun _ slot member => absurd member List.not_mem_nil, ?_⟩
      intro final again
      rw [final] at first
      rw [again] at second
      obtain ⟨own, _⟩ := moves.finalizes client second
      obtain ⟨_, state, there⟩ := moves_present replicas s history next sent clientId shard messages ordered moves _ second
      rw [← own] at there
      rw [(ordered.finalized at_shard client first).2] at there
      cases there
  · rw [List.append_nil]
    exact ordered.settled at_shard

theorem moves_frozen (at_shard client : Nat) (member : .clientFreeze client ∈ extended history shard messages at_shard) :
    s.homes client = some at_shard ∧ ∀ state, next.clientState client = some state → state.failed = true := by
  obtain old | ⟨here, new⟩ := extended_member history shard messages at_shard _ member
  · obtain ⟨home, failed⟩ := ordered.frozen at_shard client old
    refine ⟨home, ?_⟩
    intro state there
    by_cases mine : client = clientId
    · subst mine
      obtain ⟨before, present, _, still⟩ := moves.stays state there
      exact still (failed before present)
    · exact failed state ((moves.others client mine).symm.trans there)
  · obtain ⟨rfl, state, there, failed⟩ := moves.freezes client new
    obtain ⟨home, _⟩ := moves_present replicas s history next sent client shard messages ordered moves _ new
    refine ⟨here ▸ home, ?_⟩
    intro other again
    rw [there] at again
    cases again
    exact failed

theorem moves_finalized (at_shard client : Nat) (member : .clientFinalize client ∈ extended history shard messages at_shard) :
    s.homes client = some at_shard ∧ next.clientState client = none := by
  obtain old | ⟨here, new⟩ := extended_member history shard messages at_shard _ member
  · obtain ⟨home, gone⟩ := ordered.finalized at_shard client old
    refine ⟨home, ?_⟩
    by_cases mine : client = clientId
    · subst mine
      cases there : next.clientState client with
      | none => rfl
      | some state =>
          obtain ⟨before, present, _⟩ := moves.stays state there
          rw [gone] at present
          cases present
    · rw [moves.others client mine]
      exact gone
  · obtain ⟨rfl, gone⟩ := moves.finalizes client new
    obtain ⟨home, _⟩ := moves_present replicas s history next sent client shard messages ordered moves _ new
    exact ⟨here ▸ home, gone⟩

end

theorem moves_ordered (replicas : Nat → List Nat) (s : Cluster) (history : Nat → List StorageControl) (next : Order.State)
    (sent : List Order.Sent) (clientId shard : Nat) (messages : List StorageControl) (nodup : ∀ shard, (replicas shard).Nodup)
    (ordered : s.Ordered replicas history) (moves : s.order.Moves next sent clientId shard messages) :
    (s.ordered (next, sent)).Ordered replicas (extended history shard messages) := by
  have same := fun at_shard => extended_slots history shard messages at_shard moves.quiet
  constructor
  · exact moves.keeps.queues.trans ordered.queues
  · exact moves.keeps.valid ordered.valid
  · intro at_shard replica member
    rw [extended_eq]
    change s.control (at_shard, replica) ++ sent.filterMap (toStorage (at_shard, replica)) = _
    rw [ordered.links at_shard replica member, moves_posted s.order next sent clientId shard messages (at_shard, replica) moves
      (by rw [ordered.queues]; exact nodup shard) (by rw [ordered.queues]; exact member)]
  · intro client state there
    by_cases mine : client = clientId
    · subst mine
      obtain ⟨old, before, shards, _⟩ := moves.stays state there
      rw [shards]
      exact ordered.home client old before
    · exact ordered.home client state ((moves.others client mine).symm.trans there)
  · intro at_shard slot member
    rw [same] at member
    exact ordered.owned at_shard slot member
  · intro at_shard
    rw [same]
    exact ordered.increasing at_shard
  · intro at_shard slot member
    rw [same] at member
    change slot.1 < next.gsnBase
    rw [moves.keeps.base]
    exact ordered.below at_shard slot member
  · change next.gsnBase < 2 ^ 64
    rw [moves.keeps.base]
    exact ordered.word
  · intro first second gsn client client' left right
    rw [same] at left right
    exact ordered.alone first second gsn client client' left right
  · exact moves_settled replicas s history next sent clientId shard messages ordered moves
  · exact moves_frozen replicas s history next sent clientId shard messages ordered moves
  · exact moves_finalized replicas s history next sent clientId shard messages ordered moves

theorem report_moves (order : Order.State) (message : OrderControl) : ∃ clientId shard messages,
    order.Moves (orderReport order message).1 (orderReport order message).2 clientId shard messages := by
  cases message with
  | clientFreeze clientId =>
      obtain ⟨shard, messages, moves⟩ := Order.moves_client_freeze order clientId
      exact ⟨clientId, shard, messages, moves⟩
  | clientCut cut =>
      obtain ⟨shard, messages, moves⟩ := Order.moves_client_cut order cut
      exact ⟨cut.clientId, shard, messages, moves⟩
  | clientData data =>
      obtain ⟨shard, messages, moves⟩ := Order.moves_client_data order data
      exact ⟨data.clientId, shard, messages, moves⟩

def epochMessages (order : Order.State) (shard : Nat) : List StorageControl :=
  if shard < order.numShards then [.slots (order.storageSlots shard)] else []

theorem epoch_messages_member (order : Order.State) (shard : Nat) (message : StorageControl)
    (member : message ∈ epochMessages order shard) : message = .slots (order.storageSlots shard) := by
  unfold epochMessages at member
  split at member
  · exact List.mem_singleton.mp member
  · cases member

theorem epoch_messages_slots (order : Order.State) (shard : Nat) :
    ∀ slot ∈ slotsIn (epochMessages order shard), slot ∈ newSlots (order.storageSlots shard) := by
  intro slot member
  obtain ⟨message, inside, given⟩ := List.mem_flatMap.mp member
  rw [epoch_messages_member order shard message inside] at given
  exact given

theorem epoch_messages_increasing (order : Order.State) (fits : order.Fits) (shard : Nat) :
    Increasing (slotsIn (epochMessages order shard)) := by
  unfold epochMessages
  split
  · simp only [slotsIn, controlSlots, List.flatMap_cons, List.flatMap_nil, List.append_nil, Order.storage_slots_masked]
    exact Order.masked_increasing order fits _
  · exact List.Pairwise.nil

theorem epoch_inside (order : Order.State) (fits : order.Fits) (now shard : Nat) (slot : Nat × Nat)
    (member : slot ∈ slotsIn (epochMessages order shard)) : order.gsnBase ≤ slot.1 ∧ slot.1 < (order.epoch now).1.gsnBase := by
  rw [Order.epoch_base order fits now]
  exact Order.new_slots_inside order fits shard slot (epoch_messages_slots order shard slot member)

theorem epoch_slots (history : Nat → List StorageControl) (order : Order.State) (shard : Nat) (slot : Nat × Nat)
    (member : slot ∈ slotsIn (history shard ++ epochMessages order shard)) :
    slot ∈ slotsIn (history shard) ∨ slot ∈ slotsIn (epochMessages order shard) := by
  rw [slotsIn, List.flatMap_append] at member
  exact List.mem_append.mp member

section

variable (replicas : Nat → List Nat) (s : Cluster) (history : Nat → List StorageControl) (ordered : s.Ordered replicas history)
  (fits : s.order.Fits)

include ordered fits

-- New slots lie above all the earlier ones, and no two shards share a new one.
theorem epoch_alone (first second gsn client client' : Nat)
    (left : (gsn, client) ∈ slotsIn (history first ++ epochMessages s.order first))
    (right : (gsn, client') ∈ slotsIn (history second ++ epochMessages s.order second)) : first = second := by
  have above : ∀ shard other, (gsn, other) ∈ slotsIn (epochMessages s.order shard) → s.order.gsnBase ≤ gsn :=
    fun shard other member => (epoch_inside s.order fits 0 shard (gsn, other) member).1
  cases epoch_slots history s.order first _ left with
  | inl oldLeft =>
      cases epoch_slots history s.order second _ right with
      | inl oldRight => exact ordered.alone first second gsn client client' oldLeft oldRight
      | inr newRight => exact absurd (ordered.below first _ oldLeft) (Nat.not_lt.mpr (above second client' newRight))
  | inr newLeft =>
      cases epoch_slots history s.order second _ right with
      | inl oldRight => exact absurd (ordered.below second _ oldRight) (Nat.not_lt.mpr (above first client newLeft))
      | inr newRight =>
          exact Order.new_slots_alone s.order fits _ _ _ _ _ (epoch_messages_slots s.order first _ newLeft)
            (epoch_messages_slots s.order second _ newRight)

theorem epoch_settled (shard : Nat) : (history shard ++ epochMessages s.order shard).Pairwise Settled := by
  apply List.pairwise_append.mpr
  refine ⟨ordered.settled shard, ?_, ?_⟩
  · unfold epochMessages
    split
    · exact List.pairwise_singleton _ _
    · exact List.Pairwise.nil
  · intro earlier first later second client
    rw [epoch_messages_member s.order shard later second]
    refine ⟨?_, fun _ same => by cases same⟩
    intro closed slot member same
    obtain ⟨state, present, alive, _⟩ := Order.new_slots_active s.order fits shard slot.1 slot.2 member
    rw [same] at present
    cases closed with
    | inl freeze =>
        rw [freeze] at first
        rw [(ordered.frozen shard client first).2 state present] at alive
        cases alive
    | inr final =>
        rw [final] at first
        rw [(ordered.finalized shard client first).2] at present
        cases present

theorem epoch_owned (shard : Nat) (slot : Nat × Nat) (member : slot ∈ slotsIn (history shard ++ epochMessages s.order shard)) :
    s.homes slot.2 = some shard := by
  cases epoch_slots history s.order shard slot member with
  | inl old => exact ordered.owned shard slot old
  | inr new =>
      obtain ⟨client, present, _, home⟩ := Order.new_slots_active s.order fits shard slot.1 slot.2
        (epoch_messages_slots s.order shard slot new)
      rw [← home]
      exact ordered.home slot.2 client present

theorem epoch_below (now shard : Nat) (slot : Nat × Nat)
    (member : slot ∈ slotsIn (history shard ++ epochMessages s.order shard)) : slot.1 < (s.order.epoch now).1.gsnBase := by
  cases epoch_slots history s.order shard slot member with
  | inl old =>
      have less := ordered.below shard slot old
      rw [Order.epoch_base s.order fits now]
      omega
  | inr new => exact (epoch_inside s.order fits now shard slot new).2

theorem epoch_increasing (shard : Nat) : Increasing (slotsIn (history shard ++ epochMessages s.order shard)) := by
  rw [slotsIn, List.flatMap_append]
  exact increasing_append _ _ s.order.gsnBase (ordered.increasing shard) (epoch_messages_increasing s.order fits shard)
    (ordered.below shard) (fun slot member => (epoch_inside s.order fits 0 shard slot member).1)

end

theorem epoch_ordered (replicas : Nat → List Nat) (s : Cluster) (history : Nat → List StorageControl) (now : Nat)
    (nodup : ∀ shard, (replicas shard).Nodup) (ordered : s.Ordered replicas history) (fits : s.order.Fits) :
    (s.ordered (s.order.epoch now)).Ordered replicas (fun shard => history shard ++ epochMessages s.order shard) := by
  have only_slots : ∀ shard message, (∀ slots, message ≠ .slots slots) →
      message ∈ history shard ++ epochMessages s.order shard → message ∈ history shard := by
    intro shard message different member
    cases List.mem_append.mp member with
    | inl old => exact old
    | inr new => exact absurd (epoch_messages_member s.order shard message new) (different _)
  constructor
  · exact ordered.queues
  · exact ordered.valid
  · intro shard replica member
    change s.control (shard, replica) ++ (s.order.epoch now).2.filterMap (toStorage (shard, replica)) = _
    rw [ordered.links shard replica member, epoch_posted s.order now (shard, replica) (by rw [ordered.queues]; exact nodup)
      (by rw [ordered.queues]; exact member), epochMessages]
  · exact ordered.home
  · exact epoch_owned replicas s history ordered fits
  · exact epoch_increasing replicas s history ordered fits
  · exact epoch_below replicas s history ordered fits now
  · change (s.order.epoch now).1.gsnBase < 2 ^ 64
    rw [Order.epoch_base s.order fits now]
    exact fits.word
  · exact epoch_alone replicas s history ordered fits
  · exact epoch_settled replicas s history ordered fits
  · intro shard client member
    exact ordered.frozen shard client (only_slots shard _ (fun _ => by simp) member)
  · intro shard client member
    exact ordered.finalized shard client (only_slots shard _ (fun _ => by simp) member)

theorem add_client_cases (order : Order.State) (clientId shard numSlots : Nat) :
    order.addClient clientId shard numSlots = (order, []) ∨
      order.clientState clientId = none ∧ order.addClient clientId shard numSlots =
        (order.setClientState clientId (some (Order.ClientState.init shard numSlots)),
          [.client clientId (.storageInfo (order.storageQueues shard))]) := by
  unfold Order.State.addClient
  split
  · exact Or.inl rfl
  · rename_i accepted
    push Not at accepted
    exact Or.inr ⟨by simpa using accepted.2.2.1, rfl⟩

-- The ID is fresh, so nothing was ever sent about it.
theorem joined_ordered (replicas : Nat → List Nat) (s : Cluster) (history : Nat → List StorageControl) (clientId shard numSlots : Nat)
    (ordered : s.Ordered replicas history) (fresh : s.homes clientId = none) :
    (s.joined clientId shard numSlots).Ordered replicas history := by
  have keeps := Order.keeps_add_client s.order clientId shard numSlots
  have others : ∀ client, client ≠ clientId →
      (s.order.addClient clientId shard numSlots).1.clientState client = s.order.clientState client := by
    intro client different
    obtain refused | ⟨_, accepted⟩ := add_client_cases s.order clientId shard numSlots
    · rw [refused]
    · rw [accepted]
      exact Order.set_client_state_other _ _ _ _ different
  have homes : ∀ client, client ≠ clientId → (s.joined clientId shard numSlots).homes client = s.homes client :=
    fun client different => Function.update_of_ne different _ _
  have known : ∀ client at_shard, s.homes client = some at_shard → client ≠ clientId := by
    intro client at_shard home same
    rw [same, fresh] at home
    cases home
  have silent : ∀ place, (s.order.addClient clientId shard numSlots).2.filterMap (toStorage place) = [] := by
    intro place
    obtain refused | ⟨_, accepted⟩ := add_client_cases s.order clientId shard numSlots
    · rw [refused]
      rfl
    · rw [accepted]
      rfl
  constructor
  · exact keeps.queues.trans ordered.queues
  · exact keeps.valid ordered.valid
  · intro at_shard replica member
    change s.control (at_shard, replica) ++ (s.order.addClient clientId shard numSlots).2.filterMap (toStorage (at_shard, replica)) = _
    rw [silent, List.append_nil]
    exact ordered.links at_shard replica member
  · intro client state present
    by_cases mine : client = clientId
    · subst mine
      change (s.order.addClient client shard numSlots).1.clientState client = some state at present
      change Function.update s.homes client _ client = _
      rw [Function.update_self, present]
      rfl
    · rw [homes client mine]
      exact ordered.home client state ((others client mine).symm.trans present)
  · intro at_shard slot member
    have home := ordered.owned at_shard slot member
    rw [homes _ (known _ _ home)]
    exact home
  · exact ordered.increasing
  · intro at_shard slot member
    change slot.1 < (s.order.addClient clientId shard numSlots).1.gsnBase
    rw [keeps.base]
    exact ordered.below at_shard slot member
  · change (s.order.addClient clientId shard numSlots).1.gsnBase < 2 ^ 64
    rw [keeps.base]
    exact ordered.word
  · exact ordered.alone
  · exact ordered.settled
  · intro at_shard client member
    obtain ⟨home, failed⟩ := ordered.frozen at_shard client member
    have different := known client at_shard home
    refine ⟨(homes client different).trans home, ?_⟩
    intro state present
    exact failed state ((others client different).symm.trans present)
  · intro at_shard client member
    obtain ⟨home, gone⟩ := ordered.finalized at_shard client member
    have different := known client at_shard home
    exact ⟨(homes client different).trans home, (others client different).trans gone⟩

end ZipLog.System
