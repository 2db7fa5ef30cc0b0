import ZipLog.Order.Partition
import ZipLog.Storage.Control

set_option autoImplicit false

namespace ZipLog.Order

open Storage

-- What a control message gives to a client: the number of slots beside its name.
def share (clientId : Nat) : StorageControl → List Nat
  | .slots slots => (slots.assignments.filter (fun assignment => assignment.clientId == clientId)).map Assignment.numSlots
  | _ => []

def rations (clientId : Nat) (messages : List StorageControl) : List Nat := messages.flatMap (share clientId)

theorem rations_append (clientId : Nat) (messages more : List StorageControl) :
    rations clientId (messages ++ more) = rations clientId messages ++ rations clientId more := List.flatMap_append

theorem rations_grow (clientId : Nat) (messages more : List StorageControl) (before : messages <+: more) :
    rations clientId messages <+: rations clientId more := by
  obtain ⟨rest, rfl⟩ := before
  rw [rations_append]
  exact List.prefix_append _ _

-- What order sends while no client fails; the largest assignment comes first.
def Measured : StorageControl → Prop
  | .slots slots => (∀ assignment ∈ slots.assignments,
      assignment.numSlots ≤ (slots.assignments.head?.map Assignment.numSlots).getD 0) ∧
      (slots.assignments.head?.map Assignment.numSlots).getD 0 < 2 ^ 63
  | .clientFinalize _ => True
  | _ => False

theorem own_slots_count (clientId gsn : Nat) (order : List Assignment) (known : clientId ≠ uint64Max) :
    (ownSlots gsn order).countP (fun slot => slot.2 == clientId) = order.countP (fun assignment => assignment.clientId == clientId) := by
  induction order generalizing gsn with
  | nil => rfl
  | cons assignment order ih =>
      by_cases foreign : assignment.clientId = uint64Max
      · rw [ownSlots, if_pos foreign, ih, List.countP_cons_of_neg]
        rw [foreign]
        simpa using Ne.symm known
      · rw [ownSlots, if_neg foreign, List.countP_cons, List.countP_cons, ih]

theorem share_count (clientId : Nat) (message : StorageControl) (known : clientId ≠ uint64Max) (measured : Measured message) :
    (controlSlots message).countP (fun slot => slot.2 == clientId) = (share clientId message).sum := by
  cases message with
  | slots slots =>
      rw [controlSlots, newSlots, own_slots_count clientId _ _ known, schedule_count _ _ measured.1 measured.2]
      rfl
  | clientFreeze client => cases measured
  | clientCut cut => cases measured
  | clientPatch patch => cases measured
  | clientFinalize client => rfl

-- The chain of a client at a server that has handled these messages.
theorem chain_rations (clientId : Nat) (messages : List StorageControl) (known : clientId ≠ uint64Max)
    (measured : ∀ message ∈ messages, Measured message) :
    (chain (slotsIn messages) clientId).length = (rations clientId messages).sum := by
  induction messages with
  | nil => rfl
  | cons message messages ih =>
      have rest := ih (fun other member => measured other (List.mem_cons_of_mem _ member))
      have first := share_count clientId message known (measured message List.mem_cons_self)
      rw [chain_length, gsns, List.length_map, ← List.countP_eq_length_filter] at rest ⊢
      rw [slotsIn, List.flatMap_cons, List.countP_append, first, ← slotsIn, rest, rations, rations, List.flatMap_cons, List.sum_append]

theorem active_only (state : State) (clientId : Nat) (valid : state.Valid)
    (alive : ∀ client, state.clientState clientId = some client → client.failed = false) :
    (active state.clients).filter (fun slot => slot.clientId == clientId) =
      ((state.clientState clientId).map (fun client => (⟨client.numSlots, client.shardId, clientId⟩ : Slots))).toList := by
  cases present : state.clientState clientId with
  | none =>
      apply List.filter_eq_nil_iff.mpr
      intro slot member same
      obtain ⟨client, _, there, _⟩ := (active_member state slot).mp member
      rw [beq_iff_eq.mp same, present] at there
      cases there
  | some client =>
      exact active_unique state ⟨client.numSlots, client.shardId, clientId⟩
        ((active_member state _).mpr ⟨client, (valid clientId client present).1, present, alive client present, rfl, rfl⟩)

-- The slots of a client in the message of the epoch for a shard.
theorem epoch_share (state : State) (shardId clientId : Nat) (known : clientId ≠ uint64Max) (valid : state.Valid)
    (alive : ∀ client, state.clientState clientId = some client → client.failed = false) :
    share clientId (.slots (state.storageSlots shardId)) =
      (((state.clientState clientId).filter (fun client => client.shardId = shardId)).map ClientState.numSlots).toList := by
  have mine : (state.storageSlots shardId).assignments.filter (fun assignment => assignment.clientId == clientId) =
      ((state.slots.filter (fun slot => slot.clientId == clientId)).filter (fun slot => slot.shardId = shardId)).map
        (fun slot => ⟨if slot.shardId ≠ shardId then uint64Max else slot.clientId, slot.numSlots⟩) := by
    simp only [State.storageSlots, List.filter_map, List.filter_filter]
    congr 1
    apply List.filter_congr
    intro slot _
    by_cases here : slot.shardId = shardId
    · simp [here]
    · simpa [here] using Ne.symm known
  have only : state.slots.filter (fun slot => slot.clientId == clientId) =
      ((state.clientState clientId).map (fun client => (⟨client.numSlots, client.shardId, clientId⟩ : Slots))).toList := by
    have perm := (slots_perm state).filter (fun slot => slot.clientId == clientId)
    rw [active_only state clientId valid alive] at perm
    cases present : state.clientState clientId with
    | none =>
        rw [present] at perm
        exact List.perm_nil.mp perm
    | some client =>
        rw [present] at perm
        exact List.perm_singleton.mp perm
  rw [share, mine, only]
  cases state.clientState clientId with
  | none => rfl
  | some client =>
      by_cases here : client.shardId = shardId
      · simp [here, Option.filter]
      · simp [here, Option.filter]

theorem epoch_measured (state : State) (shardId : Nat) (small : ∀ slot ∈ active state.clients, slot.numSlots < 2 ^ 63) :
    Measured (.slots (state.storageSlots shardId)) := by
  have sorted := head_largest state
  have bound := head_small state small
  rw [storage_slots_masked, Measured, masked_map]
  have head : ((((state.masked (fun _ => true)).assignments.map (mask (state.inShard shardId))).head?).map Assignment.numSlots).getD 0 =
      ((state.masked (fun _ => true)).assignments.head?.map Assignment.numSlots).getD 0 := by
    rw [List.head?_map, Option.map_map]
    rfl
  rw [head]
  refine ⟨?_, bound⟩
  intro assignment member
  obtain ⟨plain, inside, rfl⟩ := List.mem_map.mp member
  exact sorted plain inside

end ZipLog.Order
