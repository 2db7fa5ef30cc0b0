import ZipLog.Lib.Run
import ZipLog.Order.Order
import ZipLog.Storage.Agreement

set_option autoImplicit false

namespace ZipLog.Order

open Storage

-- What add_client checks before a client enters the map.
def State.Valid (state : State) : Prop :=
  ∀ clientId client, state.clientState clientId = some client → clientId < maxClients ∧ client.shardId < state.numShards

def slotSum (slots : List Slots) : Nat := (slots.map Slots.numSlots).sum

-- The bounds under which no counter of the epoch branch or of add_entries wraps.
structure State.Fits (state : State) : Prop where
  small : ∀ slot ∈ active state.clients, slot.numSlots < 2 ^ 63
  word : state.gsnBase + slotSum (active state.clients) < 2 ^ 64

instance (state : State) : Decidable state.Fits :=
  decidable_of_iff ((∀ slot ∈ active state.clients, slot.numSlots < 2 ^ 63) ∧
    state.gsnBase + slotSum (active state.clients) < 2 ^ 64)
    ⟨fun both => ⟨both.1, both.2⟩, fun fits => ⟨fits.small, fits.word⟩⟩

-- The message of the epoch with the names of some clients left in.
def State.masked (state : State) (keep : Nat → Bool) : StorageSlots :=
  ⟨state.gsnBase, state.slots.map (fun slot => ⟨if keep slot.clientId then slot.clientId else uint64Max, slot.numSlots⟩)⟩

def State.inShard (state : State) (shardId clientId : Nat) : Bool :=
  (state.clientState clientId).any (fun client => client.shardId = shardId)

-- The clients in the order in which the epoch serves them.
def State.order (state : State) : List Assignment := schedule (state.masked (fun _ => true)).assignments

def mask (keep : Nat → Bool) (assignment : Assignment) : Assignment :=
  ⟨if keep assignment.clientId then assignment.clientId else uint64Max, assignment.numSlots⟩

theorem masked_map (state : State) (keep : Nat → Bool) :
    (state.masked keep).assignments = ((state.masked (fun _ => true)).assignments).map (mask keep) := by
  simp [State.masked, mask]

theorem clients_member (state : State) (clientId : Nat) (client : ClientState) :
    (clientId, client) ∈ state.clients ↔ clientId < maxClients ∧ state.clientState clientId = some client := by
  simp only [State.clients, List.mem_filterMap, List.mem_range, Option.map_eq_some_iff, Prod.mk.injEq]
  constructor
  · rintro ⟨id, small, other, present, rfl, rfl⟩
    exact ⟨small, present⟩
  · rintro ⟨small, present⟩
    exact ⟨clientId, small, client, present, rfl, rfl⟩

theorem active_member (state : State) (slot : Slots) : slot ∈ active state.clients ↔
    ∃ client, slot.clientId < maxClients ∧ state.clientState slot.clientId = some client ∧ client.failed = false ∧
      slot.numSlots = client.numSlots ∧ slot.shardId = client.shardId := by
  simp only [active, List.mem_map, List.mem_filter, decide_eq_true_eq]
  constructor
  · rintro ⟨⟨clientId, client⟩, ⟨member, alive⟩, rfl⟩
    obtain ⟨small, present⟩ := (clients_member state clientId client).mp member
    exact ⟨client, small, present, alive, rfl, rfl⟩
  · rintro ⟨client, small, present, alive, slots, shard⟩
    refine ⟨(slot.clientId, client), ⟨(clients_member state _ client).mpr ⟨small, present⟩, alive⟩, ?_⟩
    obtain ⟨numSlots, shardId, clientId⟩ := slot
    simp only [Slots.mk.injEq] at slots shard ⊢
    exact ⟨slots.symm, shard.symm, trivial⟩

theorem slots_perm (state : State) : state.slots.Perm (active state.clients) := List.perm_insertionSort _ _

instance : Std.Total Slots.after := ⟨fun first second => by unfold Slots.after; omega⟩

instance : IsTrans Slots Slots.after := ⟨fun first second third => by unfold Slots.after; omega⟩

instance : Std.Antisymm Slots.after := ⟨fun first second left right => by
  obtain ⟨numSlots, shardId, clientId⟩ := first
  obtain ⟨numSlots', shardId', clientId'⟩ := second
  simp only [Slots.after] at left right
  simp only [Slots.mk.injEq]
  omega⟩

theorem slots_sorted (state : State) : state.slots.Pairwise Slots.after := List.pairwise_insertionSort _ _

-- Whatever order the unordered map is walked in, the sorted vector is the same.
theorem slots_any_order (state : State) (walk : List (Nat × ClientState)) (same : walk.Perm state.clients) :
    (active walk).insertionSort Slots.after = state.slots := by
  have perm : (active walk).Perm (active state.clients) := (same.filter _).map _
  exact ((List.perm_insertionSort _ _).trans (perm.trans (List.perm_insertionSort _ _).symm)).eq_of_pairwise'
    (List.pairwise_insertionSort _ _) (List.pairwise_insertionSort _ _)

theorem assignment_member (state : State) (assignment : Assignment) :
    assignment ∈ (state.masked (fun _ => true)).assignments ↔ ∃ client, assignment.clientId < maxClients ∧
      state.clientState assignment.clientId = some client ∧ client.failed = false ∧ assignment.numSlots = client.numSlots := by
  simp only [State.masked, if_true, List.mem_map, (slots_perm state).mem_iff]
  constructor
  · rintro ⟨slot, member, rfl⟩
    obtain ⟨client, small, present, alive, slots, _⟩ := (active_member state slot).mp member
    exact ⟨client, small, present, alive, slots⟩
  · rintro ⟨client, small, present, alive, slots⟩
    exact ⟨⟨assignment.numSlots, client.shardId, assignment.clientId⟩,
      (active_member state _).mpr ⟨client, small, present, alive, slots, rfl⟩, rfl⟩

-- The vector is sorted, so the client that drives the outer loop has the most
-- slots.
theorem head_largest (state : State) : ∀ assignment ∈ (state.masked (fun _ => true)).assignments,
    assignment.numSlots ≤ ((state.masked (fun _ => true)).assignments.head?.map Assignment.numSlots).getD 0 := by
  have sorted := slots_sorted state
  simp only [State.masked, if_true]
  generalize state.slots = slots at sorted ⊢
  cases slots with
  | nil => simp
  | cons first rest =>
      have largest := (List.pairwise_cons.mp sorted).1
      intro assignment member
      simp only [List.map_cons, List.mem_cons, List.mem_map, List.head?_cons, Option.map_some, Option.getD_some] at member ⊢
      rcases member with rfl | ⟨slot, later, rfl⟩
      · exact Nat.le_refl _
      · have order := largest slot later
        unfold Slots.after at order
        change slot.numSlots ≤ first.numSlots
        omega

theorem head_small (state : State) (small : ∀ slot ∈ active state.clients, slot.numSlots < 2 ^ 63) :
    ((state.masked (fun _ => true)).assignments.head?.map Assignment.numSlots).getD 0 < 2 ^ 63 := by
  cases front : (state.masked (fun _ => true)).assignments with
  | nil => exact (by decide : 0 < 2 ^ 63)
  | cons first rest =>
      obtain ⟨client, known, present, alive, slots⟩ := (assignment_member state first).mp (by rw [front]; simp)
      have bound := small ⟨client.numSlots, client.shardId, first.clientId⟩
        ((active_member state _).mpr ⟨client, known, present, alive, rfl, rfl⟩)
      simpa [slots] using bound

theorem order_count (state : State) (fits : state.Fits) (wanted : Assignment → Bool) :
    state.order.countP wanted =
      (((state.masked (fun _ => true)).assignments.filter wanted).map Assignment.numSlots).sum :=
  schedule_count wanted _ (head_largest state) (head_small state fits.small)

theorem order_length (state : State) (fits : state.Fits) : state.order.length = slotSum (active state.clients) := by
  have counted := order_count state fits (fun _ => true)
  rw [List.countP_true, List.filter_true] at counted
  rw [counted, slotSum, ← ((slots_perm state).map Slots.numSlots).sum_eq]
  simp [State.masked, Function.comp_def]

theorem order_member (state : State) (fits : state.Fits) (assignment : Assignment) (member : assignment ∈ state.order) :
    assignment ∈ (state.masked (fun _ => true)).assignments := by
  by_contra absent
  have none : (state.masked (fun _ => true)).assignments.filter (fun other => decide (other = assignment)) = [] := by
    rw [List.filter_eq_nil_iff]
    intro other present same
    rw [decide_eq_true_iff] at same
    exact absent (same ▸ present)
  have counted := order_count state fits (fun other => decide (other = assignment))
  rw [none, List.map_nil, List.sum_nil, List.countP_eq_zero] at counted
  exact counted assignment member (decide_eq_true rfl)

theorem max_clients_lt : maxClients < uint64Max := by decide

-- Masking changes who sees a slot, not which GSN it has.
theorem masked_slots (state : State) (fits : state.Fits) (keep : Nat → Bool) :
    newSlots (state.masked keep) = ((state.order.zipIdx state.gsnBase).filter (fun slot => keep slot.1.clientId)).map
      (fun slot => (slot.2, slot.1.clientId)) := by
  have word := fits.word
  have length := order_length state fits
  have masked : schedule (state.masked keep).assignments = state.order.map (mask keep) := by
    rw [masked_map, schedule_map (mask keep) (fun _ => rfl), State.order]
  rw [newSlots, masked, own_slots_exact _ _ (by rw [List.length_map, length]; exact Nat.le_of_lt word), List.zipIdx_map,
    List.filter_map, List.map_map]
  have same : (state.order.zipIdx state.gsnBase).filter
      ((fun slot => decide (slot.1.clientId ≠ uint64Max)) ∘ Prod.map (mask keep) id) =
      (state.order.zipIdx state.gsnBase).filter (fun slot => keep slot.1.clientId) := by
    apply List.filter_congr
    rintro ⟨assignment, index⟩ member
    obtain ⟨client, small, _⟩ := (assignment_member state assignment).mp
      (order_member state fits assignment (List.fst_mem_of_mem_zipIdx member))
    have known : assignment.clientId ≠ uint64Max := Nat.ne_of_lt (Nat.lt_trans small max_clients_lt)
    cases kept : keep assignment.clientId <;> simp [mask, kept, known]
  change List.map _ (List.filter ((fun slot => decide (slot.1.clientId ≠ uint64Max)) ∘ Prod.map (mask keep) id)
    (state.order.zipIdx state.gsnBase)) = _
  rw [same]
  apply List.map_congr_left
  rintro ⟨assignment, index⟩ member
  have kept := (List.mem_filter.mp member).2
  simp only [Function.comp_apply, Prod.map_apply, mask, id_eq, Prod.mk.injEq, true_and]
  exact if_pos kept

theorem masked_member (state : State) (fits : state.Fits) (keep : Nat → Bool) (gsn clientId : Nat) :
    (gsn, clientId) ∈ newSlots (state.masked keep) ↔ keep clientId = true ∧ state.gsnBase ≤ gsn ∧
      ∃ assignment, state.order[gsn - state.gsnBase]? = some assignment ∧ assignment.clientId = clientId := by
  rw [masked_slots state fits keep]
  simp only [List.mem_map, List.mem_filter, Prod.mk.injEq]
  constructor
  · rintro ⟨⟨assignment, index⟩, ⟨member, kept⟩, rfl, rfl⟩
    obtain ⟨lower, access⟩ := List.mem_zipIdx_iff_le_and_getElem?_sub.mp member
    exact ⟨kept, lower, assignment, access, rfl⟩
  · rintro ⟨kept, lower, assignment, access, rfl⟩
    exact ⟨(assignment, gsn), ⟨List.mem_zipIdx_iff_le_and_getElem?_sub.mpr ⟨lower, access⟩, kept⟩, rfl, rfl⟩

theorem masked_increasing (state : State) (fits : state.Fits) (keep : Nat → Bool) :
    Increasing (newSlots (state.masked keep)) := by
  have word := fits.word
  have length := order_length state fits
  have masked : schedule (state.masked keep).assignments = state.order.map (mask keep) := by
    rw [masked_map, schedule_map (mask keep) (fun _ => rfl), State.order]
  rw [newSlots, masked]
  exact own_slots_increasing _ _ (by rw [List.length_map, length]; exact Nat.le_of_lt word)

theorem storage_slots_masked (state : State) (shardId : Nat) :
    state.storageSlots shardId = state.masked (state.inShard shardId) := by
  simp only [State.storageSlots, State.masked, StorageSlots.mk.injEq, true_and]
  apply List.map_congr_left
  intro slot member
  obtain ⟨client, _, present, _, _, shard⟩ := (active_member state slot).mp ((slots_perm state).mem_iff.mp member)
  by_cases here : client.shardId = shardId <;> simp [State.inShard, present, shard, here]

-- The slots that the entries of a log were made for, in log order.
def assigned (log : Log) : List (Nat × Nat) :=
  (List.range log.currentEntries).filterMap (fun index =>
    (log.read (ptr index)).map (fun entry => (entry.gsn, entry.clientId)))

theorem assigned_represents (log : Log) (contents : Contents) (rep : Represents log contents) :
    assigned log = contents.slots := by
  have reads : ∀ index ∈ List.range contents.slots.length,
      (log.read (ptr index)).map (fun entry => (entry.gsn, entry.clientId)) = contents.slots[index]? := by
    intro index member
    have bound := List.mem_range.mp member
    obtain ⟨rank, access⟩ := chain_rank_exists contents.slots index _ _ (List.getElem?_eq_getElem bound)
    obtain ⟨entry, read, cell⟩ := rep.cells _ rank index access
    rw [read, cell.slot, Option.map_some, cell.owner]
  rw [assigned, rep.count, List.filterMap_congr reads]
  generalize contents.slots = slots
  induction slots using List.reverseRecOn with
  | nil => rfl
  | append_singleton slots slot ih =>
      have older : (List.range slots.length).filterMap (fun index => (slots ++ [slot])[index]?) = slots := by
        rw [List.filterMap_congr (g := fun index => slots[index]?)]
        · exact ih
        · intro index member
          exact List.getElem?_append_left (List.mem_range.mp member)
      rw [List.length_append, List.length_singleton, List.range_succ, List.filterMap_append, older]
      simp

-- storage_slots at a log: what the control thread does with a message.
def received (log : Log) (slots : StorageSlots) : Log :=
  if 0 < slots.assignments.length then log.addEntries zeroed slots else log

theorem received_represents (log : Log) (contents : Contents) (slots : StorageSlots) (rep : Represents log contents) :
    Represents (received log slots) (contents.extend (newSlots slots)) := by
  obtain ⟨startGsn, assignments⟩ := slots
  cases assignments with
  | nil => simpa [received, new_slots_nil, extend_nil] using rep
  | cons primary secondary => exact (add_entries_represents log contents _ rep).1

-- The entries that a message adds to a log.
def added (log : Log) (slots : StorageSlots) : List (Nat × Nat) := (assigned (received log slots)).drop log.currentEntries

theorem added_represents (log : Log) (contents : Contents) (slots : StorageSlots) (rep : Represents log contents) :
    added log slots = newSlots slots := by
  rw [added, assigned_represents _ _ (received_represents log contents slots rep), rep.count, Contents.extend, List.drop_left]

-- Every GSN below the limit and from the base on is at one index of one shard.
def Covers (numShards base limit : Nat) (entries : Nat → List (Nat × Nat)) : Prop :=
  (∀ gsn, base ≤ gsn → gsn < limit →
    ∃! place : Nat × Nat, place.1 < numShards ∧ (entries place.1)[place.2]?.map Prod.fst = some gsn) ∧
  ∀ shardId, shardId < numShards → ∀ entry ∈ entries shardId, base ≤ entry.1 ∧ entry.1 < limit

-- What one epoch does to the logs of all shards.
structure EpochExact (state : State) (logs : Nat → Log) : Prop where
  covers : Covers state.numShards state.gsnBase (state.gsnBase + slotSum (active state.clients))
    (fun shardId => added (logs shardId) (state.storageSlots shardId))
  share : ∀ slot ∈ active state.clients,
    (gsns (added (logs slot.shardId) (state.storageSlots slot.shardId)) slot.clientId).length = slot.numSlots
  masking : ∀ slot ∈ active state.clients, ∀ (log : Log) (keep : Nat → Bool), (∃ contents, Represents log contents) →
    keep slot.clientId = true →
    gsns (added log (state.masked keep)) slot.clientId =
      gsns (added (logs slot.shardId) (state.storageSlots slot.shardId)) slot.clientId

-- Two families of entries on top of each other cover the two ranges together.
theorem increasing_index (slots : List (Nat × Nat)) (increasing : Increasing slots) (first second gsn : Nat)
    (left : slots[first]?.map Prod.fst = some gsn) (right : slots[second]?.map Prod.fst = some gsn) : first = second := by
  obtain ⟨a, atFirst, rfl⟩ := Option.map_eq_some_iff.mp left
  obtain ⟨b, atSecond, same⟩ := Option.map_eq_some_iff.mp right
  obtain ⟨firstBound, rfl⟩ := List.getElem?_eq_some_iff.mp atFirst
  obtain ⟨secondBound, rfl⟩ := List.getElem?_eq_some_iff.mp atSecond
  rcases Nat.lt_trichotomy first second with less | equal | more
  · have := List.pairwise_iff_getElem.mp increasing first second firstBound secondBound less
    omega
  · exact equal
  · have := List.pairwise_iff_getElem.mp increasing second first secondBound firstBound more
    omega

-- Covering is the same as: increasing at each shard, every GSN somewhere and
-- no GSN at two shards.
theorem covers_of_members (numShards base limit : Nat) (entries : Nat → List (Nat × Nat))
    (increasing : ∀ shardId, Increasing (entries shardId))
    (somewhere : ∀ gsn, base ≤ gsn → gsn < limit → ∃ shardId clientId, shardId < numShards ∧ (gsn, clientId) ∈ entries shardId)
    (alone : ∀ first second gsn client client', (gsn, client) ∈ entries first → (gsn, client') ∈ entries second → first = second)
    (inside : ∀ shardId, shardId < numShards → ∀ entry ∈ entries shardId, base ≤ entry.1 ∧ entry.1 < limit) :
    Covers numShards base limit entries := by
  refine ⟨?_, inside⟩
  intro gsn lower upper
  obtain ⟨shardId, clientId, bound, member⟩ := somewhere gsn lower upper
  obtain ⟨index, access⟩ := List.mem_iff_getElem?.mp member
  refine ⟨(shardId, index), ⟨bound, by simp [access]⟩, ?_⟩
  rintro ⟨other, index'⟩ ⟨bound', value⟩
  obtain ⟨⟨gsn', client'⟩, access', same⟩ := Option.map_eq_some_iff.mp value
  have sameGsn : gsn' = gsn := same
  subst sameGsn
  obtain rfl : other = shardId := alone _ _ _ _ _ (List.mem_of_getElem? access') member
  have sameIndex := increasing_index (entries other) (increasing other) index' index gsn' value (by simp [access])
  rw [sameIndex]

theorem in_shard_iff (state : State) (shardId clientId : Nat) :
    state.inShard shardId clientId = true ↔ ∃ client, state.clientState clientId = some client ∧ client.shardId = shardId := by
  simp [State.inShard, Option.any_eq_true]

theorem new_slots_somewhere (state : State) (valid : state.Valid) (fits : state.Fits) (gsn : Nat) (lower : state.gsnBase ≤ gsn)
    (upper : gsn < state.gsnBase + slotSum (active state.clients)) :
    ∃ shardId clientId, shardId < state.numShards ∧ (gsn, clientId) ∈ newSlots (state.storageSlots shardId) := by
  have bound : gsn - state.gsnBase < state.order.length := by
    rw [order_length state fits]
    omega
  have access := List.getElem?_eq_getElem bound
  obtain ⟨client, _, present, _⟩ := (assignment_member state _).mp (order_member state fits _ (List.getElem_mem bound))
  refine ⟨client.shardId, (state.order[gsn - state.gsnBase]).clientId, (valid _ client present).2, ?_⟩
  rw [storage_slots_masked, masked_member state fits]
  exact ⟨(in_shard_iff state _ _).mpr ⟨client, present, rfl⟩, lower, _, access, rfl⟩

theorem new_slots_alone (state : State) (fits : state.Fits) (first second gsn client client' : Nat)
    (left : (gsn, client) ∈ newSlots (state.storageSlots first)) (right : (gsn, client') ∈ newSlots (state.storageSlots second)) :
    first = second := by
  rw [storage_slots_masked, masked_member state fits] at left right
  obtain ⟨here, _, assignment, access, rfl⟩ := left
  obtain ⟨there, _, assignment', access', rfl⟩ := right
  obtain rfl := Option.some.inj (access.symm.trans access')
  obtain ⟨owner, present, rfl⟩ := (in_shard_iff state _ _).mp here
  obtain ⟨owner', present', rfl⟩ := (in_shard_iff state _ _).mp there
  rw [Option.some.inj (present.symm.trans present')]

theorem new_slots_inside (state : State) (fits : state.Fits) (shardId : Nat) :
    ∀ entry ∈ newSlots (state.storageSlots shardId),
      state.gsnBase ≤ entry.1 ∧ entry.1 < state.gsnBase + slotSum (active state.clients) := by
  rintro ⟨gsn, clientId⟩ member
  rw [storage_slots_masked, masked_member state fits] at member
  obtain ⟨_, lower, _, access, _⟩ := member
  have bound := (List.getElem?_eq_some_iff.mp access).1
  rw [order_length state fits] at bound
  change state.gsnBase ≤ gsn ∧ gsn < _
  omega

theorem new_slots_active (state : State) (fits : state.Fits) (shardId gsn clientId : Nat)
    (member : (gsn, clientId) ∈ newSlots (state.storageSlots shardId)) :
    ∃ client, state.clientState clientId = some client ∧ client.failed = false ∧ client.shardId = shardId := by
  rw [storage_slots_masked, masked_member state fits] at member
  obtain ⟨here, _, assignment, access, rfl⟩ := member
  obtain ⟨client, present, shard⟩ := (in_shard_iff state _ _).mp here
  obtain ⟨other, _, again, alive, _⟩ := (assignment_member state _).mp (order_member state fits _ (List.mem_of_getElem? access))
  obtain rfl := Option.some.inj (present.symm.trans again)
  exact ⟨client, present, alive, shard⟩

theorem active_nodup (state : State) : (active state.clients).Nodup := by
  have clients : state.clients.Nodup := by
    apply List.Nodup.filterMap _ List.nodup_range
    intro first second entry left right
    obtain ⟨_, _, rfl⟩ := Option.map_eq_some_iff.mp left
    obtain ⟨_, _, same⟩ := Option.map_eq_some_iff.mp right
    exact (congrArg Prod.fst same).symm
  refine (List.nodup_map_iff_inj_on (clients.filter _)).mpr ?_
  rintro ⟨first, client⟩ left ⟨second, client'⟩ right same
  have sameId : first = second := congrArg Slots.clientId same
  subst sameId
  have present := ((clients_member state first client).mp (List.mem_filter.mp left).1).2
  have present' := ((clients_member state first client').mp (List.mem_filter.mp right).1).2
  rw [Option.some.inj (present.symm.trans present')]

theorem active_unique (state : State) (slot : Slots) (member : slot ∈ active state.clients) :
    (active state.clients).filter (fun other => other.clientId == slot.clientId) = [slot] := by
  have nodup := (active_nodup state).filter (fun other => other.clientId == slot.clientId)
  have only : ∀ other ∈ (active state.clients).filter (fun other => other.clientId == slot.clientId), other = slot := by
    intro other present
    obtain ⟨inside, sameId⟩ := List.mem_filter.mp present
    obtain ⟨client, _, here, _, slots, shard⟩ := (active_member state slot).mp member
    obtain ⟨client', _, there, _, slots', shard'⟩ := (active_member state other).mp inside
    have equal : other.clientId = slot.clientId := by simpa using sameId
    rw [equal] at there
    obtain rfl := Option.some.inj (here.symm.trans there)
    obtain ⟨numSlots, shardId, clientId⟩ := slot
    obtain ⟨numSlots', shardId', clientId'⟩ := other
    simp only [Slots.mk.injEq] at equal slots shard slots' shard' ⊢
    exact ⟨slots'.trans slots.symm, shard'.trans shard.symm, equal⟩
  have present : slot ∈ (active state.clients).filter (fun other => other.clientId == slot.clientId) :=
    List.mem_filter.mpr ⟨member, by simp⟩
  exact List.perm_singleton.mp ((List.perm_ext_iff_of_nodup nodup (List.nodup_singleton slot)).mpr
    (fun other => ⟨fun inside => List.mem_singleton.mpr (only other inside),
      fun same => (List.mem_singleton.mp same) ▸ present⟩))

theorem masked_gsns (state : State) (fits : state.Fits) (keep : Nat → Bool) (clientId : Nat) (kept : keep clientId = true) :
    gsns (newSlots (state.masked keep)) clientId =
      ((state.order.zipIdx state.gsnBase).filter (fun slot => slot.1.clientId == clientId)).map Prod.snd := by
  rw [masked_slots state fits keep, gsns, List.filter_map, List.filter_filter, List.map_map]
  congr 1
  apply List.filter_congr
  rintro ⟨assignment, index⟩ _
  by_cases mine : assignment.clientId = clientId
  · simp [mine, kept]
  · simp [mine]

theorem masked_share (state : State) (fits : state.Fits) (keep : Nat → Bool) (slot : Slots)
    (member : slot ∈ active state.clients) (kept : keep slot.clientId = true) :
    (gsns (newSlots (state.masked keep)) slot.clientId).length = slot.numSlots := by
  have served : (gsns (newSlots (state.masked keep)) slot.clientId).length =
      state.order.countP (fun assignment => assignment.clientId == slot.clientId) := by
    rw [masked_gsns state fits keep _ kept, List.length_map, ← List.countP_eq_length_filter]
    conv_rhs => rw [← List.zipIdx_map_fst state.gsnBase state.order, List.countP_map]
    rfl
  have asked : ((state.masked (fun _ => true)).assignments.filter
      (fun assignment => assignment.clientId == slot.clientId)).map Assignment.numSlots =
      (state.slots.filter (fun other => other.clientId == slot.clientId)).map Slots.numSlots := by
    simp only [State.masked, if_true, List.filter_map, List.map_map]
    rfl
  rw [served, order_count state fits, asked, (((slots_perm state).filter _).map Slots.numSlots).sum_eq,
    active_unique state slot member]
  simp

theorem epoch_exact (state : State) (valid : state.Valid) (fits : state.Fits) (logs : Nat → Log)
    (reps : ∀ shardId, ∃ contents, Represents (logs shardId) contents) : EpochExact state logs := by
  have new (log : Log) (slots : StorageSlots) (rep : ∃ contents, Represents log contents) : added log slots = newSlots slots := by
    obtain ⟨contents, rep⟩ := rep
    exact added_represents log contents slots rep
  have home (slot : Slots) (member : slot ∈ active state.clients) : state.inShard slot.shardId slot.clientId = true := by
    obtain ⟨client, _, present, _, _, shard⟩ := (active_member state slot).mp member
    exact (in_shard_iff state _ _).mpr ⟨client, present, shard.symm⟩
  refine ⟨?_, ?_, ?_⟩
  · simp only [new _ _ (reps _)]
    refine covers_of_members _ _ _ _ ?_ (new_slots_somewhere state valid fits) (new_slots_alone state fits)
      (fun shardId _ => new_slots_inside state fits shardId)
    intro shardId
    rw [storage_slots_masked]
    exact masked_increasing state fits _
  · intro slot member
    rw [new _ _ (reps _), storage_slots_masked]
    exact masked_share state fits _ slot member (home slot member)
  · intro slot member log keep rep kept
    rw [new _ _ rep, new _ _ (reps _), storage_slots_masked, masked_gsns state fits keep _ kept,
      masked_gsns state fits _ _ (home slot member)]

-- Every handler but the epoch branch keeps the counter and the shards, and lets
-- only checked clients into the map.
structure State.Keeps (state next : State) : Prop where
  shards : next.numShards = state.numShards
  base : next.gsnBase = state.gsnBase
  queues : next.storageQueues = state.storageQueues
  valid : state.Valid → next.Valid

theorem keeps_refl (state : State) : state.Keeps state := ⟨rfl, rfl, rfl, id⟩

theorem keeps_trans (first second third : State) (left : first.Keeps second) (right : second.Keeps third) : first.Keeps third :=
  ⟨right.shards.trans left.shards, right.base.trans left.base, right.queues.trans left.queues,
    fun valid => right.valid (left.valid valid)⟩

theorem set_client_state_same (state : State) (clientId : Nat) (client : Option ClientState) :
    (state.setClientState clientId client).clientState clientId = client := Function.update_self _ _ _

theorem set_client_state_other (state : State) (clientId other : Nat) (client : Option ClientState) (different : other ≠ clientId) :
    (state.setClientState clientId client).clientState other = state.clientState other := Function.update_of_ne different _ _

theorem keeps_set (state : State) (clientId : Nat) (client : Option ClientState)
    (checked : state.Valid → ∀ new, client = some new → clientId < maxClients ∧ new.shardId < state.numShards) :
    state.Keeps (state.setClientState clientId client) := by
  refine ⟨rfl, rfl, rfl, ?_⟩
  intro valid other found present
  by_cases mine : other = clientId
  · subst mine
    exact checked valid found ((set_client_state_same _ _ _).symm.trans present)
  · exact valid other found ((set_client_state_other _ _ _ _ mine).symm.trans present)

theorem keeps_update (state : State) (clientId : Nat) (client new : ClientState)
    (present : state.clientState clientId = some client) (same : new.shardId = client.shardId) :
    state.Keeps (state.setClientState clientId (some new)) := by
  apply keeps_set
  intro valid found equal
  obtain rfl := Option.some.inj equal
  rw [same]
  exact valid clientId client present

theorem keeps_erase (state : State) (clientId : Nat) : state.Keeps (state.setClientState clientId none) := by
  apply keeps_set
  intro _ found equal
  cases equal

theorem keeps_add_client (state : State) (clientId shardId numSlots : Nat) :
    state.Keeps (state.addClient clientId shardId numSlots).1 := by
  unfold State.addClient
  split
  · exact keeps_refl state
  · rename_i refused
    push Not at refused
    apply keeps_set
    intro _ found equal
    obtain rfl := Option.some.inj equal
    exact ⟨refused.2.1, refused.1⟩

theorem keeps_client_rate (state : State) (clientId numSlots : Nat) : state.Keeps (state.clientRate clientId numSlots) := by
  unfold State.clientRate
  split
  · exact keeps_refl state
  · rename_i client present
    exact keeps_update state clientId client _ present rfl

theorem keeps_client_finished (state : State) (clientId : Nat) : state.Keeps (state.clientFinished clientId).1 := by
  unfold State.clientFinished
  split
  · exact keeps_refl state
  · exact keeps_erase state clientId

theorem keeps_client_freeze (state : State) (clientId : Nat) : state.Keeps (state.clientFreeze clientId).1 := by
  unfold State.clientFreeze
  split
  · exact keeps_refl state
  · rename_i client present
    split
    · exact keeps_refl state
    · exact keeps_update state clientId client _ present rfl

theorem keeps_client_cut (state : State) (cut : OrderClientCut) : state.Keeps (state.clientCut cut).1 := by
  unfold State.clientCut
  split
  · exact keeps_refl state
  · rename_i client present
    split
    · exact keeps_refl state
    · split
      · exact keeps_refl state
      · have saved := keeps_update state cut.clientId client
          { client with cuts := insertKey cut.replicaId cut.latestGsn client.cuts } present rfl
        dsimp only
        split
        · split
          · exact keeps_trans _ _ _ saved (keeps_erase _ cut.clientId)
          · exact keeps_trans _ _ _ saved (keeps_update _ cut.clientId _ _ (set_client_state_same _ _ _) rfl)
        · exact saved

theorem keeps_client_data (state : State) (data : OrderClientData) : state.Keeps (state.clientData data).1 := by
  unfold State.clientData
  split
  · exact keeps_refl state
  · rename_i client present
    split
    · exact keeps_refl state
    · split
      · exact keeps_refl state
      · split
        · have saved := keeps_update state data.clientId client
            { client with flushed := client.flushed ++ [data.replicaId] } present rfl
          dsimp only
          split
          · exact keeps_trans _ _ _ saved (keeps_erase _ data.clientId)
          · exact saved
        · split
          · exact keeps_refl state
          · exact keeps_update state data.clientId client _ present rfl

theorem total_slots_exact (slots : List Slots) (start : Nat) (word : start + slotSum slots < 2 ^ 64) :
    slots.foldl (fun total slot => uint64 (total + slot.numSlots)) start = start + slotSum slots := by
  induction slots generalizing start with
  | nil => simp [slotSum]
  | cons slot slots ih =>
      simp only [slotSum, List.map_cons, List.sum_cons] at word ih ⊢
      rw [List.foldl_cons, uint64_of_lt (by omega), ih _ (by omega), Nat.add_assoc]

theorem epoch_base (state : State) (fits : state.Fits) (now : Nat) :
    (state.epoch now).1.gsnBase = state.gsnBase + slotSum (active state.clients) := by
  have word := fits.word
  have total : totalSlots (active state.clients) = slotSum (active state.clients) := by
    rw [totalSlots, total_slots_exact _ 0 (by omega), Nat.zero_add]
  simp only [State.epoch, total]
  exact uint64_of_lt word

-- The ordering service and one log for each shard.
structure Epochs where
  order : State
  logs : Nat → Log

def Epochs.init (numShards : Nat) : Epochs := ⟨State.init numShards, fun _ => Log.init zeroed⟩

inductive Input where
  | addClient (clientId shardId numSlots : Nat)
  | clientRate (clientId numSlots : Nat)
  | clientFinished (clientId : Nat)
  | clientFreeze (clientId : Nat)
  | clientCut (cut : OrderClientCut)
  | clientData (data : OrderClientData)
  | epoch (now : Nat)
deriving DecidableEq, Repr

-- An epoch is only entered while the GSNs and rates stay within a word.
def Epochs.step (s : Epochs) : Input → Option Epochs
  | .addClient clientId shardId numSlots => some { s with order := (s.order.addClient clientId shardId numSlots).1 }
  | .clientRate clientId numSlots => some { s with order := s.order.clientRate clientId numSlots }
  | .clientFinished clientId => some { s with order := (s.order.clientFinished clientId).1 }
  | .clientFreeze clientId => some { s with order := (s.order.clientFreeze clientId).1 }
  | .clientCut cut => some { s with order := (s.order.clientCut cut).1 }
  | .clientData data => some { s with order := (s.order.clientData data).1 }
  | .epoch now =>
      if s.order.Fits then
        some ⟨(s.order.epoch now).1, fun shardId => received (s.logs shardId) (s.order.storageSlots shardId)⟩
      else none

structure Epochs.Inv (numShards : Nat) (s : Epochs) (contents : Nat → Contents) : Prop where
  shards : s.order.numShards = numShards
  valid : s.order.Valid
  reps : ∀ shardId, Represents (s.logs shardId) (contents shardId)
  increasing : ∀ shardId, Increasing (contents shardId).slots
  somewhere : ∀ gsn, gsn < s.order.gsnBase →
    ∃ shardId clientId, shardId < numShards ∧ (gsn, clientId) ∈ (contents shardId).slots
  alone : ∀ first second gsn client client', (gsn, client) ∈ (contents first).slots → (gsn, client') ∈ (contents second).slots →
    first = second
  below : ∀ shardId, ∀ slot ∈ (contents shardId).slots, slot.1 < s.order.gsnBase

theorem init_valid (numShards : Nat) : (State.init numShards).Valid := by
  intro clientId client present
  cases present

theorem epochs_init (numShards : Nat) : (Epochs.init numShards).Inv numShards (fun _ => Contents.empty) := by
  refine ⟨rfl, init_valid numShards, fun _ => init_represents, fun _ => List.Pairwise.nil, ?_, ?_, ?_⟩
  · intro gsn below
    exact absurd below (Nat.not_lt_zero gsn)
  · intro first second gsn client client' left
    cases left
  · intro shardId slot member
    cases member

theorem epochs_keep (numShards : Nat) (s : Epochs) (contents : Nat → Contents) (next : State) (inv : s.Inv numShards contents)
    (keeps : s.order.Keeps next) : { s with order := next }.Inv numShards contents :=
  ⟨keeps.shards.trans inv.shards, keeps.valid inv.valid, inv.reps, inv.increasing,
    fun gsn below => inv.somewhere gsn (keeps.base ▸ below), inv.alone,
    fun shardId slot member => keeps.base.symm ▸ inv.below shardId slot member⟩

theorem epochs_epoch (numShards : Nat) (s : Epochs) (contents : Nat → Contents) (now : Nat) (inv : s.Inv numShards contents)
    (fits : s.order.Fits) :
    Epochs.Inv numShards
      ⟨(s.order.epoch now).1, fun shardId => received (s.logs shardId) (s.order.storageSlots shardId)⟩
      (fun shardId => (contents shardId).extend (newSlots (s.order.storageSlots shardId))) := by
  have base := epoch_base s.order fits now
  refine ⟨inv.shards, inv.valid, ?_, ?_, ?_, ?_, ?_⟩
  · intro shardId
    exact received_represents _ _ _ (inv.reps shardId)
  · intro shardId
    refine increasing_append _ _ s.order.gsnBase (inv.increasing shardId) ?_ (inv.below shardId)
      (fun slot member => (new_slots_inside s.order fits shardId slot member).1)
    rw [storage_slots_masked]
    exact masked_increasing s.order fits _
  · intro gsn below
    rw [base] at below
    rcases Nat.lt_or_ge gsn s.order.gsnBase with old | new
    · obtain ⟨shardId, clientId, bound, member⟩ := inv.somewhere gsn old
      exact ⟨shardId, clientId, bound, List.mem_append_left _ member⟩
    · obtain ⟨shardId, clientId, bound, member⟩ := new_slots_somewhere s.order inv.valid fits gsn new below
      exact ⟨shardId, clientId, inv.shards ▸ bound, List.mem_append_right _ member⟩
  · intro first second gsn client client' left right
    rcases List.mem_append.mp left with oldLeft | newLeft
    · have less := inv.below first _ oldLeft
      rcases List.mem_append.mp right with oldRight | newRight
      · exact inv.alone _ _ _ _ _ oldLeft oldRight
      · have more := (new_slots_inside s.order fits second _ newRight).1
        simp only at less more
        omega
    · have more := (new_slots_inside s.order fits first _ newLeft).1
      rcases List.mem_append.mp right with oldRight | newRight
      · have less := inv.below second _ oldRight
        simp only at less more
        omega
      · exact new_slots_alone s.order fits _ _ _ _ _ newLeft newRight
  · intro shardId slot member
    change slot.1 < (s.order.epoch now).1.gsnBase
    rw [base]
    rcases List.mem_append.mp member with old | new
    · have := inv.below shardId slot old
      omega
    · exact (new_slots_inside s.order fits shardId slot new).2

theorem epochs_step (numShards : Nat) (s next : Epochs) (input : Input) (inv : ∃ contents, s.Inv numShards contents)
    (stepped : s.step input = some next) : ∃ contents, next.Inv numShards contents := by
  obtain ⟨contents, inv⟩ := inv
  cases input with
  | addClient clientId shardId numSlots =>
      obtain rfl := Option.some.inj stepped
      exact ⟨contents, epochs_keep numShards s contents _ inv (keeps_add_client _ _ _ _)⟩
  | clientRate clientId numSlots =>
      obtain rfl := Option.some.inj stepped
      exact ⟨contents, epochs_keep numShards s contents _ inv (keeps_client_rate _ _ _)⟩
  | clientFinished clientId =>
      obtain rfl := Option.some.inj stepped
      exact ⟨contents, epochs_keep numShards s contents _ inv (keeps_client_finished _ _)⟩
  | clientFreeze clientId =>
      obtain rfl := Option.some.inj stepped
      exact ⟨contents, epochs_keep numShards s contents _ inv (keeps_client_freeze _ _)⟩
  | clientCut cut =>
      obtain rfl := Option.some.inj stepped
      exact ⟨contents, epochs_keep numShards s contents _ inv (keeps_client_cut _ _)⟩
  | clientData data =>
      obtain rfl := Option.some.inj stepped
      exact ⟨contents, epochs_keep numShards s contents _ inv (keeps_client_data _ _)⟩
  | epoch now =>
      simp only [Epochs.step] at stepped
      split at stepped
      · rename_i fits
        obtain rfl := Option.some.inj stepped
        exact ⟨_, epochs_epoch numShards s contents now inv fits⟩
      · cases stepped

-- One epoch splits its range of GSNs exactly among the shards and clients, and
-- every run of epochs has split everything below gsn_base_.
theorem gsns_partitioned (numShards : Nat) :
    (∀ (state : State) (logs : Nat → Log), state.numShards = numShards → state.Valid → state.Fits →
      (∀ shardId, ∃ contents, Represents (logs shardId) contents) → EpochExact state logs) ∧
    ∀ (inputs : List Input) (s : Epochs), Machine.run Epochs.step (Epochs.init numShards) inputs = some s →
      Covers numShards 0 s.order.gsnBase (fun shardId => assigned (s.logs shardId)) := by
  refine ⟨fun state logs _ valid fits reps => epoch_exact state valid fits logs reps, ?_⟩
  intro inputs s ran
  obtain ⟨contents, inv⟩ := Machine.run_preserves Epochs.step (fun s => ∃ contents, s.Inv numShards contents)
    (fun s input next before stepped => epochs_step numShards s next input before stepped) (Epochs.init numShards) s
    ⟨_, epochs_init numShards⟩ inputs ran
  simp only [assigned_represents _ _ (inv.reps _)]
  exact covers_of_members _ _ _ _ inv.increasing (fun gsn _ below => inv.somewhere gsn below) inv.alone
    (fun shardId _ slot member => ⟨Nat.zero_le _, inv.below shardId slot member⟩)

theorem gsns_partitioned_two_shards :
    EpochExact ((State.init 2).addClient 5 1 3).1 (fun _ => Log.init zeroed) ∧
    ∃ s, Machine.run Epochs.step (Epochs.init 2)
      [.addClient 5 1 3, .addClient 3 0 2, .epoch 10, .clientFreeze 5, .addClient 4 1 0, .epoch 20] = some s ∧
      s.order.gsnBase = 7 ∧ Covers 2 0 7 (fun shardId => assigned (s.logs shardId)) := by
  have enabled : ((Machine.run Epochs.step (Epochs.init 2)
      [.addClient 5 1 3, .addClient 3 0 2, .epoch 10, .clientFreeze 5, .addClient 4 1 0, .epoch 20]).map
        (fun s => s.order.gsnBase)) = some 7 := by decide +kernel
  obtain ⟨s, ran, base⟩ := Option.map_eq_some_iff.mp enabled
  have covers := (gsns_partitioned 2).2 _ s ran
  rw [base] at covers
  refine ⟨(gsns_partitioned 2).1 _ _ ?_ ?_ ?_ (fun _ => ⟨_, init_represents⟩), s, ran, base, covers⟩
  · exact (keeps_add_client _ 5 1 3).shards
  · exact (keeps_add_client _ 5 1 3).valid (init_valid 2)
  · decide +kernel

end ZipLog.Order
