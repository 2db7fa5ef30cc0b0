import ZipLog.Lib.Run
import ZipLog.Storage.Slots
import Mathlib.Data.List.Nodup

set_option autoImplicit false

namespace ZipLog.Storage

-- The log with the control thread, the client threads and the subscriber threads
-- of one server. created lists the entries in the order in which add_entries
-- takes them, returned what the calls of next_entry have returned, with the
-- entry as the call read it.
structure Delivery where
  log : Log
  positions : Nat → Option Ptr
  adding : Option (List Assignment × Nat)
  created : List Ptr
  iterators : Nat → Iterator
  returned : Nat → List (Ptr × Entry)

def Delivery.init (threads : Nat) : Delivery :=
  ⟨Log.init zeroed, fun _ => none, none, [], fun index => Iterator.init index threads, fun _ => []⟩

inductive Call where
  | beginEntries (slots : StorageSlots)
  | yield
  | publish
  | insert (clientId : Nat) (buffer : Buffer) (close : Nat)
  | patch (clientId : Nat) (buffer : Buffer) (gsn : Nat)
  | close (clientId : Nat)
  | nextEntry (index : Nat)
deriving DecidableEq, Repr

-- The entry that a call of next_entry looks at.
def Iterator.considered (log : Log) (it : Iterator) : Option Ptr := (if it.entry = none then it.pick log else it).entry

def Delivery.take (s : Delivery) (index : Nat) (moved : Iterator) (found : Option Entry) : Delivery :=
  { s with
    iterators := Function.update s.iterators index moved
    returned := Function.update s.returned index (s.returned index ++
      (((s.iterators index).considered s.log).bind (fun here => found.map (fun entry => (here, entry)))).toList) }

def Delivery.step (s : Delivery) : Call → Option Delivery
  | .beginEntries slots =>
      if s.adding = none then some { s with adding := some (schedule slots.assignments, slots.startGsn) } else none
  | .yield =>
      match s.adding with
      | some (assignment :: order, gsn) =>
          let result := yieldSlot zeroed assignment (s.log, gsn)
          let taken := if assignment.clientId = uint64Max then []
            else [⟨(s.log.grow zeroed).block, (s.log.grow zeroed).entry⟩]
          some { s with log := result.1, adding := some (order, result.2), created := s.created ++ taken }
      | _ => none
  | .publish =>
      match s.adding with
      | some ([], _) => some { s with log := { s.log with numEntries := s.log.currentEntries }, adding := none }
      | _ => none
  | .insert clientId buffer close =>
      match s.log.insert clientId (s.positions clientId) buffer close with
      | .error _ => none
      | .ok inserted => some { s with
          log := inserted.log, positions := Function.update s.positions clientId (some inserted.current) }
  | .patch clientId buffer gsn =>
      match s.log.patch clientId (s.positions clientId) buffer gsn with
      | .error _ => none
      | .ok inserted => some { s with
          log := inserted.log, positions := Function.update s.positions clientId (some inserted.current) }
  | .close clientId =>
      match s.log.close clientId (s.positions clientId) with
      | .error _ => none
      | .ok (log, current) => some { s with log := log, positions := Function.update s.positions clientId current }
  | .nextEntry index =>
      match (s.iterators index).nextEntry s.log with
      | .error _ => none
      | .ok (moved, found) => some (s.take index moved found)

-- What the clients' operations leave as it is, whatever their arguments.
structure Kept (log next : Log) : Prop where
  length : next.blocks.length = log.blocks.length
  block : next.block = log.block
  entry : next.entry = log.entry
  current : next.currentEntries = log.currentEntries
  published : next.numEntries = log.numEntries

theorem kept_refl (log : Log) : Kept log log := ⟨rfl, rfl, rfl, rfl, rfl⟩

theorem kept_trans (first second third : Log) (left : Kept first second) (right : Kept second third) : Kept first third :=
  ⟨right.length.trans left.length, right.block.trans left.block, right.entry.trans left.entry, right.current.trans left.current,
    right.published.trans left.published⟩

theorem kept_modify (log : Log) (here : Ptr) (change : Entry → Entry) : Kept log (log.modify here change) :=
  ⟨by rw [Log.modify, List.length_modify], rfl, rfl, rfl, rfl⟩

theorem close_slots_kept (count : Nat) (log next : Log) (current last : Ptr) (ran : log.closeSlots count current = .ok (next, last)) :
    Kept log next := by
  induction count generalizing log current with
  | zero =>
      cases ran
      exact kept_refl _
  | succ count ih =>
      unfold Log.closeSlots at ran
      dsimp only at ran
      split at ran
      · cases ran
      · rename_i after _
        exact kept_trans _ _ _ (kept_modify log current Entry.close) (ih _ after ran)

theorem close_below_kept (gsn fuel : Nat) (log next : Log) (current last : Ptr)
    (ran : Log.closeBelow gsn fuel log current = .ok (next, last)) : Kept log next := by
  induction fuel generalizing log current with
  | zero => cases ran
  | succ fuel ih =>
      unfold Log.closeBelow at ran
      split at ran
      · cases ran
      · split at ran
        · dsimp only at ran
          split at ran
          · cases ran
          · rename_i after _
            exact kept_trans _ _ _ (kept_modify log current Entry.close) (ih _ after ran)
        · cases ran
          exact kept_refl _

theorem close_rest_kept (fuel : Nat) (log next : Log) (current last : Ptr) (ran : Log.closeRest fuel log current = .ok (next, last)) :
    Kept log next := by
  induction fuel generalizing log current with
  | zero => cases ran
  | succ fuel ih =>
      unfold Log.closeRest at ran
      split at ran
      · cases ran
        exact kept_refl _
      · rename_i after _
        exact kept_trans _ _ _ (kept_modify log after Entry.close) (ih _ after ran)

theorem store_kept (log : Log) (current : Ptr) (buffer : Buffer) (inserted : Inserted)
    (ran : log.store current buffer = .ok inserted) : Kept log inserted.log := by
  unfold Log.store at ran
  split at ran
  · cases ran
  · cases ran
    exact kept_modify log current _

theorem insert_kept (log : Log) (clientId : Nat) (current : Option Ptr) (buffer : Buffer) (close : Nat) (inserted : Inserted)
    (ran : log.insert clientId current buffer close = .ok inserted) : Kept log inserted.log := by
  unfold Log.insert at ran
  split at ran
  · cases ran
  · rename_i first _
    cases closed : log.closeSlots (decrement close) first with
    | error fault =>
        rw [closed] at ran
        cases ran
    | ok result =>
        obtain ⟨middle, last⟩ := result
        rw [closed] at ran
        exact kept_trans _ _ _ (close_slots_kept _ log middle first last closed) (store_kept middle last buffer inserted ran)

theorem patch_kept (log : Log) (clientId : Nat) (current : Option Ptr) (buffer : Buffer) (gsn : Nat) (inserted : Inserted)
    (ran : log.patch clientId current buffer gsn = .ok inserted) : Kept log inserted.log := by
  unfold Log.patch at ran
  split at ran
  · cases ran
  · rename_i first _
    cases closed : log.closeBelow gsn log.currentEntries first with
    | error fault =>
        rw [closed] at ran
        cases ran
    | ok result =>
        obtain ⟨middle, last⟩ := result
        rw [closed] at ran
        change (if (middle.read last).map Entry.gsn = some gsn then middle.store last buffer else .error .assertEq) = _ at ran
        split at ran
        · exact kept_trans _ _ _ (close_below_kept _ _ log middle first last closed) (store_kept middle last buffer inserted ran)
        · cases ran

theorem close_kept (log next : Log) (clientId : Nat) (current last : Option Ptr)
    (ran : log.close clientId current = .ok (next, last)) : Kept log next := by
  obtain ⟨-, -, same, -⟩ | ⟨start, here, final, closed, -, started⟩ := close_cases log next clientId current last ran
  · exact same ▸ kept_refl log
  · have kept := close_rest_kept _ start next here final closed
    cases started with
    | inl found => exact found.2 ▸ kept
    | inr first =>
        rw [first.2.2] at kept
        exact kept_trans _ _ _ (kept_modify log here Entry.close) kept

-- The entries taken so far are the log indices below their number, and those
-- that are published are all there.
structure Sized (log : Log) (created : List Ptr) : Prop where
  blocks : log.blocks.length = log.block + 1
  entry : log.entry ≤ numEntriesPerBlock
  size : log.currentEntries = log.block * numEntriesPerBlock + log.entry
  created : created = (List.range log.currentEntries).map ptr
  published : log.numEntries ≤ log.currentEntries

theorem kept_sized (log next : Log) (created : List Ptr) (sized : Sized log created) (kept : Kept log next) : Sized next created := by
  obtain ⟨length, block, entry, current, published⟩ := kept
  refine ⟨?_, ?_, ?_, ?_, ?_⟩
  · rw [length, block, sized.blocks]
  · rw [entry]
    exact sized.entry
  · rw [current, block, entry, sized.size]
  · rw [current]
    exact sized.created
  · rw [published, current]
    exact sized.published

theorem grow_sized (log : Log) (created : List Ptr) (sized : Sized log created) :
    Sized (log.grow zeroed) created ∧ (log.grow zeroed).entry < numEntriesPerBlock ∧ (log.grow zeroed).numEntries = log.numEntries := by
  unfold Log.grow
  split
  · rename_i full
    refine ⟨⟨?_, Nat.zero_le _, ?_, sized.created, sized.published⟩, entries_per_block_pos, rfl⟩
    · rw [List.length_append, sized.blocks, List.length_singleton]
    · dsimp only
      rw [sized.size, full, Nat.add_mul, Nat.one_mul, Nat.add_zero]
  · rename_i room
    exact ⟨sized, Nat.lt_of_le_of_ne sized.entry room, rfl⟩

theorem yield_sized (log : Log) (created : List Ptr) (sized : Sized log created) (gsn clientId : Nat) :
    Sized (log.yield zeroed gsn clientId) (created ++ [⟨(log.grow zeroed).block, (log.grow zeroed).entry⟩]) ∧
      (log.yield zeroed gsn clientId).numEntries = log.numEntries := by
  obtain ⟨grown, room, same⟩ := grow_sized log created sized
  obtain ⟨blocks, block, entry, count, -, -⟩ := append_shape (log.grow zeroed) gsn clientId
  have published : (log.yield zeroed gsn clientId).numEntries = (log.grow zeroed).numEntries := by
    unfold Log.yield Log.append
    dsimp only [Log.modify]
    split
    · rfl
    · rfl
  refine ⟨⟨?_, ?_, ?_, ?_, ?_⟩, published.trans same⟩
  · rw [Log.yield, blocks, block, grown.blocks]
  · rw [Log.yield, entry]
    exact room
  · rw [Log.yield, count, block, entry, grown.size, Nat.add_assoc]
  · rw [Log.yield, count, List.range_succ, List.map_append, ← grown.created, List.map_singleton, grown.size, ptr_mul_add _ _ room]
  · rw [published, Log.yield, count]
    exact Nat.le_succ_of_le grown.published

-- An entry below the published number can be read.
theorem sized_read (log : Log) (created : List Ptr) (sized : Sized log created) (index : Nat) (below : index < log.numEntries) :
    ∃ entry, log.read (ptr index) = some entry := by
  have inside : index / numEntriesPerBlock < log.blocks.length := by
    rw [sized.blocks]
    have bound : index < log.block * numEntriesPerBlock + log.entry := by
      rw [← sized.size]
      exact Nat.lt_of_lt_of_le below sized.published
    refine (Nat.div_lt_iff_lt_mul entries_per_block_pos).mpr ?_
    have most := sized.entry
    rw [Nat.add_mul, Nat.one_mul]
    omega
  refine ⟨(log.blocks[index / numEntriesPerBlock]) (index % numEntriesPerBlock), ?_⟩
  rw [Log.read, ptr, List.getElem?_eq_getElem inside]
  rfl

-- Where an iterator stands that has returned count entries.
structure Stands (threads index count numEntries : Nat) (it : Iterator) : Prop where
  stride : it.stride = threads
  node : it.iterator = it.blockIndex
  cached : it.currentEntries ≤ numEntries
  behind : it.blockIndex ≤ it.entryIndex / numEntriesPerBlock
  free : it.entry = none → it.entryIndex = index + count * threads
  waits : ∀ here, it.entry = some here →
    here = ptr (index + count * threads) ∧ index + count * threads < numEntries ∧ it.entryIndex = index + (count + 1) * threads

theorem stands_later (threads index count numEntries more : Nat) (it : Iterator) (stands : Stands threads index count numEntries it)
    (grown : numEntries ≤ more) : Stands threads index count more it := by
  refine ⟨stands.stride, stands.node, Nat.le_trans stands.cached grown, stands.behind, stands.free, ?_⟩
  intro here waits
  obtain ⟨place, below, next⟩ := stands.waits here waits
  exact ⟨place, Nat.lt_of_lt_of_le below grown, next⟩

theorem pick_stands (log : Log) (threads index count : Nat) (it : Iterator) (stands : Stands threads index count log.numEntries it)
    (free : it.entry = none) : Stands threads index count log.numEntries (it.pick log) ∧
      ((it.pick log).entry = none → log.numEntries ≤ index + count * threads) := by
  have here := stands.free free
  unfold Iterator.pick
  split
  · rename_i none_left
    rw [here] at none_left
    exact ⟨⟨stands.stride, stands.node, Nat.le_refl _, stands.behind, stands.free, stands.waits⟩, fun _ => none_left.2⟩
  · rename_i available
    have below : it.entryIndex < log.numEntries := by
      have cached := stands.cached
      omega
    have turns : it.blockIndex + (it.entryIndex / numEntriesPerBlock - it.blockIndex) = it.entryIndex / numEntriesPerBlock := by
      have behind := stands.behind
      omega
    refine ⟨⟨stands.stride, ?_, ?_, ?_, ?_, ?_⟩, ?_⟩
    · dsimp only
      rw [stands.node]
    · dsimp only
      split
      · exact Nat.le_refl _
      · exact stands.cached
    · dsimp only
      rw [turns]
      exact Nat.div_le_div_right (Nat.le_add_right _ _)
    · intro absent
      cases absent
    · intro place found
      cases found
      dsimp only
      rw [stands.node, turns, here, stands.stride, Nat.add_mul, Nat.one_mul, Nat.add_assoc]
      exact ⟨rfl, here ▸ below, rfl⟩
    · intro absent
      cases absent

-- One call of next_entry: it returns the entry at the next index of its thread,
-- or that entry is not there or not set.
theorem next_entry_cases (log : Log) (created : List Ptr) (sized : Sized log created) (threads index count : Nat) (it : Iterator)
    (stands : Stands threads index count log.numEntries it) : ∃ moved found, it.nextEntry log = .ok (moved, found) ∧
      ((found = none ∧ Stands threads index count log.numEntries moved ∧ (log.numEntries ≤ index + count * threads ∨
          ∃ entry, log.read (ptr (index + count * threads)) = some entry ∧ entry.set = false)) ∨
        ∃ entry, found = some entry ∧ it.considered log = some (ptr (index + count * threads)) ∧
          index + count * threads < log.numEntries ∧ log.read (ptr (index + count * threads)) = some entry ∧ entry.set = true ∧
          Stands threads index (count + 1) log.numEntries moved) := by
  have picked : ∃ chosen, (if it.entry = none then it.pick log else it) = chosen ∧ Stands threads index count log.numEntries chosen ∧
      (chosen.entry = none → log.numEntries ≤ index + count * threads) := by
    by_cases free : it.entry = none
    · rw [if_pos free]
      exact ⟨_, rfl, pick_stands log threads index count it stands free⟩
    · rw [if_neg free]
      exact ⟨it, rfl, stands, fun absent => absurd absent free⟩
  obtain ⟨chosen, same, stands, empty⟩ := picked
  have considered : it.considered log = chosen.entry := by rw [Iterator.considered, same]
  unfold Iterator.nextEntry
  rw [same, considered]
  cases here : chosen.entry with
  | none =>
      dsimp only
      rw [here]
      exact ⟨_, _, rfl, Or.inl ⟨rfl, stands, Or.inl (empty here)⟩⟩
  | some place =>
      obtain ⟨rfl, below, next⟩ := stands.waits place here
      obtain ⟨entry, read⟩ := sized_read log created sized _ below
      dsimp only
      rw [here]
      dsimp only
      rw [read]
      dsimp only
      cases ready : entry.set with
      | true =>
          refine ⟨_, _, rfl, Or.inr ⟨entry, rfl, rfl, below, rfl, ready, ⟨stands.stride, stands.node, stands.cached, stands.behind,
            fun _ => next, ?_⟩⟩⟩
          intro other found
          cases found
      | false => exact ⟨_, _, rfl, Or.inl ⟨rfl, stands, Or.inr ⟨entry, rfl, ready⟩⟩⟩

structure Delivery.Inv (threads : Nat) (s : Delivery) : Prop where
  sized : Sized s.log s.created
  stands : ∀ index, Stands threads index (s.returned index).length s.log.numEntries (s.iterators index)
  order : ∀ index, (s.returned index).map Prod.fst = (List.range (s.returned index).length).map (fun k => ptr (index + k * threads))
  set : ∀ index, ∀ pair ∈ s.returned index, pair.2.set = true
  below : ∀ index k, k < (s.returned index).length → index + k * threads < s.log.numEntries

-- A step that changes the log and returns nothing.
theorem log_inv (threads : Nat) (s : Delivery) (inv : s.Inv threads) (log : Log) (positions : Nat → Option Ptr)
    (adding : Option (List Assignment × Nat)) (created : List Ptr) (sized : Sized log created) (grown : s.log.numEntries ≤ log.numEntries) :
    Delivery.Inv threads { s with log := log, positions := positions, adding := adding, created := created } :=
  ⟨sized, fun index => stands_later _ _ _ _ _ _ (inv.stands index) grown, inv.order, inv.set,
    fun index k less => Nat.lt_of_lt_of_le (inv.below index k less) grown⟩

theorem kept_inv (threads : Nat) (s : Delivery) (inv : s.Inv threads) (log : Log) (positions : Nat → Option Ptr)
    (kept : Kept s.log log) : Delivery.Inv threads { s with log := log, positions := positions } :=
  log_inv threads s inv log positions s.adding s.created (kept_sized s.log log s.created inv.sized kept) (Nat.le_of_eq kept.published.symm)

theorem returned_inv (threads : Nat) (s : Delivery) (inv : s.Inv threads) (index : Nat) (moved : Iterator) (entry : Entry)
    (considered : (s.iterators index).considered s.log = some (ptr (index + (s.returned index).length * threads)))
    (below : index + (s.returned index).length * threads < s.log.numEntries) (ready : entry.set = true)
    (stands : Stands threads index ((s.returned index).length + 1) s.log.numEntries moved) :
    (s.take index moved (some entry)).Inv threads := by
  have grown : (s.take index moved (some entry)).returned = Function.update s.returned index
      (s.returned index ++ [(ptr (index + (s.returned index).length * threads), entry)]) := by
    rw [Delivery.take, considered]
    rfl
  refine ⟨inv.sized, ?_, ?_, ?_, ?_⟩
  · intro other
    rw [grown]
    by_cases same : other = index
    · subst same
      rw [Function.update_self, List.length_append, List.length_singleton]
      simpa only [Delivery.take, Function.update_self] using stands
    · rw [Function.update_of_ne same]
      simpa only [Delivery.take, Function.update_of_ne same] using inv.stands other
  · intro other
    rw [grown]
    by_cases same : other = index
    · subst same
      rw [Function.update_self, List.length_append, List.length_singleton, List.range_succ, List.map_append, List.map_append,
        inv.order other, List.map_singleton, List.map_singleton]
    · rw [Function.update_of_ne same]
      exact inv.order other
  · intro other pair member
    rw [grown] at member
    by_cases same : other = index
    · subst same
      rw [Function.update_self] at member
      cases List.mem_append.mp member with
      | inl old => exact inv.set other pair old
      | inr last =>
          rw [List.mem_singleton.mp last]
          exact ready
    · rw [Function.update_of_ne same] at member
      exact inv.set other pair member
  · intro other k less
    rw [grown] at less
    by_cases same : other = index
    · subst same
      rw [Function.update_self, List.length_append, List.length_singleton] at less
      cases Nat.lt_or_eq_of_le (Nat.le_of_lt_succ less) with
      | inl old => exact inv.below other k old
      | inr last =>
          rw [last]
          exact below
    · rw [Function.update_of_ne same] at less
      exact inv.below other k less

theorem idle_inv (threads : Nat) (s : Delivery) (inv : s.Inv threads) (index : Nat) (moved : Iterator)
    (stands : Stands threads index (s.returned index).length s.log.numEntries moved) : (s.take index moved none).Inv threads := by
  have same : (s.take index moved none).returned = s.returned := by
    simp only [Delivery.take, Option.map_none, Option.bind_fun_none, Option.toList_none, List.append_nil, Function.update_eq_self]
  refine ⟨inv.sized, ?_, ?_, ?_, ?_⟩
  · intro other
    rw [same]
    by_cases mine : other = index
    · subst mine
      simpa only [Delivery.take, Function.update_self] using stands
    · simpa only [Delivery.take, Function.update_of_ne mine] using inv.stands other
  · rw [same]
    exact inv.order
  · rw [same]
    exact inv.set
  · rw [same]
    exact inv.below

theorem delivery_init (threads : Nat) : (Delivery.init threads).Inv threads := by
  refine ⟨⟨rfl, Nat.zero_le _, ?_, rfl, Nat.le_refl _⟩, ?_, fun _ => rfl, ?_, ?_⟩
  · simp [Delivery.init, Log.init]
  · intro index
    refine ⟨rfl, rfl, Nat.le_refl _, Nat.zero_le _, ?_, ?_⟩
    · intro _
      simp [Delivery.init, Iterator.init]
    · intro here found
      cases found
  · intro index pair member
    cases member
  · intro index k less
    cases less

theorem delivery_step (threads : Nat) (s next : Delivery) (call : Call) (inv : s.Inv threads) (step : s.step call = some next) :
    next.Inv threads := by
  cases call with
  | beginEntries slots =>
      obtain ⟨-, result⟩ := Option.ite_none_right_eq_some.mp step
      cases result
      exact log_inv threads s inv s.log s.positions _ s.created inv.sized (Nat.le_refl _)
  | yield =>
      unfold Delivery.step at step
      dsimp only at step
      split at step
      · rename_i assignment order gsn working
        cases step
        unfold yieldSlot
        by_cases foreign : assignment.clientId = uint64Max
        · rw [if_pos foreign, if_pos foreign, List.append_nil]
          exact log_inv threads s inv s.log s.positions _ s.created inv.sized (Nat.le_refl _)
        · rw [if_neg foreign, if_neg foreign]
          obtain ⟨sized, same⟩ := yield_sized s.log s.created inv.sized gsn assignment.clientId
          exact log_inv threads s inv _ s.positions _ _ sized (Nat.le_of_eq same.symm)
      · cases step
  | publish =>
      unfold Delivery.step at step
      dsimp only at step
      split at step
      · cases step
        have sized := inv.sized
        exact log_inv threads s inv _ s.positions _ s.created
          ⟨sized.blocks, sized.entry, sized.size, sized.created, Nat.le_refl _⟩ sized.published
      · cases step
  | insert clientId buffer close =>
      unfold Delivery.step at step
      dsimp only at step
      split at step
      · cases step
      · rename_i inserted result
        cases step
        exact kept_inv threads s inv _ _ (insert_kept s.log clientId _ buffer close inserted result)
  | patch clientId buffer gsn =>
      unfold Delivery.step at step
      dsimp only at step
      split at step
      · cases step
      · rename_i inserted result
        cases step
        exact kept_inv threads s inv _ _ (patch_kept s.log clientId _ buffer gsn inserted result)
  | close clientId =>
      unfold Delivery.step at step
      dsimp only at step
      split at step
      · cases step
      · rename_i log current result
        cases step
        exact kept_inv threads s inv _ _ (close_kept s.log log clientId _ current result)
  | nextEntry index =>
      obtain ⟨moved, found, result, outcome⟩ := next_entry_cases s.log s.created inv.sized threads index _ _ (inv.stands index)
      unfold Delivery.step at step
      dsimp only at step
      rw [result] at step
      cases step
      cases outcome with
      | inl idle =>
          obtain ⟨rfl, stands, -⟩ := idle
          exact idle_inv threads s inv index moved stands
      | inr taken =>
          obtain ⟨entry, rfl, considered, below, -, ready, stands⟩ := taken
          exact returned_inv threads s inv index moved entry considered below ready stands

theorem stride_unique (threads first second k l : Nat) (left : first < threads) (right : second < threads)
    (same : first + k * threads = second + l * threads) : first = second := by
  have reduced := congrArg (fun value => value % threads) same
  simpa only [Nat.add_mul_mod_self_right, Nat.mod_eq_of_lt left, Nat.mod_eq_of_lt right] using reduced

theorem returned_at (threads : Nat) (s : Delivery) (inv : s.Inv threads) (index k : Nat) (here : Ptr)
    (access : ((s.returned index)[k]?).map Prod.fst = some here) : k < (s.returned index).length ∧ here = ptr (index + k * threads) := by
  have less : k < (s.returned index).length := by
    obtain ⟨pair, found, -⟩ := Option.map_eq_some_iff.mp access
    exact (List.getElem?_eq_some_iff.mp found).1
  rw [← List.getElem?_map, inv.order index, List.getElem?_map, List.getElem?_range less, Option.map_some] at access
  exact ⟨less, (Option.some.inj access).symm⟩

theorem created_at (threads : Nat) (s : Delivery) (inv : s.Inv threads) (index : Nat) (below : index < s.log.numEntries) :
    s.created[index]? = some (ptr index) := by
  rw [inv.sized.created, List.getElem?_map, List.getElem?_range (Nat.lt_of_lt_of_le below inv.sized.published), Option.map_some]

-- The subscriber threads share the log out among them: thread index returns the
-- entries index, index + threads, and so on, and waits for the next of them.
theorem log_handed_out (threads : Nat) (calls : List Call) (s : Delivery)
    (ran : Machine.run Delivery.step (Delivery.init threads) calls = some s) :
    (∀ index, index < threads → ∀ k, k < (s.returned index).length →
      ((s.returned index)[k]?).map Prod.fst = s.created[index + k * threads]? ∧ index + k * threads < s.created.length) ∧
    (∀ index, index < threads → ∀ pair ∈ s.returned index, pair.2.set = true) ∧
    s.created.Nodup ∧
    (∀ first second, first < threads → second < threads → ∀ (k l : Nat) here,
      ((s.returned first)[k]?).map Prod.fst = some here → ((s.returned second)[l]?).map Prod.fst = some here → first = second ∧ k = l) ∧
    (∀ index, index < threads → ∃ moved found, (s.iterators index).nextEntry s.log = .ok (moved, found) ∧
      (found = none → s.log.numEntries ≤ index + (s.returned index).length * threads ∨
        ∃ here entry, s.created[index + (s.returned index).length * threads]? = some here ∧ s.log.read here = some entry ∧
          entry.set = false)) := by
  have inv := Machine.run_preserves Delivery.step (Delivery.Inv threads)
    (fun s call next inv step => delivery_step threads s next call inv step) (Delivery.init threads) s (delivery_init threads) calls ran
  refine ⟨?_, fun index _ => inv.set index, ?_, ?_, ?_⟩
  · intro index _ k less
    have below := inv.below index k less
    rw [created_at threads s inv _ below, ← List.getElem?_map, inv.order index, List.getElem?_map, List.getElem?_range less,
      Option.map_some]
    exact ⟨rfl, (List.getElem?_eq_some_iff.mp (created_at threads s inv _ below)).1⟩
  · rw [inv.sized.created]
    exact List.Nodup.map (fun first second same => ptr_injective first second same) List.nodup_range
  · intro first second left right k l here access access'
    obtain ⟨-, place⟩ := returned_at threads s inv first k here access
    obtain ⟨-, place'⟩ := returned_at threads s inv second l here access'
    have same := ptr_injective _ _ (place.symm.trans place')
    have thread := stride_unique threads first second k l left right same
    subst thread
    exact ⟨rfl, Nat.eq_of_mul_eq_mul_right (Nat.lt_of_le_of_lt (Nat.zero_le _) left) (Nat.add_left_cancel same)⟩
  · intro index _
    obtain ⟨moved, found, result, outcome⟩ := next_entry_cases s.log s.created inv.sized threads index _ _ (inv.stands index)
    refine ⟨moved, found, result, fun absent => ?_⟩
    cases outcome with
    | inl idle =>
        by_cases below : index + (s.returned index).length * threads < s.log.numEntries
        · obtain ⟨entry, read, unset⟩ := idle.2.2.resolve_left (Nat.not_le.mpr below)
          exact Or.inr ⟨_, entry, created_at threads s inv _ below, read, unset⟩
        · exact Or.inl (Nat.le_of_not_lt below)
    | inr taken =>
        obtain ⟨entry, present, -⟩ := taken
        rw [absent] at present
        cases present

theorem log_handed_out_two_threads : ∃ s, Machine.run Delivery.step (Delivery.init 2)
    [.beginEntries ⟨7, [⟨1, 3⟩]⟩, .yield, .yield, .yield, .publish, .insert 1 ⟨[5], [0]⟩ 3, .nextEntry 0, .nextEntry 1, .nextEntry 0] =
      some s ∧ (s.returned 0).map Prod.fst = [⟨0, 0⟩, ⟨0, 2⟩] ∧ (s.returned 1).map Prod.fst = [⟨0, 1⟩] ∧ s.created.Nodup := by
  have outcome : (Machine.run Delivery.step (Delivery.init 2)
      [.beginEntries ⟨7, [⟨1, 3⟩]⟩, .yield, .yield, .yield, .publish, .insert 1 ⟨[5], [0]⟩ 3, .nextEntry 0, .nextEntry 1,
        .nextEntry 0]).map (fun s => ((s.returned 0).map Prod.fst, (s.returned 1).map Prod.fst)) =
      some ([⟨0, 0⟩, ⟨0, 2⟩], [⟨0, 1⟩]) := by decide +kernel
  obtain ⟨s, ran, values⟩ := Option.map_eq_some_iff.mp outcome
  obtain ⟨first, second⟩ := Prod.mk.inj values
  exact ⟨s, ran, first, second, (log_handed_out 2 _ s ran).2.2.1⟩

end ZipLog.Storage
