import ZipLog.Lib.Run
import ZipLog.Storage.Slots

set_option autoImplicit false

namespace ZipLog.Storage

-- One server's log with the control thread and the client threads that share
-- it. adding is what is left of the message that add_entries works on and the
-- start_gsn it has reached; the client threads may run between any two yields,
-- because the entry only becomes visible to them with the store to next or
-- first. created records the entries in the order they were taken.
structure Shared where
  log : Log
  positions : Nat → Option Ptr
  adding : Option (List Assignment × Nat)
  endGsn : Nat
  created : List Ptr

def Shared.init : Shared := ⟨Log.init zeroed, fun _ => none, none, 0, []⟩

inductive Operation where
  | beginEntries (slots : StorageSlots)
  | yield
  | publish
  | insert (clientId : Nat) (buffer : Buffer) (close : Nat)
  | patch (clientId : Nat) (buffer : Buffer) (gsn : Nat)
  | close (clientId : Nat)
deriving DecidableEq, Repr

-- The entries from here on along next.
def Log.traverse (log : Log) : Nat → Option Ptr → List Ptr
  | 0, _ => []
  | _ + 1, none => []
  | fuel + 1, some here => here :: log.traverse fuel (log.follow here)

def Log.gsnAt (log : Log) (here : Ptr) : Option Nat := (log.read here).map Entry.gsn

def Log.ownedBy (log : Log) (clientId : Nat) (here : Ptr) : Bool := (log.read here).map Entry.clientId == some clientId

def Log.back (log : Log) (here : Ptr) : Option Ptr := (log.read here).bind Entry.prev

def Shared.takes (s : Shared) (assignment : Assignment) : List Ptr :=
  if assignment.clientId = uint64Max then []
  else [⟨(s.log.grow zeroed).block, (s.log.grow zeroed).entry⟩]

def Shared.moved (s : Shared) (clientId : Nat) (result : Except Fault Inserted) : Option Shared :=
  match result with
  | .error _ => none
  | .ok inserted =>
      some { s with log := inserted.log, positions := Function.update s.positions clientId (some inserted.current) }

-- A failed assertion ends the process, so there is no state after it.
def Shared.step (s : Shared) : Operation → Option Shared
  | .beginEntries slots =>
      let order := schedule slots.assignments
      if s.adding = none ∧ slots.assignments ≠ [] ∧ s.endGsn ≤ slots.startGsn ∧ slots.startGsn + order.length ≤ 2 ^ 64 then
        some { s with adding := some (order, slots.startGsn), endGsn := slots.startGsn + order.length }
      else none
  | .yield =>
      match s.adding with
      | some (assignment :: order, gsn) =>
          let result := yieldSlot zeroed assignment (s.log, gsn)
          some { s with
            log := result.1
            adding := some (order, result.2)
            created := s.created ++ s.takes assignment }
      | _ => none
  | .publish =>
      match s.adding with
      | some ([], _) => some { s with log := { s.log with numEntries := s.log.currentEntries }, adding := none }
      | _ => none
  | .insert clientId buffer close =>
      if 1 ≤ close then s.moved clientId (s.log.insert clientId (s.positions clientId) buffer close) else none
  | .patch clientId buffer gsn =>
      let ahead := s.log.traverse s.log.currentEntries (s.log.seek clientId (s.positions clientId))
      if some gsn ∈ ahead.map s.log.gsnAt then s.moved clientId (s.log.patch clientId (s.positions clientId) buffer gsn)
      else none
  | .close clientId =>
      match s.log.close clientId (s.positions clientId) with
      | .error _ => none
      | .ok (log, current) => some { s with log := log, positions := Function.update s.positions clientId current }

-- The shape of the log as its readers see it.
structure WellFormed (s : Shared) : Prop where
  place : ∀ (index : Nat) here, s.created[index]? = some here →
    here = ⟨index / numEntriesPerBlock, index % numEntriesPerBlock⟩ ∧ ∃ entry, s.log.read here = some entry
  increasing : ∀ (lower upper : Nat) first second, lower < upper →
    (s.created[lower]?).bind s.log.read = some first → (s.created[upper]?).bind s.log.read = some second →
    first.gsn < second.gsn
  visits : ∀ client fuel, s.created.length ≤ fuel →
    s.log.traverse fuel (s.log.firstEntry client) = s.created.filter (s.log.ownedBy client)
  last : ∀ client, s.log.lastEntry client = (s.created.filter (s.log.ownedBy client)).getLast?
  inverse : ∀ here there, here ∈ s.created → there ∈ s.created →
    (s.log.follow here = some there ↔ s.log.back there = some here)
  start : ∀ client first, s.log.firstEntry client = some first → s.log.back first = none
  set : ∀ client (rank : Nat) here entry, (s.created.filter (s.log.ownedBy client))[rank]? = some here →
    s.log.read here = some entry →
    (entry.set = true ↔ ∃ (reached : Nat) (current : Ptr), s.positions client = some current ∧
      (s.created.filter (s.log.ownedBy client))[reached]? = some current ∧ rank ≤ reached)

-- What carries the proof: the log represents some contents, and the positions
-- are the cursors of these contents.
structure Shared.Inv (s : Shared) (contents : Contents) : Prop where
  rep : Represents s.log contents
  cursor : ∀ client, s.positions client = (contents.cursor client).map ptr
  created : s.created = (List.range contents.slots.length).map ptr
  increasing : Increasing contents.slots
  below : ∀ slot ∈ contents.slots, slot.1 < s.endGsn
  word : s.endGsn ≤ 2 ^ 64
  pending : ∀ assignment order gsn, s.adding = some (assignment :: order, gsn) →
    gsn + (order.length + 1) = s.endGsn ∧ ∀ slot ∈ contents.slots, slot.1 < gsn

theorem init_inv : Shared.init.Inv Contents.empty := by
  refine ⟨init_represents, fun _ => rfl, rfl, List.Pairwise.nil, ?_, by decide, ?_⟩
  · intro slot member
    cases member
  · intro assignment order gsn working
    cases working

-- insert, patch and close only push payloads for one client.
theorem pushed_inv (s : Shared) (contents : Contents) (client : Nat) (payloads : List Bytes) (log : Log) (current : Option Ptr)
    (inv : s.Inv contents) (rep : Represents log (contents.push client payloads))
    (here : current = ((contents.push client payloads).cursor client).map ptr) :
    { s with log := log, positions := Function.update s.positions client current }.Inv (contents.push client payloads) := by
  refine ⟨rep, ?_, inv.created, inv.increasing, inv.below, inv.word, inv.pending⟩
  intro other
  by_cases mine : other = client
  · subst other
    rw [here]
    exact Function.update_self _ _ _
  · simp only [Function.update_of_ne mine, cursor_push_other _ _ _ _ mine]
    exact inv.cursor other

theorem insert_inv (s next : Shared) (contents : Contents) (client : Nat) (buffer : Buffer) (close : Nat) (inv : s.Inv contents)
    (positive : 1 ≤ close)
    (ran : s.moved client (s.log.insert client (s.positions client) buffer close) = some next) :
    (∃ after, next.Inv after) ∧ Final s.log next.log := by
  rw [inv.cursor client] at ran
  cases result : s.log.insert client ((contents.cursor client).map ptr) buffer close with
  | error fault =>
      rw [result] at ran
      cases ran
  | ok inserted =>
      obtain ⟨last, there, current, _, rep, final⟩ := insert_ok s.log contents client buffer close inserted inv.rep positive result
      rw [result] at ran
      obtain rfl := Option.some.inj ran
      refine ⟨⟨_, pushed_inv s contents client _ inserted.log _ inv rep ?_⟩, final⟩
      have length : (List.replicate (close - 1) ([] : Bytes) ++ [buffer.data]).length = close := by
        simp only [List.length_append, List.length_replicate, List.length_singleton]
        omega
      rw [cursor_push _ _ _ (by simp), length, there, current]
      rfl

theorem traverse_chain (log : Log) (contents : Contents) (client fuel rank : Nat) (rep : Represents log contents)
    (enough : (chain contents.slots client).length ≤ rank + fuel) :
    log.traverse fuel ((chain contents.slots client)[rank]?.map ptr) = ((chain contents.slots client).drop rank).map ptr := by
  induction fuel generalizing rank with
  | zero =>
      have done : (chain contents.slots client).length ≤ rank := enough
      rw [List.drop_eq_nil_of_le done, Log.traverse, List.map_nil]
  | succ fuel ih =>
      cases here : (chain contents.slots client)[rank]? with
      | none => rw [List.drop_eq_nil_of_le (List.getElem?_eq_none_iff.mp here), Option.map_none, Log.traverse, List.map_nil]
      | some index =>
          obtain ⟨bound, value⟩ := List.getElem?_eq_some_iff.mp here
          rw [Option.map_some, Log.traverse, follow_chain log contents client rank index rep here, ih (rank + 1) (by omega),
            List.drop_eq_getElem_cons bound, value, List.map_cons]

theorem gsn_at_chain (log : Log) (contents : Contents) (client rank index : Nat) (rep : Represents log contents)
    (here : (chain contents.slots client)[rank]? = some index) : ∃ gsn, log.gsnAt (ptr index) = some gsn ∧
      contents.slots[index]? = some (gsn, client) := by
  obtain ⟨entry, read, cell⟩ := rep.cells client rank index here
  exact ⟨entry.gsn, by rw [Log.gsnAt, read]; rfl, cell.slot⟩

theorem patch_inv (s next : Shared) (contents : Contents) (client : Nat) (buffer : Buffer) (gsn : Nat) (inv : s.Inv contents)
    (ahead : some gsn ∈ (s.log.traverse s.log.currentEntries (s.log.seek client (s.positions client))).map s.log.gsnAt)
    (ran : s.moved client (s.log.patch client (s.positions client) buffer gsn) = some next) :
    (∃ after, next.Inv after) ∧ Final s.log next.log := by
  have total := chain_length_le contents.slots client
  rw [inv.cursor client] at ran ahead
  rw [seek_chain s.log contents client inv.rep,
    traverse_chain s.log contents client _ _ inv.rep (by rw [inv.rep.count]; omega)] at ahead
  obtain ⟨here, member, value⟩ := List.mem_map.mp ahead
  obtain ⟨last, dropped, rfl⟩ := List.mem_map.mp member
  obtain ⟨offset, found⟩ := List.mem_iff_getElem?.mp dropped
  rw [List.getElem?_drop] at found
  obtain ⟨gsn', atLast, slot⟩ := gsn_at_chain s.log contents client _ last inv.rep found
  obtain rfl := Option.some.inj (value.symm.trans atLast)
  obtain ⟨log, patched, rep, final⟩ := patch_represents s.log contents client _ last gsn buffer inv.rep inv.increasing
    (Nat.le_add_right _ offset) found slot
  rw [patched] at ran
  obtain rfl := Option.some.inj ran
  refine ⟨⟨_, pushed_inv s contents client _ log _ inv rep ?_⟩, final⟩
  rw [cursor_push _ _ _ (by simp), List.length_append, List.length_replicate, List.length_singleton,
    Nat.add_sub_cancel_left, ← Nat.add_assoc, Nat.add_sub_cancel, found]
  rfl

theorem close_inv (s : Shared) (contents : Contents) (client : Nat) (inv : s.Inv contents) :
    ∃ log current after, s.log.close client (s.positions client) = .ok (log, current) ∧
      { s with log := log, positions := Function.update s.positions client current }.Inv after ∧ Final s.log log := by
  obtain ⟨log, closed, rep, final⟩ := close_seals s.log contents client inv.rep
  rw [← inv.cursor client] at closed
  exact ⟨log, _, _, closed, pushed_inv s contents client _ log _ inv rep rfl, final⟩

theorem yield_inv (s : Shared) (contents : Contents) (assignment : Assignment) (order : List Assignment) (gsn : Nat)
    (inv : s.Inv contents) (working : s.adding = some (assignment :: order, gsn)) :
    (∃ after, { s with
      log := (yieldSlot zeroed assignment (s.log, gsn)).1
      adding := some (order, (yieldSlot zeroed assignment (s.log, gsn)).2)
      created := s.created ++ s.takes assignment }.Inv after) ∧
    Final s.log (yieldSlot zeroed assignment (s.log, gsn)).1 := by
  obtain ⟨ends, earlier⟩ := inv.pending assignment order gsn working
  have word := inv.word
  have later : ∀ second rest gsn', some (order, uint64 (gsn + 1)) = some (second :: rest, gsn') →
      gsn' + (rest.length + 1) = s.endGsn ∧ gsn' = gsn + 1 := by
    intro second rest gsn' left
    obtain ⟨rfl, rfl⟩ := Prod.mk.inj (Option.some.inj left)
    rw [List.length_cons] at ends
    rw [uint64_of_lt (by omega)]
    exact ⟨by omega, rfl⟩
  by_cases foreign : assignment.clientId = uint64Max
  · simp only [yieldSlot, if_pos foreign, Shared.takes, List.append_nil]
    refine ⟨⟨contents, inv.rep, inv.cursor, inv.created, inv.increasing, inv.below, word, ?_⟩, final_refl s.log⟩
    intro second rest gsn' left
    obtain ⟨same, rfl⟩ := later second rest gsn' left
    exact ⟨same, fun slot member => Nat.lt_succ_of_lt (earlier slot member)⟩
  · obtain ⟨grown, room⟩ := grow_represents s.log contents inv.rep
    simp only [yieldSlot, if_neg foreign, Shared.takes]
    refine ⟨⟨contents.extend [(gsn, assignment.clientId)], yield_represents s.log contents gsn _ inv.rep, ?_, ?_, ?_, ?_, word, ?_⟩,
      yield_final s.log contents gsn _ inv.rep⟩
    · intro client
      rw [cursor_extend _ _ _ (inv.rep.filled client)]
      exact inv.cursor client
    · have place : ptr contents.slots.length = ⟨(s.log.grow zeroed).block, (s.log.grow zeroed).entry⟩ := by
        rw [grown.size]
        exact ptr_mul_add _ _ room
      rw [inv.created, Contents.extend, List.length_append, List.length_singleton, List.range_succ, List.map_append, ← place]
      rfl
    · exact increasing_append _ _ gsn inv.increasing (List.pairwise_singleton _ _) earlier
        (fun slot member => by rw [List.mem_singleton.mp member])
    · intro slot member
      rcases List.mem_append.mp member with old | new
      · exact inv.below slot old
      · rw [List.mem_singleton.mp new]
        change gsn < s.endGsn
        omega
    · intro second rest gsn' left
      obtain ⟨same, rfl⟩ := later second rest gsn' left
      refine ⟨same, ?_⟩
      intro slot member
      rcases List.mem_append.mp member with old | new
      · exact Nat.lt_succ_of_lt (earlier slot old)
      · rw [List.mem_singleton.mp new]
        exact Nat.lt_succ_self gsn

-- Every operation keeps the invariant and every set entry.
theorem step_inv (s next : Shared) (operation : Operation) (contents : Contents) (inv : s.Inv contents)
    (stepped : s.step operation = some next) : (∃ after, next.Inv after) ∧ Final s.log next.log := by
  cases operation with
  | beginEntries slots =>
      simp only [Shared.step] at stepped
      split at stepped
      · rename_i allowed
        obtain ⟨_, _, after, word⟩ := allowed
        obtain rfl := Option.some.inj stepped
        refine ⟨⟨contents, inv.rep, inv.cursor, inv.created, inv.increasing, ?_, word, ?_⟩, final_refl s.log⟩
        · intro slot member
          have := inv.below slot member
          change slot.1 < slots.startGsn + _
          omega
        · intro assignment order gsn working
          obtain ⟨split, rfl⟩ := Prod.mk.inj (Option.some.inj working)
          refine ⟨?_, fun slot member => Nat.lt_of_lt_of_le (inv.below slot member) after⟩
          change _ = slots.startGsn + _
          rw [split, List.length_cons]
      · cases stepped
  | yield =>
      simp only [Shared.step] at stepped
      split at stepped
      · rename_i assignment order gsn working
        obtain rfl := Option.some.inj stepped
        exact yield_inv s contents assignment order gsn inv working
      · cases stepped
  | publish =>
      simp only [Shared.step] at stepped
      split at stepped
      · obtain rfl := Option.some.inj stepped
        refine ⟨⟨contents, represents_published _ _ _ inv.rep, inv.cursor, inv.created, inv.increasing, inv.below, inv.word, ?_⟩,
          final_congr _ _ _ rfl (final_refl s.log)⟩
        intro assignment order gsn working
        cases working
      · cases stepped
  | insert clientId buffer close =>
      simp only [Shared.step] at stepped
      split at stepped
      · exact insert_inv s next contents clientId buffer close inv (by assumption) stepped
      · cases stepped
  | patch clientId buffer gsn =>
      simp only [Shared.step] at stepped
      split at stepped
      · exact patch_inv s next contents clientId buffer gsn inv (by assumption) stepped
      · cases stepped
  | close clientId =>
      obtain ⟨log, current, after, closed, invNext, final⟩ := close_inv s contents clientId inv
      simp only [Shared.step, closed] at stepped
      obtain rfl := Option.some.inj stepped
      exact ⟨⟨after, invNext⟩, final⟩

theorem run_inv (start final : Shared) (labels : List Operation) (contents : Contents) (inv : start.Inv contents)
    (ran : Machine.run Shared.step start labels = some final) : (∃ after, final.Inv after) ∧ Final start.log final.log := by
  refine Machine.run_preserves Shared.step (fun s => (∃ after, s.Inv after) ∧ Final start.log s.log) ?_ start final
    ⟨⟨contents, inv⟩, final_refl start.log⟩ labels ran
  rintro s operation next ⟨⟨middle, invMiddle⟩, early⟩ stepped
  obtain ⟨invNext, late⟩ := step_inv s next operation middle invMiddle stepped
  exact ⟨invNext, final_trans _ _ _ early late⟩

theorem chain_filter (slots : List (Nat × Nat)) (client : Nat) :
    chain slots client = (List.range slots.length).filter (fun index => slots[index]?.map Prod.snd == some client) := by
  induction slots using List.reverseRecOn with
  | nil => rfl
  | append_singleton slots slot ih =>
      obtain ⟨gsn, owner⟩ := slot
      have older : (List.range slots.length).filter (fun index => (slots ++ [(gsn, owner)])[index]?.map Prod.snd == some client) =
          chain slots client := by
        rw [ih]
        apply List.filter_congr
        intro index member
        rw [List.getElem?_append_left (List.mem_range.mp member)]
      rw [List.length_append, List.length_singleton, List.range_succ, List.filter_append, older]
      by_cases mine : client = owner
      · subst mine
        simp [chain_snoc_same]
      · simp [chain_snoc_other _ _ _ _ mine, Ne.symm mine]

-- The entries of a client, found by their client_id, are its chain.
theorem owned_chain (log : Log) (contents : Contents) (client : Nat) (rep : Represents log contents) :
    ((List.range contents.slots.length).map ptr).filter (log.ownedBy client) = (chain contents.slots client).map ptr := by
  rw [List.filter_map, chain_filter]
  congr 1
  apply List.filter_congr
  intro index member
  have bound := List.mem_range.mp member
  have here := List.getElem?_eq_getElem bound
  obtain ⟨rank, access⟩ := chain_rank_exists contents.slots index _ _ here
  obtain ⟨entry, read, cell⟩ := rep.cells _ rank index access
  simp [Log.ownedBy, read, cell.owner, here]

theorem created_chain (s : Shared) (contents : Contents) (client : Nat) (inv : s.Inv contents) :
    s.created.filter (s.log.ownedBy client) = (chain contents.slots client).map ptr := by
  rw [inv.created]
  exact owned_chain s.log contents client inv.rep

theorem created_access (s : Shared) (contents : Contents) (inv : s.Inv contents) (index : Nat) (here : Ptr)
    (access : s.created[index]? = some here) :
    here = ptr index ∧ ∃ client rank entry, (chain contents.slots client)[rank]? = some index ∧
      s.log.read (ptr index) = some entry ∧ Cell contents client rank index entry := by
  rw [inv.created, List.getElem?_map] at access
  obtain ⟨index', ranged, rfl⟩ := Option.map_eq_some_iff.mp access
  obtain ⟨bound, rfl⟩ := List.getElem?_eq_some_iff.mp ranged
  rw [List.length_range] at bound
  rw [List.getElem_range]
  obtain ⟨rank, reached⟩ := chain_rank_exists contents.slots index _ _ (List.getElem?_eq_getElem bound)
  obtain ⟨entry, read, cell⟩ := inv.rep.cells _ rank index reached
  exact ⟨rfl, _, rank, entry, reached, read, cell⟩

theorem inverse_links (s : Shared) (contents : Contents) (inv : s.Inv contents) (here there : Ptr)
    (left : here ∈ s.created) (right : there ∈ s.created) :
    s.log.follow here = some there ↔ s.log.back there = some here := by
  obtain ⟨first, atFirst⟩ := List.mem_iff_getElem?.mp left
  obtain ⟨second, atSecond⟩ := List.mem_iff_getElem?.mp right
  obtain ⟨rfl, client, rank, entry, reached, read, cell⟩ := created_access s contents inv first here atFirst
  obtain ⟨rfl, other, position, entry', reached', read', cell'⟩ := created_access s contents inv second there atSecond
  simp only [Log.follow, Log.back, read, read', Option.bind_some, cell.next, cell'.prev, Option.map_eq_some_iff]
  constructor
  · rintro ⟨target, after, same⟩
    obtain rfl := ptr_injective target second same
    obtain rfl := chain_owner_unique _ _ _ _ _ _ after reached'
    obtain rfl := chain_rank_unique _ _ _ _ _ after reached'
    rw [if_neg (Nat.succ_ne_zero rank), Nat.add_sub_cancel, reached]
    rfl
  · intro before
    by_cases atStart : position = 0
    · rw [if_pos atStart] at before
      cases before
    · rw [if_neg atStart] at before
      obtain ⟨target, earlier, same⟩ := Option.map_eq_some_iff.mp before
      obtain rfl := ptr_injective target first same
      obtain rfl := chain_owner_unique _ _ _ _ _ _ reached earlier
      obtain rfl := chain_rank_unique _ _ _ _ _ reached earlier
      exact ⟨second, by rw [Nat.sub_add_cancel (Nat.pos_of_ne_zero atStart)]; exact reached', rfl⟩

theorem set_until_cursor (s : Shared) (contents : Contents) (inv : s.Inv contents) (client rank : Nat) (here : Ptr) (entry : Entry)
    (owned : (s.created.filter (s.log.ownedBy client))[rank]? = some here) (read : s.log.read here = some entry) :
    entry.set = true ↔ ∃ (reached : Nat) (current : Ptr), s.positions client = some current ∧
      (s.created.filter (s.log.ownedBy client))[reached]? = some current ∧ rank ≤ reached := by
  rw [created_chain s contents client inv] at owned ⊢
  simp only [List.getElem?_map] at owned ⊢
  obtain ⟨index, access, rfl⟩ := Option.map_eq_some_iff.mp owned
  obtain ⟨entry', read', cell⟩ := inv.rep.cells client rank index access
  obtain rfl := Option.some.inj (read.symm.trans read')
  have filled := inv.rep.filled client
  rw [cell.set, decide_eq_true_iff, inv.cursor client]
  constructor
  · intro before
    have moved : contents.fills client ≠ [] := List.length_pos_iff.mp (Nat.lt_of_le_of_lt (Nat.zero_le _) before)
    have bound : (contents.fills client).length - 1 < (chain contents.slots client).length := by omega
    refine ⟨(contents.fills client).length - 1, _, ?_, by rw [List.getElem?_eq_getElem bound]; rfl, by omega⟩
    rw [Contents.cursor, if_neg moved, List.getElem?_eq_getElem bound]
    rfl
  · rintro ⟨reached, current, cursor, atCursor, least⟩
    obtain ⟨last, found, rfl⟩ := Option.map_eq_some_iff.mp cursor
    obtain ⟨last', found', same⟩ := Option.map_eq_some_iff.mp atCursor
    obtain rfl := ptr_injective last' last same
    rw [Contents.cursor] at found
    split at found
    · cases found
    · rename_i moved
      have positive := List.length_pos_iff.mpr moved
      have := chain_rank_unique _ _ _ _ _ found found'
      omega

theorem well_formed_of_inv (s : Shared) (contents : Contents) (inv : s.Inv contents) : WellFormed s := by
  refine ⟨?_, ?_, ?_, ?_, inverse_links s contents inv, ?_, set_until_cursor s contents inv⟩
  · intro index here access
    obtain ⟨rfl, _, _, entry, _, read, _⟩ := created_access s contents inv index here access
    exact ⟨rfl, entry, read⟩
  · intro lower upper first second less left right
    obtain ⟨here, atLower, readFirst⟩ := Option.bind_eq_some_iff.mp left
    obtain ⟨there, atUpper, readSecond⟩ := Option.bind_eq_some_iff.mp right
    obtain ⟨rfl, _, _, entry, _, read, cell⟩ := created_access s contents inv lower here atLower
    obtain ⟨rfl, _, _, entry', _, read', cell'⟩ := created_access s contents inv upper there atUpper
    obtain rfl := Option.some.inj (readFirst.symm.trans read)
    obtain rfl := Option.some.inj (readSecond.symm.trans read')
    obtain ⟨lowerBound, lowerValue⟩ := List.getElem?_eq_some_iff.mp cell.slot
    obtain ⟨upperBound, upperValue⟩ := List.getElem?_eq_some_iff.mp cell'.slot
    have order := List.pairwise_iff_getElem.mp inv.increasing lower upper lowerBound upperBound less
    rwa [lowerValue, upperValue] at order
  · intro client fuel enough
    have total := chain_length_le contents.slots client
    rw [inv.created, List.length_map, List.length_range] at enough
    rw [created_chain s contents client inv, inv.rep.first client, traverse_chain s.log contents client fuel 0 inv.rep (by omega)]
    rfl
  · intro client
    rw [created_chain s contents client inv, inv.rep.last client, List.getLast?_map]
  · intro client first present
    rw [inv.rep.first client] at present
    obtain ⟨index, access, rfl⟩ := Option.map_eq_some_iff.mp present
    obtain ⟨entry, read, cell⟩ := inv.rep.cells client 0 index access
    rw [Log.back, read, Option.bind_some, cell.prev, if_pos rfl]

-- add_entries as one call is its first step, one yield for every slot of the
-- schedule and the store to num_entries_.
theorem yields_run (order : List Assignment) (s : Shared) (gsn : Nat) (working : s.adding = some (order, gsn)) :
    ∃ next, Machine.run Shared.step s (List.replicate order.length .yield) = some next ∧
      next.log = (order.foldl (fun state a => yieldSlot zeroed a state) (s.log, gsn)).1 ∧
      ∃ gsn', next.adding = some ([], gsn') := by
  induction order generalizing s gsn with
  | nil => exact ⟨s, rfl, rfl, gsn, working⟩
  | cons assignment order ih =>
      let middle : Shared := { s with
        log := (yieldSlot zeroed assignment (s.log, gsn)).1
        adding := some (order, (yieldSlot zeroed assignment (s.log, gsn)).2)
        created := s.created ++ s.takes assignment }
      obtain ⟨next, ran, log, done⟩ := ih middle _ rfl
      have stepped : s.step .yield = some middle := by simp only [Shared.step, working, middle]
      refine ⟨next, ?_, ?_, done⟩
      · rw [List.length_cons, List.replicate_succ, ← List.singleton_append, Machine.run_append]
        simp only [Machine.run, List.foldlM_cons, List.foldlM_nil, stepped, Option.bind_eq_bind, Option.bind_some, pure]
        exact ran
      · rw [log, List.foldl_cons]

theorem add_entries_run (s : Shared) (slots : StorageSlots) (idle : s.adding = none) (some_client : slots.assignments ≠ [])
    (after : s.endGsn ≤ slots.startGsn) (word : slots.startGsn + (schedule slots.assignments).length ≤ 2 ^ 64) :
    ∃ next, Machine.run Shared.step s
        (.beginEntries slots :: (List.replicate (schedule slots.assignments).length .yield ++ [.publish])) = some next ∧
      next.log = s.log.addEntries zeroed slots ∧ next.adding = none := by
  let begun : Shared := { s with
    adding := some (schedule slots.assignments, slots.startGsn)
    endGsn := slots.startGsn + (schedule slots.assignments).length }
  have first : s.step (.beginEntries slots) = some begun := by
    simp only [Shared.step, idle, some_client, after, word, ne_eq, not_false_eq_true, and_self, if_true, begun]
  obtain ⟨middle, ran, log, gsn, done⟩ := yields_run (schedule slots.assignments) begun slots.startGsn rfl
  refine ⟨{ middle with log := { middle.log with numEntries := middle.log.currentEntries }, adding := none }, ?_, ?_, rfl⟩
  · rw [← List.singleton_append, Machine.run_append, ← List.singleton_append]
    simp only [Machine.run, List.foldlM_cons, List.foldlM_nil, first, Option.bind_eq_bind, Option.bind_some, pure,
      List.foldlM_append, List.singleton_append]
    change (Machine.run Shared.step begun _).bind _ = _
    rw [ran]
    simp only [Option.bind_some, Shared.step, done]
  · simp only [Log.addEntries, generate_slots_schedule, log]
    rfl

-- Whatever the order of the operations, the log keeps its shape, and a set
-- entry is never written again except for its link to the next one.
theorem log_shape_and_finality (labels : List Operation) (s : Shared)
    (ran : Machine.run Shared.step Shared.init labels = some s) :
    WellFormed s ∧ ∀ (later : List Operation) (final : Shared), Machine.run Shared.step s later = some final →
      ∀ here entry, s.log.read here = some entry → entry.set = true → ∃ entry', final.log.read here = some entry' ∧
        entry'.gsn = entry.gsn ∧ entry'.clientId = entry.clientId ∧ entry'.dataLength = entry.dataLength ∧
        entry'.data = entry.data ∧ entry'.set = true := by
  obtain ⟨⟨contents, inv⟩, _⟩ := run_inv Shared.init s labels Contents.empty init_inv ran
  refine ⟨well_formed_of_inv s contents inv, ?_⟩
  intro later final ranLater here entry read set
  obtain ⟨_, kept⟩ := run_inv s final later contents inv ranLater
  obtain ⟨link, read'⟩ := kept here entry read set
  exact ⟨_, read', rfl, rfl, rfl, rfl, set⟩

theorem log_shape_two_clients : ∃ s, Machine.run Shared.step Shared.init
    [.beginEntries ⟨7, [⟨1, 2⟩, ⟨uint64Max, 1⟩, ⟨2, 1⟩]⟩, .yield, .insert 1 ⟨[5], [0]⟩ 1, .yield, .yield, .yield, .publish,
      .patch 2 ⟨[], []⟩ 9, .close 1] = some s ∧ WellFormed s := by
  have enabled : (Machine.run Shared.step Shared.init
      [.beginEntries ⟨7, [⟨1, 2⟩, ⟨uint64Max, 1⟩, ⟨2, 1⟩]⟩, .yield, .insert 1 ⟨[5], [0]⟩ 1, .yield, .yield, .yield, .publish,
        .patch 2 ⟨[], []⟩ 9, .close 1]).isSome = true := by decide +kernel
  obtain ⟨s, ran⟩ := Option.isSome_iff_exists.mp enabled
  exact ⟨s, ran, (log_shape_and_finality _ s ran).1⟩

end ZipLog.Storage
