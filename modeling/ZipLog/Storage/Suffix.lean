import ZipLog.Storage.Invariant
import Mathlib.Data.List.TakeWhile

set_option autoImplicit false

namespace ZipLog.Storage

theorem take_while_filter {α : Type} (wanted : α → Bool) (list : List α)
    (closed : list.Pairwise (fun first second => wanted second = true → wanted first = true)) :
    list.takeWhile wanted = list.filter wanted := by
  induction list with
  | nil => rfl
  | cons head rest ih =>
      obtain ⟨before, tail⟩ := List.pairwise_cons.mp closed
      by_cases here : wanted head = true
      · rw [List.takeWhile_cons_of_pos here, List.filter_cons_of_pos here, ih tail]
      · rw [List.takeWhile_cons_of_neg here, List.filter_cons_of_neg here, eq_comm, List.filter_eq_nil_iff]
        exact fun later member yes => here (before later member yes)

-- The entries of a client, those of them that are set, and the entries above a GSN.
def Shared.entries (s : Shared) (client : Nat) : List Ptr := s.created.filter (s.log.ownedBy client)

def Log.marked (log : Log) (here : Ptr) : Bool := (log.read here).any Entry.set

def Shared.setEntries (s : Shared) (client : Nat) : List Ptr := (s.entries client).filter s.log.marked

def Log.above (log : Log) (gsn : Nat) (here : Ptr) : Bool := (log.gsnAt here).any (fun other => decide (gsn < other))

section

variable (s : Shared) (contents : Contents) (inv : s.Inv contents) (client : Nat)

include inv

-- What the contents say of the entry at an index of the log.
theorem chain_entry (rank index : Nat) (access : (chain contents.slots client)[rank]? = some index) :
    s.log.gsnAt (ptr index) = (contents.slots[index]?).map Prod.fst ∧
      s.log.marked (ptr index) = decide (rank < (contents.fills client).length) := by
  obtain ⟨entry, read, cell⟩ := inv.rep.cells client rank index access
  constructor
  · rw [Log.gsnAt, read, cell.slot]
    rfl
  · rw [Log.marked, read, ← cell.set]
    rfl

-- The set entries are those up to the cursor.
theorem set_entries_chain :
    s.setEntries client = ((chain contents.slots client).take (contents.fills client).length).map ptr := by
  have filled := inv.rep.filled client
  have value : ∀ rank (inside : rank < (chain contents.slots client).length),
      s.log.marked (ptr (chain contents.slots client)[rank]) = decide (rank < (contents.fills client).length) :=
    fun rank inside => (chain_entry s contents inv client rank _ (List.getElem?_eq_getElem inside)).2
  rw [Shared.setEntries, Shared.entries, created_chain s contents client inv, List.filter_map]
  congr 1
  generalize chain contents.slots client = indices at *
  generalize (contents.fills client).length = count at *
  rw [← List.take_append_drop count indices, List.filter_append, List.take_append_drop]
  have front : (indices.take count).filter (s.log.marked ∘ ptr) = indices.take count := by
    rw [List.filter_eq_self]
    intro index member
    obtain ⟨rank, inside, rfl⟩ := List.mem_iff_getElem.mp member
    rw [List.length_take] at inside
    rw [List.getElem_take, Function.comp_apply, value rank (by omega)]
    exact decide_eq_true (by omega)
  have back : (indices.drop count).filter (s.log.marked ∘ ptr) = [] := by
    rw [List.filter_eq_nil_iff]
    intro index member
    obtain ⟨rank, inside, rfl⟩ := List.mem_iff_getElem.mp member
    rw [List.length_drop] at inside
    rw [List.getElem_drop, Function.comp_apply, value (count + rank) (by omega), decide_eq_true_iff]
    omega
  rw [front, back, List.append_nil]

theorem gsn_at_slot (index gsn owner : Nat) (slot : contents.slots[index]? = some (gsn, owner)) :
    s.log.gsnAt (ptr index) = some gsn := by
  obtain ⟨rank, access⟩ := chain_rank_exists contents.slots index gsn owner slot
  rw [(chain_entry s contents inv owner rank index access).1, slot]
  rfl

-- Along the entries of a client the GSNs grow.
theorem chain_increasing : (chain contents.slots client).Pairwise (fun first second =>
    ∀ a b, s.log.gsnAt (ptr first) = some a → s.log.gsnAt (ptr second) = some b → a < b) := by
  have sorted : (chain contents.slots client).Pairwise (· < ·) := by
    rw [chain_filter]
    exact List.pairwise_lt_range.filter _
  refine sorted.imp_of_mem ?_
  intro first second left right less a b here there
  obtain ⟨i, atFirst⟩ := List.mem_iff_getElem?.mp left
  obtain ⟨j, atSecond⟩ := List.mem_iff_getElem?.mp right
  obtain ⟨gsn, slot⟩ := chain_access contents.slots client i first atFirst
  obtain ⟨other, slot'⟩ := chain_access contents.slots client j second atSecond
  rw [gsn_at_slot s contents inv first gsn client slot] at here
  rw [gsn_at_slot s contents inv second other client slot'] at there
  obtain rfl := Option.some.inj here
  obtain rfl := Option.some.inj there
  obtain ⟨inside, value⟩ := List.getElem?_eq_some_iff.mp slot
  obtain ⟨inside', value'⟩ := List.getElem?_eq_some_iff.mp slot'
  have order := List.pairwise_iff_getElem.mp inv.increasing first second inside inside' less
  rwa [value, value'] at order

theorem set_entries_increasing : (s.setEntries client).Pairwise (fun first second =>
    ∀ a b, s.log.gsnAt first = some a → s.log.gsnAt second = some b → a < b) := by
  rw [set_entries_chain s contents inv client, List.pairwise_map]
  exact (chain_increasing s contents inv client).sublist (List.take_sublist _ _)

theorem set_entries_nodup : (s.setEntries client).Nodup := by
  have distinct : s.created.Nodup := by
    rw [inv.created]
    exact List.nodup_range.map ptr_injective
  exact (distinct.filter _).filter _

theorem suffix_all : s.log.suffix (s.positions client) uint64Max = .ok (s.setEntries client).reverse := by
  rw [inv.cursor client, suffix_chain s.log contents client uint64Max inv.rep, set_entries_chain s contents inv client, ← List.map_reverse]
  congr 2
  rw [List.takeWhile_eq_self_iff]
  exact fun index _ => decide_eq_true (Or.inl rfl)

-- Backwards along the chain the GSNs fall, so the walk stops where they are no
-- longer above the one asked for.
theorem suffix_above (beginGsn : Nat) (small : beginGsn < uint64Max) :
    s.log.suffix (s.positions client) beginGsn = .ok ((s.setEntries client).filter (s.log.above beginGsn)).reverse := by
  have value : ∀ index ∈ (chain contents.slots client).take (contents.fills client).length,
      ∃ gsn, s.log.gsnAt (ptr index) = some gsn ∧ contents.slots[index]? = some (gsn, client) := by
    intro index member
    obtain ⟨rank, access⟩ := List.mem_iff_getElem?.mp (List.mem_of_mem_take member)
    obtain ⟨gsn, slot⟩ := chain_access contents.slots client rank index access
    exact ⟨gsn, gsn_at_slot s contents inv index gsn client slot, slot⟩
  have wanted : ∀ index ∈ ((chain contents.slots client).take (contents.fills client).length).reverse,
      decide (beginGsn = uint64Max ∨ beginGsn < ((contents.slots[index]?).map Prod.fst).getD 0) = s.log.above beginGsn (ptr index) := by
    intro index member
    obtain ⟨gsn, here, slot⟩ := value index (List.mem_reverse.mp member)
    rw [Log.above, here, slot]
    apply decide_eq_decide.mpr
    exact ⟨fun either => either.resolve_left (Nat.ne_of_lt small), Or.inr⟩
  have falling : ((chain contents.slots client).take (contents.fills client).length).reverse.Pairwise (fun first second =>
      decide (beginGsn = uint64Max ∨ beginGsn < ((contents.slots[second]?).map Prod.fst).getD 0) = true →
        decide (beginGsn = uint64Max ∨ beginGsn < ((contents.slots[first]?).map Prod.fst).getD 0) = true) := by
    rw [List.pairwise_reverse]
    refine ((chain_increasing s contents inv client).sublist (List.take_sublist _ _)).imp_of_mem ?_
    intro first second left right grows above
    obtain ⟨gsn, here, slot⟩ := value first left
    obtain ⟨other, there, slot'⟩ := value second right
    rw [slot] at above
    rw [slot']
    have below := (of_decide_eq_true above).resolve_left (Nat.ne_of_lt small)
    exact decide_eq_true (Or.inr (Nat.lt_trans below (grows gsn other here there)))
  rw [inv.cursor client, suffix_chain s.log contents client beginGsn inv.rep, set_entries_chain s contents inv client,
    ← List.filter_reverse, ← List.map_reverse, List.filter_map, take_while_filter _ _ falling, List.filter_congr wanted]
  rfl

-- An entry not above the GSN of a set entry is set.
theorem set_below (mark here : Ptr) (gsn other : Nat) (member : mark ∈ s.setEntries client) (atMark : s.log.gsnAt mark = some gsn)
    (owned : here ∈ s.entries client) (atHere : s.log.gsnAt here = some other) (below : other ≤ gsn) : s.log.marked here = true := by
  rw [set_entries_chain s contents inv client] at member
  rw [Shared.entries, created_chain s contents client inv] at owned
  have increasing := List.pairwise_iff_getElem.mp (chain_increasing s contents inv client)
  obtain ⟨index, inside, rfl⟩ := List.mem_map.mp owned
  obtain ⟨rank, bound, rfl⟩ := List.mem_iff_getElem.mp inside
  obtain ⟨last, within, rfl⟩ := List.mem_map.mp member
  obtain ⟨reached, bound', rfl⟩ := List.mem_iff_getElem.mp within
  rw [List.length_take] at bound'
  rw [List.getElem_take] at atMark
  rw [(chain_entry s contents inv client rank _ (List.getElem?_eq_getElem bound)).2, decide_eq_true_iff]
  by_contra beyond
  have grows := increasing reached rank (by omega) bound (by omega) gsn other atMark atHere
  omega

end

-- The main result. For a GSN below the sentinel suffix gives the client's set
-- entries above it, for the sentinel all of them, newest first. With the entries up
-- to the GSN of a set entry the result is all of the client's set entries.
theorem suffix_exact (labels : List Operation) (s : Shared) (ran : Machine.run Shared.step Shared.init labels = some s) (client : Nat) :
    (∀ beginGsn, beginGsn < uint64Max →
      s.log.suffix (s.positions client) beginGsn = .ok ((s.setEntries client).filter (s.log.above beginGsn)).reverse) ∧
    s.log.suffix (s.positions client) uint64Max = .ok (s.setEntries client).reverse ∧
    (s.setEntries client).Nodup ∧
    (s.setEntries client).Pairwise (fun first second =>
      ∀ a b, s.log.gsnAt first = some a → s.log.gsnAt second = some b → a < b) ∧
    ∀ mark gsn result, gsn ≤ uint64Max → mark ∈ s.setEntries client → s.log.gsnAt mark = some gsn →
      s.log.suffix (s.positions client) gsn = .ok result →
      ∀ here ∈ s.entries client, s.log.marked here = true ↔ here ∈ result ∨ ∃ other, s.log.gsnAt here = some other ∧ other ≤ gsn := by
  obtain ⟨⟨contents, inv⟩, -⟩ := run_inv Shared.init s labels Contents.empty init_inv ran
  refine ⟨suffix_above s contents inv client, suffix_all s contents inv client, set_entries_nodup s contents inv client,
    set_entries_increasing s contents inv client, ?_⟩
  intro mark gsn result word member atMark returned here owned
  have known : ∃ other, s.log.gsnAt here = some other := by
    rw [Shared.entries, created_chain s contents client inv] at owned
    obtain ⟨index, inside, rfl⟩ := List.mem_map.mp owned
    obtain ⟨rank, access⟩ := List.mem_iff_getElem?.mp inside
    obtain ⟨other, slot⟩ := chain_access contents.slots client rank index access
    exact ⟨other, gsn_at_slot s contents inv index other client slot⟩
  have listed : here ∈ result → s.log.marked here = true := by
    intro inside
    have set : here ∈ s.setEntries client := by
      by_cases sentinel : gsn = uint64Max
      · rw [sentinel, suffix_all s contents inv client] at returned
        rw [← Except.ok.inj returned] at inside
        exact List.mem_reverse.mp inside
      · rw [suffix_above s contents inv client gsn (by omega)] at returned
        rw [← Except.ok.inj returned] at inside
        exact List.mem_of_mem_filter (List.mem_reverse.mp inside)
    exact (List.mem_filter.mp set).2
  obtain ⟨other, atHere⟩ := known
  constructor
  · intro set
    have inside : here ∈ s.setEntries client := List.mem_filter.mpr ⟨owned, set⟩
    by_cases sentinel : gsn = uint64Max
    · rw [sentinel, suffix_all s contents inv client] at returned
      rw [← Except.ok.inj returned]
      exact Or.inl (List.mem_reverse.mpr inside)
    · by_cases below : other ≤ gsn
      · exact Or.inr ⟨other, atHere, below⟩
      · rw [suffix_above s contents inv client gsn (by omega)] at returned
        rw [← Except.ok.inj returned, List.mem_reverse, List.mem_filter, Log.above, atHere]
        exact Or.inl ⟨inside, decide_eq_true (by omega)⟩
  · rintro (inside | ⟨value, same, below⟩)
    · exact listed inside
    · exact set_below s contents inv client mark here gsn value member atMark owned same below

-- A replica that has the insert at GSN 7 misses the two entries behind it.
def threeEntries : List Operation :=
  [.beginEntries ⟨7, [⟨1, 3⟩]⟩, .yield, .yield, .yield, .publish, .insert 1 ⟨[5], [0]⟩ 1, .insert 1 ⟨[6], [0]⟩ 2]

theorem suffix_exact_lagging : ∃ s, Machine.run Shared.step Shared.init threeEntries = some s ∧
    s.log.suffix (s.positions 1) 7 = .ok [⟨0, 2⟩, ⟨0, 1⟩] := by
  have reached : (Machine.run Shared.step Shared.init threeEntries).map (fun s => ((s.setEntries 1).filter (s.log.above 7)).reverse) =
      some [⟨0, 2⟩, ⟨0, 1⟩] := by decide +kernel
  obtain ⟨s, ran, same⟩ := Option.map_eq_some_iff.mp reached
  refine ⟨s, ran, ?_⟩
  rw [(suffix_exact threeEntries s ran 1).1 7 (by decide), same]

end ZipLog.Storage
