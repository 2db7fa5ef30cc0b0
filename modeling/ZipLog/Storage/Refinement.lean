import ZipLog.Storage.Contents

set_option autoImplicit false

namespace ZipLog.Storage

-- Two log indices of one block list are told apart by their pointers, so a
-- write to one entry is invisible at every other index.
theorem ptr_ne (first second : Nat) (different : first ≠ second) : ptr first ≠ ptr second :=
  fun same => different (ptr_injective first second same)

-- What every operation promises about an entry that is set: of all its fields
-- only the link to the client's next entry may still change.
def Final (log next : Log) : Prop :=
  ∀ here entry, log.read here = some entry → entry.set = true → ∃ link, next.read here = some { entry with next := link }

theorem final_refl (log : Log) : Final log log := fun _ entry read _ => ⟨entry.next, read⟩

theorem final_trans (first second third : Log) (left : Final first second) (right : Final second third) :
    Final first third := by
  intro here entry read set
  obtain ⟨link, kept⟩ := left here entry read set
  obtain ⟨link', kept'⟩ := right here { entry with next := link } kept set
  exact ⟨link', kept'⟩

theorem final_modify_unset (log : Log) (here : Ptr) (change : Entry → Entry) (old : Entry)
    (read : log.read here = some old) (unset : old.set = false) : Final log (log.modify here change) := by
  intro other entry present set
  by_cases same : here = other
  · subst other
    have equal : old = entry := Option.some.inj (read.symm.trans present)
    rw [equal, set] at unset
    cases unset
  · exact ⟨entry.next, by rw [read_modify_other _ _ _ _ same, present]⟩

theorem final_modify_link (log : Log) (here : Ptr) (link : Option Ptr) :
    Final log (log.modify here (fun e => { e with next := link })) := by
  intro other entry present _
  by_cases same : here = other
  · subst other
    exact ⟨link, by rw [read_modify_same, present]; rfl⟩
  · exact ⟨entry.next, by rw [read_modify_other _ _ _ _ same, present]⟩

theorem final_congr (log next other : Log) (same : next.blocks = other.blocks) (final : Final log other) : Final log next := by
  intro here entry read set
  rw [read_congr next other same]
  exact final here entry read set

theorem grow_represents (log : Log) (contents : Contents) (rep : Represents log contents) :
    Represents (log.grow zeroed) contents ∧ (log.grow zeroed).entry < numEntriesPerBlock := by
  unfold Log.grow
  by_cases full : log.entry = numEntriesPerBlock
  · rw [if_pos full]
    refine ⟨⟨?_, Nat.zero_le _, ?_, rep.count, ?_, ?_, rep.first, rep.last, rep.filled⟩, entries_per_block_pos⟩
    · simp [rep.blocks]
    · have size := rep.size
      rw [full] at size
      simpa [Nat.add_mul] using size
    · intro client rank index access
      obtain ⟨entry, read, cell⟩ := rep.cells client rank index access
      refine ⟨entry, ?_, cell⟩
      obtain ⟨block, found, value⟩ := Option.map_eq_some_iff.mp read
      have inside := (List.getElem?_eq_some_iff.mp found).1
      simpa only [Log.read, List.getElem?_append_left inside] using read
    · intro slot _ _
      simp [Log.read, zeroed, rep.blocks]
  · rw [if_neg full]
    exact ⟨rep, Nat.lt_of_le_of_ne rep.entry full⟩

-- The new entry is the only cell that append fills in; the old last entry of
-- the client is the only one whose links it touches.
theorem append_read (log : Log) (contents : Contents) (gsn client : Nat) (rep : Represents log contents)
    (room : log.entry < numEntriesPerBlock) (index : Nat) :
    (log.append gsn client).read (ptr index) =
      if index = contents.slots.length then
        some { Entry.zero with gsn := gsn, clientId := client, prev := (chain contents.slots client).getLast?.map ptr }
      else if (chain contents.slots client).getLast? = some index then
        (log.read (ptr index)).map (fun e => { e with next := some (ptr contents.slots.length) })
      else log.read (ptr index) := by
  have here : ptr contents.slots.length = ⟨log.block, log.entry⟩ := by
    rw [rep.size]
    exact ptr_mul_add log.block log.entry room
  have blank : log.read (ptr contents.slots.length) = some Entry.zero := by
    rw [here]
    exact rep.spare log.entry (Nat.le_refl _) room
  cases lastEq : (chain contents.slots client).getLast? with
  | none =>
      have absent : log.lastEntry client = none := by simpa [lastEq] using rep.last client
      have written : (log.append gsn client).blocks =
          (log.modify ⟨log.block, log.entry⟩ (fun e => { e with gsn := gsn, clientId := client })).blocks := by
        simp [Log.append, Log.modify, absent]
      rw [read_congr _ _ written, ← here, read_modify]
      by_cases new : index = contents.slots.length
      · subst index
        simp [blank, Entry.zero]
      · simp [new, ptr_ne _ _ (Ne.symm new)]
  | some last =>
      have present : log.lastEntry client = some (ptr last) := by simpa [lastEq] using rep.last client
      have old : last ≠ contents.slots.length := by
        obtain ⟨rank, access⟩ := List.mem_iff_getElem?.mp (List.mem_of_getLast? lastEq)
        exact Nat.ne_of_lt (chain_bound _ _ _ _ access)
      have written : (log.append gsn client).blocks =
          (((log.modify ⟨log.block, log.entry⟩ (fun e => { e with gsn := gsn, clientId := client })).modify
            ⟨log.block, log.entry⟩ (fun e => { e with prev := some (ptr last) })).modify
            (ptr last) (fun e => { e with next := some ⟨log.block, log.entry⟩ })).blocks := by
        simp [Log.append, Log.modify, present]
      rw [read_congr _ _ written, ← here, read_modify, read_modify, read_modify]
      by_cases new : index = contents.slots.length
      · subst index
        simp [blank, Entry.zero, ptr_ne _ _ old]
      · by_cases isLast : last = index
        · subst index
          simp [old, ptr_ne _ _ (Ne.symm old)]
        · simp [new, isLast, ptr_ne _ _ (Ne.symm new), ptr_ne _ _ isLast]

theorem append_shape (log : Log) (gsn client : Nat) :
    (log.append gsn client).blocks.length = log.blocks.length ∧ (log.append gsn client).block = log.block ∧
    (log.append gsn client).entry = log.entry + 1 ∧
    (log.append gsn client).currentEntries = log.currentEntries + 1 ∧
    (log.append gsn client).lastEntry = Function.update log.lastEntry client (some ⟨log.block, log.entry⟩) ∧
    (log.append gsn client).firstEntry =
      if log.lastEntry client = none then Function.update log.firstEntry client (some ⟨log.block, log.entry⟩)
      else log.firstEntry := by
  cases lastEq : log.lastEntry client <;> simp [Log.append, Log.modify, lastEq]

theorem append_cell (log : Log) (contents : Contents) (gsn client : Nat) (rep : Represents log contents)
    (room : log.entry < numEntriesPerBlock) (owner rank index : Nat)
    (access : (chain (contents.slots ++ [(gsn, client)]) owner)[rank]? = some index) :
    ∃ entry, (log.append gsn client).read (ptr index) = some entry ∧
      Cell (contents.extend [(gsn, client)]) owner rank index entry := by
  rw [append_read log contents gsn client rep room index]
  by_cases mine : owner = client
  · subst owner
    have grown := chain_snoc_same contents.slots gsn client
    rw [grown] at access
    rcases Nat.lt_or_ge rank (chain contents.slots client).length with old | new
    · rw [List.getElem?_append_left old] at access
      have bound := chain_bound _ _ _ _ access
      obtain ⟨entry, read, cell⟩ := rep.cells client rank index access
      have slot : (contents.extend [(gsn, client)]).slots[index]? = some (entry.gsn, client) := by
        rw [Contents.extend, List.getElem?_append_left bound]
        exact cell.slot
      have previous : entry.prev = if rank = 0 then none
          else (chain (contents.extend [(gsn, client)]).slots client)[rank - 1]?.map ptr := by
        rw [cell.prev, Contents.extend, grown, List.getElem?_append_left (by omega)]
      rw [if_neg (Nat.ne_of_lt bound)]
      by_cases isLast : (chain contents.slots client).getLast? = some index
      · -- The client's old last entry gets its next pointer now.
        have atEnd : rank + 1 = (chain contents.slots client).length := by
          rw [List.getLast?_eq_getElem?] at isLast
          have := chain_rank_unique contents.slots client _ _ index access isLast
          omega
        rw [if_pos isLast, read]
        refine ⟨_, rfl, ⟨slot, cell.owner, ?_, previous, cell.set, cell.length, cell.payload⟩⟩
        rw [Contents.extend, grown, atEnd]
        simp
      · have notEnd : rank + 1 < (chain contents.slots client).length := by
          by_contra beyond
          have atEnd : rank = (chain contents.slots client).length - 1 := by omega
          rw [atEnd, ← List.getLast?_eq_getElem?] at access
          exact isLast access
        rw [if_neg isLast, read]
        refine ⟨_, rfl, ⟨slot, cell.owner, ?_, previous, cell.set, cell.length, cell.payload⟩⟩
        rw [cell.next, Contents.extend, grown, List.getElem?_append_left notEnd]
    · have atEnd : rank = (chain contents.slots client).length := by
        have := (List.getElem?_eq_some_iff.mp access).1
        simp at this
        omega
      subst rank
      have here : index = contents.slots.length := by simpa using access.symm
      rw [if_pos here]
      have unfilled := rep.filled client
      have blank := List.getElem?_eq_none unfilled
      refine ⟨_, rfl, ⟨?_, rfl, ?_, ?_, ?_, ?_, ?_⟩⟩
      · simp [Contents.extend, here]
      · simp [Contents.extend, grown, Entry.zero]
      · by_cases none : (chain contents.slots client).length = 0
        · simp [List.length_eq_zero_iff.mp none]
        · simp only [if_neg none, Contents.extend, grown]
          rw [List.getElem?_append_left (by omega), List.getLast?_eq_getElem?]
      · exact (decide_eq_false (Nat.not_lt.mpr unfilled)).symm
      · simp [Contents.extend, Entry.zero, blank]
      · simp [Contents.extend, Entry.zero, blank, Entry.payload]
  · have same := chain_snoc_other contents.slots gsn client owner mine
    rw [same] at access
    have bound := chain_bound _ _ _ _ access
    obtain ⟨entry, read, cell⟩ := rep.cells owner rank index access
    have notLast : (chain contents.slots client).getLast? ≠ some index := by
      intro isLast
      obtain ⟨other, reached⟩ := List.mem_iff_getElem?.mp (List.mem_of_getLast? isLast)
      exact mine (chain_owner_unique _ _ _ _ _ _ access reached)
    rw [if_neg (Nat.ne_of_lt bound), if_neg notLast, read]
    refine ⟨entry, rfl, ⟨?_, cell.owner, ?_, ?_, cell.set, cell.length, cell.payload⟩⟩
    · rw [Contents.extend, List.getElem?_append_left bound]
      exact cell.slot
    · rw [cell.next, Contents.extend, same]
    · rw [cell.prev, Contents.extend, same]

theorem append_represents (log : Log) (contents : Contents) (gsn client : Nat) (rep : Represents log contents)
    (room : log.entry < numEntriesPerBlock) :
    Represents (log.append gsn client) (contents.extend [(gsn, client)]) := by
  obtain ⟨blocks, block, entry, count, last, first⟩ := append_shape log gsn client
  have here : ptr contents.slots.length = ⟨log.block, log.entry⟩ := by
    rw [rep.size]
    exact ptr_mul_add log.block log.entry room
  refine ⟨?_, ?_, ?_, ?_, ?_, ?_, ?_, ?_, ?_⟩
  · rw [blocks, block, rep.blocks]
  · omega
  · rw [Contents.extend, block, entry, List.length_append, rep.size]
    exact Nat.add_assoc _ _ _
  · rw [Contents.extend, count, List.length_append, rep.count]
    rfl
  · exact append_cell log contents gsn client rep room
  · intro slot lower upper
    rw [entry] at lower
    rw [block, ← ptr_mul_add log.block slot upper, append_read log contents gsn client rep room]
    have size := rep.size
    have later : log.block * numEntriesPerBlock + slot ≠ contents.slots.length := by omega
    have notLast : (chain contents.slots client).getLast? ≠ some (log.block * numEntriesPerBlock + slot) := by
      intro isLast
      obtain ⟨rank, reached⟩ := List.mem_iff_getElem?.mp (List.mem_of_getLast? isLast)
      have := chain_bound _ _ _ _ reached
      omega
    rw [if_neg later, if_neg notLast, ptr_mul_add log.block slot upper]
    exact rep.spare slot (by omega) upper
  · intro owner
    rw [first, Contents.extend]
    by_cases mine : owner = client
    · subst owner
      rw [chain_snoc_same, rep.last client]
      cases chainEq : chain contents.slots client with
      | nil => simp [here]
      | cons head tail => simp [rep.first client, chainEq]
    · rw [chain_snoc_other _ _ _ _ mine, ← rep.first owner]
      split
      · exact Function.update_of_ne mine _ _
      · rfl
  · intro owner
    rw [last, Contents.extend]
    by_cases mine : owner = client
    · subst owner
      rw [chain_snoc_same]
      simp [here]
    · rw [chain_snoc_other _ _ _ _ mine, Function.update_of_ne mine]
      exact rep.last owner
  · intro owner
    obtain ⟨rest, grown⟩ := chain_append contents.slots [(gsn, client)] owner
    have bound := rep.filled owner
    simp only [Contents.extend, grown, List.length_append]
    omega

theorem grow_final (log : Log) (memory : Memory) : Final log (log.grow memory) := by
  unfold Log.grow
  split
  · intro here entry read _
    refine ⟨entry.next, ?_⟩
    obtain ⟨block, found, _⟩ := Option.map_eq_some_iff.mp read
    have inside := (List.getElem?_eq_some_iff.mp found).1
    simpa only [Log.read, List.getElem?_append_left inside] using read
  · exact final_refl log

theorem append_final (log : Log) (contents : Contents) (gsn client : Nat) (rep : Represents log contents)
    (room : log.entry < numEntriesPerBlock) : Final log (log.append gsn client) := by
  have blank := rep.spare log.entry (Nat.le_refl _) room
  have named := final_modify_unset log ⟨log.block, log.entry⟩ (fun e => { e with gsn := gsn, clientId := client }) _ blank rfl
  cases lastEq : log.lastEntry client with
  | none => exact final_congr _ _ _ (by simp [Log.append, Log.modify, lastEq]) named
  | some last =>
      have blankStill : (log.modify ⟨log.block, log.entry⟩ (fun e => { e with gsn := gsn, clientId := client })).read
          ⟨log.block, log.entry⟩ = some { Entry.zero with gsn := gsn, clientId := client } := by
        rw [read_modify_same, blank]
        rfl
      have linked := final_modify_unset _ ⟨log.block, log.entry⟩ (fun e => { e with prev := some last }) _ blankStill rfl
      have all := final_trans _ _ _ (final_trans _ _ _ named linked)
        (final_modify_link _ last (some ⟨log.block, log.entry⟩))
      exact final_congr _ _ _ (by simp [Log.append, Log.modify, lastEq]) all

theorem yield_final (log : Log) (contents : Contents) (gsn client : Nat) (rep : Represents log contents) :
    Final log (log.yield zeroed gsn client) := by
  obtain ⟨grown, room⟩ := grow_represents log contents rep
  exact final_trans _ _ _ (grow_final log zeroed) (append_final (log.grow zeroed) contents gsn client grown room)

theorem yield_represents (log : Log) (contents : Contents) (gsn client : Nat) (rep : Represents log contents) :
    Represents (log.yield zeroed gsn client) (contents.extend [(gsn, client)]) := by
  obtain ⟨grown, room⟩ := grow_represents log contents rep
  exact append_represents (log.grow zeroed) contents gsn client grown room

end ZipLog.Storage
