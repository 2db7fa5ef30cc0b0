import ZipLog.Subscriber.Log
import Mathlib.Data.List.Basic

set_option autoImplicit false

namespace ZipLog.Subscriber

-- The live blocks hold exactly what has been inserted, each GSN in its place.
structure Holds (log : Log) (inserted : List SubscriberLogEntry) : Prop where
  sizes : log.blocks.length = log.numBlocks
  cells : ∀ (block : Nat) cells, log.blocks[block]? = some (some cells) → ∀ slot, slot < numEntriesPerBlock →
    cells slot = inserted.find? (fun entry => entry.gsn == block * numEntriesPerBlock + slot)
  bounded : ∀ entry ∈ inserted, entry.gsn / numEntriesPerBlock < log.numBlocks

theorem init_holds (numIterators : Nat) : Holds (Log.init numIterators) [] := by
  refine ⟨rfl, ?_, fun entry member => by cases member⟩
  intro block cells found slot _
  have blank : ∀ cell ∈ (Log.init numIterators).blocks, cell = some zeroed := by simp [Log.init]
  have same := Option.some.inj (blank _ (List.mem_of_getElem? found))
  rw [same]
  rfl

theorem recycle_holds (log : Log) (inserted : List SubscriberLogEntry) (holds : Holds log inserted) :
    Holds log.recycleBlocks inserted := by
  unfold Log.recycleBlocks
  split
  · refine ⟨?_, ?_, ?_⟩
    · simp [holds.sizes]
    · intro block cells found slot bound
      rcases Nat.lt_or_ge block log.blocks.length with old | new
      · rw [List.getElem?_append_left (by simpa using old)] at found
        by_cases recycled : log.block = block
        · subst recycled
          rw [List.getElem?_set_self old] at found
          cases found
        · rw [List.getElem?_set_ne recycled] at found
          exact holds.cells block cells found slot bound
      · rw [List.getElem?_append_right (by simpa using new)] at found
        have blank : zeroed = cells := by
          have member := List.mem_of_getElem? found
          exact (Option.some.inj (List.mem_singleton.mp member)).symm
        have absent : inserted.find? (fun entry => entry.gsn == block * numEntriesPerBlock + slot) = none := by
          apply List.find?_eq_none.mpr
          intro entry member same
          have least := holds.bounded entry member
          have equal : entry.gsn = block * numEntriesPerBlock + slot := by simpa using same
          rw [equal, Nat.mul_comm, Nat.mul_add_div entries_per_block_pos, Nat.div_eq_of_lt bound, ← holds.sizes] at least
          omega
        rw [← blank, absent]
        rfl
    · intro entry member
      exact Nat.lt_succ_of_lt (holds.bounded entry member)
  · exact holds

theorem counters_hold (log : Log) (inserted : List SubscriberLogEntry) (counters : List Nat) (holds : Holds log inserted) :
    Holds { log with counters := counters } inserted := ⟨holds.sizes, holds.cells, holds.bounded⟩

-- A position stands on the block of the last GSN it has inserted.
structure Placed (log : Log) (position : Position) (last : Option Nat) : Prop where
  node : position.iterator = position.blockIndex
  cached : position.currentBlocks ≤ log.numBlocks
  block : position.blockIndex = (last.map (· / numEntriesPerBlock)).getD 0

theorem init_placed (log : Log) : Placed log Position.init none := ⟨rfl, Nat.zero_le _, rfl⟩

def above (last : Option Nat) (gsn : Nat) : Prop := ∀ before, last = some before → before < gsn

instance (last : Option Nat) (gsn : Nat) : Decidable (above last gsn) :=
  decidable_of_iff (last.all (fun before => before < gsn)) (by cases last <;> simp [above])

-- GSN g goes to block g / NUM_ENTRIES_PER_BLOCK.
theorem seek_place (log : Log) (position : Position) (last : Option Nat) (gsn : Nat) (placed : Placed log position last)
    (later : above last gsn) :
    (position.seek log gsn).iterator = gsn / numEntriesPerBlock ∧ (position.seek log gsn).blockIndex = gsn / numEntriesPerBlock := by
  have least : position.blockIndex ≤ gsn / numEntriesPerBlock := by
    rw [placed.block]
    cases last with
    | none => exact Nat.zero_le _
    | some before => exact Nat.div_le_div_right (Nat.le_of_lt (later before rfl))
  simp only [Position.seek, placed.node]
  omega

theorem insert_load (log next : Log) (position moved : Position) (last : Option Nat) (entry : SubscriberLogEntry)
    (placed : Placed log position last) (later : above last entry.gsn) (ran : position.insert log entry = some (next, moved)) :
    next.load (entry.gsn / numEntriesPerBlock) (entry.gsn % numEntriesPerBlock) = some (some entry) := by
  obtain ⟨node, _⟩ := seek_place log position last entry.gsn placed later
  simp only [Position.insert, Log.store, node] at ran
  split at ran
  · cases ran
  · rename_i stored
    split at stored
    · cases stored
    · rename_i cells present
      cases stored
      cases ran
      obtain ⟨inside, _⟩ := List.getElem?_eq_some_iff.mp (Option.join_eq_some_iff.mp present)
      simp [Log.load, List.getElem?_set_self inside]

theorem insert_holds (log next : Log) (inserted : List SubscriberLogEntry) (position moved : Position) (last : Option Nat)
    (entry : SubscriberLogEntry) (holds : Holds log inserted) (placed : Placed log position last) (later : above last entry.gsn)
    (fresh : ∀ other ∈ inserted, other.gsn ≠ entry.gsn) (ready : position.ready log entry.gsn)
    (ran : position.insert log entry = some (next, moved)) :
    Holds next (inserted ++ [entry]) ∧ Placed next moved (some entry.gsn) ∧ next.numBlocks = log.numBlocks ∧
      next.counters = log.counters := by
  obtain ⟨node, index⟩ := seek_place log position last entry.gsn placed later
  have exists_block : entry.gsn / numEntriesPerBlock < log.numBlocks := by
    have cached := placed.cached
    cases ready with
    | inl old => omega
    | inr new => exact new
  simp only [Position.insert, Log.store, node] at ran
  split at ran
  · cases ran
  · rename_i stored
    split at stored
    · cases stored
    · rename_i cells present
      cases stored
      cases ran
      have inside : entry.gsn / numEntriesPerBlock < log.blocks.length := holds.sizes.symm ▸ exists_block
      have found := Option.join_eq_some_iff.mp present
      have split_gsn := Nat.div_add_mod' entry.gsn numEntriesPerBlock
      refine ⟨⟨?_, ?_, ?_⟩, ⟨node.trans index.symm, ?_, index⟩, rfl, rfl⟩
      · simpa using holds.sizes
      · intro block others access slot bound
        rw [List.find?_append]
        by_cases here : entry.gsn / numEntriesPerBlock = block
        · subst here
          simp only [List.getElem?_set_self inside, Option.some.injEq] at access
          have old := holds.cells _ cells found slot bound
          rw [← access]
          by_cases same : slot = entry.gsn % numEntriesPerBlock
          · subst same
            have absent : inserted.find? (fun other => other.gsn == entry.gsn) = none := by
              apply List.find?_eq_none.mpr
              intro other member equal
              exact fresh other member (by simpa using equal)
            rw [Function.update_self, split_gsn, absent]
            simp
          · have elsewhere : ¬ entry.gsn = entry.gsn / numEntriesPerBlock * numEntriesPerBlock + slot := by omega
            rw [Function.update_of_ne same, old]
            simp [elsewhere]
        · simp only [List.getElem?_set_ne here] at access
          have elsewhere : ¬ entry.gsn = block * numEntriesPerBlock + slot := by
            intro equal
            apply here
            rw [equal, Nat.mul_comm, Nat.mul_add_div entries_per_block_pos, Nat.div_eq_of_lt bound, Nat.add_zero]
          rw [holds.cells block others access slot bound]
          simp [elsewhere]
      · intro other member
        cases List.mem_append.mp member with
        | inl old => exact holds.bounded other old
        | inr new => rw [List.mem_singleton.mp new]; exact exists_block
      · have cached := placed.cached
        simp only [Position.seek]
        split
        · exact Nat.le_refl _
        · exact cached

theorem placed_grow (log next : Log) (position : Position) (last : Option Nat) (more : log.numBlocks ≤ next.numBlocks)
    (placed : Placed log position last) : Placed next position last :=
  ⟨placed.node, Nat.le_trans placed.cached more, placed.block⟩

theorem recycle_grows (log : Log) : log.numBlocks ≤ log.recycleBlocks.numBlocks := by
  unfold Log.recycleBlocks
  split
  · exact Nat.le_succ _
  · exact Nat.le_refl _

theorem next_entry_log (log after : Log) (it moved : Iterator) (found : Option SubscriberLogEntry)
    (ran : it.nextEntry log = some (after, moved, found)) : ∃ counters, after = { log with counters := counters } := by
  have checked : ∀ (start : Log) (at_entry : Iterator) (place : Nat × Nat), at_entry.check start place = some (after, moved, found) →
      after = start := by
    intro start at_entry place checked
    unfold Iterator.check at checked
    split at checked
    · cases checked
    · cases checked
      rfl
    · cases checked
      rfl
  unfold Iterator.nextEntry at ran
  split at ran
  · exact ⟨log.counters, checked _ _ _ ran⟩
  · split at ran
    · cases ran
      exact ⟨log.counters, rfl⟩
    · exact ⟨_, checked _ _ _ ran⟩

-- What a live block holds has been inserted, in its place. Unlike Holds this
-- does not need each GSN to be inserted once.
structure Sound (log : Log) (inserted : List SubscriberLogEntry) : Prop where
  sizes : log.blocks.length = log.numBlocks
  cells : ∀ (block : Nat) cells, log.blocks[block]? = some (some cells) → ∀ slot entry, slot < numEntriesPerBlock →
    cells slot = some entry → entry ∈ inserted ∧ entry.gsn = block * numEntriesPerBlock + slot

theorem holds_sound (log : Log) (inserted : List SubscriberLogEntry) (holds : Holds log inserted) : Sound log inserted := by
  refine ⟨holds.sizes, ?_⟩
  intro block cells found slot entry bound value
  have first := holds.cells block cells found slot bound
  rw [value] at first
  exact ⟨List.mem_of_find?_eq_some first.symm, by simpa using List.find?_some first.symm⟩

theorem init_sound (numIterators : Nat) : Sound (Log.init numIterators) [] := by
  refine ⟨rfl, ?_⟩
  intro block cells found slot entry _ value
  have blank : ∀ cell ∈ (Log.init numIterators).blocks, cell = some zeroed := by simp [Log.init]
  have same := Option.some.inj (blank _ (List.mem_of_getElem? found))
  rw [same] at value
  cases value

theorem recycle_sound (log : Log) (inserted : List SubscriberLogEntry) (sound : Sound log inserted) : Sound log.recycleBlocks inserted := by
  unfold Log.recycleBlocks
  split
  · refine ⟨by simp [sound.sizes], ?_⟩
    intro block cells found slot entry bound value
    rcases Nat.lt_or_ge block log.blocks.length with old | new
    · rw [List.getElem?_append_left (by simpa using old)] at found
      by_cases recycled : log.block = block
      · subst recycled
        rw [List.getElem?_set_self old] at found
        cases found
      · rw [List.getElem?_set_ne recycled] at found
        exact sound.cells block cells found slot entry bound value
    · rw [List.getElem?_append_right (by simpa using new)] at found
      have blank := Option.some.inj (List.mem_singleton.mp (List.mem_of_getElem? found))
      rw [blank] at value
      cases value
  · exact sound

theorem counters_sound (log : Log) (inserted : List SubscriberLogEntry) (counters : List Nat) (sound : Sound log inserted) :
    Sound { log with counters := counters } inserted := ⟨sound.sizes, sound.cells⟩

theorem next_entry_sound (log after : Log) (inserted : List SubscriberLogEntry) (it moved : Iterator) (found : Option SubscriberLogEntry)
    (sound : Sound log inserted) (ran : it.nextEntry log = some (after, moved, found)) : Sound after inserted := by
  obtain ⟨counters, same⟩ := next_entry_log log after it moved found ran
  rw [same]
  exact counters_sound log inserted counters sound

theorem load_sound (log : Log) (inserted : List SubscriberLogEntry) (block slot : Nat) (entry : SubscriberLogEntry)
    (sound : Sound log inserted) (bound : slot < numEntriesPerBlock) (loaded : log.load block slot = some (some entry)) :
    entry ∈ inserted ∧ entry.gsn = block * numEntriesPerBlock + slot := by
  obtain ⟨cells, present, value⟩ := Option.map_eq_some_iff.mp loaded
  exact sound.cells block cells (Option.join_eq_some_iff.mp present) slot entry bound value

theorem insert_sound (log next : Log) (inserted : List SubscriberLogEntry) (position moved : Position) (last : Option Nat)
    (entry : SubscriberLogEntry) (sound : Sound log inserted) (placed : Placed log position last) (later : above last entry.gsn)
    (ran : position.insert log entry = some (next, moved)) :
    Sound next (inserted ++ [entry]) ∧ Placed next moved (some entry.gsn) ∧ next.numBlocks = log.numBlocks := by
  obtain ⟨node, index⟩ := seek_place log position last entry.gsn placed later
  simp only [Position.insert, Log.store, node] at ran
  split at ran
  · cases ran
  · rename_i stored
    split at stored
    · cases stored
    · rename_i cells present
      cases stored
      cases ran
      have found := Option.join_eq_some_iff.mp present
      have inside := (List.getElem?_eq_some_iff.mp found).1
      refine ⟨⟨by simpa using sound.sizes, ?_⟩, ⟨node.trans index.symm, ?_, index⟩, rfl⟩
      · intro block others access slot other bound value
        by_cases here : entry.gsn / numEntriesPerBlock = block
        · subst here
          simp only [List.getElem?_set_self inside, Option.some.injEq] at access
          rw [← access] at value
          by_cases same : slot = entry.gsn % numEntriesPerBlock
          · subst same
            rw [Function.update_self] at value
            rw [← Option.some.inj value]
            exact ⟨by simp, (Nat.div_add_mod' entry.gsn numEntriesPerBlock).symm⟩
          · rw [Function.update_of_ne same] at value
            obtain ⟨member, gsn⟩ := sound.cells _ cells found slot other bound value
            exact ⟨List.mem_append_left _ member, gsn⟩
        · simp only [List.getElem?_set_ne here] at access
          obtain ⟨member, gsn⟩ := sound.cells block others access slot other bound value
          exact ⟨List.mem_append_left _ member, gsn⟩
      · have cached := placed.cached
        simp only [Position.seek]
        split
        · exact Nat.le_refl _
        · exact cached

end ZipLog.Subscriber
