import ZipLog.Lib.Quorum
import ZipLog.Subscriber.Process

set_option autoImplicit false

namespace ZipLog.Subscriber

-- The log with its pages: a node of blocks_ points to a page or is null, and
-- recycle_blocks moves the pointer of the first live node to a new node.
structure Paged where
  pages : Nat → Block
  blocks : List (Option Nat)
  counters : List Nat
  block : Nat
  counter : Nat
  numBlocks : Nat
  numIterators : Nat

def Paged.init (numIterators : Nat) : Paged := ⟨fun _ => zeroed, [some 0, some 1], [0, 0], 0, 0, 2, numIterators⟩

-- Each node with the contents of its page.
def Paged.view (log : Paged) : Log :=
  ⟨log.blocks.map (fun node => node.map log.pages), log.counters, log.block, log.counter, log.numBlocks, log.numIterators⟩

-- The result of these is none for a null pointer or a list end.
def Paged.recycleBlocks (log : Paged) : Option Paged :=
  match log.counters[log.counter]? with
  | none => none
  | some passed =>
      if passed = log.numIterators then
        match log.blocks[log.block]?.join with
        | none => none
        | some page => some { log with
            pages := Function.update log.pages page zeroed
            blocks := log.blocks.set log.block none ++ [some page]
            counters := log.counters ++ [0]
            numBlocks := log.numBlocks + 1
            counter := log.counter + 1
            block := log.block + 1 }
      else some log

def Paged.store (log : Paged) (block slot : Nat) (entry : SubscriberLogEntry) : Option Paged :=
  match log.blocks[block]?.join with
  | none => none
  | some page => some { log with
      pages := Function.update log.pages page (Function.update (log.pages page) slot (some entry)) }

def Paged.insert (log : Paged) (position : Position) (entry : SubscriberLogEntry) : Option (Paged × Position) :=
  let position := position.seek log.view entry.gsn
  match log.store position.iterator (entry.gsn % numEntriesPerBlock) entry with
  | none => none
  | some log => some (log, position)

-- next_entry writes nothing but counters.
def Paged.nextEntry (log : Paged) (it : Iterator) : Option (Paged × Iterator × Option SubscriberLogEntry) :=
  match it.nextEntry log.view with
  | none => none
  | some (after, it, found) => some ({ log with counters := after.counters }, it, found)

structure Live (log : Paged) (recycled first second : Nat) : Prop where
  different : first ≠ second
  blocks : log.blocks = List.replicate recycled none ++ [some first, some second]
  block : log.block = recycled
  counter : log.counter = recycled
  numBlocks : log.numBlocks = recycled + 2
  counters : log.counters.length = recycled + 2

theorem init_live (numIterators : Nat) : Live (Paged.init numIterators) 0 0 1 := ⟨by decide, rfl, rfl, rfl, rfl, rfl⟩

theorem live_first (log : Paged) (recycled first second : Nat) (live : Live log recycled first second) :
    log.blocks[recycled]? = some (some first) := by
  rw [live.blocks, List.getElem?_append_right (by simp)]
  simp

theorem live_second (log : Paged) (recycled first second : Nat) (live : Live log recycled first second) :
    log.blocks[recycled + 1]? = some (some second) := by
  rw [live.blocks, List.getElem?_append_right (by simp)]
  simp

theorem live_page (log : Paged) (recycled first second block : Nat) (live : Live log recycled first second) (old : recycled ≤ block)
    (new : block < recycled + 2) : ∃ page, log.blocks[block]? = some (some page) := by
  cases Nat.eq_or_lt_of_le old with
  | inl same =>
      rw [← same]
      exact ⟨first, live_first log recycled first second live⟩
  | inr later =>
      have same : block = recycled + 1 := by omega
      rw [same]
      exact ⟨second, live_second log recycled first second live⟩

theorem live_view (log : Paged) (recycled first second : Nat) (live : Live log recycled first second) :
    log.view.blocks = List.replicate recycled none ++ [some (log.pages first), some (log.pages second)] := by
  rw [Paged.view, live.blocks, List.map_append, List.map_replicate]
  rfl

-- The pointer of the first live node goes to the back.
theorem set_first {α : Type} (count : Nat) (first second last : Option α) :
    (List.replicate count none ++ [first, second]).set count none ++ [last] = List.replicate (count + 1) none ++ [second, last] := by
  rw [List.set_append_right _ _ (by simp), List.length_replicate, Nat.sub_self, List.set_cons_zero, List.replicate_succ',
    List.append_assoc, List.append_assoc]
  rfl

theorem recycle_live (log : Paged) (recycled first second : Nat) (live : Live log recycled first second)
    (passed : log.counters[recycled]? = some log.numIterators) : ∃ next, log.recycleBlocks = some next ∧
      Live next (recycled + 1) second first ∧ next.view = log.view.recycleBlocks ∧ next.counters = log.counters ++ [0] ∧
      next.numIterators = log.numIterators := by
  have same : log.view.counters[log.view.counter]? = some log.view.numIterators := by
    change log.counters[log.counter]? = some log.numIterators
    rw [live.counter, passed]
  unfold Paged.recycleBlocks Log.recycleBlocks
  rw [if_pos same, live_view log recycled first second live, live.counter, passed]
  dsimp only
  rw [if_pos rfl, live.block, live_first log recycled first second live]
  have moved : log.blocks.set recycled none ++ [some first] = List.replicate (recycled + 1) none ++ [some second, some first] := by
    rw [live.blocks, set_first]
  refine ⟨_, rfl, ⟨live.different.symm, moved, rfl, rfl, ?_, ?_⟩, ?_, rfl, rfl⟩
  · dsimp only
    rw [live.numBlocks]
  · dsimp only
    rw [List.length_append, live.counters]
    rfl
  · simp only [Paged.view, live.block, live.counter, moved, set_first, Log.mk.injEq, and_true]
    simp [Function.update_of_ne live.different.symm]

theorem store_live (log : Paged) (recycled first second block slot : Nat) (entry : SubscriberLogEntry)
    (live : Live log recycled first second) (old : recycled ≤ block) (new : block < recycled + 2) :
    ∃ next, log.store block slot entry = some next ∧ log.view.store block slot entry = some next.view ∧
      Live next recycled first second ∧ next.counters = log.counters ∧ next.numIterators = log.numIterators := by
  obtain ⟨page, found⟩ := live_page log recycled first second block live old new
  have shown : log.view.blocks[block]? = some (some (log.pages page)) := by
    rw [Paged.view, List.getElem?_map, found]
    rfl
  unfold Paged.store Log.store
  rw [found, shown]
  have after : Live { log with pages := Function.update log.pages page (Function.update (log.pages page) slot (some entry)) }
      recycled first second := ⟨live.different, live.blocks, live.block, live.counter, live.numBlocks, live.counters⟩
  refine ⟨_, rfl, ?_, after, rfl, rfl⟩
  have written : log.view.blocks.set block (some (Function.update (log.pages page) slot (some entry))) =
      (Paged.view { log with pages := Function.update log.pages page (Function.update (log.pages page) slot (some entry)) }).blocks := by
    rw [live_view _ recycled first second after, live_view log recycled first second live, List.set_append_right _ _ (by simpa using old),
      List.length_replicate]
    cases Nat.eq_or_lt_of_le old with
    | inl same =>
        subst same
        rw [live_first log recycled first second live] at found
        cases found
        dsimp only
        rw [Nat.sub_self, List.set_cons_zero, Function.update_self, Function.update_of_ne live.different.symm]
    | inr later =>
        have same : block = recycled + 1 := by omega
        subst same
        rw [live_second log recycled first second live] at found
        cases found
        dsimp only
        rw [Nat.add_sub_cancel_left, List.set_cons_succ, List.set_cons_zero, Function.update_self, Function.update_of_ne live.different]
  dsimp only [Option.join_some]
  rw [written]
  rfl

-- counter b after a walk over some blocks.
theorem count_passed_get (counters : List Nat) (first turns block : Nat) : (countPassed counters first turns)[block]? =
    counters[block]?.map (fun count => count + if first ≤ block ∧ block < first + turns then 1 else 0) := by
  induction turns generalizing counters first with
  | zero =>
      rw [countPassed, if_neg (by omega)]
      simp
  | succ turns ih =>
      rw [countPassed, ih, List.getElem?_modify]
      cases counters[block]? with
      | none => rfl
      | some count =>
          by_cases here : first = block
          · have passed : ¬ (first + 1 ≤ block ∧ block < first + 1 + turns) := by omega
            have counted : first ≤ block ∧ block < first + (turns + 1) := by omega
            simp only [Option.map_some, if_pos here, if_neg passed, if_pos counted, Nat.add_zero]
            rfl
          · have shifted : (first + 1 ≤ block ∧ block < first + 1 + turns) ↔ (first ≤ block ∧ block < first + (turns + 1)) := by omega
            simp only [if_neg here, shifted, Option.map_some]
            rfl

theorem count_passed_length (counters : List Nat) (first turns : Nat) : (countPassed counters first turns).length = counters.length := by
  induction turns generalizing counters first with
  | zero => rfl
  | succ turns ih => rw [countPassed, ih, List.length_modify]

-- An insert finds its block where this is not a recycled one.
theorem insert_live (log : Paged) (recycled first second : Nat) (position : Position) (last : Option Nat) (entry : SubscriberLogEntry)
    (live : Live log recycled first second) (placed : Placed log.view position last) (later : above last entry.gsn)
    (ready : position.ready log.view entry.gsn) (old : recycled ≤ entry.gsn / numEntriesPerBlock) :
    ∃ next moved, log.insert position entry = some (next, moved) ∧ position.insert log.view entry = some (next.view, moved) ∧
      Live next recycled first second ∧ next.counters = log.counters ∧ next.numIterators = log.numIterators := by
  obtain ⟨node, -⟩ := seek_place log.view position last entry.gsn placed later
  have new : entry.gsn / numEntriesPerBlock < recycled + 2 := by
    rw [← live.numBlocks]
    cases ready with
    | inl before => exact Nat.lt_of_lt_of_le before placed.cached
    | inr now => exact now
  obtain ⟨next, stored, viewed, after, counters, size⟩ := store_live log recycled first second _ (entry.gsn % numEntriesPerBlock) entry
    live old new
  refine ⟨next, position.seek log.view entry.gsn, ?_, ?_, after, counters, size⟩
  · unfold Paged.insert
    dsimp only
    rw [node, stored]
  · unfold Position.insert
    dsimp only
    rw [node, viewed]

-- standing is the block of each iterator: all have left the recycled blocks, and the
-- counter of a block says how many have left it.
structure Tracked (threads : Nat) (log : Paged) (standing : Nat → Nat) (recycled first second : Nat) : Prop where
  live : Live log recycled first second
  size : log.numIterators = threads
  inside : ∀ thread, thread < threads → standing thread < recycled + 2
  ahead : ∀ thread, thread < threads → recycled ≤ standing thread
  counts : ∀ block, block < recycled + 2 → log.counters[block]? = some (Quorum.count (List.range threads) standing block)

theorem init_tracked (threads : Nat) : Tracked threads (Paged.init threads) (fun _ => 0) 0 0 1 := by
  refine ⟨init_live threads, rfl, fun _ _ => Nat.succ_pos 1, fun _ _ => Nat.zero_le _, ?_⟩
  intro block less
  rw [Quorum.count_none]
  match block, less with
  | 0, _ => rfl
  | 1, _ => rfl

theorem walk_tracked (threads : Nat) (log : Paged) (standing : Nat → Nat) (recycled first second thread moved : Nat)
    (tracked : Tracked threads log standing recycled first second) (mine : thread < threads) (more : standing thread ≤ moved)
    (inside : moved < recycled + 2) :
    Tracked threads { log with counters := countPassed log.counters (standing thread) (moved - standing thread) }
      (Function.update standing thread moved) recycled first second := by
  have live := tracked.live
  refine ⟨⟨live.different, live.blocks, live.block, live.counter, live.numBlocks, ?_⟩, tracked.size, ?_, ?_, ?_⟩
  · dsimp only
    rw [count_passed_length]
    exact live.counters
  · intro other less
    by_cases same : other = thread
    · rw [same, Function.update_self]
      exact inside
    · rw [Function.update_of_ne same]
      exact tracked.inside other less
  · intro other less
    by_cases same : other = thread
    · rw [same, Function.update_self]
      exact Nat.le_trans (tracked.ahead thread mine) more
    · rw [Function.update_of_ne same]
      exact tracked.ahead other less
  · intro block less
    dsimp only
    rw [Quorum.count_raise (List.range threads) standing thread moved block List.nodup_range (List.mem_range.mpr mine) more,
      count_passed_get, tracked.counts block less, Option.map_some, Nat.add_sub_cancel' more]

theorem store_tracked (threads : Nat) (log next : Paged) (standing : Nat → Nat) (recycled first second : Nat)
    (tracked : Tracked threads log standing recycled first second) (live : Live next recycled first second)
    (counters : next.counters = log.counters) (size : next.numIterators = log.numIterators) :
    Tracked threads next standing recycled first second :=
  ⟨live, size.trans tracked.size, tracked.inside, tracked.ahead, fun block less => counters ▸ tracked.counts block less⟩

theorem tracked_full (threads : Nat) (log : Paged) (standing : Nat → Nat) (recycled first second : Nat)
    (tracked : Tracked threads log standing recycled first second) (passed : log.counters[recycled]? = some threads) (thread : Nat)
    (mine : thread < threads) : recycled < standing thread := by
  have full := Option.some.inj ((tracked.counts recycled (by omega)).symm.trans passed)
  exact Quorum.count_all (List.range threads) standing recycled (by rw [full, List.length_range]) thread (List.mem_range.mpr mine)

-- recycle_blocks zeroes the first live block once all iterators have left it, and
-- does nothing before.
theorem recycle_tracked (threads : Nat) (log : Paged) (standing : Nat → Nat) (recycled first second : Nat)
    (tracked : Tracked threads log standing recycled first second) :
    log.recycleBlocks = some log ∨ ∃ next, log.recycleBlocks = some next ∧ next.view = log.view.recycleBlocks ∧
      Tracked threads next standing (recycled + 1) second first := by
  have there := tracked.counts recycled (by omega)
  by_cases passed : log.counters[recycled]? = some log.numIterators
  · right
    obtain ⟨next, ran, live, viewed, counters, size⟩ := recycle_live log recycled first second tracked.live passed
    refine ⟨next, ran, viewed, live, size.trans tracked.size, fun thread mine => Nat.lt_succ_of_lt (tracked.inside thread mine), ?_, ?_⟩
    · rw [tracked.size] at passed
      exact tracked_full threads log standing recycled first second tracked passed
    · intro block less
      have length := tracked.live.counters
      rw [counters]
      cases Nat.lt_or_eq_of_le (Nat.le_of_lt_succ less) with
      | inl old =>
          rw [List.getElem?_append_left (by rw [length]; exact old)]
          exact tracked.counts block old
      | inr last =>
          have none_passed : Quorum.count (List.range threads) standing block = 0 := by
            refine Quorum.count_zero _ _ _ (fun thread member => ?_)
            have inside := tracked.inside thread (List.mem_range.mp member)
            omega
          rw [none_passed, last, List.getElem?_append_right (Nat.le_of_eq length), length, Nat.sub_self]
          rfl
  · left
    rw [there] at passed
    unfold Paged.recycleBlocks
    rw [tracked.live.counter, there]
    exact if_neg (fun same => passed (congrArg some same))

-- The positions, the iterators and the thread that recycles blocks on one log.
-- lasts holds the GSN that each position has inserted last.
structure Recycling where
  log : Paged
  positions : Nat → Position
  lasts : Nat → Option Nat
  iterators : Nat → Iterator
  inserted : List SubscriberLogEntry
  returned : Nat → List SubscriberLogEntry

def Recycling.init (threads : Nat) : Recycling :=
  ⟨Paged.init threads, fun _ => Position.init, fun _ => none, fun thread => Iterator.init thread threads 0, [], fun _ => []⟩

-- The inserts that the callers make: a GSN once, increasing per position, and
-- after the wait for its block. GSNs are so far from 2^64 that entry_index_ does
-- not wrap.
def Recycling.allowed (threads : Nat) (s : Recycling) (key : Nat) (entry : SubscriberLogEntry) : Prop :=
  entry.gsn + threads < 2 ^ 64 ∧ entry.gsn ∉ s.inserted.map SubscriberLogEntry.gsn ∧ above (s.lasts key) entry.gsn ∧
    (s.positions key).ready s.log.view entry.gsn

instance (threads : Nat) (s : Recycling) (key : Nat) (entry : SubscriberLogEntry) : Decidable (s.allowed threads key entry) :=
  inferInstanceAs (Decidable (_ ∧ _ ∧ _ ∧ _))

def Recycling.step (threads : Nat) (s : Recycling) : Turn → Option Recycling
  | .insert key entry =>
      if s.allowed threads key entry then
        match s.log.insert (s.positions key) entry with
        | none => none
        | some (log, position) => some { s with
            log := log
            positions := Function.update s.positions key position
            lasts := Function.update s.lasts key (some entry.gsn)
            inserted := s.inserted ++ [entry] }
      else none
  | .process thread =>
      if thread < threads then
        match s.log.nextEntry (s.iterators thread) with
        | none => none
        | some (log, it, found) => some { s with
            log := log
            iterators := Function.update s.iterators thread it
            returned := Function.update s.returned thread (s.returned thread ++ found.toList) }
      else none
  | .recycle =>
      match s.log.recycleBlocks with
      | none => none
      | some log => some { s with log := log }

-- An iterator that has returned count entries.
structure Walks (threads thread count numBlocks : Nat) (it : Iterator) : Prop where
  stride : it.stride = threads
  node : it.block = it.blockIndex
  tally : it.counter = it.blockIndex
  cached : it.currentBlocks ≤ numBlocks
  inside : it.blockIndex < numBlocks
  behind : it.blockIndex ≤ (thread + count * threads) / numEntriesPerBlock
  free : it.entry = none → it.entryIndex = thread + count * threads
  waits : ∀ place, it.entry = some place →
    place = ((thread + count * threads) / numEntriesPerBlock, (thread + count * threads) % numEntriesPerBlock) ∧
      it.blockIndex = (thread + count * threads) / numEntriesPerBlock ∧
      it.entryIndex = uint64 (thread + count * threads + threads)

theorem walks_later (threads thread count numBlocks more : Nat) (it : Iterator) (walks : Walks threads thread count numBlocks it)
    (grown : numBlocks ≤ more) : Walks threads thread count more it :=
  ⟨walks.stride, walks.node, walks.tally, Nat.le_trans walks.cached grown, Nat.lt_of_lt_of_le walks.inside grown, walks.behind, walks.free,
    walks.waits⟩

-- The last lines of next_entry, for an entry in a live block.
theorem check_walks (log : Log) (inserted : List SubscriberLogEntry) (holds : Holds log inserted) (threads thread count : Nat)
    (small : ∀ entry ∈ inserted, entry.gsn + threads < 2 ^ 64) (cells : Block)
    (live : log.blocks[(thread + count * threads) / numEntriesPerBlock]? = some (some cells)) (it : Iterator)
    (walks : Walks threads thread count log.numBlocks it) (held : it.entry ≠ none) :
    ∃ moved found, it.check log ((thread + count * threads) / numEntriesPerBlock, (thread + count * threads) % numEntriesPerBlock) =
        some (log, moved, found) ∧ moved.blockIndex = it.blockIndex ∧
      ((found = none ∧ Walks threads thread count log.numBlocks moved ∧ ∀ entry ∈ inserted, entry.gsn ≠ thread + count * threads) ∨
        ∃ entry, found = some entry ∧ entry ∈ inserted ∧ entry.gsn = thread + count * threads ∧
          Walks threads thread (count + 1) log.numBlocks moved) := by
  have value := holds.cells _ cells live ((thread + count * threads) % numEntriesPerBlock) (Nat.mod_lt _ entries_per_block_pos)
  rw [Nat.div_add_mod'] at value
  unfold Iterator.check Log.load
  rw [live]
  dsimp only [Option.join_some, Option.map_some]
  rw [value]
  cases search : inserted.find? (fun entry => entry.gsn == thread + count * threads) with
  | none =>
      refine ⟨it, none, rfl, rfl, Or.inl ⟨rfl, walks, ?_⟩⟩
      intro entry member same
      exact List.find?_eq_none.mp search entry member (by simpa using same)
  | some entry =>
      have member := List.mem_of_find?_eq_some search
      have gsn : entry.gsn = thread + count * threads := by simpa using List.find?_some search
      obtain ⟨place, there⟩ := Option.ne_none_iff_exists'.mp held
      obtain ⟨-, block, index⟩ := walks.waits place there
      have next : thread + (count + 1) * threads = thread + count * threads + threads := by rw [Nat.add_mul, Nat.one_mul, Nat.add_assoc]
      refine ⟨{ it with entry := none }, some entry, rfl, rfl, Or.inr ⟨entry, rfl, member, gsn,
        ⟨walks.stride, walks.node, walks.tally, walks.cached, walks.inside, ?_, ?_, ?_⟩⟩⟩
      · rw [next]
        exact Nat.le_trans walks.behind (Nat.div_le_div_right (Nat.le_add_right _ _))
      · intro _
        have bound := small entry member
        rw [gsn] at bound
        rw [next, index, uint64_of_lt bound]
      · intro other absent
        cases absent

theorem next_entry_walks (log : Log) (inserted : List SubscriberLogEntry) (holds : Holds log inserted) (recycled threads thread count : Nat)
    (blocks : log.numBlocks = recycled + 2)
    (live : ∀ block, recycled ≤ block → block < recycled + 2 → ∃ cells, log.blocks[block]? = some (some cells))
    (small : ∀ entry ∈ inserted, entry.gsn + threads < 2 ^ 64) (it : Iterator)
    (walks : Walks threads thread count log.numBlocks it) (ahead : recycled ≤ it.blockIndex) :
    ∃ moved found, it.nextEntry log =
        some ({ log with counters := countPassed log.counters it.blockIndex (moved.blockIndex - it.blockIndex) }, moved, found) ∧
      it.blockIndex ≤ moved.blockIndex ∧
      ((found = none ∧ Walks threads thread count log.numBlocks moved ∧ ∀ entry ∈ inserted, entry.gsn ≠ thread + count * threads) ∨
        ∃ entry, found = some entry ∧ entry ∈ inserted ∧ entry.gsn = thread + count * threads ∧
          Walks threads thread (count + 1) log.numBlocks moved) := by
  unfold Iterator.nextEntry
  cases held : it.entry with
  | some place =>
      obtain ⟨rfl, block, index⟩ := walks.waits place held
      obtain ⟨cells, found⟩ := live _ (block ▸ ahead) (by rw [← block, ← blocks]; exact walks.inside)
      obtain ⟨moved, result, ran, same, outcome⟩ := check_walks log inserted holds threads thread count small cells found it walks
        (by rw [held]; exact Option.some_ne_none _)
      refine ⟨moved, result, ?_, Nat.le_of_eq same.symm, outcome⟩
      rw [same, Nat.sub_self, countPassed]
      exact ran
  | none =>
      have index := walks.free held
      dsimp only
      by_cases absent : it.entryIndex / numEntriesPerBlock ≥ it.currentBlocks ∧ it.entryIndex / numEntriesPerBlock ≥ log.numBlocks
      · rw [if_pos absent]
        refine ⟨{ it with currentBlocks := log.numBlocks }, none, ?_, Nat.le_refl _, Or.inl ⟨rfl, ⟨walks.stride, walks.node, walks.tally, Nat.le_refl _, walks.inside,
          walks.behind, walks.free, walks.waits⟩, ?_⟩⟩
        · rw [Nat.sub_self, countPassed, held]
        · intro entry member same
          have bound := holds.bounded entry member
          rw [same, ← index] at bound
          omega
      · rw [if_neg absent]
        have turns : it.blockIndex + it.turns = (thread + count * threads) / numEntriesPerBlock := by
          have behind := walks.behind
          rw [Iterator.turns, index]
          omega
        have place : it.place = ((thread + count * threads) / numEntriesPerBlock, (thread + count * threads) % numEntriesPerBlock) := by
          rw [Iterator.place, walks.node, turns, index]
        have below : (thread + count * threads) / numEntriesPerBlock < log.numBlocks := by
          have cached := walks.cached
          rw [index] at absent
          omega
        obtain ⟨cells, found⟩ := live _ (Nat.le_trans ahead walks.behind) (by rw [← blocks]; exact below)
        have stands : Walks threads thread count log.numBlocks (it.advance log).2 := by
          refine ⟨walks.stride, ?_, ?_, ?_, ?_, ?_, ?_, ?_⟩
          · simp only [Iterator.advance, walks.node]
          · simp only [Iterator.advance, walks.tally]
          · simp only [Iterator.advance]
            split
            · exact Nat.le_refl _
            · exact walks.cached
          · simp only [Iterator.advance, turns]
            exact below
          · simp only [Iterator.advance, turns]
            exact Nat.le_refl _
          · intro nothing
            cases nothing
          · intro other same
            cases same
            simp only [Iterator.advance, turns, index, walks.stride]
            exact ⟨place, trivial, trivial⟩
        obtain ⟨moved, result, ran, same, outcome⟩ := check_walks (it.advance log).1 inserted
          (counters_hold log inserted _ holds) threads thread count small cells found (it.advance log).2 stands
          (by simp only [Iterator.advance]; exact Option.some_ne_none _)
        have walked : (it.advance log).2.blockIndex = it.blockIndex + it.turns := rfl
        refine ⟨moved, result, ?_, ?_, outcome⟩
        · rw [place, ran, same, walked, Nat.add_sub_cancel_left]
          simp only [Iterator.advance, walks.tally]
        · rw [same, walked]
          exact Nat.le_add_right _ _

-- What carries the proof. counts says how the counters tell which iterators have
-- left a block, ahead that all have left the recycled ones.
structure Recycling.Inv (threads : Nat) (s : Recycling) (recycled first second : Nat) : Prop where
  live : Live s.log recycled first second
  size : s.log.numIterators = threads
  holds : Holds s.log.view s.inserted
  small : ∀ entry ∈ s.inserted, entry.gsn + threads < 2 ^ 64
  once : (s.inserted.map SubscriberLogEntry.gsn).Nodup
  placed : ∀ key, Placed s.log.view (s.positions key) (s.lasts key)
  walks : ∀ thread, thread < threads → Walks threads thread (s.returned thread).length (recycled + 2) (s.iterators thread)
  ahead : ∀ thread, thread < threads → recycled ≤ (s.iterators thread).blockIndex
  counts : ∀ block, block < recycled + 2 →
    s.log.counters[block]? = some (Quorum.count (List.range threads) (fun thread => (s.iterators thread).blockIndex) block)
  order : ∀ thread, thread < threads → ∀ (rank : Nat) entry, (s.returned thread)[rank]? = some entry →
    entry.gsn = thread + rank * threads ∧ entry ∈ s.inserted

theorem recycling_init (threads : Nat) : (Recycling.init threads).Inv threads 0 0 1 := by
  refine ⟨init_live threads, rfl, init_holds threads, ?_, List.nodup_nil, fun _ => init_placed _, ?_, fun _ _ => Nat.zero_le _, ?_, ?_⟩
  · intro entry member
    cases member
  · intro thread _
    refine ⟨rfl, rfl, rfl, Nat.zero_le _, Nat.succ_pos 1, Nat.zero_le _, ?_, ?_⟩
    · intro _
      simp [Recycling.init, Iterator.init]
    · intro place absent
      cases absent
  · intro block less
    have none_passed : Quorum.count (List.range threads) (fun thread => ((Recycling.init threads).iterators thread).blockIndex) block = 0 :=
      Quorum.count_none _ _
    rw [none_passed]
    match block, less with
    | 0, _ => rfl
    | 1, _ => rfl
  · intro thread _ rank entry access
    cases access

section

variable (threads : Nat) (s : Recycling) (recycled first second : Nat) (inv : s.Inv threads recycled first second)

include inv

theorem recycling_tracked : Tracked threads s.log (fun thread => (s.iterators thread).blockIndex) recycled first second :=
  ⟨inv.live, inv.size, fun thread mine => (inv.walks thread mine).inside, inv.ahead, inv.counts⟩

theorem live_blocks (block : Nat) (old : recycled ≤ block) (new : block < recycled + 2) :
    ∃ cells, s.log.view.blocks[block]? = some (some cells) := by
  obtain ⟨page, found⟩ := live_page s.log recycled first second block inv.live old new
  exact ⟨s.log.pages page, by rw [Paged.view, List.getElem?_map, found]; rfl⟩

-- An iterator that has left a block has returned its entries in it.
theorem left_returned (thread gsn : Nat) (mine : gsn % threads = thread) (some_thread : thread < threads)
    (left : gsn / numEntriesPerBlock < (s.iterators thread).blockIndex) : ∃ entry ∈ s.returned thread, entry.gsn = gsn := by
  have walks := inv.walks thread some_thread
  have whole : thread + gsn / threads * threads = gsn := by
    rw [← mine, Nat.mul_comm]
    exact Nat.mod_add_div gsn threads
  have below : gsn < thread + (s.returned thread).length * threads := by
    by_contra beyond
    have blocks := Nat.div_le_div_right (c := numEntriesPerBlock) (Nat.le_of_not_lt beyond)
    have behind := walks.behind
    omega
  have rank : gsn / threads < (s.returned thread).length := by
    rw [← whole] at below
    exact Nat.lt_of_mul_lt_mul_right (Nat.lt_of_add_lt_add_left below)
  have access := List.getElem?_eq_getElem rank
  have value := (inv.order thread some_thread _ _ access).1
  exact ⟨_, List.mem_of_getElem? access, value.trans whole⟩

-- A GSN that is still to be inserted does not belong to a recycled block.
theorem fresh_block (positive : 0 < threads) (gsn : Nat) (fresh : gsn ∉ s.inserted.map SubscriberLogEntry.gsn) :
    recycled ≤ gsn / numEntriesPerBlock := by
  by_contra old
  have mine := Nat.mod_lt gsn positive
  obtain ⟨entry, member, same⟩ := left_returned threads s recycled first second inv (gsn % threads) gsn rfl mine
    (Nat.lt_of_lt_of_le (Nat.lt_of_not_le old) (inv.ahead _ mine))
  obtain ⟨rank, access⟩ := List.mem_iff_getElem?.mp member
  exact fresh (same ▸ List.mem_map_of_mem (inv.order _ mine rank entry access).2)

-- An insert finds its block.
theorem insert_safe (positive : 0 < threads) (key : Nat) (entry : SubscriberLogEntry) (allowed : s.allowed threads key entry) :
    ∃ log position, s.log.insert (s.positions key) entry = some (log, position) ∧
      (s.positions key).insert s.log.view entry = some (log.view, position) ∧ Live log recycled first second ∧
      log.counters = s.log.counters ∧ log.numIterators = s.log.numIterators := by
  obtain ⟨-, fresh, later, ready⟩ := allowed
  exact insert_live s.log recycled first second (s.positions key) (s.lasts key) entry inv.live (inv.placed key) later ready
    (fresh_block threads s recycled first second inv positive entry.gsn fresh)

theorem insert_recycling (positive : 0 < threads) (key : Nat) (entry : SubscriberLogEntry) (allowed : s.allowed threads key entry)
    (log : Paged) (position : Position) (ran : s.log.insert (s.positions key) entry = some (log, position)) :
    Recycling.Inv threads { s with
      log := log
      positions := Function.update s.positions key position
      lasts := Function.update s.lasts key (some entry.gsn)
      inserted := s.inserted ++ [entry] } recycled first second := by
  obtain ⟨log', position', ran', viewed, live, counters, size⟩ := insert_safe threads s recycled first second inv positive key entry allowed
  rw [ran] at ran'
  cases ran'
  obtain ⟨small, fresh, later, ready⟩ := allowed
  have unseen : ∀ other ∈ s.inserted, other.gsn ≠ entry.gsn := fun other member same => fresh (same ▸ List.mem_map_of_mem member)
  obtain ⟨holds, placed, blocks, -⟩ := insert_holds s.log.view log.view s.inserted _ position _ entry inv.holds (inv.placed key) later unseen
    ready viewed
  refine ⟨live, size.trans inv.size, holds, ?_, ?_, ?_, inv.walks, inv.ahead, ?_, ?_⟩
  · intro other member
    cases List.mem_append.mp member with
    | inl old => exact inv.small other old
    | inr last =>
        rw [List.mem_singleton.mp last]
        exact small
  · rw [List.map_append, List.map_singleton]
    exact List.nodup_append.mpr ⟨inv.once, List.nodup_singleton _, fun gsn old last new same =>
      fresh (List.mem_singleton.mp new ▸ same ▸ old)⟩
  · intro other
    dsimp only
    by_cases mine : other = key
    · subst mine
      rw [Function.update_self, Function.update_self]
      exact placed
    · rw [Function.update_of_ne mine, Function.update_of_ne mine]
      exact placed_grow _ _ _ _ (Nat.le_of_eq blocks.symm) (inv.placed other)
  · intro block less
    dsimp only
    rw [counters]
    exact inv.counts block less
  · intro thread mine rank other access
    obtain ⟨gsn, member⟩ := inv.order thread mine rank other access
    exact ⟨gsn, List.mem_append_left _ member⟩

-- A call of next_entry finds its block.
theorem process_safe (thread : Nat) (mine : thread < threads) : ∃ moved found,
    s.log.nextEntry (s.iterators thread) = some ({ s.log with
      counters := countPassed s.log.counters (s.iterators thread).blockIndex (moved.blockIndex - (s.iterators thread).blockIndex) },
      moved, found) ∧
      (s.iterators thread).blockIndex ≤ moved.blockIndex ∧
      ((found = none ∧ Walks threads thread (s.returned thread).length (recycled + 2) moved ∧
          ∀ entry ∈ s.inserted, entry.gsn ≠ thread + (s.returned thread).length * threads) ∨
        ∃ entry, found = some entry ∧ entry ∈ s.inserted ∧ entry.gsn = thread + (s.returned thread).length * threads ∧
          Walks threads thread ((s.returned thread).length + 1) (recycled + 2) moved) := by
  have blocks : s.log.view.numBlocks = recycled + 2 := inv.live.numBlocks
  have walks := inv.walks thread mine
  rw [← blocks] at walks
  obtain ⟨moved, found, ran, more, outcome⟩ := next_entry_walks s.log.view s.inserted inv.holds recycled threads thread _ blocks
    (live_blocks threads s recycled first second inv) inv.small (s.iterators thread) walks (inv.ahead thread mine)
  rw [blocks] at outcome
  refine ⟨moved, found, ?_, more, outcome⟩
  unfold Paged.nextEntry
  rw [ran]
  rfl

theorem process_recycling (thread : Nat) (mine : thread < threads) (log : Paged) (moved : Iterator) (found : Option SubscriberLogEntry)
    (ran : s.log.nextEntry (s.iterators thread) = some (log, moved, found)) :
    Recycling.Inv threads { s with
      log := log
      iterators := Function.update s.iterators thread moved
      returned := Function.update s.returned thread (s.returned thread ++ found.toList) } recycled first second := by
  obtain ⟨moved', found', ran', more, outcome⟩ := process_safe threads s recycled first second inv thread mine
  rw [ran] at ran'
  cases ran'
  have walks : Walks threads thread (s.returned thread ++ found.toList).length (recycled + 2) moved := by
    cases outcome with
    | inl idle =>
        rw [idle.1, Option.toList_none, List.append_nil]
        exact idle.2.1
    | inr taken =>
        obtain ⟨entry, same, -, -, walks⟩ := taken
        rw [same, Option.toList_some, List.length_append, List.length_singleton]
        exact walks
  have positions : (fun other => (Function.update s.iterators thread moved other).blockIndex) =
      Function.update (fun other => (s.iterators other).blockIndex) thread moved.blockIndex := by
    funext other
    by_cases same : other = thread
    · rw [same, Function.update_self, Function.update_self]
    · rw [Function.update_of_ne same, Function.update_of_ne same]
  have inside : moved.blockIndex < recycled + 2 := by
    cases outcome with
    | inl idle => exact idle.2.1.inside
    | inr taken =>
        obtain ⟨-, -, -, -, after⟩ := taken
        exact after.inside
  have tracked := walk_tracked threads s.log _ recycled first second thread moved.blockIndex
    (recycling_tracked threads s recycled first second inv) mine more inside
  rw [← positions] at tracked
  refine ⟨tracked.live, tracked.size, counters_hold s.log.view s.inserted _ inv.holds, inv.small, inv.once,
    fun key => placed_grow s.log.view _ _ _ (Nat.le_refl _) (inv.placed key), ?_, tracked.ahead, tracked.counts, ?_⟩
  · intro other less
    dsimp only
    by_cases same : other = thread
    · subst same
      rw [Function.update_self, Function.update_self]
      exact walks
    · rw [Function.update_of_ne same, Function.update_of_ne same]
      exact inv.walks other less
  · intro other less rank entry access
    dsimp only at access
    by_cases same : other = thread
    · subst same
      rw [Function.update_self] at access
      cases Nat.lt_or_ge rank (s.returned other).length with
      | inl old =>
          rw [List.getElem?_append_left old] at access
          exact inv.order other less rank entry access
      | inr new =>
          rw [List.getElem?_append_right new] at access
          cases outcome with
          | inl idle =>
              rw [idle.1] at access
              cases access
          | inr taken =>
              obtain ⟨last, same, member, gsn, -⟩ := taken
              rw [same, Option.toList_some] at access
              obtain ⟨bound, value⟩ := List.getElem?_eq_some_iff.mp access
              rw [List.length_singleton] at bound
              have place : rank = (s.returned other).length := by omega
              rw [List.getElem_singleton] at value
              rw [← value, place]
              exact ⟨gsn, member⟩
    · rw [Function.update_of_ne same] at access
      exact inv.order other less rank entry access

-- When the counter of the first live block is full, all of its GSNs have been
-- returned.
theorem recycle_ready (positive : 0 < threads) (passed : s.log.counters[recycled]? = some threads) (gsn : Nat)
    (inside : gsn / numEntriesPerBlock = recycled) : ∃ entry ∈ s.returned (gsn % threads), entry.gsn = gsn := by
  have mine := Nat.mod_lt gsn positive
  have left := tracked_full threads s.log _ recycled first second (recycling_tracked threads s recycled first second inv) passed
    (gsn % threads) mine
  exact left_returned threads s recycled first second inv (gsn % threads) gsn rfl mine (by rw [inside]; exact left)

theorem zeroed_returned (positive : 0 < threads) (passed : s.log.counters[recycled]? = some threads) (slot : Nat)
    (bound : slot < numEntriesPerBlock) (entry : SubscriberLogEntry) (value : s.log.pages first slot = some entry) :
    entry ∈ s.returned (entry.gsn % threads) := by
  have found : s.log.view.blocks[recycled]? = some (some (s.log.pages first)) := by
    rw [Paged.view, List.getElem?_map, live_first s.log recycled first second inv.live]
    rfl
  have search := inv.holds.cells recycled _ found slot bound
  rw [value] at search
  have gsn : entry.gsn = recycled * numEntriesPerBlock + slot := by simpa using List.find?_some search.symm
  have inside : entry.gsn / numEntriesPerBlock = recycled := by
    rw [gsn, Nat.mul_comm, Nat.mul_add_div entries_per_block_pos, Nat.div_eq_of_lt bound, Nat.add_zero]
  obtain ⟨other, member, same⟩ := recycle_ready threads s recycled first second inv positive passed entry.gsn inside
  obtain ⟨rank, access⟩ := List.mem_iff_getElem?.mp member
  have member' := (inv.order _ (Nat.mod_lt _ positive) rank other access).2
  rw [List.inj_on_of_nodup_map inv.once (List.mem_of_find?_eq_some search.symm) member' same.symm]
  rw [same]
  exact member

theorem recycle_recycling : ∃ log, s.log.recycleBlocks = some log ∧
    ∃ recycled first second, Recycling.Inv threads { s with log := log } recycled first second := by
  obtain same | ⟨log, ran, viewed, tracked⟩ :=
    recycle_tracked threads s.log _ recycled first second (recycling_tracked threads s recycled first second inv)
  · exact ⟨s.log, same, recycled, first, second, inv⟩
  · refine ⟨log, ran, recycled + 1, second, first, tracked.live, tracked.size, ?_, inv.small, inv.once, ?_, ?_, tracked.ahead, tracked.counts,
      inv.order⟩
    · dsimp only
      rw [viewed]
      exact recycle_holds s.log.view s.inserted inv.holds
    · intro key
      dsimp only
      rw [viewed]
      exact placed_grow _ _ _ _ (recycle_grows s.log.view) (inv.placed key)
    · intro thread mine
      exact walks_later threads thread _ _ _ _ (inv.walks thread mine) (by omega)

end

theorem recycling_step (threads : Nat) (positive : 0 < threads) (s next : Recycling) (turn : Turn)
    (inv : ∃ recycled first second, s.Inv threads recycled first second) (step : s.step threads turn = some next) :
    ∃ recycled first second, next.Inv threads recycled first second := by
  obtain ⟨recycled, first, second, inv⟩ := inv
  cases turn with
  | insert key entry =>
      unfold Recycling.step at step
      dsimp only at step
      split at step
      · rename_i allowed
        split at step
        · cases step
        · rename_i log position ran
          cases step
          exact ⟨recycled, first, second,
            insert_recycling threads s recycled first second inv positive key entry allowed log position ran⟩
      · cases step
  | process thread =>
      unfold Recycling.step at step
      dsimp only at step
      split at step
      · rename_i mine
        split at step
        · cases step
        · rename_i log moved found ran
          cases step
          exact ⟨recycled, first, second, process_recycling threads s recycled first second inv thread mine log moved found ran⟩
      · cases step
  | recycle =>
      obtain ⟨log, ran, result⟩ := recycle_recycling threads s recycled first second inv
      unfold Recycling.step at step
      dsimp only at step
      rw [ran] at step
      cases step
      exact result

-- Recycling is safe and nothing is lost.
theorem recycling_safe (threads : Nat) (positive : 0 < threads) (turns : List Turn) (s : Recycling)
    (ran : Machine.run (Recycling.step threads) (Recycling.init threads) turns = some s) :
    ∃ recycled first second,
      (first ≠ second ∧ s.log.blocks = List.replicate recycled none ++ [some first, some second] ∧
        s.log.numBlocks = recycled + 2 ∧ s.log.counters.length = recycled + 2) ∧
      (∀ block, block < s.log.counters.length → s.log.counters[block]? =
        some ((List.range threads).countP (fun thread => decide (block < (s.iterators thread).blockIndex)))) ∧
      (∀ key entry, s.allowed threads key entry → (s.log.insert (s.positions key) entry).isSome) ∧
      (∀ thread, thread < threads → ∃ log moved found, s.log.nextEntry (s.iterators thread) = some (log, moved, found) ∧
        (found = none → ∀ entry ∈ s.inserted, entry.gsn ≠ thread + (s.returned thread).length * threads)) ∧
      s.log.recycleBlocks.isSome ∧
      (s.log.counters[s.log.counter]? = some threads → ∀ slot, slot < numEntriesPerBlock → ∀ entry,
        s.log.pages first slot = some entry → entry ∈ s.returned (entry.gsn % threads)) ∧
      (∀ thread, thread < threads → ∀ (rank : Nat) entry, (s.returned thread)[rank]? = some entry →
        entry.gsn = thread + rank * threads ∧ entry ∈ s.inserted) := by
  obtain ⟨recycled, first, second, inv⟩ := Machine.run_preserves (Recycling.step threads)
    (fun s => ∃ recycled first second, Recycling.Inv threads s recycled first second)
    (fun s turn next inv step => recycling_step threads positive s next turn inv step) (Recycling.init threads) s
    ⟨0, 0, 1, recycling_init threads⟩ turns ran
  refine ⟨recycled, first, second, ⟨inv.live.different, inv.live.blocks, inv.live.numBlocks, inv.live.counters⟩, ?_, ?_, ?_, ?_, ?_, inv.order⟩
  · intro block less
    rw [inv.live.counters] at less
    exact inv.counts block less
  · intro key entry allowed
    obtain ⟨log, position, result, -⟩ := insert_safe threads s recycled first second inv positive key entry allowed
    rw [result]
    rfl
  · intro thread mine
    obtain ⟨moved, found, result, -, outcome⟩ := process_safe threads s recycled first second inv thread mine
    refine ⟨_, moved, found, result, fun absent => ?_⟩
    cases outcome with
    | inl idle => exact idle.2.2
    | inr taken =>
        obtain ⟨entry, present, -⟩ := taken
        rw [absent] at present
        cases present
  · obtain ⟨log, result, -⟩ := recycle_recycling threads s recycled first second inv
    rw [result]
    rfl
  · intro passed slot bound entry value
    rw [inv.live.counter] at passed
    exact zeroed_returned threads s recycled first second inv positive passed slot bound entry value

theorem recycling_safe_two_threads : ∃ s, Machine.run (Recycling.step 2) (Recycling.init 2)
    [.insert 0 firstEntry, .process 1, .insert 1 ⟨0, 0, 0, 0, 1, []⟩, .process 0, .process 1, .recycle] = some s ∧
      s.log.counters.length = 2 ∧ (s.returned 0).map SubscriberLogEntry.gsn = [0] ∧ (s.returned 1).map SubscriberLogEntry.gsn = [1] ∧
      ∀ thread, thread < 2 → ∀ (rank : Nat) entry, (s.returned thread)[rank]? = some entry → entry.gsn = thread + rank * 2 := by
  have outcome : (Machine.run (Recycling.step 2) (Recycling.init 2)
      [.insert 0 firstEntry, .process 1, .insert 1 ⟨0, 0, 0, 0, 1, []⟩, .process 0, .process 1, .recycle]).map (fun s =>
        (s.log.counters.length, (s.returned 0).map SubscriberLogEntry.gsn, (s.returned 1).map SubscriberLogEntry.gsn)) =
      some (2, [0], [1]) := by decide +kernel
  obtain ⟨s, ran, values⟩ := Option.map_eq_some_iff.mp outcome
  simp only [Prod.mk.injEq] at values
  obtain ⟨recycled, first, second, -, -, -, -, -, -, order⟩ := recycling_safe 2 (by decide) _ s ran
  exact ⟨s, ran, values.1, values.2.1, values.2.2, fun thread mine rank entry access => (order thread mine rank entry access).1⟩

end ZipLog.Subscriber
