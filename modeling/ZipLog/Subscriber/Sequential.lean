import ZipLog.Subscriber.Recycle

set_option autoImplicit false

namespace ZipLog.Subscriber

def SequentialIterator.advance (log : Log) (it : SequentialIterator) : Log × SequentialIterator :=
  let (log, moved) := it.toIterator.advance log
  (log, { it with toIterator := { moved with entryIndex := uint64 (it.entryIndex + 1) } })

-- An entry of another iterator is passed with the same result as one that is not there.
def SequentialIterator.check (log : Log) (it : SequentialIterator) (entry : Nat × Nat) :
    Option (Log × SequentialIterator × Option SubscriberLogEntry) :=
  match log.load entry.1 entry.2 with
  | none => none
  | some none => some (log, it, none)
  | some (some ptr) =>
      some (log, { it with entry := none }, if uint64 (it.entryIndex + uint64Max) % it.stride = it.index then some ptr else none)

def SequentialIterator.nextEntry (log : Log) (it : SequentialIterator) : Option (Log × SequentialIterator × Option SubscriberLogEntry) :=
  match it.entry with
  | some entry => it.check log entry
  | none =>
      if it.entryIndex / numEntriesPerBlock ≥ it.currentBlocks ∧ it.entryIndex / numEntriesPerBlock ≥ log.numBlocks then
        some (log, { it with currentBlocks := log.numBlocks }, none)
      else (it.advance log).2.check (it.advance log).1 it.place

def Paged.nextSequential (log : Paged) (it : SequentialIterator) : Option (Paged × SequentialIterator × Option SubscriberLogEntry) :=
  match it.nextEntry log.view with
  | none => none
  | some (after, it, found) => some ({ log with counters := after.counters }, it, found)

-- The iterator of every entry that it walks as.
def SequentialIterator.plain (it : SequentialIterator) : Iterator := { it.toIterator with stride := 1 }

def SequentialIterator.moved (it : SequentialIterator) (plain : Iterator) : SequentialIterator :=
  { it with toIterator := { plain with stride := it.stride } }

def SequentialIterator.own (it : SequentialIterator) (entryIndex : Nat) : Bool :=
  decide (uint64 (entryIndex + uint64Max) % it.stride = it.index)

theorem check_plain (log : Log) (it : SequentialIterator) (entry : Nat × Nat) : it.check log entry =
    (it.plain.check log entry).map (fun answer =>
      (answer.1, it.moved answer.2.1, answer.2.2.filter (fun _ => it.own answer.2.1.entryIndex))) := by
  unfold SequentialIterator.check Iterator.check
  cases log.load entry.1 entry.2 with
  | none => rfl
  | some cell =>
      cases cell with
      | none => rfl
      | some ptr =>
          change some (_, _, _) = some (_, _, Option.filter (fun _ => it.own it.entryIndex) (some ptr))
          rw [Option.filter_some]
          unfold SequentialIterator.own
          simp only [decide_eq_true_eq]
          rfl

theorem next_entry_plain (log : Log) (it : SequentialIterator) : it.nextEntry log =
    (it.plain.nextEntry log).map (fun answer =>
      (answer.1, it.moved answer.2.1, answer.2.2.filter (fun _ => it.own answer.2.1.entryIndex))) := by
  obtain ⟨⟨entryIndex, stride, currentBlocks, block, counter, blockIndex, entry⟩, index⟩ := it
  cases entry with
  | some entry => exact check_plain log _ entry
  | none =>
      unfold SequentialIterator.nextEntry Iterator.nextEntry SequentialIterator.plain
      dsimp only
      split
      · rfl
      · exact check_plain _ _ _

-- An entry that is returned is no longer under consideration.
theorem next_entry_released (log after : Log) (it moved : Iterator) (entry : SubscriberLogEntry)
    (ran : it.nextEntry log = some (after, moved, some entry)) : moved.entry = none := by
  have checked : ∀ (start : Log) (considering : Iterator) (place : Nat × Nat),
      considering.check start place = some (after, moved, some entry) → moved.entry = none := by
    intro start considering place answer
    unfold Iterator.check at answer
    split at answer
    · cases answer
    · cases answer
    · cases answer
      rfl
  unfold Iterator.nextEntry at ran
  split at ran
  · exact checked _ _ _ ran
  · split at ran
    · cases ran
    · exact checked _ _ _ ran

-- A call stays at the GSN it has come to if this has not been inserted, and else passes
-- it, with the entry as the result if it is the iterator's own.
theorem sequential_walks (log : Log) (inserted : List SubscriberLogEntry) (holds : Holds log inserted) (recycled visited : Nat)
    (blocks : log.numBlocks = recycled + 2)
    (live : ∀ block, recycled ≤ block → block < recycled + 2 → ∃ cells, log.blocks[block]? = some (some cells))
    (small : ∀ entry ∈ inserted, entry.gsn < uint64Max) (it : SequentialIterator)
    (walks : Walks 1 0 visited log.numBlocks it.plain) (ahead : recycled ≤ it.blockIndex) :
    ∃ moved found, it.nextEntry log =
        some ({ log with counters := countPassed log.counters it.blockIndex (moved.blockIndex - it.blockIndex) }, moved, found) ∧
      it.blockIndex ≤ moved.blockIndex ∧ moved.stride = it.stride ∧ moved.index = it.index ∧
      ((found = none ∧ Walks 1 0 visited log.numBlocks moved.plain ∧ ∀ entry ∈ inserted, entry.gsn ≠ visited) ∨
        ∃ entry ∈ inserted, entry.gsn = visited ∧ found = (if visited % it.stride = it.index then some entry else none) ∧
          Walks 1 0 (visited + 1) log.numBlocks moved.plain) := by
  have room : ∀ entry ∈ inserted, entry.gsn + 1 < 2 ^ 64 := by
    intro entry member
    have bound := small entry member
    unfold uint64Max at bound
    omega
  obtain ⟨moved, found, ran, more, outcome⟩ := next_entry_walks log inserted holds recycled 1 0 visited blocks live room it.plain walks ahead
  have stride : moved.stride = 1 := by
    obtain ⟨-, after, -⟩ | ⟨entry, -, -, -, after⟩ := outcome
    · exact after.stride
    · exact after.stride
  have plain : (it.moved moved).plain = moved := by
    change { moved with stride := 1 } = moved
    rw [← stride]
  refine ⟨it.moved moved, found.filter (fun _ => it.own moved.entryIndex), ?_, more, rfl, rfl, ?_⟩
  · rw [next_entry_plain, ran]
    rfl
  · rw [plain]
    obtain ⟨absent, after, none_⟩ | ⟨entry, present, member, gsn, after⟩ := outcome
    · left
      rw [absent]
      refine ⟨rfl, after, ?_⟩
      intro entry member same
      exact none_ entry member (by rw [same, Nat.mul_one, Nat.zero_add])
    · right
      rw [Nat.mul_one, Nat.zero_add] at gsn
      have index : moved.entryIndex = visited + 1 := by
        rw [present] at ran
        rw [after.free (next_entry_released log _ it.plain moved entry ran), Nat.mul_one, Nat.zero_add]
      have bound := room entry member
      have previous : uint64 (moved.entryIndex + uint64Max) = visited := by
        rw [index, show visited + 1 + uint64Max = visited + 2 ^ 64 from by unfold uint64Max; omega]
        unfold uint64
        rw [Nat.add_mod_right, Nat.mod_eq_of_lt (by omega)]
      refine ⟨entry, member, gsn, ?_, after⟩
      rw [present, Option.filter_some]
      unfold SequentialIterator.own
      simp only [previous, decide_eq_true_eq]

-- What an iterator has returned once it has visited the GSNs below a bound.
structure Picked (threads thread visited : Nat) (inserted returned : List SubscriberLogEntry) : Prop where
  order : ∀ (rank : Nat) entry, returned[rank]? = some entry → entry.gsn = thread + rank * threads ∧ entry ∈ inserted
  passed : ∀ rank, rank < returned.length → thread + rank * threads < visited
  next : visited ≤ thread + returned.length * threads

theorem picked_grow (threads thread visited : Nat) (inserted returned more : List SubscriberLogEntry)
    (picked : Picked threads thread visited inserted returned) : Picked threads thread visited (inserted ++ more) returned :=
  ⟨fun rank entry access => ⟨(picked.order rank entry access).1, List.mem_append_left _ (picked.order rank entry access).2⟩, picked.passed,
    picked.next⟩

theorem picked_other (threads thread visited : Nat) (inserted returned : List SubscriberLogEntry)
    (picked : Picked threads thread visited inserted returned) (mine : thread < threads) (other : visited % threads ≠ thread) :
    Picked threads thread (visited + 1) inserted returned := by
  refine ⟨picked.order, fun rank less => Nat.lt_succ_of_lt (picked.passed rank less), ?_⟩
  refine Nat.lt_of_le_of_ne picked.next ?_
  intro same
  rw [same, Nat.add_mul_mod_self_right, Nat.mod_eq_of_lt mine] at other
  exact other rfl

-- The turn of an iterator is at the GSN that it takes next.
theorem picked_turn (threads thread visited : Nat) (inserted returned : List SubscriberLogEntry)
    (picked : Picked threads thread visited inserted returned) (positive : 0 < threads) (own : visited % threads = thread) :
    visited = thread + returned.length * threads := by
  have whole : thread + visited / threads * threads = visited := by
    rw [← own, Nat.mul_comm]
    exact Nat.mod_add_div visited threads
  have next := picked.next
  rw [← whole] at next
  have most : visited / threads ≤ returned.length := Nat.le_of_mul_le_mul_right (Nat.le_of_add_le_add_left next) positive
  obtain less | same := Nat.lt_or_eq_of_le most
  · exact absurd (picked.passed _ less) (by rw [whole]; exact Nat.lt_irrefl _)
  · rw [← same, whole]

theorem picked_own (threads thread visited : Nat) (inserted returned : List SubscriberLogEntry) (entry : SubscriberLogEntry)
    (picked : Picked threads thread visited inserted returned) (positive : 0 < threads) (own : visited % threads = thread)
    (member : entry ∈ inserted) (gsn : entry.gsn = visited) :
    Picked threads thread (visited + 1) inserted (returned ++ [entry]) := by
  have turn := picked_turn threads thread visited inserted returned picked positive own
  refine ⟨?_, ?_, ?_⟩
  · intro rank other access
    cases Nat.lt_or_ge rank returned.length with
    | inl old =>
        rw [List.getElem?_append_left old] at access
        exact picked.order rank other access
    | inr new =>
        rw [List.getElem?_append_right new] at access
        obtain ⟨bound, value⟩ := List.getElem?_eq_some_iff.mp access
        rw [List.length_singleton] at bound
        rw [List.getElem_singleton] at value
        have last : rank = returned.length := by omega
        rw [← value, last]
        exact ⟨gsn.trans turn, member⟩
  · intro rank less
    rw [List.length_append] at less
    obtain old | last := Nat.lt_or_eq_of_le (Nat.le_of_lt_succ less)
    · exact Nat.lt_succ_of_lt (picked.passed rank old)
    · rw [last, ← turn]
      exact Nat.lt_succ_self visited
  · rw [List.length_append, List.length_singleton, Nat.add_mul, Nat.one_mul, ← Nat.add_assoc, ← turn]
    exact Nat.add_le_add_left positive visited

-- The sequential iterators on one log, with the positions and the thread that recycles
-- blocks.
structure Sequencing where
  log : Paged
  positions : Nat → Position
  lasts : Nat → Option Nat
  iterators : Nat → SequentialIterator
  inserted : List SubscriberLogEntry
  returned : Nat → List SubscriberLogEntry

def Sequencing.init (threads : Nat) : Sequencing :=
  ⟨Paged.init threads, fun _ => Position.init, fun _ => none, fun thread => SequentialIterator.init thread threads 0, [], fun _ => []⟩

-- A GSN once, increasing per position, and after the wait for its block. GSN 2^64 - 1
-- is the sentinel and is never used.
def Sequencing.allowed (s : Sequencing) (key : Nat) (entry : SubscriberLogEntry) : Prop :=
  entry.gsn < uint64Max ∧ entry.gsn ∉ s.inserted.map SubscriberLogEntry.gsn ∧ above (s.lasts key) entry.gsn ∧
    (s.positions key).ready s.log.view entry.gsn

instance (s : Sequencing) (key : Nat) (entry : SubscriberLogEntry) : Decidable (s.allowed key entry) :=
  inferInstanceAs (Decidable (_ ∧ _ ∧ _ ∧ _))

def Sequencing.step (threads : Nat) (s : Sequencing) : Turn → Option Sequencing
  | .insert key entry =>
      if s.allowed key entry then
        match s.log.insert (s.positions key) entry with
        | none => none
        | some (log, position) => some { s with
            log := log
            positions := Function.update s.positions key position
            lasts := Function.update s.lasts key (some entry.gsn)
            inserted := s.inserted ++ [entry] }
      else none
  | .process thread =>
      if thread < threads then
        match s.log.nextSequential (s.iterators thread) with
        | none => none
        | some (log, it, found) => some { s with
            log := log
            iterators := Function.update s.iterators thread it
            returned := Function.update s.returned thread (s.returned thread ++ found.toList) }
      else none
  | .recycle =>
      match s.log.recycleBlocks with
      | none => none
      | some log => some { s with log := log }

def Sequencing.standing (s : Sequencing) (thread : Nat) : Nat := (s.iterators thread).blockIndex

-- visited is the GSN that each iterator has come to.
structure Sequencing.Inv (threads : Nat) (s : Sequencing) (recycled first second : Nat) (visited : Nat → Nat) : Prop where
  tracked : Tracked threads s.log s.standing recycled first second
  holds : Holds s.log.view s.inserted
  small : ∀ entry ∈ s.inserted, entry.gsn < uint64Max
  placed : ∀ key, Placed s.log.view (s.positions key) (s.lasts key)
  walks : ∀ thread, thread < threads → Walks 1 0 (visited thread) (recycled + 2) (s.iterators thread).plain
  own : ∀ thread, thread < threads → (s.iterators thread).stride = threads ∧ (s.iterators thread).index = thread
  complete : ∀ thread, thread < threads → ∀ gsn, gsn < visited thread → gsn ∈ s.inserted.map SubscriberLogEntry.gsn
  picked : ∀ thread, thread < threads → Picked threads thread (visited thread) s.inserted (s.returned thread)

theorem sequencing_init (threads : Nat) : (Sequencing.init threads).Inv threads 0 0 1 (fun _ => 0) := by
  refine ⟨init_tracked threads, init_holds threads, fun _ member => absurd member List.not_mem_nil, fun _ => init_placed _, ?_,
    fun _ _ => ⟨rfl, rfl⟩, fun _ _ _ less => absurd less (Nat.not_lt_zero _), ?_⟩
  · intro thread _
    exact ⟨rfl, rfl, rfl, Nat.zero_le _, Nat.succ_pos 1, Nat.zero_le _, fun _ => rfl, fun _ there => absurd there (Option.some_ne_none _).symm⟩
  · intro thread _
    exact ⟨fun _ _ access => absurd access (Option.some_ne_none _).symm, fun _ less => absurd less (Nat.not_lt_zero _), Nat.zero_le _⟩

section

variable (threads : Nat) (s : Sequencing) (recycled first second : Nat) (visited : Nat → Nat)
variable (inv : s.Inv threads recycled first second visited)

include inv

-- A GSN that is still to be inserted is in no block that the iterators have left.
theorem unvisited_block (positive : 0 < threads) (gsn : Nat) (fresh : gsn ∉ s.inserted.map SubscriberLogEntry.gsn) :
    recycled ≤ gsn / numEntriesPerBlock := by
  have ahead := inv.tracked.ahead 0 positive
  have behind := (inv.walks 0 positive).behind
  have unvisited : visited 0 ≤ gsn := by
    by_contra less
    exact fresh (inv.complete 0 positive gsn (Nat.lt_of_not_le less))
  rw [Nat.mul_one, Nat.zero_add] at behind
  exact Nat.le_trans ahead (Nat.le_trans behind (Nat.div_le_div_right unvisited))

theorem sequencing_insert (positive : 0 < threads) (key : Nat) (entry : SubscriberLogEntry) (allowed : s.allowed key entry) :
    ∃ log position, s.log.insert (s.positions key) entry = some (log, position) ∧ Sequencing.Inv threads { s with
      log := log
      positions := Function.update s.positions key position
      lasts := Function.update s.lasts key (some entry.gsn)
      inserted := s.inserted ++ [entry] } recycled first second visited := by
  obtain ⟨small, fresh, later, ready⟩ := allowed
  have old := unvisited_block threads s recycled first second visited inv positive entry.gsn fresh
  obtain ⟨log, position, ran, viewed, live, counters, size⟩ := insert_live s.log recycled first second (s.positions key) (s.lasts key) entry
    inv.tracked.live (inv.placed key) later ready old
  have unseen : ∀ other ∈ s.inserted, other.gsn ≠ entry.gsn := fun other member same => fresh (same ▸ List.mem_map_of_mem member)
  obtain ⟨holds, placed, blocks, -⟩ := insert_holds s.log.view log.view s.inserted _ position _ entry inv.holds (inv.placed key) later unseen
    ready viewed
  refine ⟨log, position, ran, store_tracked threads s.log log s.standing recycled first second inv.tracked live counters size, holds, ?_, ?_,
    inv.walks, inv.own, ?_, ?_⟩
  · intro other member
    cases List.mem_append.mp member with
    | inl before => exact inv.small other before
    | inr last =>
        rw [List.mem_singleton.mp last]
        exact small
  · intro other
    dsimp only
    by_cases mine : other = key
    · rw [mine, Function.update_self, Function.update_self]
      exact placed
    · rw [Function.update_of_ne mine, Function.update_of_ne mine]
      exact placed_grow _ _ _ _ (Nat.le_of_eq blocks.symm) (inv.placed other)
  · intro thread mine gsn less
    rw [List.map_append]
    exact List.mem_append_left _ (inv.complete thread mine gsn less)
  · exact fun thread mine => picked_grow threads thread _ _ _ _ (inv.picked thread mine)

-- A call of next_entry finds its block, and it comes to the next GSN unless this one
-- has not been inserted.
theorem sequencing_process (thread : Nat) (mine : thread < threads) : ∃ log moved found reached,
    s.log.nextSequential (s.iterators thread) = some (log, moved, found) ∧
      (visited thread ∈ s.inserted.map SubscriberLogEntry.gsn → reached = visited thread + 1) ∧ visited thread ≤ reached ∧
      Sequencing.Inv threads { s with
        log := log
        iterators := Function.update s.iterators thread moved
        returned := Function.update s.returned thread (s.returned thread ++ found.toList) } recycled first second
        (Function.update visited thread reached) := by
  have positive : 0 < threads := Nat.lt_of_le_of_lt (Nat.zero_le _) mine
  have blocks : s.log.view.numBlocks = recycled + 2 := inv.tracked.live.numBlocks
  have live : ∀ block, recycled ≤ block → block < recycled + 2 → ∃ cells, s.log.view.blocks[block]? = some (some cells) := by
    intro block old new
    obtain ⟨page, found⟩ := live_page s.log recycled first second block inv.tracked.live old new
    refine ⟨s.log.pages page, ?_⟩
    rw [Paged.view, List.getElem?_map, found]
    rfl
  have walks := inv.walks thread mine
  rw [← blocks] at walks
  obtain ⟨moved, found, ran, more, stride, index, outcome⟩ := sequential_walks s.log.view s.inserted inv.holds recycled (visited thread) blocks
    live inv.small (s.iterators thread) walks (inv.tracked.ahead thread mine)
  have after : ∃ reached, (visited thread ∈ s.inserted.map SubscriberLogEntry.gsn → reached = visited thread + 1) ∧ visited thread ≤ reached ∧
      Walks 1 0 reached (recycled + 2) moved.plain ∧ (∀ gsn, gsn < reached → gsn ∈ s.inserted.map SubscriberLogEntry.gsn) ∧
      Picked threads thread reached s.inserted (s.returned thread ++ found.toList) := by
    rw [blocks] at outcome
    obtain ⟨absent, stands, none_⟩ | ⟨entry, member, gsn, result, stands⟩ := outcome
    · refine ⟨visited thread, ?_, Nat.le_refl _, stands, inv.complete thread mine, ?_⟩
      · intro there
        obtain ⟨entry, member, gsn⟩ := List.mem_map.mp there
        exact absurd gsn (none_ entry member)
      · rw [absent, Option.toList_none, List.append_nil]
        exact inv.picked thread mine
    · refine ⟨visited thread + 1, fun _ => rfl, Nat.le_succ _, stands, ?_, ?_⟩
      · intro below less
        obtain old | last := Nat.lt_or_eq_of_le (Nat.le_of_lt_succ less)
        · exact inv.complete thread mine below old
        · rw [last, ← gsn]
          exact List.mem_map_of_mem member
      · rw [(inv.own thread mine).1, (inv.own thread mine).2] at result
        by_cases turn : visited thread % threads = thread
        · rw [if_pos turn] at result
          rw [result]
          exact picked_own threads thread _ _ _ entry (inv.picked thread mine) positive turn member gsn
        · rw [if_neg turn] at result
          rw [result, Option.toList_none, List.append_nil]
          exact picked_other threads thread _ _ _ (inv.picked thread mine) mine turn
  obtain ⟨reached, next, farther, stands, complete, picked⟩ := after
  have tracked := walk_tracked threads s.log s.standing recycled first second thread moved.blockIndex inv.tracked mine more stands.inside
  have standing : (fun other => (Function.update s.iterators thread moved other).blockIndex) = Function.update s.standing thread moved.blockIndex :=
    Function.comp_update (fun it : SequentialIterator => it.blockIndex) s.iterators thread moved
  rw [← standing] at tracked
  refine ⟨{ s.log with counters := countPassed s.log.counters (s.standing thread) (moved.blockIndex - s.standing thread) }, moved, found, reached,
    ?_, next, farther, tracked, counters_hold s.log.view s.inserted _ inv.holds, inv.small,
    fun key => placed_grow s.log.view _ _ _ (Nat.le_refl _) (inv.placed key), ?_, ?_, ?_, ?_⟩
  · unfold Paged.nextSequential
    rw [ran]
    rfl
  all_goals
    intro other less
    dsimp only
    by_cases same : other = thread
  · rw [same, Function.update_self, Function.update_self]
    exact stands
  · rw [Function.update_of_ne same, Function.update_of_ne same]
    exact inv.walks other less
  · rw [same, Function.update_self, stride, index]
    exact inv.own thread mine
  · rw [Function.update_of_ne same]
    exact inv.own other less
  · rw [same, Function.update_self]
    exact complete
  · rw [Function.update_of_ne same]
    exact inv.complete other less
  · rw [same, Function.update_self, Function.update_self]
    exact picked
  · rw [Function.update_of_ne same, Function.update_of_ne same]
    exact inv.picked other less

theorem sequencing_recycle : ∃ log, s.log.recycleBlocks = some log ∧
    ∃ recycled first second, Sequencing.Inv threads { s with log := log } recycled first second visited := by
  obtain same | ⟨log, ran, viewed, tracked⟩ := recycle_tracked threads s.log s.standing recycled first second inv.tracked
  · exact ⟨s.log, same, recycled, first, second, inv⟩
  · refine ⟨log, ran, recycled + 1, second, first, tracked, ?_, inv.small, ?_, ?_, inv.own, inv.complete, inv.picked⟩
    · dsimp only
      rw [viewed]
      exact recycle_holds s.log.view s.inserted inv.holds
    · intro key
      dsimp only
      rw [viewed]
      exact placed_grow _ _ _ _ (recycle_grows s.log.view) (inv.placed key)
    · intro thread mine
      exact walks_later 1 0 _ _ _ _ (inv.walks thread mine) (Nat.le_succ _)

end

theorem sequencing_step (threads : Nat) (positive : 0 < threads) (s next : Sequencing) (turn : Turn)
    (inv : ∃ recycled first second visited, s.Inv threads recycled first second visited) (taken : s.step threads turn = some next) :
    ∃ recycled first second visited, next.Inv threads recycled first second visited := by
  obtain ⟨recycled, first, second, visited, inv⟩ := inv
  cases turn with
  | insert key entry =>
      obtain ⟨allowed, ran⟩ := Option.ite_none_right_eq_some.mp taken
      obtain ⟨log, position, same, after⟩ := sequencing_insert threads s recycled first second visited inv positive key entry allowed
      rw [same] at ran
      rw [← Option.some.inj ran]
      exact ⟨recycled, first, second, visited, after⟩
  | process thread =>
      obtain ⟨mine, ran⟩ := Option.ite_none_right_eq_some.mp taken
      obtain ⟨log, moved, found, reached, same, -, -, after⟩ := sequencing_process threads s recycled first second visited inv thread mine
      rw [same] at ran
      rw [← Option.some.inj ran]
      exact ⟨recycled, first, second, _, after⟩
  | recycle =>
      obtain ⟨log, same, recycled, first, second, after⟩ := sequencing_recycle threads s recycled first second visited inv
      unfold Sequencing.step at taken
      rw [same] at taken
      rw [← Option.some.inj taken]
      exact ⟨recycled, first, second, visited, after⟩

-- As many calls as a GSN and those below it bring an iterator past the GSN, once they
-- have been inserted.
theorem sequencing_calls (threads thread gsn : Nat) (mine : thread < threads) (calls : Nat) (s : Sequencing)
    (recycled first second : Nat) (visited : Nat → Nat) (inv : s.Inv threads recycled first second visited)
    (there : ∀ below, below ≤ gsn → below ∈ s.inserted.map SubscriberLogEntry.gsn) (enough : gsn < visited thread + calls) :
    ∃ later recycled first second visited, Machine.run (Sequencing.step threads) s (List.replicate calls (.process thread)) = some later ∧
      later.Inv threads recycled first second visited ∧ gsn < visited thread := by
  induction calls generalizing s visited with
  | zero => exact ⟨s, recycled, first, second, visited, rfl, inv, enough⟩
  | succ calls ih =>
      obtain ⟨log, moved, found, reached, ran, next, farther, after⟩ :=
        sequencing_process threads s recycled first second visited inv thread mine
      have nearer : gsn < Function.update visited thread reached thread + calls := by
        rw [Function.update_self]
        obtain before | beyond := Nat.lt_or_ge gsn (visited thread)
        · omega
        · have one := next (there _ beyond)
          omega
      obtain ⟨later, recycled', first', second', visited', rest, stands, passed⟩ := ih _ _ after there nearer
      refine ⟨later, recycled', first', second', visited', ?_, stands, passed⟩
      have called : s.step threads (.process thread) = some { s with
          log := log
          iterators := Function.update s.iterators thread moved
          returned := Function.update s.returned thread (s.returned thread ++ found.toList) } := by
        unfold Sequencing.step
        dsimp only
        rw [if_pos mine, ran]
      rw [List.replicate_succ]
      exact (congrArg (Option.bind · _) called).trans rest

-- Each iterator returns its own entries in order, each when all before it are there,
-- and every one of them after enough calls. No call finds a null block or a list end.
theorem sequential_iterators_exact (threads : Nat) (positive : 0 < threads) (turns : List Turn) (s : Sequencing)
    (ran : Machine.run (Sequencing.step threads) (Sequencing.init threads) turns = some s) :
    (∀ key entry, s.allowed key entry → (s.log.insert (s.positions key) entry).isSome) ∧ s.log.recycleBlocks.isSome ∧
      ∀ thread, thread < threads → (s.log.nextSequential (s.iterators thread)).isSome ∧
        (∀ (rank : Nat) entry, (s.returned thread)[rank]? = some entry → entry.gsn = thread + rank * threads ∧ entry ∈ s.inserted ∧
          ∀ below, below ≤ entry.gsn → below ∈ s.inserted.map SubscriberLogEntry.gsn) ∧
        ∀ gsn, gsn % threads = thread → (∀ below, below ≤ gsn → below ∈ s.inserted.map SubscriberLogEntry.gsn) →
          ∃ later, Machine.run (Sequencing.step threads) s (List.replicate (gsn + 1) (.process thread)) = some later ∧
            ∃ entry ∈ later.returned thread, entry.gsn = gsn := by
  obtain ⟨recycled, first, second, visited, inv⟩ := Machine.run_preserves (Sequencing.step threads)
    (fun s => ∃ recycled first second visited, Sequencing.Inv threads s recycled first second visited)
    (fun s turn next inv taken => sequencing_step threads positive s next turn inv taken) (Sequencing.init threads) s
    ⟨0, 0, 1, _, sequencing_init threads⟩ turns ran
  refine ⟨?_, ?_, ?_⟩
  · intro key entry allowed
    obtain ⟨log, position, found, -⟩ := sequencing_insert threads s recycled first second visited inv positive key entry allowed
    rw [found]
    rfl
  · obtain ⟨log, found, -⟩ := sequencing_recycle threads s recycled first second visited inv
    rw [found]
    rfl
  · intro thread mine
    refine ⟨?_, ?_, ?_⟩
    · obtain ⟨log, moved, result, reached, found, -⟩ := sequencing_process threads s recycled first second visited inv thread mine
      rw [found]
      rfl
    · intro rank entry access
      have picked := inv.picked thread mine
      obtain ⟨gsn, member⟩ := picked.order rank entry access
      refine ⟨gsn, member, ?_⟩
      intro below least
      have passed := picked.passed rank (List.getElem?_eq_some_iff.mp access).1
      exact inv.complete thread mine below (by omega)
    · intro gsn own there
      obtain ⟨later, recycled', first', second', visited', run, stands, passed⟩ :=
        sequencing_calls threads thread gsn mine (gsn + 1) s recycled first second visited inv there (by omega)
      refine ⟨later, run, ?_⟩
      have picked := stands.picked thread mine
      have whole : thread + gsn / threads * threads = gsn := by
        rw [← own, Nat.mul_comm]
        exact Nat.mod_add_div gsn threads
      have rank : gsn / threads < (later.returned thread).length := by
        have below := Nat.lt_of_lt_of_le passed picked.next
        rw [← whole] at below
        exact Nat.lt_of_mul_lt_mul_right (Nat.lt_of_add_lt_add_left below)
      exact ⟨_, List.getElem_mem rank, ((picked.order _ _ (List.getElem?_eq_getElem rank)).1).trans whole⟩

def twoInserted : List Turn :=
  [.insert 0 firstEntry, .process 1, .process 0, .process 1, .insert 1 ⟨0, 0, 0, 0, 1, []⟩, .process 1, .process 0, .recycle]

theorem sequential_iterators_exact_two : ∃ s, Machine.run (Sequencing.step 2) (Sequencing.init 2) twoInserted = some s ∧
    (∀ key entry, s.allowed key entry → (s.log.insert (s.positions key) entry).isSome) ∧ s.log.recycleBlocks.isSome ∧
      ∀ thread, thread < 2 → (s.log.nextSequential (s.iterators thread)).isSome ∧
        (∀ (rank : Nat) entry, (s.returned thread)[rank]? = some entry → entry.gsn = thread + rank * 2 ∧ entry ∈ s.inserted ∧
          ∀ below, below ≤ entry.gsn → below ∈ s.inserted.map SubscriberLogEntry.gsn) ∧
        ∀ gsn, gsn % 2 = thread → (∀ below, below ≤ gsn → below ∈ s.inserted.map SubscriberLogEntry.gsn) →
          ∃ later, Machine.run (Sequencing.step 2) s (List.replicate (gsn + 1) (.process thread)) = some later ∧
            ∃ entry ∈ later.returned thread, entry.gsn = gsn := by
  have answered : (Machine.run (Sequencing.step 2) (Sequencing.init 2) twoInserted).isSome = true := by decide +kernel
  obtain ⟨s, ran⟩ := Option.isSome_iff_exists.mp answered
  exact ⟨s, ran, sequential_iterators_exact 2 (by decide) twoInserted s ran⟩

end ZipLog.Subscriber
