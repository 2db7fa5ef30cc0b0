import ZipLog.Lib.Run
import ZipLog.Subscriber.Contents

set_option autoImplicit false

namespace ZipLog.Subscriber

-- The iterator of a single application thread that has taken the GSNs below
-- next. It either stands before next or has next under consideration.
structure InOrder (it : Iterator) (next : Nat) : Prop where
  stride : it.stride = 1
  node : it.block = it.blockIndex
  standing : it.entry = none ∧ it.entryIndex = next ∧ it.blockIndex ≤ next / numEntriesPerBlock ∨
    it.entry = some (next / numEntriesPerBlock, next % numEntriesPerBlock) ∧
      it.blockIndex = next / numEntriesPerBlock ∧ it.entryIndex = uint64 (next + 1)

theorem process_iterator_in_order (sequential : Bool) (unset : Nat) : InOrder (processIterator sequential 0 1 unset) 0 := by
  cases sequential with
  | false => exact ⟨rfl, rfl, Or.inl ⟨rfl, rfl, Nat.zero_le _⟩⟩
  | true => exact ⟨rfl, rfl, Or.inl ⟨rfl, rfl, Nat.zero_le _⟩⟩

-- The single application thread on a log of which no more is known.
theorem check_takes (log after : Log) (inserted : List SubscriberLogEntry) (it moved : Iterator) (next : Nat)
    (found : Option SubscriberLogEntry) (sound : Sound log inserted) (small : ∀ entry ∈ inserted, entry.gsn < uint64Max)
    (stride : it.stride = 1) (node : it.block = it.blockIndex)
    (held : it.entry = some (next / numEntriesPerBlock, next % numEntriesPerBlock))
    (block : it.blockIndex = next / numEntriesPerBlock) (index : it.entryIndex = uint64 (next + 1))
    (ran : it.check log (next / numEntriesPerBlock, next % numEntriesPerBlock) = some (after, moved, found)) :
    (found = none ∧ InOrder moved next) ∨ ∃ entry, found = some entry ∧ entry ∈ inserted ∧ entry.gsn = next ∧ InOrder moved (next + 1) := by
  unfold Iterator.check at ran
  split at ran
  · cases ran
  · cases ran
    exact Or.inl ⟨rfl, stride, node, Or.inr ⟨held, block, index⟩⟩
  · rename_i entry loaded
    cases ran
    obtain ⟨member, gsn⟩ := load_sound log inserted _ _ entry sound (Nat.mod_lt _ entries_per_block_pos) loaded
    have exact_gsn : entry.gsn = next := gsn.trans (Nat.div_add_mod' next numEntriesPerBlock)
    have bound := small entry member
    have last : uint64Max < 2 ^ 64 := by decide
    refine Or.inr ⟨entry, rfl, member, exact_gsn, stride, node, Or.inl ⟨rfl, ?_, ?_⟩⟩
    · rw [index, uint64_of_lt (by omega)]
    · rw [block]
      exact Nat.div_le_div_right (Nat.le_succ next)

theorem next_entry_takes (log after : Log) (inserted : List SubscriberLogEntry) (it moved : Iterator) (next : Nat)
    (found : Option SubscriberLogEntry) (sound : Sound log inserted) (small : ∀ entry ∈ inserted, entry.gsn < uint64Max)
    (order : InOrder it next) (ran : it.nextEntry log = some (after, moved, found)) :
    (found = none ∧ InOrder moved next) ∨ ∃ entry, found = some entry ∧ entry ∈ inserted ∧ entry.gsn = next ∧ InOrder moved (next + 1) := by
  cases order.standing with
  | inr considering =>
      obtain ⟨held, block, index⟩ := considering
      simp only [Iterator.nextEntry, held] at ran
      exact check_takes log after inserted it moved next found sound small order.stride order.node held block index ran
  | inl before =>
      obtain ⟨free, index, passed⟩ := before
      simp only [Iterator.nextEntry, free] at ran
      split at ran
      · cases ran
        exact Or.inl ⟨rfl, order.stride, order.node, Or.inl ⟨rfl, index, passed⟩⟩
      · have turns : it.blockIndex + it.turns = next / numEntriesPerBlock := by
          rw [Iterator.turns, index]
          omega
        have place : it.place = (next / numEntriesPerBlock, next % numEntriesPerBlock) := by
          rw [Iterator.place, order.node, turns, index]
        have ahead : (it.advance log).2.entryIndex = uint64 (next + 1) := by
          simp only [Iterator.advance, index, order.stride]
        rw [place] at ran
        exact check_takes _ after inserted (it.advance log).2 moved next found
          (counters_sound log inserted (countPassed log.counters it.counter it.turns) sound) small order.stride
          (by simp only [Iterator.advance, order.node]) (by simp only [Iterator.advance, place]) turns ahead ran

-- What next_entry did to the log and to the iterator that takes GSNs in order.
structure Advanced (log after : Log) (inserted : List SubscriberLogEntry) (it : Iterator) (next : Nat)
    (found : Option SubscriberLogEntry) : Prop where
  holds : Holds after inserted
  blocks : after.numBlocks = log.numBlocks
  order : match found with
    | none => InOrder it next
    | some entry => entry ∈ inserted ∧ entry.gsn = next ∧ InOrder it (next + 1)

-- One loop iteration of the application thread.
theorem next_entry_in_order (log after : Log) (inserted : List SubscriberLogEntry) (it moved : Iterator) (next : Nat)
    (found : Option SubscriberLogEntry) (holds : Holds log inserted) (small : ∀ entry ∈ inserted, entry.gsn < uint64Max)
    (order : InOrder it next) (ran : it.nextEntry log = some (after, moved, found)) :
    Advanced log after inserted moved next found := by
  obtain ⟨counters, same⟩ := next_entry_log log after it moved found ran
  subst same
  refine ⟨counters_hold log inserted counters holds, rfl, ?_⟩
  obtain ⟨none, standing⟩ | ⟨entry, some, member, gsn, moved_on⟩ :=
    next_entry_takes log _ inserted it moved next found (holds_sound log inserted holds) small order ran
  · rw [none]
    exact standing
  · rw [some]
    exact ⟨member, gsn, moved_on⟩

-- The application threads, the positions that poll threads insert with and the
-- control thread that recycles blocks, on one log. lasts holds the GSN each
-- position has inserted last; GSN 2^64 - 1 is the sentinel and is never used.
structure Delivery where
  log : Log
  positions : Nat → Position
  lasts : Nat → Option Nat
  iterators : Nat → Iterator
  inserted : List SubscriberLogEntry
  taken : List (Nat × Nat)

inductive Turn where
  | insert (position : Nat) (entry : SubscriberLogEntry)
  | process (thread : Nat)
  | recycle
deriving DecidableEq, Repr

def Delivery.init (threads : Nat) (unset : Nat → Nat) : Delivery :=
  ⟨Log.init threads, fun _ => Position.init, fun _ => none, fun thread => processIterator true thread threads (unset thread), [], []⟩

def Delivery.step (threads : Nat) (s : Delivery) : Turn → Option Delivery
  | .insert key entry =>
      if entry.gsn < uint64Max ∧ entry.gsn ∉ s.inserted.map SubscriberLogEntry.gsn ∧ above (s.lasts key) entry.gsn ∧
          (s.positions key).ready s.log entry.gsn then
        match (s.positions key).insert s.log entry with
        | none => none
        | some (log, position) => some { s with
            log := log
            positions := Function.update s.positions key position
            lasts := Function.update s.lasts key (some entry.gsn)
            inserted := s.inserted ++ [entry] }
      else none
  | .process thread =>
      if thread < threads then
        match (s.iterators thread).nextEntry s.log with
        | none => none
        | some (log, it, found) => some { s with
            log := log
            iterators := Function.update s.iterators thread it
            taken := s.taken ++ found.toList.map (fun entry => (thread, entry.gsn)) }
      else none
  | .recycle => some { s with log := s.log.recycleBlocks }

-- Sequential delivery to the given number of threads.
structure ExactlyOnce (threads : Nat) (s : Delivery) : Prop where
  once : (s.taken.map Prod.snd).Nodup
  owner : ∀ thread gsn, (thread, gsn) ∈ s.taken → thread = gsn % threads
  increasing : ∀ thread (index : Nat) gsn, ((s.taken.filter (fun take => take.1 == thread)).map Prod.snd)[index]? = some gsn →
    gsn = thread + index * threads
  complete : ∀ thread gsn, (thread, gsn) ∈ s.taken → ∀ below, below ≤ gsn → below ∈ s.inserted.map SubscriberLogEntry.gsn

structure Delivery.Inv (s : Delivery) (next : Nat) : Prop where
  holds : Holds s.log s.inserted
  small : ∀ entry ∈ s.inserted, entry.gsn < uint64Max
  placed : ∀ key, Placed s.log (s.positions key) (s.lasts key)
  order : InOrder (s.iterators 0) next
  taken : s.taken = (List.range next).map (fun gsn => (0, gsn))
  complete : ∀ gsn, gsn < next → gsn ∈ s.inserted.map SubscriberLogEntry.gsn

theorem delivery_step (s after : Delivery) (turn : Turn) (inv : ∃ next, s.Inv next) (stepped : s.step 1 turn = some after) :
    ∃ next, after.Inv next := by
  obtain ⟨next, inv⟩ := inv
  cases turn with
  | insert key entry =>
      simp only [Delivery.step] at stepped
      split at stepped
      · rename_i allowed
        obtain ⟨small, fresh, later, ready⟩ := allowed
        split at stepped
        · cases stepped
        · rename_i log position ran
          obtain rfl := Option.some.inj stepped
          have unseen : ∀ other ∈ s.inserted, other.gsn ≠ entry.gsn := by
            intro other member same
            exact fresh (same ▸ List.mem_map_of_mem member)
          obtain ⟨holds, placed, blocks, _⟩ := insert_holds s.log log s.inserted _ position _ entry inv.holds (inv.placed key) later
            unseen ready ran
          refine ⟨next, holds, ?_, ?_, inv.order, inv.taken, ?_⟩
          · intro other member
            cases List.mem_append.mp member with
            | inl old => exact inv.small other old
            | inr new => rw [List.mem_singleton.mp new]; exact small
          · intro other
            by_cases mine : other = key
            · subst mine
              simp only [Function.update_self]
              exact placed
            · simp only [Function.update_of_ne mine]
              exact placed_grow _ _ _ _ (Nat.le_of_eq blocks.symm) (inv.placed other)
          · intro gsn less
            rw [List.map_append]
            exact List.mem_append_left _ (inv.complete gsn less)
      · cases stepped
  | process thread =>
      simp only [Delivery.step] at stepped
      split at stepped
      · rename_i only
        obtain rfl : thread = 0 := Nat.lt_one_iff.mp only
        split at stepped
        · cases stepped
        · rename_i log it found ran
          obtain rfl := Option.some.inj stepped
          have advanced := next_entry_in_order s.log log s.inserted _ it next found inv.holds inv.small inv.order ran
          have placed : ∀ key, Placed log (s.positions key) (s.lasts key) := fun key =>
            placed_grow _ _ _ _ (Nat.le_of_eq advanced.blocks.symm) (inv.placed key)
          cases found with
          | none =>
              refine ⟨next, advanced.holds, inv.small, placed, ?_, ?_, inv.complete⟩
              · simp only [Function.update_self]
                exact advanced.order
              · simpa using inv.taken
          | some entry =>
              obtain ⟨member, gsn, order⟩ := advanced.order
              refine ⟨next + 1, advanced.holds, inv.small, placed, ?_, ?_, ?_⟩
              · simp only [Function.update_self]
                exact order
              · simp [inv.taken, gsn, List.range_succ]
              · intro below less
                cases Nat.lt_or_eq_of_le (Nat.le_of_lt_succ less) with
                | inl old => exact inv.complete below old
                | inr last => rw [last, ← gsn]; exact List.mem_map_of_mem member
      · cases stepped
  | recycle =>
      obtain rfl := Option.some.inj stepped
      exact ⟨next, recycle_holds _ _ inv.holds, inv.small, fun key => placed_grow _ _ _ _ (recycle_grows s.log) (inv.placed key),
        inv.order, inv.taken, inv.complete⟩

theorem delivery_run (unset : Nat → Nat) (turns : List Turn) (s : Delivery)
    (ran : Machine.run (Delivery.step 1) (Delivery.init 1 unset) turns = some s) : ∃ next, s.Inv next := by
  refine Machine.run_preserves (Delivery.step 1) (fun s => ∃ next, s.Inv next)
    (fun s turn after before stepped => delivery_step s after turn before stepped) _ s ⟨0, ?_⟩ turns ran
  refine ⟨init_holds 1, ?_, fun _ => init_placed _, process_iterator_in_order true (unset 0), rfl, ?_⟩
  · intro entry member
    cases member
  · intro gsn less
    exact absurd less (Nat.not_lt_zero gsn)

theorem exactly_once_of_inv (s : Delivery) (next : Nat) (inv : s.Inv next) : ExactlyOnce 1 s := by
  have gsns : s.taken.map Prod.snd = List.range next := by
    rw [inv.taken, List.map_map]
    exact List.map_id _
  refine ⟨gsns ▸ List.nodup_range, ?_, ?_, ?_⟩
  · intro thread gsn member
    rw [inv.taken] at member
    obtain ⟨_, _, same⟩ := List.mem_map.mp member
    cases same
    rw [Nat.mod_one]
  · intro thread index gsn access
    by_cases first : thread = 0
    · subst first
      have all : s.taken.filter (fun take => take.1 == 0) = s.taken := by
        rw [inv.taken]
        apply List.filter_eq_self.mpr
        intro take member
        obtain ⟨_, _, rfl⟩ := List.mem_map.mp member
        rfl
      rw [all, gsns] at access
      obtain ⟨_, value⟩ := List.getElem?_eq_some_iff.mp access
      rw [List.getElem_range] at value
      omega
    · have none : s.taken.filter (fun take => take.1 == thread) = [] := by
        rw [inv.taken]
        apply List.filter_eq_nil_iff.mpr
        intro take member same
        obtain ⟨_, _, rfl⟩ := List.mem_map.mp member
        have zero : 0 = thread := by simpa using same
        exact first zero.symm
      rw [none] at access
      cases access
  · intro thread gsn member below least
    have taken : gsn ∈ s.taken.map Prod.snd := List.mem_map_of_mem member
    rw [gsns] at taken
    exact inv.complete below (Nat.lt_of_le_of_lt least (List.mem_range.mp taken))

-- What the conversion to the base class does with two or more threads: every
-- thread starts at GSN 0.
theorem fresh_takes (log : Log) (entry : SubscriberLogEntry) (thread threads unset : Nat) (some_block : 0 < log.numBlocks)
    (loaded : log.load 0 0 = some (some entry)) :
    ∃ it, (processIterator true thread threads unset).nextEntry log = some (log, it, some entry) := by
  have turns : (processIterator true thread threads unset).turns = 0 := Nat.sub_eq_zero_of_le (Nat.le_of_eq (Nat.zero_div _))
  have place : (processIterator true thread threads unset).place = (0, 0) := by
    rw [Iterator.place, turns]
    exact Prod.ext rfl (Nat.zero_mod _)
  have same : ((processIterator true thread threads unset).advance log).1 = log := by
    simp only [Iterator.advance, turns, countPassed]
  have available : ¬ ((processIterator true thread threads unset).entryIndex / numEntriesPerBlock ≥
      (processIterator true thread threads unset).currentBlocks ∧
      (processIterator true thread threads unset).entryIndex / numEntriesPerBlock ≥ log.numBlocks) := by
    have start : (processIterator true thread threads unset).entryIndex / numEntriesPerBlock = 0 := Nat.zero_div _
    rw [start]
    omega
  have free : (processIterator true thread threads unset).entry = none := rfl
  simp only [Iterator.nextEntry, free, if_neg available, place, same, Iterator.check, loaded]
  exact ⟨_, rfl⟩

def firstEntry : SubscriberLogEntry := ⟨0, 0, 0, 0, 0, []⟩

theorem two_threads_take_first (threads : Nat) (several : 2 ≤ threads) (unset : Nat → Nat) :
    ∃ s, Machine.run (Delivery.step threads) (Delivery.init threads unset) [.insert 0 firstEntry, .process 0, .process 1] = some s ∧
      s.taken = [(0, 0), (1, 0)] := by
  let filled : Log := { Log.init threads with blocks := [some (Function.update zeroed 0 (some firstEntry)), some zeroed] }
  let first : Delivery := { Delivery.init threads unset with
    log := filled
    positions := Function.update (fun _ => Position.init) 0 ⟨2, 0, 0⟩
    lasts := Function.update (fun _ => none) 0 (some 0)
    inserted := [firstEntry] }
  have stored : (Delivery.init threads unset).step threads (.insert 0 firstEntry) = some first := rfl
  have loaded : filled.load 0 0 = some (some firstEntry) := rfl
  obtain ⟨it, takes⟩ := fresh_takes filled firstEntry 0 threads (unset 0) (Nat.succ_pos 1) loaded
  obtain ⟨it', takes'⟩ := fresh_takes filled firstEntry 1 threads (unset 1) (Nat.succ_pos 1) loaded
  have again : (Function.update (fun thread => processIterator true thread threads (unset thread)) 0 it) 1 =
      processIterator true 1 threads (unset 1) := Function.update_of_ne (by decide) _ _
  refine ⟨{ first with
    iterators := Function.update (Function.update first.iterators 0 it) 1 it'
    taken := [(0, 0), (1, 0)] }, ?_, rfl⟩
  simp only [Machine.run, List.foldlM_cons, List.foldlM_nil, stored, Option.bind_eq_bind, Option.bind_some]
  have second : first.step threads (.process 0) = some { first with
      iterators := Function.update first.iterators 0 it, taken := [(0, 0)] } := by
    simp only [Delivery.step, if_pos (show 0 < threads by omega)]
    change (match (processIterator true 0 threads (unset 0)).nextEntry filled with | none => none | some (log, it, found) => _) = _
    rw [takes]
    rfl
  rw [second, Option.bind_some]
  simp only [Delivery.step, if_pos (show 1 < threads by omega)]
  change ((match (Function.update (fun thread => processIterator true thread threads (unset thread)) 0 it 1).nextEntry filled with
    | none => none | some (log, it, found) => _) : Option Delivery).bind _ = _
  rw [again, takes']
  rfl

theorem shared_start (threads : Nat) (s : Delivery) (taken : s.taken = [(0, 0), (1, 0)]) : ¬ ExactlyOnce threads s := by
  intro exact_once
  have once := exact_once.once
  rw [taken] at once
  exact absurd once (by decide)

end ZipLog.Subscriber
