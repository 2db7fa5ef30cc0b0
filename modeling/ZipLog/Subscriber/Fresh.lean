import ZipLog.Subscriber.Recycle

set_option autoImplicit false

namespace ZipLog.Subscriber

-- The block that a call of next_entry looks into.
def Iterator.looks (log : Log) (it : Iterator) : Option Nat :=
  match it.entry with
  | some place => some place.1
  | none =>
      if it.entryIndex / numEntriesPerBlock ≥ it.currentBlocks ∧ it.entryIndex / numEntriesPerBlock ≥ log.numBlocks then none
      else some it.place.1

-- The log with whatever its first pages and current_blocks_ of the iterators hold.
-- looked are the blocks that next_entry has looked into, returned its results. A bad
-- access ends the process.
structure Probing where
  log : Paged
  positions : Nat → Position
  iterators : Nat → Iterator
  inserted : List SubscriberLogEntry
  returned : List SubscriberLogEntry
  looked : List Nat
  ended : Bool

def Probing.init (threads : Nat) (pages : Nat → Block) (unset : Nat → Nat) : Probing :=
  ⟨{ Paged.init threads with pages := pages }, fun _ => Position.init, fun thread => Iterator.init thread threads (unset thread), [], [], [],
    false⟩

def Probing.turn (s : Probing) : Turn → Option Probing
  | .insert key entry =>
      if (s.positions key).ready s.log.view entry.gsn then
        match s.log.insert (s.positions key) entry with
        | none => some { s with inserted := s.inserted ++ [entry], ended := true }
        | some (log, position) => some { s with
            log := log, positions := Function.update s.positions key position, inserted := s.inserted ++ [entry] }
      else none
  | .process thread =>
      let looked := s.looked ++ ((s.iterators thread).looks s.log.view).toList
      match s.log.nextEntry (s.iterators thread) with
      | none => some { s with looked := looked, ended := true }
      | some (log, it, found) => some { s with
          log := log
          iterators := Function.update s.iterators thread it
          returned := s.returned ++ found.toList
          looked := looked }
  | .recycle =>
      match s.log.recycleBlocks with
      | none => some { s with ended := true }
      | some log => some { s with log := log }

def Probing.step (s : Probing) (turn : Turn) : Option Probing := if s.ended = true then none else s.turn turn

structure Probing.Backed (s : Probing) : Prop where
  inserted : ∀ entry ∈ s.returned, entry ∈ s.inserted
  inside : ∀ block ∈ s.looked, block < s.log.numBlocks

def Vacant (block : Block) : Prop := ∀ slot, slot < numEntriesPerBlock → block slot = none

-- An iterator that looks into no block that is not there.
structure Probes (numBlocks : Nat) (it : Iterator) : Prop where
  cached : it.currentBlocks ≤ numBlocks
  node : it.block = it.blockIndex
  inside : it.blockIndex < numBlocks
  waiting : ∀ place, it.entry = some place → place.1 < numBlocks ∧ place.2 < numEntriesPerBlock

theorem probes_later (numBlocks more : Nat) (it : Iterator) (probes : Probes numBlocks it) (grown : numBlocks ≤ more) : Probes more it :=
  ⟨Nat.le_trans probes.cached grown, probes.node, Nat.lt_of_lt_of_le probes.inside grown,
    fun place there => (probes.waiting place there).imp_left (fun less => Nat.lt_of_lt_of_le less grown)⟩

theorem place_inside (log : Log) (it : Iterator) (probes : Probes log.numBlocks it)
    (present : ¬ (it.entryIndex / numEntriesPerBlock ≥ it.currentBlocks ∧ it.entryIndex / numEntriesPerBlock ≥ log.numBlocks)) :
    it.place.1 < log.numBlocks ∧ it.place.2 < numEntriesPerBlock := by
  refine ⟨?_, Nat.mod_lt _ entries_per_block_pos⟩
  have cached := probes.cached
  have inside := probes.inside
  unfold Iterator.place Iterator.turns
  rw [probes.node]
  dsimp only
  omega

theorem looks_inside (log : Log) (it : Iterator) (probes : Probes log.numBlocks it) (block : Nat) (looks : it.looks log = some block) :
    block < log.numBlocks := by
  unfold Iterator.looks at looks
  split at looks
  · rename_i place there
    rw [← Option.some.inj looks]
    exact (probes.waiting place there).1
  · split at looks
    · cases looks
    · rename_i present
      rw [← Option.some.inj looks]
      exact (place_inside log it probes present).1

theorem check_probes (log after : Log) (it moved : Iterator) (place : Nat × Nat) (found : Option SubscriberLogEntry) (numBlocks : Nat)
    (probes : Probes numBlocks it) (inside : place.2 < numEntriesPerBlock) (ran : it.check log place = some (after, moved, found)) :
    after = log ∧ Probes numBlocks moved ∧
      ∀ entry, found = some entry → ∃ block slot, slot < numEntriesPerBlock ∧ log.load block slot = some (some entry) := by
  unfold Iterator.check at ran
  split at ran
  · cases ran
  · cases ran
    exact ⟨rfl, probes, fun entry none_ => absurd none_ (Option.some_ne_none entry).symm⟩
  · rename_i ptr loaded
    cases ran
    refine ⟨rfl, ⟨probes.cached, probes.node, probes.inside, fun _ there => absurd there (Option.some_ne_none _).symm⟩, ?_⟩
    intro entry same
    exact ⟨place.1, place.2, inside, loaded.trans (congrArg some same)⟩

-- next_entry returns what a block holds, and stays in the blocks that are there.
theorem next_entry_probes (log after : Log) (it moved : Iterator) (found : Option SubscriberLogEntry) (probes : Probes log.numBlocks it)
    (ran : it.nextEntry log = some (after, moved, found)) : Probes log.numBlocks moved ∧
      ∀ entry, found = some entry → ∃ block slot, slot < numEntriesPerBlock ∧ log.load block slot = some (some entry) := by
  unfold Iterator.nextEntry at ran
  split at ran
  · rename_i place there
    exact (check_probes log after it moved place found log.numBlocks probes (probes.waiting place there).2 ran).2
  · split at ran
    · cases ran
      exact ⟨⟨Nat.le_refl _, probes.node, probes.inside, probes.waiting⟩, fun entry none_ => absurd none_ (Option.some_ne_none entry).symm⟩
    · rename_i present
      have place := place_inside log it probes present
      have stands : Probes log.numBlocks (it.advance log).2 := by
        refine ⟨?_, congrArg (· + it.turns) probes.node, ?_, ?_⟩
        · unfold Iterator.advance
          dsimp only
          split
          · exact Nat.le_refl _
          · exact probes.cached
        · have inside := place.1
          unfold Iterator.place at inside
          rw [probes.node] at inside
          exact inside
        · intro other there
          rw [← Option.some.inj there]
          exact place
      exact (check_probes _ after _ moved it.place found log.numBlocks stands place.2 ran).2

structure Probing.Inv (s : Probing) : Prop where
  pages : ∀ page slot entry, page < 2 → slot < numEntriesPerBlock → s.log.pages page slot = some entry → entry ∈ s.inserted
  nodes : ∀ page, some page ∈ s.log.blocks → page < 2
  probes : ∀ thread, Probes s.log.numBlocks (s.iterators thread)
  backed : s.Backed

theorem probing_init (threads : Nat) (pages : Nat → Block) (unset : Nat → Nat) (vacant : ∀ page, page < 2 → Vacant (pages page))
    (cached : ∀ thread, unset thread ≤ 2) : (Probing.init threads pages unset).Inv := by
  refine ⟨?_, ?_, ?_, fun _ member => absurd member List.not_mem_nil, fun _ member => absurd member List.not_mem_nil⟩
  · intro page slot entry first inside there
    have none_ := vacant page first slot inside
    exact absurd (none_.symm.trans there) (Option.some_ne_none entry).symm
  · intro page member
    have member : some page ∈ [some 0, some 1] := member
    simp only [List.mem_cons, Option.some.injEq, List.not_mem_nil, or_false] at member
    omega
  · intro thread
    exact ⟨cached thread, rfl, Nat.succ_pos 1, fun _ there => absurd there (Option.some_ne_none _).symm⟩

theorem view_load (log : Paged) (block slot : Nat) (entry : SubscriberLogEntry) (loaded : log.view.load block slot = some (some entry)) :
    ∃ page, some page ∈ log.blocks ∧ log.pages page slot = some entry := by
  obtain ⟨cells, present, value⟩ := Option.map_eq_some_iff.mp loaded
  have found := Option.join_eq_some_iff.mp present
  change (log.blocks.map (fun node => node.map log.pages))[block]? = some (some cells) at found
  rw [List.getElem?_map] at found
  obtain ⟨node, there, same⟩ := Option.map_eq_some_iff.mp found
  obtain ⟨page, rfl, rfl⟩ := Option.map_eq_some_iff.mp same
  exact ⟨page, List.mem_of_getElem? there, value⟩

theorem insert_probing (s : Probing) (inv : s.Inv) (key : Nat) (entry : SubscriberLogEntry) (log : Paged) (position : Position)
    (ran : s.log.insert (s.positions key) entry = some (log, position)) : Probing.Inv { s with
      log := log, positions := Function.update s.positions key position, inserted := s.inserted ++ [entry] } := by
  unfold Paged.insert at ran
  dsimp only at ran
  split at ran
  · cases ran
  · rename_i stored store
    cases ran
    unfold Paged.store at store
    split at store
    · cases store
    · rename_i page node
      cases store
      refine ⟨?_, inv.nodes, inv.probes, fun other member => List.mem_append_left _ (inv.backed.inserted other member), inv.backed.inside⟩
      intro other slot found first inside there
      dsimp only at there
      by_cases same : other = page
      · rw [same] at there first
        rw [Function.update_self] at there
        by_cases here : slot = entry.gsn % numEntriesPerBlock
        · rw [here, Function.update_self] at there
          rw [← Option.some.inj there]
          exact List.mem_append_right _ List.mem_cons_self
        · rw [Function.update_of_ne here] at there
          exact List.mem_append_left _ (inv.pages page slot found first inside there)
      · rw [Function.update_of_ne same] at there
        exact List.mem_append_left _ (inv.pages other slot found first inside there)

theorem process_probing (s : Probing) (inv : s.Inv) (thread : Nat) (log : Paged) (it : Iterator) (found : Option SubscriberLogEntry)
    (ran : s.log.nextEntry (s.iterators thread) = some (log, it, found)) : Probing.Inv { s with
      log := log
      iterators := Function.update s.iterators thread it
      returned := s.returned ++ found.toList
      looked := s.looked ++ ((s.iterators thread).looks s.log.view).toList } := by
  unfold Paged.nextEntry at ran
  split at ran
  · cases ran
  · rename_i after moved result answer
    cases ran
    obtain ⟨probes, holds⟩ := next_entry_probes s.log.view after (s.iterators thread) it found (inv.probes thread) answer
    refine ⟨inv.pages, inv.nodes, ?_, ?_, ?_⟩
    · intro other
      dsimp only
      by_cases same : other = thread
      · rw [same, Function.update_self]
        exact probes
      · rw [Function.update_of_ne same]
        exact inv.probes other
    · intro entry member
      obtain old | new := List.mem_append.mp member
      · exact inv.backed.inserted entry old
      · obtain ⟨block, slot, inside, loaded⟩ := holds entry (Option.mem_toList.mp new)
        obtain ⟨page, node, there⟩ := view_load s.log block slot entry loaded
        exact inv.pages page slot entry (inv.nodes page node) inside there
    · intro block member
      obtain old | new := List.mem_append.mp member
      · exact inv.backed.inside block old
      · exact looks_inside s.log.view (s.iterators thread) (inv.probes thread) block (Option.mem_toList.mp new)

theorem recycle_probing (s : Probing) (inv : s.Inv) (log : Paged) (ran : s.log.recycleBlocks = some log) :
    Probing.Inv { s with log := log } := by
  unfold Paged.recycleBlocks at ran
  split at ran
  · cases ran
  · split at ran
    · split at ran
      · cases ran
      · rename_i page node
        cases ran
        have first : page < 2 := inv.nodes page (List.mem_of_getElem? (Option.join_eq_some_iff.mp node))
        refine ⟨?_, ?_, fun thread => probes_later _ _ _ (inv.probes thread) (Nat.le_succ _), inv.backed.inserted,
          fun block member => Nat.lt_succ_of_lt (inv.backed.inside block member)⟩
        · intro other slot entry below inside there
          dsimp only at there
          by_cases same : other = page
          · rw [same, Function.update_self] at there
            exact absurd there (Option.some_ne_none entry).symm
          · rw [Function.update_of_ne same] at there
            exact inv.pages other slot entry below inside there
        · intro other member
          obtain old | last := List.mem_append.mp member
          · obtain before | none_ := List.mem_or_eq_of_mem_set old
            · exact inv.nodes other before
            · exact absurd none_ (Option.some_ne_none other)
          · rw [Option.some.inj (List.mem_singleton.mp last)]
            exact first
    · cases ran
      exact inv

theorem turn_probing (s next : Probing) (turn : Turn) (inv : s.Inv) (taken : s.turn turn = some next) : next.Inv := by
  cases turn with
  | insert key entry =>
      obtain ⟨-, ran⟩ := Option.ite_none_right_eq_some.mp taken
      split at ran
      · rw [← Option.some.inj ran]
        exact ⟨fun page slot found first inside there => List.mem_append_left _ (inv.pages page slot found first inside there), inv.nodes,
          inv.probes, fun other member => List.mem_append_left _ (inv.backed.inserted other member), inv.backed.inside⟩
      · rename_i log position result
        rw [← Option.some.inj ran]
        exact insert_probing s inv key entry log position result
  | process thread =>
      unfold Probing.turn at taken
      dsimp only at taken
      split at taken
      · rw [← Option.some.inj taken]
        refine ⟨inv.pages, inv.nodes, inv.probes, inv.backed.inserted, ?_⟩
        intro block member
        obtain old | new := List.mem_append.mp member
        · exact inv.backed.inside block old
        · exact looks_inside s.log.view (s.iterators thread) (inv.probes thread) block (Option.mem_toList.mp new)
      · rename_i log it found result
        rw [← Option.some.inj taken]
        exact process_probing s inv thread log it found result
  | recycle =>
      unfold Probing.turn at taken
      dsimp only at taken
      split at taken
      · rw [← Option.some.inj taken]
        exact ⟨inv.pages, inv.nodes, inv.probes, inv.backed.inserted, inv.backed.inside⟩
      · rename_i log result
        rw [← Option.some.inj taken]
        exact recycle_probing s inv log result

theorem probing_run (threads : Nat) (pages : Nat → Block) (unset : Nat → Nat) (turns : List Turn) (s : Probing)
    (vacant : ∀ page, page < 2 → Vacant (pages page)) (cached : ∀ thread, unset thread ≤ 2)
    (ran : Machine.run Probing.step (Probing.init threads pages unset) turns = some s) : s.Inv :=
  Machine.run_preserves Probing.step Probing.Inv
    (fun s turn next inv taken => turn_probing s next turn inv (Option.ite_none_left_eq_some.mp taken).2) _ s
    (probing_init threads pages unset vacant cached) turns ran

end ZipLog.Subscriber
