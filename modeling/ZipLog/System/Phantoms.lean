import ZipLog.Storage.Fresh
import ZipLog.Subscriber.Fresh

set_option autoImplicit false

namespace ZipLog.System

open Storage (Memory Traced Blank Call)
open Subscriber (Probing Vacant Turn)

-- Nothing is read of memory that nobody wrote, in runs of the two logs whose pages read
-- as zero where the logs look, and whose iterators start with no more than two blocks.
theorem no_phantom_entries (memory : Memory) (readers : Nat) (calls : List Call) (storage : Traced)
    (stored : Machine.run (Traced.step memory) (Traced.init memory readers) calls = some storage)
    (blank : ∀ block, block < storage.log.blocks.length → Blank (memory block)) (threads : Nat) (pages : Nat → Subscriber.Block)
    (unset : Nat → Nat) (turns : List Turn) (subscriber : Probing)
    (delivered : Machine.run Probing.step (Probing.init threads pages unset) turns = some subscriber)
    (vacant : ∀ page, page < 2 → Vacant (pages page)) (cached : ∀ thread, unset thread ≤ 2) : storage.Backed ∧ subscriber.Backed :=
  ⟨(Storage.traced_run memory readers calls storage stored blank).backed,
    (Subscriber.probing_run threads pages unset turns subscriber vacant cached delivered).backed⟩

def oneEntry : List Call := [.beginEntries ⟨7, [⟨0, 1⟩]⟩, .yield, .publish, .nextEntry 0, .insert 0 ⟨[1], []⟩ 1, .nextEntry 0]

theorem no_phantom_entries_zeroed : ∃ storage subscriber, Machine.run (Traced.step Storage.zeroed) (Traced.init Storage.zeroed 1) oneEntry = some storage ∧
    Machine.run Probing.step (Probing.init 2 (fun _ => Subscriber.zeroed) (fun _ => 2)) [.process 0, .insert 0 Subscriber.firstEntry, .process 0] =
      some subscriber ∧ storage.Backed ∧ subscriber.Backed := by
  have first : (Machine.run (Traced.step Storage.zeroed) (Traced.init Storage.zeroed 1) oneEntry).isSome = true := by decide +kernel
  have second : (Machine.run Probing.step (Probing.init 2 (fun _ => Subscriber.zeroed) (fun _ => 2))
      [.process 0, .insert 0 Subscriber.firstEntry, .process 0]).isSome = true := by decide +kernel
  obtain ⟨storage, stored⟩ := Option.isSome_iff_exists.mp first
  obtain ⟨subscriber, delivered⟩ := Option.isSome_iff_exists.mp second
  exact ⟨storage, subscriber, stored, delivered, no_phantom_entries Storage.zeroed 1 oneEntry storage stored (fun _ _ _ _ => ⟨rfl, rfl⟩) 2
    (fun _ => Subscriber.zeroed) (fun _ => 2) _ subscriber delivered (fun _ _ _ _ => rfl) (fun _ => Nat.le_refl 2)⟩

-- A page that holds ones. The first entry is returned before any insert.
def dirty : Memory := fun _ _ => { Storage.Entry.zero with set := true }

-- The iterator of thread 2 * NUM_ENTRIES_PER_BLOCK starts in the third block, of which
-- there are two.
theorem phantom_entry_returned : (∃ storage, Machine.run (Traced.step dirty) (Traced.init dirty 1) (oneEntry.take 4) = some storage ∧
      ¬ storage.Backed) ∧
    ∃ subscriber, Machine.run Probing.step (Probing.init (2 * numEntriesPerBlock + 1) (fun _ => Subscriber.zeroed) (fun _ => 3))
      [.process (2 * numEntriesPerBlock)] = some subscriber ∧ ¬ subscriber.Backed := by
  constructor
  · have outcome : (Machine.run (Traced.step dirty) (Traced.init dirty 1) (oneEntry.take 4)).map (fun s => (s.returned, s.marked)) =
        some ([⟨0, 0⟩], []) := by decide +kernel
    obtain ⟨storage, ran, values⟩ := Option.map_eq_some_iff.mp outcome
    obtain ⟨returned, marked⟩ := Prod.mk.inj values
    refine ⟨storage, ran, fun backed => ?_⟩
    have member := backed.set ⟨0, 0⟩ (by rw [returned]; exact List.mem_cons_self)
    rw [marked] at member
    exact List.not_mem_nil member
  · have outcome : (Machine.run Probing.step (Probing.init (2 * numEntriesPerBlock + 1) (fun _ => Subscriber.zeroed) (fun _ => 3))
        [.process (2 * numEntriesPerBlock)]).map (fun s => (s.looked, s.log.numBlocks)) = some ([2], 2) := by decide +kernel
    obtain ⟨subscriber, ran, values⟩ := Option.map_eq_some_iff.mp outcome
    obtain ⟨looked, numBlocks⟩ := Prod.mk.inj values
    refine ⟨subscriber, ran, fun backed => ?_⟩
    have inside := backed.inside 2 (by rw [looked]; exact List.mem_cons_self)
    rw [numBlocks] at inside
    exact Nat.lt_irrefl 2 inside

end ZipLog.System
