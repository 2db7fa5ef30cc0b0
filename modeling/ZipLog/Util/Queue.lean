import Mathlib.Data.List.Nodup
import ZipLog.Api
import ZipLog.Lib.Run

set_option autoImplicit false

namespace ZipLog.Util

variable {α : Type}

structure Cell (α : Type) where
  address : Nat
  element : α

-- std::list: an iterator is the address of a cell, or end(). The list and the iterator
-- to the next cell, or nothing where the iterator is not one of the list.
def erase (list : List (Cell α)) (iterator : Option Nat) : Option (List (Cell α) × Option Nat) :=
  match list.dropWhile (fun cell => some cell.address ≠ iterator) with
  | [] => none
  | _ :: rest => some (list.takeWhile (fun cell => some cell.address ≠ iterator) ++ rest, rest.head?.map Cell.address)

def dereference (list : List (Cell α)) (iterator : Option Nat) : Option (Cell α) :=
  list.find? (fun cell => some cell.address = iterator)

structure Queue (α : Type) where
  list : List (Cell α) := []
  numPolled : Nat := 0
  iterator : Option Nat := none

-- With the value that num_enqueued_ is loaded with. Nothing where the code would erase
-- or dereference an iterator that denotes no element.
def Queue.dequeue (queue : Queue α) (numEnqueued : Nat) : Option (Queue α × Option (Cell α)) :=
  if queue.numPolled < numEnqueued then do
    let (list, iterator) ← if queue.numPolled = 0 then some (queue.list, queue.list.head?.map Cell.address) else erase queue.list queue.iterator
    let cell ← dereference list iterator
    some (⟨list, uint64 (queue.numPolled + 1), iterator⟩, some cell)
  else some (queue, none)

-- The queue between its two threads. num_enqueued_ holds uint64 raised; appended is an
-- element that has not been counted yet, and seen the increments that the reader has
-- seen. enqueued and returned are the history.
structure Shared (α : Type) where
  queue : Queue α := {}
  appended : Bool := false
  raised : Nat := 0
  seen : Nat := 0
  enqueued : List (Cell α) := []
  returned : List (Cell α) := []

-- The list takes memory that no element of it has. The load of a dequeue may see an
-- earlier value of the counter, but none before the one it saw last.
inductive QueueStep (α : Type) where
  | append (address : Nat) (element : α)
  | count
  | dequeue (seen : Nat)

def Shared.step (shared : Shared α) : QueueStep α → Option (Shared α)
  | .append address element =>
      if shared.appended = false ∧ address ∉ shared.queue.list.map Cell.address then
        let cell : Cell α := ⟨address, element⟩
        some { shared with
          queue := { shared.queue with list := shared.queue.list ++ [cell] }, appended := true, enqueued := shared.enqueued ++ [cell] }
      else none
  | .count => if shared.appended = true then some { shared with appended := false, raised := shared.raised + 1 } else none
  | .dequeue seen =>
      if shared.seen ≤ seen ∧ seen ≤ shared.raised then
        (shared.queue.dequeue (uint64 seen)).map (fun answer =>
          { shared with queue := answer.1, seen := seen, returned := shared.returned ++ answer.2.toList })
      else none

-- The iterator is at the element that was returned last, which the list still has
-- before those that wait.
structure Shared.Inv (shared : Shared α) : Prop where
  counted : shared.raised + shared.appended.toNat = shared.enqueued.length
  polled : shared.queue.numPolled = shared.returned.length
  behind : shared.returned.length ≤ shared.seen
  known : shared.seen ≤ shared.raised
  kept : ∃ waiting, shared.enqueued = shared.returned ++ waiting ∧ shared.queue.list = shared.returned.getLast?.toList ++ waiting
  placed : shared.queue.iterator = shared.returned.getLast?.map Cell.address
  distinct : (shared.queue.list.map Cell.address).Nodup

structure Lossless (shared : Shared α) : Prop where
  ordered : shared.returned <+: shared.enqueued
  answered : ∀ seen, shared.seen ≤ seen → seen ≤ shared.raised → ∃ queue result, shared.queue.dequeue (uint64 seen) = some (queue, result) ∧
    (result = none → seen ≤ shared.returned.length) ∧ ∀ cell, result = some cell → shared.enqueued[shared.returned.length]? = some cell
  denoted : shared.returned ≠ [] → ∃ cell ∈ shared.queue.list, shared.queue.iterator = some cell.address
  valid : ∀ cell, shared.returned.getLast? = some cell → cell ∈ shared.queue.list

theorem erase_head (cell : Cell α) (rest : List (Cell α)) :
    erase (cell :: rest) (some cell.address) = some (rest, rest.head?.map Cell.address) := by
  unfold erase
  simp

theorem dereference_head (cell : Cell α) (rest : List (Cell α)) : dereference (cell :: rest) (some cell.address) = some cell := by
  unfold dereference
  simp

-- Where all that was seen has been returned, the queue stays. Else the first that waits
-- is returned, and the one before it is erased.
theorem dequeue_cases (shared : Shared α) (inv : shared.Inv) (few : shared.raised < 2 ^ 64) (seen : Nat) (later : shared.seen ≤ seen)
    (known : seen ≤ shared.raised) :
    (seen = shared.returned.length ∧ shared.queue.dequeue (uint64 seen) = some (shared.queue, none)) ∨
      ∃ cell rest, shared.returned.length < seen ∧ shared.enqueued = shared.returned ++ cell :: rest ∧
        (cell :: rest).Sublist shared.queue.list ∧
        shared.queue.dequeue (uint64 seen) = some (⟨cell :: rest, shared.returned.length + 1, some cell.address⟩, some cell) := by
  obtain ⟨waiting, whole, list⟩ := inv.kept
  have behind := inv.behind
  have value : uint64 seen = seen := uint64_of_lt (by omega)
  unfold Queue.dequeue
  rw [value, inv.polled]
  by_cases more : shared.returned.length < seen
  · right
    have nonempty : waiting ≠ [] := by
      intro none_
      have counted := inv.counted
      rw [whole, none_, List.append_nil] at counted
      omega
    obtain ⟨cell, rest, rfl⟩ := List.exists_cons_of_ne_nil nonempty
    refine ⟨cell, rest, more, whole, ?_, ?_⟩
    · rw [list]
      exact List.sublist_append_right _ _
    · have next : uint64 (shared.returned.length + 1) = shared.returned.length + 1 := uint64_of_lt (by omega)
      rw [if_pos more, next]
      by_cases first : shared.returned.length = 0
      · rw [if_pos first, list, List.length_eq_zero_iff.mp first]
        exact congrArg (Option.bind · _) (dereference_head cell rest)
      · obtain ⟨last, isLast⟩ := Option.isSome_iff_exists.mp (List.getLast?_isSome.mpr (List.ne_nil_of_length_pos (Nat.pos_of_ne_zero first)))
        rw [if_neg first, list, inv.placed, isLast]
        change (erase (last :: cell :: rest) (some last.address)).bind _ = _
        rw [erase_head]
        exact congrArg (Option.bind · _) (dereference_head cell rest)
  · left
    refine ⟨by omega, if_neg more⟩

theorem append_inv (shared next : Shared α) (address : Nat) (element : α) (inv : shared.Inv)
    (taken : shared.step (.append address element) = some next) : next.Inv := by
  obtain ⟨enabled, same⟩ := Option.ite_none_right_eq_some.mp taken
  rw [← Option.some.inj same]
  obtain ⟨waiting, whole, list⟩ := inv.kept
  refine ⟨?_, inv.polled, inv.behind, inv.known, ⟨waiting ++ [⟨address, element⟩], ?_, ?_⟩, inv.placed, ?_⟩
  · have counted := inv.counted
    rw [enabled.1] at counted
    rw [List.length_append, ← counted]
    rfl
  · change shared.enqueued ++ _ = _
    rw [whole, List.append_assoc]
  · change shared.queue.list ++ _ = _
    rw [list, List.append_assoc]
  · change ((shared.queue.list ++ [_]).map Cell.address).Nodup
    rw [List.map_append, List.map_singleton, List.nodup_append]
    refine ⟨inv.distinct, List.nodup_singleton _, ?_⟩
    intro other inside same last equal
    rw [List.mem_singleton.mp last] at equal
    refine enabled.2 ?_
    change (⟨address, element⟩ : Cell α).address ∈ _
    rw [← equal]
    exact inside

theorem count_inv (shared next : Shared α) (inv : shared.Inv) (taken : shared.step .count = some next) : next.Inv := by
  obtain ⟨waits, same⟩ := Option.ite_none_right_eq_some.mp taken
  rw [← Option.some.inj same]
  refine ⟨?_, inv.polled, inv.behind, Nat.le_succ_of_le inv.known, inv.kept, inv.placed, inv.distinct⟩
  have counted := inv.counted
  rw [waits] at counted
  exact counted

theorem dequeue_inv (shared next : Shared α) (seen : Nat) (inv : shared.Inv) (few : shared.raised < 2 ^ 64)
    (taken : shared.step (.dequeue seen) = some next) : next.Inv := by
  obtain ⟨load, answered⟩ := Option.ite_none_right_eq_some.mp taken
  obtain ⟨answer, dequeued, rfl⟩ := Option.map_eq_some_iff.mp answered
  obtain ⟨all, empty⟩ | ⟨cell, rest, more, whole, still, first⟩ := dequeue_cases shared inv few seen load.1 load.2
  · rw [empty] at dequeued
    rw [← Option.some.inj dequeued]
    dsimp only
    rw [Option.toList_none, List.append_nil]
    exact ⟨inv.counted, inv.polled, Nat.le_of_eq all.symm, load.2, inv.kept, inv.placed, inv.distinct⟩
  · rw [first] at dequeued
    rw [← Option.some.inj dequeued]
    refine ⟨inv.counted, ?_, ?_, load.2, ⟨rest, ?_, ?_⟩, ?_, ?_⟩
    · change shared.returned.length + 1 = (shared.returned ++ [cell]).length
      rw [List.length_append]
      rfl
    · change (shared.returned ++ [cell]).length ≤ seen
      rw [List.length_append]
      exact more
    · exact whole.trans (List.append_cons _ _ _)
    · change cell :: rest = (shared.returned ++ [cell]).getLast?.toList ++ rest
      rw [List.getLast?_concat]
      rfl
    · change some cell.address = (shared.returned ++ [cell]).getLast?.map Cell.address
      rw [List.getLast?_concat]
      rfl
    · exact inv.distinct.sublist (still.map Cell.address)

theorem queue_step_inv (shared next : Shared α) (label : QueueStep α) (inv : shared.Inv) (few : shared.raised < 2 ^ 64)
    (taken : shared.step label = some next) : next.Inv := by
  cases label with
  | append address element => exact append_inv shared next address element inv taken
  | count => exact count_inv shared next inv taken
  | dequeue seen => exact dequeue_inv shared next seen inv few taken

theorem raised_step (shared next : Shared α) (label : QueueStep α) (taken : shared.step label = some next) : shared.raised ≤ next.raised := by
  cases label with
  | append address element =>
      rw [← Option.some.inj (Option.ite_none_right_eq_some.mp taken).2]
  | count =>
      rw [← Option.some.inj (Option.ite_none_right_eq_some.mp taken).2]
      exact Nat.le_succ _
  | dequeue seen =>
      obtain ⟨answer, -, rfl⟩ := Option.map_eq_some_iff.mp (Option.ite_none_right_eq_some.mp taken).2
      exact Nat.le_refl _

theorem queue_run_inv (labels : List (QueueStep α)) (shared : Shared α) (ran : Machine.run Shared.step {} labels = some shared)
    (few : shared.raised < 2 ^ 64) : shared.Inv := by
  refine Machine.run_invariant Shared.step {} (fun _ s => s.raised < 2 ^ 64 → s.Inv) ?_ ?_ labels shared ran few
  · exact fun _ => ⟨rfl, rfl, Nat.le_refl _, Nat.le_refl _, ⟨[], rfl, rfl⟩, rfl, List.nodup_nil⟩
  · intro before s label next inv taken small
    have earlier := Nat.lt_of_le_of_lt (raised_step s next label taken) small
    exact queue_step_inv s next label (inv earlier) earlier taken

theorem queue_lossless (labels : List (QueueStep α)) (shared : Shared α) (ran : Machine.run Shared.step {} labels = some shared)
    (few : shared.raised < 2 ^ 64) : Lossless shared := by
  have inv := queue_run_inv labels shared ran few
  obtain ⟨waiting, whole, list⟩ := inv.kept
  have valid : ∀ cell, shared.returned.getLast? = some cell → cell ∈ shared.queue.list := by
    intro cell last
    rw [list, last]
    exact List.mem_append_left _ List.mem_cons_self
  refine ⟨⟨waiting, whole.symm⟩, ?_, ?_, valid⟩
  · intro seen later known
    obtain ⟨all, empty⟩ | ⟨cell, rest, -, split, -, first⟩ := dequeue_cases shared inv few seen later known
    · exact ⟨_, _, empty, fun _ => Nat.le_of_eq all, fun cell none_ => absurd none_ (Option.some_ne_none cell).symm⟩
    · refine ⟨_, _, first, fun none_ => absurd none_ (Option.some_ne_none cell), ?_⟩
      intro other same
      rw [split, List.getElem?_append_right (Nat.le_refl _), Nat.sub_self]
      exact same
  · intro nonempty
    obtain ⟨last, isLast⟩ := Option.isSome_iff_exists.mp (List.getLast?_isSome.mpr nonempty)
    refine ⟨last, valid last isLast, ?_⟩
    rw [inv.placed, isLast]
    rfl

-- The third element takes the memory of the first, which the second dequeue has erased.
def threeElements : List (QueueStep Nat) :=
  [.append 8 1, .count, .append 4 2, .dequeue 1, .count, .dequeue 2, .append 8 3, .dequeue 2]

theorem queue_lossless_three : ∃ shared, Machine.run Shared.step {} threeElements = some shared ∧ Lossless shared := by
  have counted : (Machine.run Shared.step {} threeElements).map Shared.raised = some 2 := by decide
  obtain ⟨shared, ran, raised⟩ := Option.map_eq_some_iff.mp counted
  refine ⟨shared, ran, queue_lossless threeElements shared ran ?_⟩
  rw [raised]
  decide

-- Nothing is dequeued while elements come in, each in a place of its own.
theorem enqueue_rounds (element : α) (rounds : Nat) : ∃ labels shared, Machine.run Shared.step ({} : Shared α) labels = some shared ∧
    shared.raised = rounds ∧ shared.seen = 0 ∧ shared.returned = [] ∧ shared.queue.numPolled = 0 ∧ shared.appended = false ∧
      ∀ cell ∈ shared.queue.list, cell.address < rounds := by
  induction rounds with
  | zero => exact ⟨[], {}, rfl, rfl, rfl, rfl, rfl, rfl, by simp⟩
  | succ rounds ih =>
      obtain ⟨labels, shared, ran, raised, seen, returned, polled, idle, below⟩ := ih
      have fresh : rounds ∉ shared.queue.list.map Cell.address := by
        intro member
        obtain ⟨cell, inside, same⟩ := List.mem_map.mp member
        exact Nat.ne_of_lt (below cell inside) same
      let listed : Shared α := { shared with
        queue := { shared.queue with list := shared.queue.list ++ [⟨rounds, element⟩] }, appended := true,
        enqueued := shared.enqueued ++ [⟨rounds, element⟩] }
      have appended : shared.step (.append rounds element) = some listed := if_pos ⟨idle, fresh⟩
      refine ⟨labels ++ [.append rounds element, .count], { listed with appended := false, raised := listed.raised + 1 }, ?_,
        congrArg (· + 1) raised, seen, returned, polled, rfl, ?_⟩
      · rw [Machine.run_append, ran]
        change (shared.step (.append rounds element)).bind _ = _
        rw [appended]
        rfl
      · intro cell member
        obtain before | last := List.mem_append.mp member
        · exact Nat.lt_succ_of_lt (below cell before)
        · rw [List.mem_singleton.mp last]
          exact Nat.lt_succ_self rounds

-- After 2^64 increments the counter is zero again, and dequeue finds nothing.
theorem queue_wraps : ∃ labels shared, Machine.run Shared.step ({} : Shared Unit) labels = some shared ∧ ¬ Lossless shared := by
  obtain ⟨labels, shared, ran, raised, seen, returned, polled, -, -⟩ := enqueue_rounds () (2 ^ 64)
  refine ⟨labels, shared, ran, ?_⟩
  intro lossless
  have wrapped : uint64 shared.raised = 0 := by
    rw [raised]
    exact Nat.mod_self _
  obtain ⟨queue, result, dequeued, empty, -⟩ := lossless.answered shared.raised (by rw [seen]; exact Nat.zero_le _) (Nat.le_refl _)
  have nothing : shared.queue.dequeue (uint64 shared.raised) = some (shared.queue, none) := by
    rw [wrapped]
    exact if_neg (Nat.not_lt_zero _)
  rw [nothing] at dequeued
  have all := empty (congrArg Prod.snd (Option.some.inj dequeued)).symm
  rw [raised, returned, List.length_nil] at all
  omega

end ZipLog.Util
