import ZipLog.Lib.Run
import ZipLog.Network.Window
import Mathlib.Data.List.Nodup
import Mathlib.Data.List.Perm.Subperm
import Mathlib.Data.List.ReduceOption
import Mathlib.Data.Nat.ModEq

set_option autoImplicit false

namespace ZipLog.Network

-- A recv_queue of the subscriber. A completion carries the number of the entry
-- that landed, none for a message of another sender; batch is what a recv has
-- polled and whose handlers have not returned.
structure Receiver where
  posted : Nat
  completionQueue : List (Option Nat)
  numPosted : Nat
  batch : Option (List (Option Nat))
deriving DecidableEq, Repr

def Receiver.init : Receiver := ⟨maxReceiveRequests, [], maxReceiveRequests, none⟩

def Receiver.land (receiver : Receiver) (entry : Option Nat) : Receiver :=
  { receiver with posted := receiver.posted - 1, completionQueue := receiver.completionQueue ++ [entry] }

-- The poll of recv returns some of what is there.
def Receiver.recv (receiver : Receiver) (numPolled : Nat) : Receiver :=
  { receiver with
    numPosted := receiver.numPosted - numPolled
    batch := some (receiver.completionQueue.take numPolled)
    completionQueue := receiver.completionQueue.drop numPolled }

-- The end of recv, once the handlers of the batch have returned.
def Receiver.arm (receiver : Receiver) : Receiver :=
  if receiver.numPosted < maxReceiveRequests / 2 then
    { receiver with
      posted := receiver.posted + (maxReceiveRequests - receiver.numPosted), numPosted := maxReceiveRequests, batch := none }
  else { receiver with batch := none }

-- The entries whose handlers have not returned, oldest first.
def Receiver.open_ (receiver : Receiver) : List (Option Nat) := receiver.batch.getD [] ++ receiver.completionQueue

-- A thread of storage::subscriber with the send_queue of one subscriber and the
-- recv_queues of that subscriber. sent is history; landed counts the entries that
-- have landed.
structure SharedRing where
  sender : Sender
  completions : Nat
  numSent : Nat
  receivers : Nat → Receiver
  sent : List Entry
  landed : Nat

-- start is num_sent when the subscriber was added. The subscriber has a receive
-- queue for its control thread before those of its polling threads.
def SharedRing.init (maxOutstanding queues start : Nat) : SharedRing :=
  ⟨⟨0, 0, 0, maxOutstanding, queues + 1⟩, 0, start, fun _ => Receiver.init, [], 0⟩

inductive RingEvent where
  | send (length : Nat)
  | land
  | landOther (queue : Nat)
  | recv (queue maxPoll numPolled : Nat)
  | ret (queue : Nat)
  | arm (queue : Nat)
deriving DecidableEq, Repr

def SharedRing.update (s : SharedRing) (queue : Nat) (receiver : Receiver) : SharedRing :=
  { s with receivers := Function.update s.receivers queue receiver }

section

variable (threads queues : Nat)

-- send waits for a completion when max_outstanding_ messages are out; an entry
-- lands in posting order and only on a request of its queue.
def SharedRing.step (s : SharedRing) : RingEvent → Option SharedRing
  | .send length =>
      if 1 ≤ length ∧ (s.sender.maxOutstanding ≤ s.sender.sentMessages → 0 < s.completions) then
        (s.sender.sendLength length (1 + s.numSent % queues)).map (fun result =>
          { s with
            sender := result.1
            completions := if s.sender.maxOutstanding ≤ s.sender.sentMessages then s.completions - 1 else s.completions
            numSent := s.numSent + threads
            sent := s.sent ++ [result.2] })
      else none
  | .land =>
      match s.sent[s.landed]? with
      | none => none
      | some entry =>
          if 0 < (s.receivers entry.queue).posted then
            some { s.update entry.queue ((s.receivers entry.queue).land (some s.landed)) with
              completions := if entry.signaled then s.completions + 1 else s.completions
              landed := s.landed + 1 }
          else none
  | .landOther queue =>
      if 0 < (s.receivers queue).posted then some (s.update queue ((s.receivers queue).land none)) else none
  | .recv queue maxPoll numPolled =>
      if (s.receivers queue).batch = none ∧ maxPoll ≤ receiveBatchSize ∧ numPolled ≤ maxPoll ∧
          numPolled ≤ (s.receivers queue).completionQueue.length then
        some (s.update queue ((s.receivers queue).recv numPolled))
      else none
  | .ret queue =>
      match (s.receivers queue).batch with
      | some (_ :: rest) => some (s.update queue { s.receivers queue with batch := some rest })
      | _ => none
  | .arm queue => if (s.receivers queue).batch = some [] then some (s.update queue (s.receivers queue).arm) else none

end

-- The warning of storage::add_subscriber.
def overflows (threads queues : Nat) : Prop := maxOutstandingRequests / maxReceiveRequests < Nat.lcm threads queues / threads

instance (threads queues : Nat) : Decidable (overflows threads queues) := inferInstanceAs (Decidable (_ < _))

def SharedRing.Open (s : SharedRing) (index : Nat) : Prop := ∃ queue, some index ∈ (s.receivers queue).open_

-- The next entry lands on none whose handler has not returned.
def SharedRing.Clear (s : SharedRing) : Prop :=
  ∀ index earlier next, s.Open index → s.sent[index]? = some earlier → s.sent[s.landed]? = some next →
    earlier.offset + earlier.length ≤ next.offset ∨ next.offset + next.length ≤ earlier.offset

-- The 128 entries that end with the next one fit into the ring with the bytes
-- skipped at its end, unless the first of them has been handled.
def SharedRing.Fits (s : SharedRing) : Prop :=
  ∀ index earlier, index + 127 = s.landed → s.Open index → s.sent[index]? = some earlier →
    taken earlier.offset (((s.sent.drop index).take 128).map Entry.length) ≤ receiveBufferSize

-- The queue that an entry goes to.
def goes (threads queues start index : Nat) : Nat := (1 + (start + index * threads) % queues) % (queues + 1)

structure SharedRing.Inv (threads queues start : Nat) (s : SharedRing) : Prop where
  numbered : s.numSent = start + s.sent.length * threads
  names : s.sender.numQueues = queues + 1
  offset : s.sender.offset = (s.sent.map Entry.length).foldl advance 0
  placed : ∀ (index : Nat) entry, s.sent[index]? = some entry →
    entry.offset = spot (((s.sent.map Entry.length).take index).foldl advance 0) entry.length ∧ Sized entry.length ∧
      entry.queue = goes threads queues start index
  reached : s.landed ≤ s.sent.length
  posted : ∀ queue, (s.receivers queue).posted + (s.receivers queue).completionQueue.length = (s.receivers queue).numPosted
  armed : ∀ queue, (s.receivers queue).numPosted + ((s.receivers queue).batch.getD []).length ≤ maxReceiveRequests
  open_ : ∀ queue, (s.receivers queue).open_.reduceOption <:+
    (List.range s.landed).filter (fun index => goes threads queues start index = queue)

theorem ring_init (threads queues start maxOutstanding : Nat) : (SharedRing.init maxOutstanding queues start).Inv threads queues start := by
  refine ⟨(by simp [SharedRing.init]), rfl, rfl, ?_, Nat.le_refl _, fun _ => rfl, fun _ => Nat.le_refl _, fun _ => List.nil_suffix⟩
  intro index entry access
  cases access

theorem sender_moved (sender : Sender) (offset sentMessages : Nat) :
    ({ sender with offset := offset, sentMessages := sentMessages } : Sender).numQueues = sender.numQueues := rfl

theorem send_length_some (sender : Sender) (length destination : Nat) (result : Sender × Entry)
    (sent : sender.sendLength length destination = some result) : length ≤ sendBufferSize ∧
      (∃ sentMessages, result.1 = { sender with offset := advance sender.offset length, sentMessages := sentMessages }) ∧
      result.2.offset = spot sender.offset length ∧ result.2.length = length ∧ result.2.queue = destination % sender.numQueues := by
  unfold Sender.sendLength at sent
  obtain ⟨short, same⟩ := Option.ite_none_left_eq_some.mp sent
  cases same
  exact ⟨Nat.le_of_not_lt short, ⟨_, rfl⟩, rfl, rfl, rfl⟩

section

variable (threads queues start : Nat) (s : SharedRing) (inv : s.Inv threads queues start)

include inv

theorem ring_send (length : Nat) (positive : 1 ≤ length) (result : Sender × Entry) (completions : Nat)
    (sent : s.sender.sendLength length (1 + s.numSent % queues) = some result) :
    { s with sender := result.1, completions := completions, numSent := s.numSent + threads, sent := s.sent ++ [result.2] }.Inv
      threads queues start := by
  obtain ⟨short, ⟨sentMessages, moved⟩, place, size, queue⟩ := send_length_some _ _ _ _ sent
  have names : result.1.numQueues = queues + 1 := by
    rw [moved, sender_moved]
    exact inv.names
  refine ⟨?_, names, ?_, ?_, ?_, inv.posted, inv.armed, inv.open_⟩
  · rw [List.length_append, List.length_singleton, Nat.add_mul, Nat.one_mul, ← Nat.add_assoc, inv.numbered]
  · rw [moved, List.map_append, List.foldl_append, ← inv.offset, List.map_singleton, List.foldl_cons, List.foldl_nil, size]
  · intro index entry access
    rcases Nat.lt_or_ge index s.sent.length with old | new
    · rw [List.getElem?_append_left old] at access
      rw [List.map_append, List.take_append_of_le_length (by rw [List.length_map]; omega)]
      exact inv.placed index entry access
    · have last : index = s.sent.length := by
        have bound := (List.getElem?_eq_some_iff.mp access).1
        rw [List.length_append, List.length_singleton] at bound
        omega
      rw [last, List.getElem?_concat_length] at access
      cases access
      rw [last, List.map_append, List.take_left' (List.length_map _), ← inv.offset, size]
      refine ⟨place, ⟨positive, short⟩, ?_⟩
      rw [queue, goes, ← inv.numbered, inv.names]
  · rw [List.length_append]
    exact Nat.le_add_right_of_le inv.reached

-- A receive queue changes and keeps what is known of it.
theorem ring_update (queue : Nat) (receiver : Receiver) (posted : receiver.posted + receiver.completionQueue.length = receiver.numPosted)
    (armed : receiver.numPosted + (receiver.batch.getD []).length ≤ maxReceiveRequests)
    (kept : receiver.open_.reduceOption <:+ (List.range s.landed).filter (fun index => goes threads queues start index = queue)) :
    (s.update queue receiver).Inv threads queues start := by
  refine ⟨inv.numbered, inv.names, inv.offset, inv.placed, inv.reached, ?_, ?_, ?_⟩
  · intro other
    by_cases same : other = queue
    · simp only [same, SharedRing.update, Function.update_self]
      exact posted
    · simp only [SharedRing.update, Function.update_of_ne same]
      exact inv.posted other
  · intro other
    by_cases same : other = queue
    · simp only [same, SharedRing.update, Function.update_self]
      exact armed
    · simp only [SharedRing.update, Function.update_of_ne same]
      exact inv.armed other
  · intro other
    by_cases same : other = queue
    · simp only [same, SharedRing.update, Function.update_self]
      exact kept
    · simp only [SharedRing.update, Function.update_of_ne same]
      exact inv.open_ other

theorem ring_land (entry : Entry) (completions : Nat) (access : s.sent[s.landed]? = some entry)
    (free : 0 < (s.receivers entry.queue).posted) :
    { s.update entry.queue ((s.receivers entry.queue).land (some s.landed)) with
      completions := completions, landed := s.landed + 1 }.Inv threads queues start := by
  obtain ⟨_, _, home⟩ := inv.placed s.landed entry access
  have next (queue : Nat) : (List.range (s.landed + 1)).filter (fun index => goes threads queues start index = queue) =
      (List.range s.landed).filter (fun index => goes threads queues start index = queue) ++
        if entry.queue = queue then [s.landed] else [] := by
    rw [List.range_succ, List.filter_append]
    by_cases mine : entry.queue = queue
    · rw [if_pos mine, List.filter_cons_of_pos (by rw [← home]; exact decide_eq_true mine), List.filter_nil]
    · rw [if_neg mine, List.filter_cons_of_neg (by rw [← home]; simpa using mine), List.filter_nil]
  refine ⟨inv.numbered, inv.names, inv.offset, inv.placed, (List.getElem?_eq_some_iff.mp access).1, ?_, ?_, ?_⟩
  · intro other
    by_cases same : other = entry.queue
    · have posted := inv.posted entry.queue
      simp only [same, SharedRing.update, Function.update_self, Receiver.land, List.length_append, List.length_singleton]
      omega
    · simp only [SharedRing.update, Function.update_of_ne same]
      exact inv.posted other
  · intro other
    by_cases same : other = entry.queue
    · simp only [same, SharedRing.update, Function.update_self]
      exact inv.armed entry.queue
    · simp only [SharedRing.update, Function.update_of_ne same]
      exact inv.armed other
  · intro other
    rw [next other]
    by_cases same : other = entry.queue
    · simp only [same, SharedRing.update, Function.update_self, Receiver.open_, Receiver.land, if_true]
      rw [← List.append_assoc, List.reduceOption_append]
      obtain ⟨before, whole⟩ := inv.open_ entry.queue
      rw [Receiver.open_] at whole
      exact ⟨before, by rw [← List.append_assoc, whole]; rfl⟩
    · simp only [SharedRing.update, Function.update_of_ne same]
      rw [if_neg (fun equal => same equal.symm), List.append_nil]
      exact inv.open_ other

theorem ring_other (queue : Nat) (free : 0 < (s.receivers queue).posted) :
    (s.update queue ((s.receivers queue).land none)).Inv threads queues start := by
  have posted := inv.posted queue
  apply ring_update threads queues start s inv
  · rw [Receiver.land, List.length_append, List.length_singleton]
    dsimp only
    omega
  · exact inv.armed queue
  · rw [Receiver.open_, Receiver.land, ← List.append_assoc, List.reduceOption_append]
    exact (List.append_nil _).symm ▸ inv.open_ queue

theorem ring_recv (queue numPolled : Nat) (idle : (s.receivers queue).batch = none)
    (there : numPolled ≤ (s.receivers queue).completionQueue.length) :
    (s.update queue ((s.receivers queue).recv numPolled)).Inv threads queues start := by
  have posted := inv.posted queue
  have armed := inv.armed queue
  have kept := inv.open_ queue
  apply ring_update threads queues start s inv
  · rw [Receiver.recv, List.length_drop]
    dsimp only
    omega
  · rw [Receiver.recv, Option.getD_some, List.length_take]
    dsimp only
    omega
  · rw [Receiver.open_, idle] at kept
    rw [Receiver.open_, Receiver.recv, Option.getD_some, List.take_append_drop]
    exact kept

theorem ring_ret (queue : Nat) (entry : Option Nat) (rest : List (Option Nat)) (batch : (s.receivers queue).batch = some (entry :: rest)) :
    (s.update queue { s.receivers queue with batch := some rest }).Inv threads queues start := by
  have armed := inv.armed queue
  have kept := inv.open_ queue
  apply ring_update threads queues start s inv
  · exact inv.posted queue
  · rw [batch, Option.getD_some, List.length_cons] at armed
    exact Nat.le_trans (Nat.add_le_add_left (Nat.le_succ _) _) armed
  · rw [Receiver.open_, batch, Option.getD_some] at kept
    exact ((List.suffix_cons entry _).filterMap id).trans kept

theorem ring_arm (queue : Nat) (batch : (s.receivers queue).batch = some []) :
    (s.update queue (s.receivers queue).arm).Inv threads queues start := by
  have posted := inv.posted queue
  have armed := inv.armed queue
  have kept := inv.open_ queue
  rw [Receiver.open_, batch] at kept
  rw [batch] at armed
  simp only [Option.getD_some, List.length_nil] at armed
  apply ring_update threads queues start s inv
  · unfold Receiver.arm
    split
    · dsimp only
      omega
    · exact posted
  · unfold Receiver.arm
    split
    · exact Nat.le_refl _
    · exact armed
  · unfold Receiver.arm
    split
    · exact kept
    · exact kept

end

theorem ring_step (threads queues start : Nat) (s next : SharedRing) (event : RingEvent) (inv : s.Inv threads queues start)
    (stepped : s.step threads queues event = some next) : next.Inv threads queues start := by
  cases event with
  | send length =>
      obtain ⟨allowed, posted⟩ := Option.ite_none_right_eq_some.mp stepped
      obtain ⟨result, sent, rfl⟩ := Option.map_eq_some_iff.mp posted
      exact ring_send threads queues start s inv length allowed.1 result _ sent
  | land =>
      simp only [SharedRing.step] at stepped
      split at stepped
      · cases stepped
      · rename_i entry access
        obtain ⟨free, same⟩ := Option.ite_none_right_eq_some.mp stepped
        cases same
        exact ring_land threads queues start s inv entry _ access free
  | landOther queue =>
      obtain ⟨free, same⟩ := Option.ite_none_right_eq_some.mp stepped
      cases same
      exact ring_other threads queues start s inv queue free
  | recv queue maxPoll numPolled =>
      obtain ⟨⟨idle, _, _, there⟩, same⟩ := Option.ite_none_right_eq_some.mp stepped
      cases same
      exact ring_recv threads queues start s inv queue numPolled idle there
  | ret queue =>
      simp only [SharedRing.step] at stepped
      split at stepped
      · rename_i entry rest batch
        cases stepped
        exact ring_ret threads queues start s inv queue entry rest batch
      · cases stepped
  | arm queue =>
      obtain ⟨batch, same⟩ := Option.ite_none_right_eq_some.mp stepped
      cases same
      exact ring_arm threads queues start s inv queue batch

theorem ring_run (threads queues start maxOutstanding : Nat) (events : List RingEvent) (s : SharedRing)
    (ran : Machine.run (SharedRing.step threads queues) (SharedRing.init maxOutstanding queues start) events = some s) :
    s.Inv threads queues start :=
  Machine.run_preserves (SharedRing.step threads queues) (SharedRing.Inv threads queues start)
    (fun s event next inv stepped => ring_step threads queues start s next event inv stepped) _ s
    (ring_init threads queues start maxOutstanding) events ran

-- With two queues by turns, the queue of an entry comes back every second time.
theorem goes_period (threads queues start : Nat) (limit : Nat.lcm threads queues / threads = maxOutstandingRequests / maxReceiveRequests) (index : Nat) :
    goes threads queues start (index + 2) = goes threads queues start index := by
  have whole : Nat.lcm threads queues = threads * 2 := Nat.eq_mul_of_div_eq_right (Nat.dvd_lcm_left _ _) limit
  obtain ⟨turns, twice⟩ : queues ∣ threads * 2 := whole ▸ Nat.dvd_lcm_right threads queues
  unfold goes
  rw [show start + (index + 2) * threads = start + index * threads + threads * 2 by rw [Nat.add_mul]; omega, twice, Nat.add_mul_mod_self_left]

theorem goes_even (threads queues start : Nat) (limit : Nat.lcm threads queues / threads = maxOutstandingRequests / maxReceiveRequests) (index count : Nat) :
    goes threads queues start (index + 2 * count) = goes threads queues start index := by
  induction count with
  | zero => rfl
  | succ count ih => rw [Nat.mul_succ, ← Nat.add_assoc, goes_period threads queues start limit, ih]

-- The entries of a queue from one of them on are among its open ones if it is.
theorem open_recent (threads queues start : Nat) (limit : Nat.lcm threads queues / threads = maxOutstandingRequests / maxReceiveRequests) (s : SharedRing)
    (inv : s.Inv threads queues start) (queue index : Nat) (member : some index ∈ (s.receivers queue).open_) :
    index < s.landed ∧ goes threads queues start index = queue ∧ s.landed ≤ index + 2 * (maxReceiveRequests - (s.receivers queue).posted) := by
  obtain ⟨before, split⟩ := inv.open_ queue
  have listed : index ∈ (s.receivers queue).open_.reduceOption := List.reduceOption_mem_iff.mpr member
  have sorted : ((List.range s.landed).filter (fun index => goes threads queues start index = queue)).Pairwise (· < ·) :=
    List.pairwise_lt_range.filter _
  have inside : index ∈ (List.range s.landed).filter (fun index => goes threads queues start index = queue) :=
    split ▸ List.mem_append_right _ listed
  obtain ⟨landed, home⟩ : index < s.landed ∧ goes threads queues start index = queue := by
    simpa only [List.mem_filter, List.mem_range, decide_eq_true_eq] using inside
  refine ⟨landed, home, ?_⟩
  have later : (List.range ((s.landed - index + 1) / 2)).map (fun count => index + 2 * count) ⊆
      (s.receivers queue).open_.reduceOption := by
    intro other reached
    obtain ⟨count, small, rfl⟩ := List.mem_map.mp reached
    rw [List.mem_range] at small
    have there : index + 2 * count ∈ before ++ (s.receivers queue).open_.reduceOption := by
      rw [split, List.mem_filter, List.mem_range, decide_eq_true_eq, goes_even threads queues start limit]
      exact ⟨by omega, home⟩
    cases List.mem_append.mp there with
    | inl old =>
        rw [← split] at sorted
        have less := (List.pairwise_append.mp sorted).2.2 _ old index listed
        omega
    | inr new => exact new
  have distinct : ((List.range ((s.landed - index + 1) / 2)).map (fun count => index + 2 * count)).Nodup :=
    List.Nodup.map (fun first second same => by simpa using same) List.nodup_range
  have few := (List.subperm_of_subset distinct later).length_le
  rw [List.length_map, List.length_range] at few
  have small := List.reduceOption_length_le (s.receivers queue).open_
  have sizes : (s.receivers queue).open_.length =
      ((s.receivers queue).batch.getD []).length + (s.receivers queue).completionQueue.length := List.length_append
  have posted := inv.posted queue
  have armed := inv.armed queue
  unfold maxReceiveRequests at *
  omega

-- An entry that lands has at most 127 open ones before it.
theorem open_window (threads queues start : Nat) (limit : Nat.lcm threads queues / threads = maxOutstandingRequests / maxReceiveRequests) (s : SharedRing)
    (inv : s.Inv threads queues start) (next : Entry) (access : s.sent[s.landed]? = some next)
    (free : 0 < (s.receivers next.queue).posted) (index : Nat) (open_ : s.Open index) : index < s.landed ∧ s.landed ≤ index + 127 := by
  obtain ⟨queue, member⟩ := open_
  obtain ⟨before, home, near⟩ := open_recent threads queues start limit s inv queue index member
  refine ⟨before, ?_⟩
  obtain ⟨_, _, home'⟩ := inv.placed s.landed next access
  have window : maxReceiveRequests = 64 := rfl
  by_cases same : s.landed = index + 2 * 64
  · -- It would be an entry of the same queue, which has a request left.
    rw [same, goes_even threads queues start limit, home] at home'
    rw [home'] at free
    omega
  · omega

theorem clear_iff (threads queues start : Nat) (limit : Nat.lcm threads queues / threads = maxOutstandingRequests / maxReceiveRequests) (s : SharedRing)
    (inv : s.Inv threads queues start) (next : Entry) (access : s.sent[s.landed]? = some next)
    (free : 0 < (s.receivers next.queue).posted) : s.Clear ↔ s.Fits := by
  have sized : ∀ length ∈ s.sent.map Entry.length, Sized length := by
    intro length member
    obtain ⟨entry, listed, rfl⟩ := List.mem_map.mp member
    obtain ⟨index, there⟩ := List.mem_iff_getElem?.mp listed
    exact (inv.placed index entry there).2.1
  have lengths (index : Nat) (entry : Entry) (there : s.sent[index]? = some entry) :
      (s.sent.map Entry.length)[index]? = some entry.length := by rw [List.getElem?_map, there, Option.map_some]
  have place := (inv.placed s.landed next access).1
  constructor
  · intro clear index earlier last open_ there
    have reached : s.landed = index + 126 + 1 := last.symm
    have apart := clear index earlier next open_ there access
    rw [(inv.placed index earlier there).1, place, reached] at apart
    have full := (window_full (s.sent.map Entry.length) sized index 126 earlier.length next.length (lengths index earlier there)
      (lengths _ next (reached ▸ access)) rfl).mp apart
    rw [(inv.placed index earlier there).1, List.map_take, List.map_drop]
    exact full
  · intro fits index earlier next' open_ there access'
    cases access.symm.trans access'
    obtain ⟨before, near⟩ := open_window threads queues start limit s inv next access free index open_
    have reached : s.landed = index + (s.landed - index - 1) + 1 := by omega
    have there' := lengths index earlier there
    have access'' := lengths _ next (reached ▸ access)
    rw [(inv.placed index earlier there).1, place]
    by_cases last : index + 127 = s.landed
    · have full := fits index earlier last open_ there
      rw [(inv.placed index earlier there).1, List.map_take, List.map_drop] at full
      have apart := (window_full (s.sent.map Entry.length) sized index (s.landed - index - 1) earlier.length next.length there'
        access'' (by omega)).mpr full
      rw [Apart, ← reached] at apart
      exact apart
    · have apart := window_apart (s.sent.map Entry.length) sized index (s.landed - index - 1) earlier.length next.length there'
        access'' (by omega)
      rw [Apart, ← reached] at apart
      exact apart

-- The main result. No entry of a run is written over an open one exactly when
-- every entry that lands fits into the ring with the 127 before it, or the first
-- of these has been handled.
theorem shared_ring_safe_iff (threads queues start maxOutstanding : Nat)
    (limit : Nat.lcm threads queues / threads = maxOutstandingRequests / maxReceiveRequests) (events : List RingEvent) (s : SharedRing)
    (ran : Machine.run (SharedRing.step threads queues) (SharedRing.init maxOutstanding queues start) events = some s) :
    (∀ before earlier, before ++ [RingEvent.land] <+: events →
      Machine.run (SharedRing.step threads queues) (SharedRing.init maxOutstanding queues start) before = some earlier → earlier.Clear) ↔
    (∀ before earlier, before ++ [RingEvent.land] <+: events →
      Machine.run (SharedRing.step threads queues) (SharedRing.init maxOutstanding queues start) before = some earlier → earlier.Fits) := by
  have landing (before : List RingEvent) (earlier : SharedRing) (part : before ++ [RingEvent.land] <+: events)
      (reached : Machine.run (SharedRing.step threads queues) (SharedRing.init maxOutstanding queues start) before = some earlier) :
      earlier.Clear ↔ earlier.Fits := by
    have inv := ring_run threads queues start maxOutstanding before earlier reached
    obtain ⟨after, rfl⟩ := part
    obtain ⟨_, landed, _⟩ := Machine.run_append_some ran
    obtain ⟨earlier', reached', stepped⟩ := Machine.run_snoc_some landed
    cases reached.symm.trans reached'
    simp only [SharedRing.step] at stepped
    split at stepped
    · cases stepped
    · rename_i next access
      exact clear_iff threads queues start limit earlier inv next access (Option.ite_none_right_eq_some.mp stepped).1
  constructor
  · intro clear before earlier part reached
    exact (landing before earlier part reached).mp (clear before earlier part reached)
  · intro fits before earlier part reached
    exact (landing before earlier part reached).mpr (fits before earlier part reached)

-- A no-op and then full messages, by turns to two queues, the second of which is
-- not polled.
def stalledQueue : List RingEvent :=
  .send 56 :: List.replicate 127 (.send 2048) ++ List.replicate 128 .land ++
    (List.replicate 5 (.recv 1 8 8 :: List.replicate 8 (.ret 1) ++ [.arm 1])).flatten ++ [.send 2048]

theorem stalled_queue_run : ∃ s, Machine.run (SharedRing.step 1 2) (SharedRing.init 128 2 0) stalledQueue = some s ∧ s.landed = 128 ∧
    s.sent[1]? = some ⟨64, 2048, 2, false⟩ ∧ s.sent[128]? = some ⟨0, 2048, 1, false⟩ ∧ some 1 ∈ (s.receivers 2).open_ ∧
    (s.step 1 2 .land).isSome := by
  have outcome : (Machine.run (SharedRing.step 1 2) (SharedRing.init 128 2 0) stalledQueue).map
      (fun s => (s.landed, s.sent[1]?, s.sent[128]?, decide (some 1 ∈ (s.receivers 2).open_), (s.step 1 2 .land).isSome)) =
      some (128, some ⟨64, 2048, 2, false⟩, some ⟨0, 2048, 1, false⟩, true, true) := by decide +kernel
  obtain ⟨s, ran, values⟩ := Option.map_eq_some_iff.mp outcome
  simp only [Prod.mk.injEq, decide_eq_true_eq] at values
  exact ⟨s, ran, values⟩

theorem stalled_queue_spoiled (s : SharedRing) (earlier : s.sent[1]? = some ⟨64, 2048, 2, false⟩) (landed : s.landed = 128)
    (next : s.sent[128]? = some ⟨0, 2048, 1, false⟩) (open_ : some 1 ∈ (s.receivers 2).open_) : ¬ s.Clear := by
  intro clear
  have apart := clear 1 _ _ ⟨2, open_⟩ earlier (landed ▸ next)
  simp at apart

theorem shared_ring_safe_iff_stalled : ¬ ∀ before earlier, before ++ [RingEvent.land] <+: stalledQueue ++ [.land] →
    Machine.run (SharedRing.step 1 2) (SharedRing.init 128 2 0) before = some earlier → earlier.Fits := by
  obtain ⟨s, ran, landed, earlier, next, open_, lands⟩ := stalled_queue_run
  obtain ⟨after, stepped⟩ := Option.isSome_iff_exists.mp lands
  have whole : Machine.run (SharedRing.step 1 2) (SharedRing.init 128 2 0) (stalledQueue ++ [.land]) = some after := by
    rw [Machine.run_snoc, ran]
    exact stepped
  intro fits
  exact stalled_queue_spoiled s earlier landed next open_
    ((shared_ring_safe_iff 1 2 0 128 (by decide) _ after whole).mpr fits stalledQueue s List.prefix_rfl ran)

-- add_subscriber does not warn of one thread and two queues, and yet the 129th
-- message lands on the second one.
theorem overflow_check_insufficient : ¬ overflows 1 2 ∧ Nat.lcm 1 2 / 1 = maxOutstandingRequests / maxReceiveRequests ∧
    ∃ s, Machine.run (SharedRing.step 1 2) (SharedRing.init 128 2 0) stalledQueue = some s ∧ (s.step 1 2 .land).isSome ∧ ¬ s.Clear := by
  obtain ⟨s, ran, landed, earlier, next, open_, lands⟩ := stalled_queue_run
  exact ⟨by decide, by decide, s, ran, lands, stalled_queue_spoiled s earlier landed next open_⟩

end ZipLog.Network
