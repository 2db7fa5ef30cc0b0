import ZipLog.Client.Pacing
import ZipLog.Lib.Run

set_option autoImplicit false

namespace ZipLog.Client

-- client::loop with the readings of its clock, the num_slots of the epochs it was
-- told of and the inserts it has sent.
structure Metered where
  loop : Loop
  clock : Nat
  granted : List Nat
  sent : List StorageInsert

def Metered.init (clientId shardId failures : Nat) : Metered := ⟨Loop.init clientId shardId failures, 0, [], []⟩

inductive MeteredEvent where
  | insert (data : Bytes) (response : Nat)
  | check
  | turn (now : Nat)
  | insertAck (ack : ClientInsertAck)
  | newEpoch (beginning numSlots : Nat)
  | storageFinished (shardId replicaId : Nat)
  | orderFinished
  | storageInfo (replicas : List Nat)
deriving DecidableEq, Repr

def latestTime : Nat := 2 ^ 62

-- One reading of the clock serves the epoch switch and the send branch.
def Metered.turn (s : Metered) (now : Nat) : Metered :=
  let result := (s.loop.switchEpoch now).send now
  { s with loop := result.1, clock := now, sent := s.sent ++ result.2.toList }

def Metered.newEpoch (s : Metered) (beginning numSlots : Nat) : Metered :=
  { s with loop := s.loop.clientNewEpoch beginning numSlots, granted := s.granted ++ [numSlots] }

-- insert is a call of another thread; the others belong to the loop, which is over
-- once the ordering service has confirmed.
def Metered.step (s : Metered) : MeteredEvent → Option Metered
  | .insert data response => some { s with loop := s.loop.insert data response }
  | .check => if s.loop.ended then none else some { s with loop := s.loop.checkStop.1 }
  | .turn now => if s.loop.ended = false ∧ s.clock ≤ now ∧ now ≤ latestTime then some (s.turn now) else none
  | .insertAck ack => if s.loop.ended then none else some { s with loop := s.loop.clientInsertAck ack }
  | .newEpoch beginning numSlots =>
      if s.loop.ended = false ∧ beginning ≤ latestTime ∧ numSlots * 5000 < 2 ^ 64 then
        some (s.newEpoch beginning numSlots)
      else none
  | .storageFinished shardId replicaId =>
      if s.loop.ended then none else some { s with loop := (s.loop.storageFinished shardId replicaId).1 }
  | .orderFinished => if s.loop.ended then none else some { s with loop := s.loop.orderFinished }
  | .storageInfo replicas => if s.loop.ended then none else some { s with loop := s.loop.clientStorageInfo replicas }

def Metered.total (s : Metered) : Nat := (s.sent.map StorageInsert.numSlots).sum

-- The epochs are ranges that follow one another from start to stop.
def Contiguous : Nat → List Epoch → Nat → Prop
  | start, [], stop => start = stop
  | start, epoch :: epochs, stop => epoch.first = start ∧ epoch.first ≤ epoch.last ∧ Contiguous epoch.last epochs stop

instance decidableContiguous : (start : Nat) → (epochs : List Epoch) → (stop : Nat) → Decidable (Contiguous start epochs stop)
  | start, [], stop => inferInstanceAs (Decidable (start = stop))
  | start, epoch :: epochs, stop =>
      have := decidableContiguous epoch.last epochs stop
      inferInstanceAs (Decidable (epoch.first = start ∧ epoch.first ≤ epoch.last ∧ Contiguous epoch.last epochs stop))

def Within (consumed : Nat) (current : Epoch) (epochs : List Epoch) (assigned : Nat) : Prop :=
  consumed ≤ current.last ∧ current.last ≤ assigned ∧ Contiguous current.last epochs assigned

instance (consumed : Nat) (current : Epoch) (epochs : List Epoch) (assigned : Nat) : Decidable (Within consumed current epochs assigned) :=
  inferInstanceAs (Decidable (_ ∧ _ ∧ _))

-- An epoch as the client holds it, its bounds being words.
def Epoch.word (epoch : Epoch) : Epoch := { epoch with first := uint64 epoch.first, last := uint64 epoch.last }

theorem contiguous_le (start : Nat) (epochs : List Epoch) (stop : Nat) (contiguous : Contiguous start epochs stop) : start ≤ stop := by
  induction epochs generalizing start with
  | nil => exact Nat.le_of_eq contiguous
  | cons epoch epochs ih =>
      obtain ⟨first, grows, rest⟩ := contiguous
      exact first ▸ Nat.le_trans grows (ih epoch.last rest)

-- Bounds below 2^64 are their own words.
theorem contiguous_words (start : Nat) (epochs : List Epoch) (stop : Nat) (contiguous : Contiguous start epochs stop)
    (small : stop < 2 ^ 64) : Contiguous start (epochs.map Epoch.word) stop := by
  induction epochs generalizing start with
  | nil => exact contiguous
  | cons epoch epochs ih =>
      obtain ⟨first, grows, rest⟩ := contiguous
      have last : uint64 epoch.last = epoch.last := uint64_of_lt (Nat.lt_of_le_of_lt (contiguous_le _ _ _ rest) small)
      have start' : uint64 epoch.first = epoch.first := uint64_of_lt (by have := contiguous_le _ _ _ rest; omega)
      refine ⟨start'.trans first, ?_, ?_⟩
      · simp only [Epoch.word, start', last]
        exact grows
      · simp only [Epoch.word, last]
        exact ih epoch.last rest

-- The waiting epochs cut what is left of the granted slots in order.
theorem waiting_contiguous (granted : List Nat) (entered : Nat) (epochs : List Epoch) (waiting : entered + epochs.length = granted.length)
    (listed : ∀ (index : Nat) epoch, epochs[index]? = some epoch → ∃ numSlots, granted[entered + index]? = some numSlots ∧
      0 ≤ epoch.beginning ∧ epoch.first = uint64 (granted.take (entered + index)).sum ∧
      epoch.last = uint64 ((granted.take (entered + index)).sum + numSlots)) :
    ∃ exact_, epochs = exact_.map Epoch.word ∧ Contiguous (granted.take entered).sum exact_ granted.sum := by
  induction epochs generalizing entered with
  | nil =>
      have whole : granted.take entered = granted := List.take_of_length_le (by simpa using Nat.le_of_eq waiting.symm)
      exact ⟨[], rfl, by rw [whole]; rfl⟩
  | cons epoch epochs ih =>
      obtain ⟨numSlots, access, _, first, last⟩ := listed 0 epoch rfl
      obtain ⟨rest, same, contiguous⟩ := ih (entered + 1) (by rw [List.length_cons] at waiting; omega) (fun index other there => by
        have next := listed (index + 1) other there
        rwa [show entered + (index + 1) = entered + 1 + index by omega] at next)
      rw [take_sum_succ granted entered numSlots access] at contiguous
      refine ⟨⟨epoch.beginning, (granted.take entered).sum, (granted.take entered).sum + numSlots⟩ :: rest, ?_, rfl,
        Nat.le_add_right _ _, contiguous⟩
      rw [List.map_cons, ← same]
      congr 1
      cases epoch
      simp only [Nat.add_zero] at first last
      rw [Epoch.word, first, last]

-- What the counters of a paced client are the words of.
theorem paced_within (client : Loop) (granted : List Nat) (entered clock total : Nat) (paced : client.Paced granted entered clock total) :
    ∃ current epochs, Within total current epochs granted.sum ∧ client.consumed = uint64 total ∧ client.current = current.word ∧
      client.epochs = epochs.map Epoch.word ∧ client.assigned = uint64 granted.sum := by
  obtain ⟨epochs, same, contiguous⟩ := waiting_contiguous granted entered client.epochs paced.waiting paced.epochs
  have reached := paced_total client granted entered clock total paced
  have standing := paced.standing
  cases entered with
  | zero =>
      exact ⟨firstEpoch, epochs, ⟨reached, Nat.zero_le _, contiguous⟩, paced.consumed, standing.1, same, paced.assigned⟩
  | succ index =>
      obtain ⟨numSlots, _, access, first, last, _⟩ := standing
      have next := take_sum_succ granted index numSlots access
      refine ⟨⟨client.current.beginning, (granted.take index).sum, (granted.take (index + 1)).sum⟩, epochs,
        ⟨reached, contiguous_le _ _ _ contiguous, contiguous⟩, paced.consumed, ?_, same, paced.assigned⟩
      rw [← next] at last
      cases whole : client.current
      rw [whole] at first last
      exact congr (congrArg (Epoch.mk _) first) last

def Metered.Inv (s : Metered) : Prop :=
  ∃ entered, s.loop.Paced s.granted entered s.clock s.total ∧ ∀ message ∈ s.sent, 1 ≤ message.numSlots

theorem metered_init (clientId shardId failures : Nat) : (Metered.init clientId shardId failures).Inv :=
  ⟨0, init_paced clientId shardId failures, fun message member => by cases member⟩

-- The counters and the epochs, which only a turn and a new epoch change.
structure SameCounters (client other : Loop) : Prop where
  assigned : other.assigned = client.assigned
  consumed : other.consumed = client.consumed
  epochs : other.epochs = client.epochs
  current : other.current = client.current

theorem ack_counters (client : Loop) (ack : ClientInsertAck) : SameCounters client (client.clientInsertAck ack) := by
  unfold Loop.clientInsertAck
  repeat (split; exact ⟨rfl, rfl, rfl, rfl⟩)
  dsimp only
  split
  · exact ⟨rfl, rfl, rfl, rfl⟩
  · exact ⟨rfl, rfl, rfl, rfl⟩

theorem finished_counters (client : Loop) (shardId replicaId : Nat) : SameCounters client (client.storageFinished shardId replicaId).1 := by
  unfold Loop.storageFinished
  split
  · exact ⟨rfl, rfl, rfl, rfl⟩
  · exact ⟨rfl, rfl, rfl, rfl⟩

theorem check_counters (client : Loop) : SameCounters client client.checkStop.1 := by
  unfold Loop.checkStop
  split
  · exact ⟨rfl, rfl, rfl, rfl⟩
  · exact ⟨rfl, rfl, rfl, rfl⟩

theorem metered_congr (s : Metered) (loop : Loop) (inv : s.Inv) (same : SameCounters s.loop loop) : { s with loop := loop }.Inv := by
  obtain ⟨entered, paced, positive⟩ := inv
  exact ⟨entered, paced_congr s.loop s.granted entered s.clock s.total paced loop same.assigned same.consumed same.epochs same.current,
    positive⟩

theorem turn_metered (s : Metered) (now : Nat) (inv : s.Inv) (later : s.clock ≤ now) (early : now ≤ latestTime) : (s.turn now).Inv := by
  obtain ⟨entered, paced, positive⟩ := inv
  have switched := switch_epoch_paced s.loop s.granted entered s.clock s.total now paced later
  have word : now < 2 ^ 63 := Nat.lt_of_le_of_lt early (by decide)
  unfold Metered.turn
  generalize (if s.loop.switches now then entered + 1 else entered) = entered at switched
  obtain nothing | ⟨other, message, sent, after⟩ :=
    send_paced (s.loop.switchEpoch now) s.granted entered now s.total now switched (Nat.le_refl _) word
  · rw [nothing]
    refine ⟨entered, ?_, ?_⟩
    · simpa [Metered.total] using switched
    · simpa using positive
  · obtain nothing | ⟨_, message', sent', behind, _, taken, _⟩ := send_counters (s.loop.switchEpoch now) now
    · rw [nothing] at sent
      cases sent
    · rw [sent] at sent'
      cases sent'
      rw [sent]
      refine ⟨entered, ?_, ?_⟩
      · simpa [Metered.total] using after
      · intro each member
        cases List.mem_append.mp member with
        | inl old => exact positive each old
        | inr new =>
            rw [List.mem_singleton.mp new, taken]
            omega

theorem metered_step (s : Metered) (event : MeteredEvent) (next : Metered) (inv : s.Inv) (stepped : s.step event = some next) : next.Inv := by
  cases event with
  | insert data response =>
      cases stepped
      exact metered_congr s _ inv ⟨rfl, rfl, rfl, rfl⟩
  | check =>
      obtain ⟨_, same⟩ := Option.ite_none_left_eq_some.mp stepped
      cases same
      exact metered_congr s _ inv (check_counters s.loop)
  | turn now =>
      obtain ⟨⟨_, later, early⟩, same⟩ := Option.ite_none_right_eq_some.mp stepped
      cases same
      exact turn_metered s now inv later early
  | insertAck ack =>
      obtain ⟨_, same⟩ := Option.ite_none_left_eq_some.mp stepped
      cases same
      exact metered_congr s _ inv (ack_counters s.loop ack)
  | newEpoch beginning numSlots =>
      obtain ⟨⟨_, _, small⟩, same⟩ := Option.ite_none_right_eq_some.mp stepped
      cases same
      obtain ⟨entered, paced, positive⟩ := inv
      exact ⟨entered, new_epoch_paced s.loop s.granted entered s.clock s.total paced beginning numSlots small, positive⟩
  | storageFinished shardId replicaId =>
      obtain ⟨_, same⟩ := Option.ite_none_left_eq_some.mp stepped
      cases same
      exact metered_congr s _ inv (finished_counters s.loop shardId replicaId)
  | orderFinished =>
      obtain ⟨_, same⟩ := Option.ite_none_left_eq_some.mp stepped
      cases same
      exact metered_congr s _ inv ⟨rfl, rfl, rfl, rfl⟩
  | storageInfo replicas =>
      obtain ⟨_, same⟩ := Option.ite_none_left_eq_some.mp stepped
      cases same
      exact metered_congr s _ inv ⟨rfl, rfl, rfl, rfl⟩

theorem metered_run (clientId shardId failures : Nat) (events : List MeteredEvent) (s : Metered)
    (ran : Machine.run Metered.step (Metered.init clientId shardId failures) events = some s) : s.Inv :=
  Machine.run_preserves Metered.step Metered.Inv (fun s event next => metered_step s event next) _ s
    (metered_init clientId shardId failures) events ran

-- The slots taken stay within the slots given, counted without wrapping; while
-- all the slots given fit in a word, so do the counters of the loop themselves.
theorem pacing_within_budget (clientId shardId failures : Nat) (events : List MeteredEvent) (s : Metered)
    (ran : Machine.run Metered.step (Metered.init clientId shardId failures) events = some s) :
    (∀ message ∈ s.sent, 1 ≤ message.numSlots) ∧
    (∃ current epochs, Within s.total current epochs s.granted.sum ∧ s.loop.consumed = uint64 s.total ∧
      s.loop.current = current.word ∧ s.loop.epochs = epochs.map Epoch.word ∧ s.loop.assigned = uint64 s.granted.sum) ∧
    (s.granted.sum < 2 ^ 64 →
      Within s.loop.consumed s.loop.current s.loop.epochs s.loop.assigned ∧ s.total = s.loop.consumed) := by
  obtain ⟨entered, paced, positive⟩ := metered_run clientId shardId failures events s ran
  obtain ⟨current, epochs, within, consumed, present, waiting, assigned⟩ := paced_within s.loop s.granted entered s.clock s.total paced
  refine ⟨positive, ⟨current, epochs, within, consumed, present, waiting, assigned⟩, ?_⟩
  intro small
  obtain ⟨taken, inside, contiguous⟩ := within
  have total : uint64 s.total = s.total := uint64_of_lt (by omega)
  have last : uint64 current.last = current.last := uint64_of_lt (by omega)
  rw [consumed, present, waiting, assigned, total, uint64_of_lt small]
  refine ⟨⟨?_, ?_, ?_⟩, rfl⟩
  · simp only [Epoch.word, last]
    exact taken
  · simp only [Epoch.word, last]
    exact inside
  · simp only [Epoch.word, last]
    exact contiguous_words current.last epochs s.granted.sum contiguous small

-- Two epochs and a client that is stalled into the second one.
def stalledClient : List MeteredEvent :=
  [.newEpoch 0 1000, .storageInfo [1, 2], .newEpoch 5000000 3000, .insert [1] 0, .turn 0, .turn 2500000, .insertAck ⟨1, 4⟩,
    .turn 7000000, .turn 7500000]

theorem pacing_within_budget_stalled : ∃ s, Machine.run Metered.step (Metered.init 7 0 0) stalledClient = some s ∧
    s.sent.map StorageInsert.numSlots = [500, 1700] ∧ Within s.loop.consumed s.loop.current s.loop.epochs s.loop.assigned ∧
    s.total = s.loop.consumed := by
  have enabled : (Machine.run Metered.step (Metered.init 7 0 0) stalledClient).map
      (fun s => (s.sent.map StorageInsert.numSlots, s.granted)) = some ([500, 1700], [1000, 3000]) := by decide +kernel
  obtain ⟨s, ran, same⟩ := Option.map_eq_some_iff.mp enabled
  obtain ⟨sent, granted⟩ : _ ∧ _ := by simpa only [Prod.mk.injEq] using same
  have bounded := (pacing_within_budget 7 0 0 stalledClient s ran).2.2 (by rw [granted]; decide)
  exact ⟨s, ran, sent, bounded.1, bounded.2⟩

-- The largest num_slots the messages may carry, and epochs of it without a pause.
def largestEpoch : Nat := 3689348814741910

def largestEpochs (rounds : Nat) : List MeteredEvent :=
  (List.replicate rounds [MeteredEvent.newEpoch 0 largestEpoch, MeteredEvent.turn 0]).flatten

-- The client of these epochs has no server to send to, and enters each epoch at
-- once.
def Metered.Idle (s : Metered) (assigned : Nat) : Prop :=
  s.loop.ended = false ∧ s.clock = 0 ∧ s.loop.queues = [] ∧ s.loop.epochs = [] ∧ s.loop.assigned = assigned ∧ s.loop.current.last = assigned

theorem idle_round (s : Metered) (assigned numSlots : Nat) (small : numSlots * 5000 < 2 ^ 64) (idle : s.Idle assigned) : ∃ next,
    Machine.run Metered.step s [.newEpoch 0 numSlots, .turn 0] = some next ∧ next.Idle (uint64 (assigned + numSlots)) := by
  obtain ⟨going, clock, queues, epochs, present, _⟩ := idle
  have new : s.step (.newEpoch 0 numSlots) = some (s.newEpoch 0 numSlots) := if_pos ⟨going, Nat.zero_le _, small⟩
  have turn : (s.newEpoch 0 numSlots).step (.turn 0) = some ((s.newEpoch 0 numSlots).turn 0) :=
    if_pos ⟨going, Nat.le_of_eq clock, Nat.zero_le _⟩
  refine ⟨(s.newEpoch 0 numSlots).turn 0, by simp [Machine.run, new, turn], ?_⟩
  have switched : (s.newEpoch 0 numSlots).loop.switchEpoch 0 =
      { (s.newEpoch 0 numSlots).loop with current := ⟨0, s.loop.assigned, uint64 (s.loop.assigned + numSlots)⟩, epochs := [] } := by
    simp [Metered.newEpoch, Loop.switchEpoch, Loop.clientNewEpoch, epochs]
  have silent : ((s.newEpoch 0 numSlots).loop.switchEpoch 0).send 0 = ((s.newEpoch 0 numSlots).loop.switchEpoch 0, none) := by
    have alone : ((s.newEpoch 0 numSlots).loop.switchEpoch 0).queues = [] := by
      rw [switched]
      exact queues
    apply if_neg
    intro allowed
    have connected := allowed.2.2.1
    rw [alone] at connected
    exact absurd connected (Nat.not_lt_zero _)
  unfold Metered.turn
  rw [silent, switched]
  exact ⟨going, rfl, queues, rfl, by simp [Metered.newEpoch, Loop.clientNewEpoch, present], by simp [present]⟩

theorem largest_epochs_run (rounds : Nat) : ∃ s, Machine.run Metered.step (Metered.init 7 0 0) (largestEpochs rounds) = some s ∧
    s.Idle (uint64 (rounds * largestEpoch)) := by
  induction rounds with
  | zero => exact ⟨Metered.init 7 0 0, rfl, rfl, rfl, rfl, rfl, rfl, rfl⟩
  | succ rounds ih =>
      obtain ⟨s, ran, idle⟩ := ih
      obtain ⟨next, round, after⟩ := idle_round s _ largestEpoch (by decide) idle
      refine ⟨next, ?_, ?_⟩
      · rw [largestEpochs, List.replicate_succ', List.flatten_append, List.flatten_singleton, Machine.run_append]
        exact Option.bind_eq_some_iff.mpr ⟨s, ran, round⟩
      · have sum : uint64 (uint64 (rounds * largestEpoch) + largestEpoch) = uint64 ((rounds + 1) * largestEpoch) := by
          rw [Nat.succ_mul]
          unfold uint64
          omega
        exact sum ▸ after

-- After 25 seconds of such epochs assigned has wrapped.
theorem pacing_overdrawn : ∃ s, Machine.run Metered.step (Metered.init 7 0 0) (largestEpochs 5000 ++ [.newEpoch 0 largestEpoch]) = some s ∧
    s.loop.assigned < s.loop.current.last := by
  obtain ⟨s, ran, going, _, _, _, assigned, last⟩ := largest_epochs_run 5000
  have stepped : s.step (.newEpoch 0 largestEpoch) = some (s.newEpoch 0 largestEpoch) := if_pos ⟨going, Nat.zero_le _, by decide⟩
  refine ⟨s.newEpoch 0 largestEpoch, by rw [Machine.run_snoc, ran]; exact stepped, ?_⟩
  simp only [Metered.newEpoch, Loop.clientNewEpoch, assigned, last]
  unfold uint64 largestEpoch
  omega

end ZipLog.Client
