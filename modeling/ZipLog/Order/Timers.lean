import ZipLog.Order.Loop
import Mathlib.Data.List.Chain

set_option autoImplicit false

namespace ZipLog.Order

-- The readings of the clock at which a run starts an epoch.
def Loop.epochTimes (loop : Loop) : List Event → List Nat
  | [] => []
  | event :: events =>
      match loop.step event with
      | none => []
      | some next =>
          (match loop.input event with
            | some (.epoch now) => [now]
            | _ => []) ++ next.epochTimes events

def Event.reading : Event → Option Nat
  | .timer now => some now
  | _ => none

-- The handlers leave the timers alone.
def Loop.SameTimers (loop after : Loop) : Prop := after.epoch = loop.epoch ∧ after.heartbeat = loop.heartbeat

theorem client_cut_timers (loop : Loop) (cut : OrderClientCut) : loop.SameTimers (loop.clientCut cut) := by
  unfold Loop.clientCut
  split
  · exact ⟨rfl, rfl⟩
  · split
    · exact ⟨rfl, rfl⟩
    · split
      · exact ⟨rfl, rfl⟩
      · dsimp only
        split
        · split
          · exact ⟨rfl, rfl⟩
          · exact ⟨rfl, rfl⟩
        · exact ⟨rfl, rfl⟩

theorem client_data_timers (loop : Loop) (data : OrderClientData) : loop.SameTimers (loop.clientData data) := by
  unfold Loop.clientData
  split
  · exact ⟨rfl, rfl⟩
  · split
    · exact ⟨rfl, rfl⟩
    · split
      · exact ⟨rfl, rfl⟩
      · split
        · dsimp only
          split
          · exact ⟨rfl, rfl⟩
          · exact ⟨rfl, rfl⟩
        · split
          · exact ⟨rfl, rfl⟩
          · exact ⟨rfl, rfl⟩

theorem handler_timers (loop next : Loop) (event : Event) (handler : event.reading = none) (stepped : loop.step event = some next) :
    loop.SameTimers next ∧ ∀ now, loop.input event ≠ some (.epoch now) := by
  cases event with
  | addStorage shardId replicaId =>
      refine ⟨?_, fun now same => by cases same⟩
      cases add_storage_cases loop next shardId replicaId stepped with
      | inl same => rw [same]; exact ⟨rfl, rfl⟩
      | inr added => rw [added.2.2]; exact ⟨rfl, rfl⟩
  | addClient clientId shardId numSlots =>
      rw [← Option.some.inj stepped]
      exact ⟨⟨rfl, rfl⟩, fun now same => by cases same⟩
  | addSubscriber subscriberId =>
      rw [← Option.some.inj stepped]
      refine ⟨?_, fun now same => by cases same⟩
      unfold Loop.addSubscriber
      split
      · exact ⟨rfl, rfl⟩
      · exact ⟨rfl, rfl⟩
  | clientRate clientId numSlots =>
      rw [← Option.some.inj stepped]
      exact ⟨⟨rfl, rfl⟩, fun now same => by cases same⟩
  | clientFinished clientId =>
      rw [← Option.some.inj stepped]
      refine ⟨?_, fun now same => by cases same⟩
      unfold Loop.clientFinished
      split
      · exact ⟨rfl, rfl⟩
      · exact ⟨rfl, rfl⟩
  | subscriberFinished subscriberId =>
      rw [← Option.some.inj stepped]
      refine ⟨?_, fun now same => by cases same⟩
      unfold Loop.subscriberFinished
      split
      · exact ⟨rfl, rfl⟩
      · exact ⟨rfl, rfl⟩
  | clientFreeze clientId =>
      rw [← Option.some.inj stepped]
      refine ⟨?_, fun now same => by cases same⟩
      unfold Loop.clientFreeze
      split
      · exact ⟨rfl, rfl⟩
      · split
        · exact ⟨rfl, rfl⟩
        · exact ⟨rfl, rfl⟩
  | clientCut cut =>
      rw [← Option.some.inj stepped]
      exact ⟨client_cut_timers loop cut, fun now same => by cases same⟩
  | clientData data =>
      rw [← Option.some.inj stepped]
      exact ⟨client_data_timers loop data, fun now same => by cases same⟩
  | timer now => cases handler

-- What a reading of the clock does: a heartbeat, else an epoch, else nothing.
theorem timer_cases (loop : Loop) (now : Nat) :
    (due loop.heartbeat now = true ∧ loop.input (.timer now) = none ∧ (loop.timer now).epoch = loop.epoch ∧
      (loop.timer now).heartbeat = some (now + heartbeatIntervalNs)) ∨
    (due loop.heartbeat now = false ∧ due loop.epoch now = true ∧ loop.input (.timer now) = some (.epoch now) ∧
      (loop.timer now).epoch = some (now + epochDurationNs) ∧ (loop.timer now).heartbeat = loop.heartbeat) ∨
    (due loop.heartbeat now = false ∧ due loop.epoch now = false ∧ loop.input (.timer now) = none ∧ loop.timer now = loop) := by
  simp only [Loop.timer, Loop.input]
  cases beat : due loop.heartbeat now with
  | true => exact Or.inl ⟨rfl, rfl, rfl, rfl⟩
  | false =>
      cases late : due loop.epoch now with
      | true => exact Or.inr (Or.inl ⟨rfl, rfl, rfl, rfl, rfl⟩)
      | false => exact Or.inr (Or.inr ⟨rfl, rfl, rfl, rfl⟩)

@[simp] theorem due_some (deadline now : Nat) : due (some deadline) now = decide (deadline < now) := rfl

theorem due_mono (timer : Option Nat) (first second : Nat) (later : first ≤ second) (late : due timer first = true) :
    due timer second = true := by
  cases timer with
  | none => rfl
  | some deadline =>
      have passed : deadline < first := of_decide_eq_true late
      exact decide_eq_true (Nat.lt_of_lt_of_le passed later)

theorem epoch_times_handler (loop next : Loop) (event : Event) (events : List Event) (handler : event.reading = none)
    (stepped : loop.step event = some next) : loop.epochTimes (event :: events) = next.epochTimes events := by
  have never := (handler_timers loop next event handler stepped).2
  rw [Loop.epochTimes, stepped]
  dsimp only
  split
  · rename_i now same
    exact absurd same (never now)
  · rfl

theorem epoch_times_timer (loop : Loop) (now : Nat) (events : List Event) : loop.epochTimes (.timer now :: events) =
    (if due loop.heartbeat now = false ∧ due loop.epoch now = true then [now] else []) ++ (loop.timer now).epochTimes events := by
  rw [Loop.epochTimes]
  dsimp only [Loop.step]
  congr 1
  obtain ⟨beat, none, _⟩ | ⟨quiet, late, some, _⟩ | ⟨quiet, early, none, _⟩ := timer_cases loop now
  · rw [none, if_neg (by simp [beat])]
  · rw [some, if_pos ⟨quiet, late⟩]
  · rw [none, if_neg (by simp [early])]

-- Epochs are longer apart than their length: no client is in two of them.
theorem epochs_apart (loop : Loop) (events : List Event) :
    (loop.epochTimes events).Pairwise (fun first second => first + epochDurationNs < second) ∧
      ∀ now ∈ loop.epochTimes events, due loop.epoch now = true := by
  induction events generalizing loop with
  | nil => exact ⟨List.Pairwise.nil, fun now member => by cases member⟩
  | cons event events ih =>
      cases stepped : loop.step event with
      | none =>
          rw [Loop.epochTimes, stepped]
          exact ⟨List.Pairwise.nil, fun now member => by cases member⟩
      | some next =>
          cases handler : event.reading with
          | none =>
              rw [epoch_times_handler loop next event events handler stepped]
              obtain ⟨apart, later⟩ := ih next
              rw [(handler_timers loop next event handler stepped).1.1] at later
              exact ⟨apart, later⟩
          | some now =>
              obtain rfl : event = .timer now := by
                cases event with
                | timer other => rw [Option.some.inj handler]
                | _ => cases handler
              obtain ⟨apart, later⟩ := ih (loop.timer now)
              rw [epoch_times_timer]
              obtain ⟨beat, _, epoch, _⟩ | ⟨quiet, late, _, epoch, _⟩ | ⟨_, early, _, same⟩ := timer_cases loop now
              · rw [if_neg (by simp [beat]), List.nil_append]
                rw [epoch] at later
                exact ⟨apart, later⟩
              · rw [if_pos ⟨quiet, late⟩, List.singleton_append]
                have passed : ∀ other ∈ (loop.timer now).epochTimes events, now + epochDurationNs < other := by
                  intro other member
                  have after := later other member
                  rw [epoch] at after
                  exact of_decide_eq_true after
                refine ⟨List.Pairwise.cons passed apart, ?_⟩
                intro other member
                cases List.mem_cons.mp member with
                | inl first => rw [first]; exact late
                | inr rest =>
                    have further := passed other rest
                    exact due_mono loop.epoch now other (by omega) late
              · rw [if_neg (by simp [early]), List.nil_append]
                rw [same] at later apart ⊢
                exact ⟨apart, later⟩

-- The handlers between two readings of the clock.
theorem between_timers (loop : Loop) (between : List Event) (handlers : ∀ event ∈ between, event.reading = none) (after : Loop)
    (ran : Machine.run Loop.step loop between = some after) :
    loop.SameTimers after ∧ ∀ events, loop.epochTimes (between ++ events) = after.epochTimes events := by
  induction between generalizing loop with
  | nil =>
      cases ran
      exact ⟨⟨rfl, rfl⟩, fun events => rfl⟩
  | cons event between ih =>
      obtain ⟨next, stepped, rest⟩ := Option.bind_eq_some_iff.mp ran
      have handler := handlers event (List.mem_cons_self ..)
      obtain ⟨same, times⟩ := ih next (fun other member => handlers other (List.mem_cons_of_mem _ member)) rest
      have first := (handler_timers loop next event handler stepped).1
      refine ⟨⟨same.1.trans first.1, same.2.trans first.2⟩, ?_⟩
      intro events
      rw [List.cons_append, epoch_times_handler loop next event _ handler stepped]
      exact times events

-- An epoch that is due when the clock is read waits for the next reading if a
-- heartbeat is due too, and for a later one if that reading is late.
theorem epoch_served_iff (loop : Loop) (first second : Nat) (between : List Event) (handlers : ∀ event ∈ between, event.reading = none)
    (after : Loop) (ran : Machine.run Loop.step (loop.timer first) between = some after) (later : first ≤ second)
    (late : due loop.epoch first = true) :
    loop.epochTimes (.timer first :: (between ++ [.timer second])) ≠ [] ↔
      ¬ (due loop.heartbeat first = true ∧ first + heartbeatIntervalNs < second) := by
  obtain ⟨same, times⟩ := between_timers (loop.timer first) between handlers after ran
  rw [epoch_times_timer, times]
  obtain ⟨beat, _, epoch, heartbeat⟩ | ⟨quiet, _, _⟩ | ⟨_, early, _⟩ := timer_cases loop first
  · rw [if_neg (by simp [beat]), List.nil_append, epoch_times_timer, same.1, same.2, epoch, heartbeat]
    have again := due_mono loop.epoch first second later late
    simp only [due_some, again, beat, Loop.epochTimes, List.append_nil, and_true, true_and, decide_eq_false_iff_not]
    split
    · rename_i kept
      exact ⟨fun _ => kept, fun _ => List.cons_ne_nil _ _⟩
    · rename_i passed
      exact ⟨fun none => absurd rfl none, fun kept => absurd kept passed⟩
  · rw [if_pos ⟨quiet, late⟩, List.singleton_append]
    refine ⟨fun _ both => ?_, fun _ => List.cons_ne_nil _ _⟩
    rw [quiet] at both
    cases both.1
  · rw [late] at early
    cases early

-- A loop that always comes back later than the heartbeat interval sends
-- heartbeats for ever and never assigns a GSN.
theorem epochs_starve (loop : Loop) (events : List Event)
    (slow : (events.filterMap Event.reading).IsChain (fun first second => first + heartbeatIntervalNs < second))
    (start : ∀ first, (events.filterMap Event.reading).head? = some first → due loop.heartbeat first = true) :
    loop.epochTimes events = [] := by
  induction events generalizing loop with
  | nil => rfl
  | cons event events ih =>
      cases stepped : loop.step event with
      | none => rw [Loop.epochTimes, stepped]
      | some next =>
          cases handler : event.reading with
          | none =>
              rw [List.filterMap_cons_none handler] at slow start
              rw [epoch_times_handler loop next event events handler stepped]
              refine ih next slow ?_
              intro first head
              rw [(handler_timers loop next event handler stepped).1.2]
              exact start first head
          | some now =>
              obtain rfl : event = .timer now := by
                cases event with
                | timer other => rw [Option.some.inj handler]
                | _ => cases handler
              rw [List.filterMap_cons_some handler] at slow start
              have beat := start now rfl
              rw [epoch_times_timer, if_neg (by simp [beat]), List.nil_append]
              obtain ⟨_, _, _, heartbeat⟩ | ⟨quiet, _⟩ | ⟨quiet, _⟩ := timer_cases loop now
              · refine ih (loop.timer now) slow.tail ?_
                intro first head
                rw [heartbeat]
                cases rest : events.filterMap Event.reading with
                | nil =>
                    rw [rest] at head
                    cases head
                | cons second others =>
                    rw [rest] at head slow
                    cases head
                    exact decide_eq_true (List.isChain_cons_cons.mp slow).1
              · rw [beat] at quiet
                cases quiet
              · rw [beat] at quiet
                cases quiet

-- The main result on the two timers of order::loop.
theorem epoch_timing (loop : Loop) (events : List Event) :
    (loop.epochTimes events).Pairwise (fun first second => first + epochDurationNs < second) ∧
    (∀ (first second : Nat) (between : List Event) (after : Loop), events = .timer first :: (between ++ [.timer second]) →
      (∀ event ∈ between, event.reading = none) → Machine.run Loop.step (loop.timer first) between = some after → first ≤ second →
      due loop.epoch first = true →
      (loop.epochTimes events ≠ [] ↔ ¬ (due loop.heartbeat first = true ∧ first + heartbeatIntervalNs < second))) ∧
    ((events.filterMap Event.reading).IsChain (fun first second => first + heartbeatIntervalNs < second) →
      (∀ first, (events.filterMap Event.reading).head? = some first → due loop.heartbeat first = true) → loop.epochTimes events = []) := by
  refine ⟨(epochs_apart loop events).1, ?_, epochs_starve loop events⟩
  intro first second between after shape handlers ran later late
  rw [shape]
  exact epoch_served_iff loop first second between handlers after ran later late

theorem epoch_timing_init : (Loop.init 1).epochTimes [.timer 1000, .clientFreeze 7, .timer 2000] ≠ [] ∧
    (Loop.init 1).epochTimes [.timer 0, .timer 400000, .timer 800000] = [] := by
  constructor
  · apply ((epoch_timing (Loop.init 1) [.timer 1000, .clientFreeze 7, .timer 2000]).2.1 1000 2000 [.clientFreeze 7]
      (((Loop.init 1).timer 1000).clientFreeze 7) rfl (by decide) rfl (by decide) rfl).mpr
    intro slow
    exact absurd slow.2 (by decide)
  · refine (epoch_timing (Loop.init 1) [.timer 0, .timer 400000, .timer 800000]).2.2 ?_ (fun _ _ => rfl)
    simp [Event.reading, heartbeatIntervalNs]

end ZipLog.Order
