import ZipLog.Client.Loop
import ZipLog.Lib.Run
import Mathlib.Logic.Function.Basic

set_option autoImplicit false

namespace ZipLog.Client

-- client::loop with the flags that stop sets and its connections. connection
-- numbers the current connection of each replica, told lists those on which
-- client_finished has been sent, with the receive queue it went to.
structure Shutdown where
  loop : Loop
  stop : Bool
  forceStop : Bool
  clientQueues : Nat
  destination : Nat
  connection : Nat → Nat
  connections : Nat
  told : List (Nat × Nat)

def Shutdown.init (clientId shardId failures : Nat) : Shutdown :=
  ⟨Loop.init clientId shardId failures, false, false, 0, 0, fun _ => 0, 0, []⟩

-- A server of a client_storage_info message that the handler adds; none is a
-- connection that failed.
def Shutdown.accepts (s : Shutdown) (connection : Option StorageIntro) : Prop :=
  ∃ intro_ ∈ connection, intro_.valid = true ∧ intro_.shardId = s.loop.shardId ∧ intro_.replicaId ∉ s.loop.queues ∧
    (s.loop.queues = [] ∨ s.clientQueues = intro_.clientQueues)

instance (s : Shutdown) (connection : Option StorageIntro) : Decidable (s.accepts connection) :=
  inferInstanceAs (Decidable (∃ intro_ ∈ connection, _))

def Shutdown.connect (s : Shutdown) (connection : Option StorageIntro) : Shutdown :=
  match connection with
  | none => s
  | some intro_ =>
      if s.accepts connection then
        let clientQueues := if s.loop.queues = [] then intro_.clientQueues else s.clientQueues
        { s with
          loop := { s.loop with queues := s.loop.queues ++ [intro_.replicaId] }
          clientQueues := clientQueues
          destination := if s.loop.queues = [] then 1 + s.loop.clientId / numShards % clientQueues else s.destination
          connection := Function.update s.connection intro_.replicaId s.connections
          connections := s.connections + 1 }
      else s

inductive ShutdownEvent where
  | stop
  | forceStop
  | check
  | turn (now : Nat)
  | insertAck (ack : ClientInsertAck)
  | newEpoch (beginning numSlots : Nat)
  | storageFinished (shardId replicaId : Nat)
  | orderFinished
  | storageInfo (connections : List (Option StorageIntro))
deriving DecidableEq, Repr

-- stop and forceStop are calls of another thread, check is the head of the loop.
def Shutdown.step (s : Shutdown) : ShutdownEvent → Option Shutdown
  | .stop => some { s with stop := true }
  | .forceStop => some { s with forceStop := true }
  | .check =>
      if s.forceStop = true ∨ s.loop.ended = true then none
      else if s.stop = true then
        let result := s.loop.checkStop
        some { s with
          loop := result.1
          told := s.told ++ if result.2 then s.loop.queues.map (fun replica => (s.connection replica, s.destination)) else [] }
      else some s
  | .turn now => some { s with loop := ((s.loop.switchEpoch now).send now).1 }
  | .insertAck ack => some { s with loop := s.loop.clientInsertAck ack }
  | .newEpoch beginning numSlots => some { s with loop := s.loop.clientNewEpoch beginning numSlots }
  | .storageFinished shardId replicaId => some { s with loop := (s.loop.storageFinished shardId replicaId).1 }
  | .orderFinished => some { s with loop := s.loop.orderFinished }
  | .storageInfo connections => some (connections.foldl Shutdown.connect s)

-- No storage server is added once the stop request has been acted on.
def Shutdown.quiet (s : Shutdown) : ShutdownEvent → Prop
  | .storageInfo connections => s.loop.stopped = true → ∀ connection ∈ connections, ¬ s.accepts connection
  | _ => True

instance (s : Shutdown) : (event : ShutdownEvent) → Decidable (s.quiet event)
  | .storageInfo connections =>
      inferInstanceAs (Decidable (s.loop.stopped = true → ∀ connection ∈ connections, ¬ s.accepts connection))
  | .stop | .forceStop | .check | .turn _ | .insertAck _ | .newEpoch _ _ | .storageFinished _ _ | .orderFinished => isTrue trivial

-- Every server in the queue map has been sent client_finished.
def Shutdown.Told (s : Shutdown) : Prop :=
  s.loop.stopped = true → ∀ replica ∈ s.loop.queues, ∃ destination, (s.connection replica, destination) ∈ s.told

theorem switch_epoch_queues (client : Loop) (now : Nat) :
    (client.switchEpoch now).queues = client.queues ∧ (client.switchEpoch now).stopped = client.stopped := by
  unfold Loop.switchEpoch
  split
  · exact ⟨rfl, rfl⟩
  · split
    · exact ⟨rfl, rfl⟩
    · exact ⟨rfl, rfl⟩

theorem send_queues (client : Loop) (now : Nat) :
    (client.send now).1.queues = client.queues ∧ (client.send now).1.stopped = client.stopped := by
  unfold Loop.send
  split
  · dsimp only
    split
    · exact ⟨rfl, rfl⟩
    · split
      · exact ⟨rfl, rfl⟩
      · exact ⟨rfl, rfl⟩
  · exact ⟨rfl, rfl⟩

theorem insert_ack_queues (client : Loop) (ack : ClientInsertAck) :
    (client.clientInsertAck ack).queues = client.queues ∧ (client.clientInsertAck ack).stopped = client.stopped := by
  unfold Loop.clientInsertAck
  split
  · exact ⟨rfl, rfl⟩
  · split
    · exact ⟨rfl, rfl⟩
    · split
      · exact ⟨rfl, rfl⟩
      · dsimp only
        split
        · exact ⟨rfl, rfl⟩
        · exact ⟨rfl, rfl⟩

-- A change of the loop that does not add to the map.
theorem told_shrinks (s : Shutdown) (loop : Loop) (told : s.Told) (stopped : loop.stopped = s.loop.stopped)
    (fewer : ∀ replica ∈ loop.queues, replica ∈ s.loop.queues) : Shutdown.Told { s with loop := loop } := by
  intro now_stopped replica member
  exact told (stopped.symm.trans now_stopped) replica (fewer replica member)

theorem storage_finished_fewer (client : Loop) (shardId replicaId : Nat) :
    (client.storageFinished shardId replicaId).1.stopped = client.stopped ∧
      ∀ replica ∈ (client.storageFinished shardId replicaId).1.queues, replica ∈ client.queues := by
  unfold Loop.storageFinished
  split
  · exact ⟨rfl, fun _ member => member⟩
  · exact ⟨rfl, fun _ member => (List.mem_filter.mp member).1⟩

theorem connect_refused (s : Shutdown) (connection : Option StorageIntro) (refused : ¬ s.accepts connection) :
    s.connect connection = s := by
  unfold Shutdown.connect
  split
  · rfl
  · exact if_neg refused

theorem connect_stopped (s : Shutdown) (connection : Option StorageIntro) : (s.connect connection).loop.stopped = s.loop.stopped := by
  unfold Shutdown.connect
  split
  · rfl
  · split
    · rfl
    · rfl

theorem connects_refused (s : Shutdown) (connections : List (Option StorageIntro)) (refused : ∀ connection ∈ connections, ¬ s.accepts connection) :
    connections.foldl Shutdown.connect s = s := by
  induction connections with
  | nil => rfl
  | cons head rest ih =>
      rw [List.foldl_cons, connect_refused s head (refused head List.mem_cons_self)]
      exact ih (fun connection member => refused connection (List.mem_cons_of_mem _ member))

theorem connects_stopped (s : Shutdown) (connections : List (Option StorageIntro)) :
    (connections.foldl Shutdown.connect s).loop.stopped = s.loop.stopped := by
  induction connections generalizing s with
  | nil => rfl
  | cons head rest ih => rw [List.foldl_cons, ih, connect_stopped]

theorem check_told (s : Shutdown) (told : s.Told) : Shutdown.Told { s with
    loop := s.loop.checkStop.1
    told := s.told ++ if s.loop.checkStop.2 then s.loop.queues.map (fun replica => (s.connection replica, s.destination)) else [] } := by
  unfold Loop.checkStop
  cases before : s.loop.stopped with
  | true =>
      intro _ replica member
      obtain ⟨destination, inside⟩ := told before replica member
      exact ⟨destination, List.mem_append_left _ inside⟩
  | false =>
      intro _ replica member
      exact ⟨s.destination, List.mem_append_right _ (List.mem_map_of_mem (f := fun r => (s.connection r, s.destination)) member)⟩

theorem shutdown_step (s next : Shutdown) (event : ShutdownEvent) (told : s.Told) (quiet : s.quiet event)
    (step : s.step event = some next) : next.Told := by
  cases event with
  | stop =>
      cases step
      exact told
  | forceStop =>
      cases step
      exact told
  | check =>
      unfold Shutdown.step at step
      dsimp only at step
      split at step
      · cases step
      · split at step
        · cases step
          exact check_told s told
        · cases step
          exact told
  | turn now =>
      cases step
      obtain ⟨queues, stopped⟩ := send_queues (s.loop.switchEpoch now) now
      obtain ⟨queues', stopped'⟩ := switch_epoch_queues s.loop now
      exact told_shrinks s _ told (stopped.trans stopped') (fun replica member => by rw [queues, queues'] at member; exact member)
  | insertAck ack =>
      cases step
      obtain ⟨queues, stopped⟩ := insert_ack_queues s.loop ack
      exact told_shrinks s _ told stopped (fun replica member => by rw [queues] at member; exact member)
  | newEpoch beginning numSlots =>
      cases step
      exact told_shrinks s _ told rfl (fun replica member => member)
  | storageFinished shardId replicaId =>
      cases step
      obtain ⟨stopped, fewer⟩ := storage_finished_fewer s.loop shardId replicaId
      exact told_shrinks s _ told stopped fewer
  | orderFinished =>
      cases step
      exact told_shrinks s _ told rfl (fun replica member => member)
  | storageInfo connections =>
      cases step
      by_cases stopped : s.loop.stopped = true
      · rw [connects_refused s connections (quiet stopped)]
        exact told
      · intro now_stopped
        rw [connects_stopped] at now_stopped
        exact absurd now_stopped stopped

theorem shutdown_told (clientId shardId failures : Nat) (events : List ShutdownEvent) (s : Shutdown)
    (ran : Machine.run (Machine.guarded Shutdown.step Shutdown.quiet) (Shutdown.init clientId shardId failures) events = some s) : s.Told := by
  refine Machine.run_preserves (Machine.guarded Shutdown.step Shutdown.quiet) Shutdown.Told ?_ _ s ?_ events ran
  · intro s event next told step
    obtain ⟨quiet, taken⟩ := Machine.guarded_some step
    exact shutdown_step s next event told quiet taken
  · intro stopped
    cases stopped

end ZipLog.Client
