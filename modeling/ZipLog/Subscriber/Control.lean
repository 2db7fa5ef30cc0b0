import ZipLog.Client.Shutdown

set_option autoImplicit false

namespace ZipLog.Subscriber

-- One element of storage_queues: the server, how many send queues the connection
-- has, and the number of the connection.
structure Link where
  server : Nat × Nat
  sendQueues : Nat
  connection : Nat
deriving DecidableEq, Repr

-- The locals of subscriber::control with the flag that stop sets. told lists the
-- connections on which subscriber_finished has been sent.
structure Control where
  stop : Bool
  stopped : Bool
  orderFinished : Bool
  ended : Bool
  storageQueues : List Link
  storageFinished : Nat × Nat → Nat
  connections : Nat
  told : List Nat

def Control.init : Control := ⟨false, false, false, false, [], fun _ => 0, 0, []⟩

inductive ControlEvent where
  | stop
  | check
  | storageInfo (connections : List (Option StorageIntro))
  | orderFinished
  | storageFinished (shardId replicaId : Nat)
deriving DecidableEq, Repr

def Control.accepts (s : Control) (connection : Option StorageIntro) : Prop :=
  ∃ intro_ ∈ connection, intro_.valid = true ∧ intro_.shardId < numShards ∧
    (intro_.shardId, intro_.replicaId) ∉ s.storageQueues.map Link.server

instance (s : Control) (connection : Option StorageIntro) : Decidable (s.accepts connection) :=
  inferInstanceAs (Decidable (∃ intro_ ∈ connection, _))

def Control.connect (s : Control) (connection : Option StorageIntro) : Control :=
  match connection with
  | none => s
  | some intro_ =>
      if s.accepts connection then
        { s with
          storageQueues := s.storageQueues ++ [⟨(intro_.shardId, intro_.replicaId), intro_.sendQueues, s.connections⟩]
          connections := s.connections + 1 }
      else s

-- The stop check at the head of the loop.
def Control.check (s : Control) : Control :=
  if s.stopped = false ∧ s.stop = true then
    { s with stopped := true, told := s.told ++ s.storageQueues.map Link.connection }
  else s

def Control.finalized (s : Control) : Control :=
  if s.orderFinished = true ∧ s.storageQueues = [] then { s with ended := true } else s

-- The loop of subscriber::control: the result is none where it has ended or an
-- assertion fails.
def Control.step (s : Control) : ControlEvent → Option Control
  | .stop => some { s with stop := true }
  | .check => if s.ended = true then none else some s.check
  | .storageInfo connections => some (connections.foldl Control.connect s)
  | .orderFinished =>
      if s.orderFinished = true then none else some (Control.finalized { s with orderFinished := true })
  | .storageFinished shardId replicaId =>
      match s.storageQueues.find? (fun link => link.server == (shardId, replicaId)) with
      | none => some s
      | some link =>
          let count := s.storageFinished (shardId, replicaId) + 1
          if count = link.sendQueues then
            some (Control.finalized { s with
              storageFinished := Function.update s.storageFinished (shardId, replicaId) 0
              storageQueues := s.storageQueues.filter (fun link => link.server != (shardId, replicaId)) })
          else some (Control.finalized { s with storageFinished := Function.update s.storageFinished (shardId, replicaId) count })

def Control.quiet (s : Control) : ControlEvent → Prop
  | .storageInfo connections => s.stopped = true → ∀ connection ∈ connections, ¬ s.accepts connection
  | _ => True

instance (s : Control) : (event : ControlEvent) → Decidable (s.quiet event)
  | .storageInfo connections => inferInstanceAs (Decidable (s.stopped = true → ∀ connection ∈ connections, ¬ s.accepts connection))
  | .stop | .check | .orderFinished | .storageFinished _ _ => isTrue trivial

-- Every server in the queue map has been sent subscriber_finished.
def Control.Told (s : Control) : Prop := s.stopped = true → ∀ link ∈ s.storageQueues, link.connection ∈ s.told

theorem finalized_same (s : Control) : s.finalized.storageQueues = s.storageQueues ∧ s.finalized.stopped = s.stopped ∧
    s.finalized.told = s.told ∧ s.finalized.storageFinished = s.storageFinished ∧ s.finalized.orderFinished = s.orderFinished := by
  unfold Control.finalized
  split
  · exact ⟨rfl, rfl, rfl, rfl, rfl⟩
  · exact ⟨rfl, rfl, rfl, rfl, rfl⟩

theorem finalized_told (s : Control) (told : s.Told) : s.finalized.Told := by
  obtain ⟨queues, stopped, same, -, -⟩ := finalized_same s
  intro now_stopped link member
  rw [queues] at member
  rw [same]
  exact told (stopped.symm.trans now_stopped) link member

theorem control_connect_refused (s : Control) (connection : Option StorageIntro) (refused : ¬ s.accepts connection) :
    s.connect connection = s := by
  unfold Control.connect
  split
  · rfl
  · exact if_neg refused

theorem control_connect_stopped (s : Control) (connection : Option StorageIntro) : (s.connect connection).stopped = s.stopped := by
  unfold Control.connect
  split
  · rfl
  · split
    · rfl
    · rfl

theorem control_connects_refused (s : Control) (connections : List (Option StorageIntro))
    (refused : ∀ connection ∈ connections, ¬ s.accepts connection) : connections.foldl Control.connect s = s := by
  induction connections with
  | nil => rfl
  | cons head rest ih =>
      rw [List.foldl_cons, control_connect_refused s head (refused head List.mem_cons_self)]
      exact ih (fun connection member => refused connection (List.mem_cons_of_mem _ member))

theorem control_connects_stopped (s : Control) (connections : List (Option StorageIntro)) :
    (connections.foldl Control.connect s).stopped = s.stopped := by
  induction connections generalizing s with
  | nil => rfl
  | cons head rest ih => rw [List.foldl_cons, ih, control_connect_stopped]

theorem control_step (s next : Control) (event : ControlEvent) (told : s.Told) (quiet : s.quiet event)
    (step : s.step event = some next) : next.Told := by
  cases event with
  | stop =>
      cases step
      exact told
  | check =>
      unfold Control.step at step
      dsimp only at step
      split at step
      · cases step
      · cases step
        unfold Control.check
        split
        · intro _ link member
          exact List.mem_append_right _ (List.mem_map_of_mem member)
        · exact told
  | storageInfo connections =>
      cases step
      by_cases stopped : s.stopped = true
      · rw [control_connects_refused s connections (quiet stopped)]
        exact told
      · intro now_stopped
        rw [control_connects_stopped] at now_stopped
        exact absurd now_stopped stopped
  | orderFinished =>
      unfold Control.step at step
      dsimp only at step
      split at step
      · cases step
      · cases step
        exact finalized_told _ told
  | storageFinished shardId replicaId =>
      unfold Control.step at step
      dsimp only at step
      split at step
      · cases step
        exact told
      · split at step
        · cases step
          refine finalized_told _ (fun stopped link member => told stopped link (List.mem_filter.mp member).1)
        · cases step
          exact finalized_told _ told

theorem control_told (events : List ControlEvent) (s : Control)
    (ran : Machine.run (Machine.guarded Control.step Control.quiet) Control.init events = some s) : s.Told := by
  refine Machine.run_preserves (Machine.guarded Control.step Control.quiet) Control.Told ?_ _ s ?_ events ran
  · intro s event next told step
    obtain ⟨quiet, taken⟩ := Machine.guarded_some step
    exact control_step s next event told quiet taken
  · intro stopped
    cases stopped

-- As long as no storage server is added after the stop request has been acted
-- on, every server in the map has been told, by the client as by the subscriber.
theorem shutdown_reaches_servers (clientId shardId failures : Nat) :
    (∀ events s, Machine.run (Machine.guarded Client.Shutdown.step Client.Shutdown.quiet)
        (Client.Shutdown.init clientId shardId failures) events = some s → s.loop.stopped = true → s.loop.ended = false →
      ∀ replica ∈ s.loop.queues, ∃ destination, (s.connection replica, destination) ∈ s.told) ∧
    (∀ events s, Machine.run (Machine.guarded Control.step Control.quiet) Control.init events = some s → s.stopped = true →
      s.ended = false → ∀ link ∈ s.storageQueues, link.connection ∈ s.told) := by
  constructor
  · intro events s ran stopped _
    exact Client.shutdown_told clientId shardId failures events s ran stopped
  · intro events s ran stopped _
    exact control_told events s ran stopped

theorem shutdown_reaches_servers_in_time :
    (∃ s, Machine.run (Machine.guarded Client.Shutdown.step Client.Shutdown.quiet) (Client.Shutdown.init 0 0 0)
        [.check, .storageInfo [some ⟨true, 0, 0, 1, 1⟩], .stop, .check] = some s ∧ s.loop.queues = [0] ∧
      ∃ destination, (s.connection 0, destination) ∈ s.told) ∧
    (∃ s, Machine.run (Machine.guarded Control.step Control.quiet) Control.init
        [.check, .storageInfo [some ⟨true, 0, 0, 1, 1⟩], .stop, .check] = some s ∧ s.storageQueues = [⟨(0, 0), 1, 0⟩] ∧ 0 ∈ s.told) := by
  constructor
  · have outcome : (Machine.run (Machine.guarded Client.Shutdown.step Client.Shutdown.quiet) (Client.Shutdown.init 0 0 0)
        [.check, .storageInfo [some ⟨true, 0, 0, 1, 1⟩], .stop, .check]).map (fun s => (s.loop.stopped, s.loop.ended, s.loop.queues)) =
        some (true, false, [0]) := by decide +kernel
    obtain ⟨s, ran, values⟩ := Option.map_eq_some_iff.mp outcome
    simp only [Prod.mk.injEq] at values
    obtain ⟨stopped, running, queues⟩ := values
    exact ⟨s, ran, queues, (shutdown_reaches_servers 0 0 0).1 _ s ran stopped running 0 (by rw [queues]; exact List.mem_cons_self)⟩
  · have outcome : (Machine.run (Machine.guarded Control.step Control.quiet) Control.init
        [.check, .storageInfo [some ⟨true, 0, 0, 1, 1⟩], .stop, .check]).map (fun s => (s.stopped, s.ended, s.storageQueues)) =
        some (true, false, [⟨(0, 0), 1, 0⟩]) := by decide +kernel
    obtain ⟨s, ran, values⟩ := Option.map_eq_some_iff.mp outcome
    simp only [Prod.mk.injEq] at values
    obtain ⟨stopped, running, queues⟩ := values
    exact ⟨s, ran, queues, (shutdown_reaches_servers 0 0 0).2 _ s ran stopped running ⟨(0, 0), 1, 0⟩ (by rw [queues]; exact List.mem_cons_self)⟩

-- stop comes before the storage servers are known.
theorem shutdown_misses_servers :
    (∃ s, Machine.run Client.Shutdown.step (Client.Shutdown.init 0 0 0) [.stop, .check, .storageInfo [some ⟨true, 0, 0, 1, 1⟩], .check] = some s ∧
      s.loop.stopped = true ∧ s.loop.ended = false ∧ 0 ∈ s.loop.queues ∧ s.told = []) ∧
    (∃ s, Machine.run Control.step Control.init [.stop, .check, .storageInfo [some ⟨true, 0, 0, 1, 1⟩], .check] = some s ∧
      s.stopped = true ∧ s.ended = false ∧ s.storageQueues = [⟨(0, 0), 1, 0⟩] ∧ s.told = []) := by
  constructor
  · exact ⟨_, rfl, rfl, rfl, List.mem_cons_self, rfl⟩
  · exact ⟨_, rfl, rfl, rfl, rfl, rfl⟩

end ZipLog.Subscriber
