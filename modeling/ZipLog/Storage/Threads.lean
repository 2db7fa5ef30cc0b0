import ZipLog.Lib.Run
import ZipLog.Storage.Control

set_option autoImplicit false

namespace ZipLog.Storage

-- What a thread does to the state of the server: the accept thread adds clients, the
-- other jobs are the handlers of storage::control and storage::client.
inductive Job where
  | addClient (clientId : Nat)
  | suspected (clientId : Nat)
  | control (message : StorageControl) (beyond : Bytes)
  | insert (req : StorageInsert) (beyond : Bytes)
  | clientFinished (clientId : Nat)
deriving DecidableEq, Repr

inductive Reply where
  | order (message : OrderControl)
  | client (clientId : Nat) (message : StorageReply)
deriving DecidableEq, Repr

-- The client whose state the job gets; add_client verifies its argument before.
def Job.client? : Job → Option Nat
  | .addClient clientId => if maxClients ≤ clientId then none else some clientId
  | .suspected clientId => some clientId
  | .control (.slots _) _ => none
  | .control (.clientFreeze clientId) _ => some clientId
  | .control (.clientCut req) _ => some req.clientId
  | .control (.clientPatch data) _ => some data.clientId
  | .control (.clientFinalize clientId) _ => some clientId
  | .insert req _ => some req.clientId
  | .clientFinished clientId => some clientId

def Job.waits (server : Server) : Job → Bool
  | .addClient _ => false
  | .suspected clientId => !(server.clientState clientId).connected
  | .control message _ => server.waits message
  | .insert req _ => !(server.clientState req.clientId).connected
  | .clientFinished clientId => !(server.clientState clientId).connected

def Job.run (server : Server) : Job → Except Fault (Server × List Reply)
  | .addClient clientId => .ok (server.addClient clientId, [])
  | .suspected clientId => .ok (server.disconnect clientId, [.order (.clientFreeze clientId)])
  | .control message beyond => (server.control message beyond).map (fun result => (result.1, result.2.map .order))
  | .insert req beyond =>
      (server.storageInsert req beyond).map (fun result => (result.1, result.2.toList.map (fun ack => .client req.clientId (.insertAck ack))))
  | .clientFinished clientId =>
      let result := server.clientFinished clientId
      .ok (result.1, result.2.toList.map (.client clientId))

-- The server with every job in one step.
structure Served where
  server : Server
  replies : List Reply

def Served.init (shardId replicaId : Nat) : Served := ⟨Server.init shardId replicaId, []⟩

def Served.step (s : Served) (job : Nat × Job) : Option Served :=
  if job.2.waits s.server then none
  else match job.2.run s.server with
    | .error _ => none
    | .ok (server, replies) => some ⟨server, s.replies ++ replies⟩

-- Where a thread is. allocated: get_client_state has found nullptr and made a state
-- of its own; found: it has returned, with nothing if it has dereferenced nullptr;
-- waiting: in cv.wait.
inductive Phase where
  | idle
  | allocated (job : Job) (clientId fresh : Nat)
  | found (job : Job) (clientId : Nat) (ref : Option Nat)
  | waiting (job : Job) (clientId ref : Nat)
deriving DecidableEq, Repr

def Phase.job? : Phase → Option Job
  | .idle => none
  | .allocated job _ _ => some job
  | .found job _ _ => some job
  | .waiting job _ _ => some job

-- location is client_state_, states the objects it points to, each with its number
-- in the order of allocation. waiters are the threads in cv.wait of an object.
-- started and finished are history.
structure Threads where
  shardId : Nat
  replicaId : Nat
  log : Log
  location : Nat → Option Nat
  states : Nat → ClientState
  allocations : Nat
  deleted : List Nat
  waiters : Nat → List Nat
  phase : Nat → Phase
  replies : List Reply
  started : Nat → List Job
  finished : List (Nat × Job)

def Threads.init (shardId replicaId : Nat) : Threads :=
  ⟨shardId, replicaId, Log.init zeroed, fun _ => none, fun _ => ClientState.init, 0, [], fun _ => [], fun _ => .idle, [], fun _ => [], []⟩

inductive ThreadStep where
  | start (thread : Nat) (job : Job)
  | exchange (thread : Nat) (spurious : Bool)
  | enter (thread : Nat) (notified : Option Nat)
  | wake (thread : Nat)
deriving DecidableEq, Repr

-- What the threads see of the states together.
def Threads.server (s : Threads) : Server :=
  ⟨s.shardId, s.replicaId, s.log, fun clientId => (s.location clientId).elim ClientState.init s.states⟩

-- What a thread sees with a reference to the state of one client.
def Threads.seen (s : Threads) (clientId ref : Nat) : Server :=
  ⟨s.shardId, s.replicaId, s.log, Function.update (fun _ => ClientState.init) clientId (s.states ref)⟩

def Threads.setPhase (s : Threads) (thread : Nat) (phase : Phase) : Threads :=
  { s with phase := Function.update s.phase thread phase }

def Threads.wake (s : Threads) (thread : Nat) : Threads :=
  match s.phase thread with
  | .waiting job clientId ref =>
      { s.setPhase thread (.found job clientId (some ref)) with waiters := Function.update s.waiters ref ((s.waiters ref).erase thread) }
  | _ => s

def Threads.done (s : Threads) (thread : Nat) (job : Job) (log : Log) (replies : List Reply) : Threads :=
  { s.setPhase thread .idle with log := log, replies := s.replies ++ replies, finished := s.finished ++ [(thread, job)] }

-- Only add_client notifies, and only the first time. notify_one takes any of the
-- waiting threads.
def Threads.notifies (s : Threads) (job : Job) (clientId ref : Nat) (notified : Option Nat) : Bool :=
  match notified with
  | none => decide (job ≠ .addClient clientId ∨ (s.states ref).connected = true ∨ s.waiters ref = [])
  | some thread => decide (job = .addClient clientId ∧ (s.states ref).connected = false ∧ thread ∈ s.waiters ref)

def Threads.begin (s : Threads) (thread : Nat) (job : Job) : Threads :=
  { s with started := Function.update s.started thread (s.started thread ++ [job]) }

def Threads.allocate (s : Threads) (thread : Nat) (job : Job) (clientId : Nat) : Threads :=
  { s.setPhase thread (.allocated job clientId s.allocations) with
    states := Function.update s.states s.allocations ClientState.init
    allocations := s.allocations + 1 }

def Threads.install (s : Threads) (thread : Nat) (job : Job) (clientId fresh : Nat) : Threads :=
  { s.setPhase thread (.found job clientId (some fresh)) with location := Function.update s.location clientId (some fresh) }

def Threads.discard (s : Threads) (thread : Nat) (job : Job) (clientId fresh : Nat) : Threads :=
  { s.setPhase thread (.found job clientId (s.location clientId)) with deleted := s.deleted ++ [fresh] }

def Threads.block (s : Threads) (thread : Nat) (job : Job) (clientId ref : Nat) : Threads :=
  { s.setPhase thread (.waiting job clientId ref) with waiters := Function.update s.waiters ref (s.waiters ref ++ [thread]) }

def Threads.complete (s : Threads) (thread : Nat) (job : Job) (clientId ref : Nat) (result : Server × List Reply) : Threads :=
  { s.done thread job result.1.log result.2 with states := Function.update s.states ref (result.1.clientState clientId) }

-- start is the call up to the load of the location, which is checked against the
-- array; exchange is compare_exchange_weak, which may fail without a reason. The
-- critical section of state.lock is one step, as is what cv.wait does before it
-- blocks; a thread may leave cv.wait without a notification.
def Threads.step (s : Threads) : ThreadStep → Option Threads
  | .start thread job =>
      if s.phase thread = .idle then
        match job.client? with
        | none =>
            match job.run s.server with
            | .error _ => none
            | .ok (server, replies) => some ((s.begin thread job).done thread job server.log replies)
        | some clientId =>
            if clientId < maxClients then
              match s.location clientId with
              | some ref => some ((s.begin thread job).setPhase thread (.found job clientId (some ref)))
              | none => some ((s.begin thread job).allocate thread job clientId)
            else none
      else none
  | .exchange thread spurious =>
      match s.phase thread with
      | .allocated job clientId fresh =>
          if s.location clientId = none ∧ spurious = false then some (s.install thread job clientId fresh)
          else some (s.discard thread job clientId fresh)
      | _ => none
  | .enter thread notified =>
      match s.phase thread with
      | .found job clientId (some ref) =>
          if job.waits (s.seen clientId ref) then some (s.block thread job clientId ref)
          else if s.notifies job clientId ref notified then
            match job.run (s.seen clientId ref) with
            | .error _ => none
            | .ok result => some (notified.elim (s.complete thread job clientId ref result) (s.complete thread job clientId ref result).wake)
          else none
      | _ => none
  | .wake thread =>
      match s.phase thread with
      | .waiting .. => some (s.wake thread)
      | _ => none

-- The server with one client's state and any others.
def Server.among (server : Server) (clientId : Nat) (states : Nat → ClientState) : Server :=
  { server with clientState := Function.update states clientId (server.clientState clientId) }

theorem among_own (server : Server) (clientId : Nat) (states : Nat → ClientState) :
    (server.among clientId states).clientState clientId = server.clientState clientId := Function.update_self _ _ _

theorem set_among (server : Server) (clientId : Nat) (state : ClientState) (states : Nat → ClientState) :
    (server.among clientId states).setClientState clientId state = (server.setClientState clientId state).among clientId states := by
  simp only [Server.among, Server.setClientState, Function.update_self, Function.update_idem]

theorem log_among (server : Server) (log : Log) (clientId : Nat) (states : Nat → ClientState) :
    ({ server.among clientId states with log := log } : Server) = ({ server with log := log } : Server).among clientId states := rfl

theorem client_data_among (server : Server) (clientId : Nat) (states : Nat → ClientState) (entries : List Ptr) :
    (server.among clientId states).clientData entries = server.clientData entries := by
  induction entries with
  | nil => rfl
  | cons here rest ih =>
      rw [Server.clientData, Server.clientData, ih]
      rfl

theorem storage_client_cut_among (server : Server) (req : StorageClientCut) (states : Nat → ClientState) :
    (server.among req.clientId states).storageClientCut req = server.storageClientCut req := by
  simp only [Server.storageClientCut, client_data_among, among_own]
  rfl

theorem storage_client_patch_among (server : Server) (data : StorageClientPatch) (beyond : Bytes) (states : Nat → ClientState) :
    (server.among data.clientId states).storageClientPatch data beyond =
      (server.storageClientPatch data beyond).map (fun next => next.among data.clientId states) := by
  simp only [Server.storageClientPatch, among_own]
  split
  · change (server.log.insert _ _ _ _ >>= _) = Except.map _ (server.log.insert _ _ _ _ >>= _)
    cases server.log.insert data.clientId (server.clientState data.clientId).position ⟨data.data, beyond⟩ data.gsn with
    | error fault => rfl
    | ok result =>
        change Except.ok ((server.among data.clientId states).inserted data.clientId result) = _
        rw [Server.inserted, among_own, log_among, set_among]
        rfl
  · rfl

theorem storage_client_finalize_among (server : Server) (clientId : Nat) (states : Nat → ClientState) :
    (server.among clientId states).storageClientFinalize clientId =
      (server.storageClientFinalize clientId).map (fun next => next.among clientId states) := by
  simp only [Server.storageClientFinalize, among_own]
  change (server.log.close _ _ >>= _) = Except.map _ (server.log.close _ _ >>= _)
  cases server.log.close clientId (server.clientState clientId).position with
  | error fault => rfl
  | ok result =>
      obtain ⟨log, position⟩ := result
      change Except.ok _ = Except.ok _
      rw [log_among, set_among]

theorem storage_insert_among (server : Server) (req : StorageInsert) (beyond : Bytes) (states : Nat → ClientState) :
    (server.among req.clientId states).storageInsert req beyond =
      (server.storageInsert req beyond).map (fun result => (result.1.among req.clientId states, result.2)) := by
  simp only [Server.storageInsert, among_own]
  split
  · rfl
  · change (server.log.insert _ _ _ _ >>= _) = Except.map _ (server.log.insert _ _ _ _ >>= _)
    cases server.log.insert req.clientId (server.clientState req.clientId).position ⟨req.data, beyond⟩ req.numSlots with
    | error fault => rfl
    | ok result =>
        change Except.ok _ = Except.ok _
        rw [log_among, set_among]
        rfl

-- A job reads and writes the state of its own client only.
theorem job_among (job : Job) (clientId : Nat) (client : job.client? = some clientId) (server : Server) (states : Nat → ClientState) :
    job.waits (server.among clientId states) = job.waits server ∧
    job.run (server.among clientId states) = (job.run server).map (fun result => (result.1.among clientId states, result.2)) := by
  cases job with
  | addClient id =>
      refine ⟨rfl, ?_⟩
      obtain ⟨_, same⟩ := Option.ite_none_left_eq_some.mp client
      cases same
      simp only [Job.run, Server.addClient, among_own]
      split
      · rfl
      · rw [set_among]
        rfl
  | suspected id =>
      cases client
      refine ⟨by simp only [Job.waits, among_own], ?_⟩
      simp only [Job.run, Server.disconnect, among_own]
      rw [set_among]
      rfl
  | control message beyond =>
      cases message with
      | slots slots => cases client
      | clientFreeze id =>
          cases client
          refine ⟨by simp only [Job.waits, Server.waits, among_own], ?_⟩
          simp only [Job.run, Server.control, Server.storageClientFreeze, Server.disconnect, among_own]
          rw [set_among]
          rfl
      | clientCut req =>
          cases client
          refine ⟨rfl, ?_⟩
          simp only [Job.run, Server.control, storage_client_cut_among]
          cases server.storageClientCut req <;> rfl
      | clientPatch data =>
          cases client
          refine ⟨rfl, ?_⟩
          simp only [Job.run, Server.control, storage_client_patch_among]
          cases server.storageClientPatch data beyond <;> rfl
      | clientFinalize id =>
          cases client
          refine ⟨rfl, ?_⟩
          simp only [Job.run, Server.control, storage_client_finalize_among]
          cases server.storageClientFinalize clientId <;> rfl
  | insert req beyond =>
      cases client
      refine ⟨by simp only [Job.waits, among_own], ?_⟩
      simp only [Job.run, storage_insert_among]
      cases server.storageInsert req beyond <;> rfl
  | clientFinished id =>
      cases client
      refine ⟨by simp only [Job.waits, among_own], ?_⟩
      simp only [Job.run, Server.clientFinished, Server.disconnect, among_own]
      split
      · rfl
      · rw [set_among]
        rfl

-- What a job leaves behind: a client that is connected stays so.
def Job.Leaves (job : Job) (server next : Server) : Prop :=
  ∃ log states, next = ⟨server.shardId, server.replicaId, log, states⟩ ∧ (job.client? = none → states = server.clientState) ∧
    ∀ clientId, job.client? = some clientId → (server.clientState clientId).connected = true → (states clientId).connected = true

theorem leaves_state (job : Job) (server : Server) (log : Log) (clientId : Nat) (client : job.client? = some clientId) (state : ClientState)
    (connected : (server.clientState clientId).connected = true → state.connected = true) :
    job.Leaves server (({ server with log := log } : Server).setClientState clientId state) := by
  refine ⟨log, Function.update server.clientState clientId state, rfl, ?_, ?_⟩
  · intro plain
    rw [plain] at client
    cases client
  · intro other same before
    rw [client] at same
    cases same
    rw [Function.update_self]
    exact connected before

theorem leaves_log (job : Job) (server : Server) (log : Log) : job.Leaves server { server with log := log } :=
  ⟨log, server.clientState, rfl, fun _ => rfl, fun _ _ before => before⟩

theorem storage_client_patch_leaves (server next : Server) (data : StorageClientPatch) (beyond : Bytes)
    (ran : server.storageClientPatch data beyond = .ok next) : (Job.control (.clientPatch data) beyond).Leaves server next := by
  simp only [Server.storageClientPatch] at ran
  split at ran
  · change (server.log.insert _ _ _ _ >>= _) = _ at ran
    cases inserted : server.log.insert data.clientId (server.clientState data.clientId).position ⟨data.data, beyond⟩ data.gsn with
    | error fault =>
        rw [inserted] at ran
        cases ran
    | ok insert =>
        rw [inserted] at ran
        cases ran
        exact leaves_state _ server insert.log data.clientId rfl _ id
  · cases ran
    exact leaves_log _ server server.log

theorem storage_client_finalize_leaves (server next : Server) (clientId : Nat) (beyond : Bytes)
    (ran : server.storageClientFinalize clientId = .ok next) : (Job.control (.clientFinalize clientId) beyond).Leaves server next := by
  simp only [Server.storageClientFinalize] at ran
  change (server.log.close _ _ >>= _) = _ at ran
  cases closed : server.log.close clientId (server.clientState clientId).position with
  | error fault =>
      rw [closed] at ran
      cases ran
  | ok close =>
      rw [closed] at ran
      cases ran
      exact leaves_state _ server close.1 clientId rfl _ id

theorem storage_insert_leaves (server : Server) (req : StorageInsert) (beyond : Bytes) (result : Server × Option ClientInsertAck)
    (ran : server.storageInsert req beyond = .ok result) : (Job.insert req beyond).Leaves server result.1 := by
  simp only [Server.storageInsert] at ran
  split at ran
  · cases ran
    exact leaves_log _ server server.log
  · change (server.log.insert _ _ _ _ >>= _) = _ at ran
    cases inserted : server.log.insert req.clientId (server.clientState req.clientId).position ⟨req.data, beyond⟩ req.numSlots with
    | error fault =>
        rw [inserted] at ran
        cases ran
    | ok insert =>
        rw [inserted] at ran
        cases ran
        exact leaves_state _ server insert.log req.clientId rfl _ id

theorem except_map_ok {α β : Type} {value : Except Fault α} {f : α → β} {result : β} (ran : value.map f = .ok result) :
    ∃ before, value = .ok before ∧ f before = result := by
  cases value with
  | error fault => cases ran
  | ok before =>
      cases ran
      exact ⟨before, rfl, rfl⟩

theorem except_bind_ok {α β : Type} {value : Except Fault α} {f : α → Except Fault β} {result : β} (ran : value >>= f = .ok result) :
    ∃ before, value = .ok before ∧ f before = .ok result := by
  cases value with
  | error fault => cases ran
  | ok before => exact ⟨before, rfl, ran⟩

theorem job_leaves (job : Job) (server : Server) (result : Server × List Reply) (ran : job.run server = .ok result) :
    job.Leaves server result.1 := by
  cases job with
  | addClient clientId =>
      cases ran
      simp only [Server.addClient]
      split
      · exact leaves_log _ server server.log
      · rename_i fresh
        rw [not_or] at fresh
        exact leaves_state (.addClient clientId) server server.log clientId (if_neg fresh.1) _ (fun _ => rfl)
  | suspected clientId =>
      cases ran
      exact leaves_state _ server server.log clientId rfl _ id
  | control message beyond =>
      obtain ⟨handled, control, rfl⟩ := except_map_ok ran
      cases message with
      | slots slots =>
          cases control
          simp only [Server.storageSlots]
          split
          · exact leaves_log _ server _
          · exact leaves_log _ server server.log
      | clientFreeze clientId =>
          cases control
          exact leaves_state _ server server.log clientId rfl _ id
      | clientCut req =>
          obtain ⟨data, _, same⟩ := except_bind_ok control
          cases same
          exact leaves_log _ server server.log
      | clientPatch data =>
          obtain ⟨next, patched, same⟩ := except_bind_ok control
          cases same
          exact storage_client_patch_leaves server next data beyond patched
      | clientFinalize clientId =>
          obtain ⟨next, finalized, same⟩ := except_bind_ok control
          cases same
          exact storage_client_finalize_leaves server next clientId beyond finalized
  | insert req beyond =>
      obtain ⟨inserted, insert, rfl⟩ := except_map_ok ran
      exact storage_insert_leaves server req beyond inserted insert
  | clientFinished clientId =>
      cases ran
      simp only [Server.clientFinished]
      split
      · exact leaves_log _ server server.log
      · exact leaves_state _ server server.log clientId rfl _ id

theorem job_identity (job : Job) (server : Server) (result : Server × List Reply) (ran : job.run server = .ok result) :
    result.1.shardId = server.shardId ∧ result.1.replicaId = server.replicaId := by
  obtain ⟨_, _, same, _⟩ := job_leaves job server result ran
  rw [same]
  exact ⟨rfl, rfl⟩

theorem plain_states (job : Job) (server : Server) (result : Server × List Reply) (plain : job.client? = none)
    (ran : job.run server = .ok result) : result.1.clientState = server.clientState := by
  obtain ⟨_, _, same, kept, _⟩ := job_leaves job server result ran
  rw [same]
  exact kept plain

theorem job_connected (job : Job) (clientId : Nat) (client : job.client? = some clientId) (server : Server) (result : Server × List Reply)
    (ran : job.run server = .ok result) (connected : (server.clientState clientId).connected = true) :
    (result.1.clientState clientId).connected = true := by
  obtain ⟨_, _, same, _, kept⟩ := job_leaves job server result ran
  rw [same]
  exact kept clientId client connected

-- What one step does.
inductive Threads.Moves (s : Threads) : ThreadStep → Threads → Prop where
  | direct (thread : Nat) (job : Job) (result : Server × List Reply) (idle : s.phase thread = .idle) (plain : job.client? = none)
      (ran : job.run s.server = .ok result) : s.Moves (.start thread job) ((s.begin thread job).done thread job result.1.log result.2)
  | hit (thread : Nat) (job : Job) (clientId ref : Nat) (idle : s.phase thread = .idle) (client : job.client? = some clientId)
      (there : s.location clientId = some ref) :
      s.Moves (.start thread job) ((s.begin thread job).setPhase thread (.found job clientId (some ref)))
  | miss (thread : Nat) (job : Job) (clientId : Nat) (idle : s.phase thread = .idle) (client : job.client? = some clientId)
      (valid : clientId < maxClients) (empty : s.location clientId = none) :
      s.Moves (.start thread job) ((s.begin thread job).allocate thread job clientId)
  | install (thread : Nat) (job : Job) (clientId fresh : Nat) (phase : s.phase thread = .allocated job clientId fresh)
      (empty : s.location clientId = none) : s.Moves (.exchange thread false) (s.install thread job clientId fresh)
  | discard (thread : Nat) (spurious : Bool) (job : Job) (clientId fresh : Nat) (phase : s.phase thread = .allocated job clientId fresh)
      (failed : s.location clientId = none → spurious = true) : s.Moves (.exchange thread spurious) (s.discard thread job clientId fresh)
  | block (thread : Nat) (notified : Option Nat) (job : Job) (clientId ref : Nat) (phase : s.phase thread = .found job clientId (some ref))
      (waits : job.waits (s.seen clientId ref) = true) : s.Moves (.enter thread notified) (s.block thread job clientId ref)
  | complete (thread : Nat) (notified : Option Nat) (job : Job) (clientId ref : Nat) (result : Server × List Reply)
      (phase : s.phase thread = .found job clientId (some ref)) (ready : job.waits (s.seen clientId ref) = false)
      (notifies : s.notifies job clientId ref notified = true) (ran : job.run (s.seen clientId ref) = .ok result) :
      s.Moves (.enter thread notified) (notified.elim (s.complete thread job clientId ref result) (s.complete thread job clientId ref result).wake)
  | wake (thread : Nat) (job : Job) (clientId ref : Nat) (phase : s.phase thread = .waiting job clientId ref) :
      s.Moves (.wake thread) (s.wake thread)

theorem step_moves (s next : Threads) (label : ThreadStep) (stepped : s.step label = some next) : s.Moves label next := by
  cases label with
  | start thread job =>
      obtain ⟨idle, stepped⟩ := Option.ite_none_right_eq_some.mp stepped
      split at stepped
      · rename_i plain
        split at stepped
        · cases stepped
        · rename_i ran
          cases stepped
          exact .direct thread job _ idle plain ran
      · rename_i clientId client
        obtain ⟨valid, stepped⟩ := Option.ite_none_right_eq_some.mp stepped
        split at stepped
        · rename_i there
          cases stepped
          exact .hit thread job clientId _ idle client there
        · rename_i empty
          cases stepped
          exact .miss thread job clientId idle client valid empty
  | exchange thread spurious =>
      rw [Threads.step] at stepped
      split at stepped
      · rename_i job clientId fresh phase
        split at stepped
        · rename_i both
          obtain ⟨empty, rfl⟩ := both
          cases stepped
          exact .install thread job clientId fresh phase empty
        · rename_i failed
          cases stepped
          refine .discard thread spurious job clientId fresh phase (fun empty => ?_)
          rw [not_and] at failed
          exact Bool.eq_true_of_not_eq_false (failed empty)
      · cases stepped
  | enter thread notified =>
      rw [Threads.step] at stepped
      split at stepped
      · rename_i job clientId ref phase
        split at stepped
        · rename_i waits
          cases stepped
          exact .block thread notified job clientId ref phase waits
        · rename_i ready
          obtain ⟨notifies, stepped⟩ := Option.ite_none_right_eq_some.mp stepped
          split at stepped
          · cases stepped
          · rename_i result ran
            cases stepped
            exact .complete thread notified job clientId ref result phase (Bool.eq_false_of_not_eq_true ready) notifies ran
      · cases stepped
  | wake thread =>
      rw [Threads.step] at stepped
      split at stepped
      · rename_i job clientId ref phase
        cases stepped
        exact .wake thread job clientId ref phase
      · cases stepped

end ZipLog.Storage
