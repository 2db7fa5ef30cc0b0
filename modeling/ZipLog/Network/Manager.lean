import ZipLog.Api
import ZipLog.Lib.Run
import Mathlib.Data.List.Nodup
import Mathlib.Logic.Function.Basic

set_option autoImplicit false

namespace ZipLog.Network

-- free_receive_buffers_, a bitset of MAX_QUEUE_PAIRS bits.
structure Manager where
  freeReceiveBuffers : Nat → Bool

def Manager.init : Manager := ⟨fun index => decide (index < maxQueuePairs)⟩

-- _Find_first, and the assertion that there is a free index.
def Manager.createReceiveBuffer (manager : Manager) : Option (Manager × Nat) :=
  match (List.range maxQueuePairs).find? manager.freeReceiveBuffers with
  | none => none
  | some index => some (⟨Function.update manager.freeReceiveBuffers index false⟩, index)

def Manager.freeRecvBuffer (manager : Manager) (index : Nat) : Manager :=
  ⟨Function.update manager.freeReceiveBuffers index true⟩

def Manager.createReceiveBuffers (manager : Manager) : Nat → Option (Manager × List Nat)
  | 0 => some (manager, [])
  | count + 1 => do
      let (manager, index) ← manager.createReceiveBuffer
      let (manager, indices) ← manager.createReceiveBuffers count
      return (manager, index :: indices)

def numQueues (mine other : Nat) : Nat :=
  if mine = 0 ∧ other = 0 then 1
  else if mine = 0 then other
  else if other = 0 then mine
  else min mine other

-- A send_queue keeps index_, which accept and connect take from the
-- queue_info of the peer.
structure SendQueue where
  index : Nat
deriving DecidableEq, Repr

-- A live connection: the receive buffer this side has created for it and the
-- send_queue object.
structure Connection where
  buffer : Nat
  queue : SendQueue
deriving DecidableEq, Repr

structure Endpoint where
  manager : Manager
  connections : List Connection

def Endpoint.init : Endpoint := ⟨Manager.init, []⟩

inductive Call where
  | connect (mine other : Nat) (remote : List Nat)
  | destroy (position : Nat)
deriving DecidableEq, Repr

-- accept and connect allocate in the same way. remote holds the indices of the
-- peer's receive buffers, one for each queue.
def Endpoint.step (s : Endpoint) : Call → Option Endpoint
  | .connect mine other remote =>
      if remote.length = numQueues mine other ∧ ∀ index ∈ remote, index < maxQueuePairs then
        match s.manager.createReceiveBuffers (numQueues mine other) with
        | none => none
        | some (manager, buffers) =>
            some ⟨manager, s.connections ++ (buffers.zip remote).map (fun pair => ⟨pair.1, ⟨pair.2⟩⟩)⟩
      else none
  | .destroy position =>
      match s.connections[position]? with
      | none => none
      | some connection =>
          some ⟨s.manager.freeRecvBuffer connection.queue.index, s.connections.eraseIdx position⟩

-- No two live connections share a ring, and no ring in use is marked free.
structure Endpoint.Exclusive (s : Endpoint) : Prop where
  distinct : (s.connections.map Connection.buffer).Nodup
  used : ∀ connection ∈ s.connections, s.manager.freeReceiveBuffers connection.buffer = false

-- Destroying a send_queue makes its own connection's ring available.
def Endpoint.Releases (s : Endpoint) (position : Nat) : Prop :=
  ∀ connection next, s.connections[position]? = some connection → s.step (.destroy position) = some next →
    next.manager.freeReceiveBuffers connection.buffer = true

-- The property at every state and every destruction of a run.
def Sound (calls : List Call) : Prop :=
  (∀ before after s, calls = before ++ after → Machine.run Endpoint.step Endpoint.init before = some s → s.Exclusive) ∧
  ∀ before position after s, calls = before ++ .destroy position :: after →
    Machine.run Endpoint.step Endpoint.init before = some s → s.Releases position

-- Every destroyed send_queue was connected to a peer buffer that happens to
-- have the index of the local one.
def SameIndices (calls : List Call) : Prop :=
  ∀ before position after s connection, calls = before ++ .destroy position :: after →
    Machine.run Endpoint.step Endpoint.init before = some s → s.connections[position]? = some connection →
    connection.queue.index = connection.buffer

theorem create_receive_buffer_free (manager next : Manager) (index : Nat)
    (created : manager.createReceiveBuffer = some (next, index)) :
    manager.freeReceiveBuffers index = true ∧ next.freeReceiveBuffers = Function.update manager.freeReceiveBuffers index false := by
  unfold Manager.createReceiveBuffer at created
  split at created
  · cases created
  · rename_i found
    cases created
    exact ⟨List.find?_some found, rfl⟩

theorem create_receive_buffers_fresh (count : Nat) (manager next : Manager) (indices : List Nat)
    (created : manager.createReceiveBuffers count = some (next, indices)) :
    indices.length = count ∧ indices.Nodup ∧ (∀ index ∈ indices, manager.freeReceiveBuffers index = true) ∧
      ∀ index, next.freeReceiveBuffers index = if index ∈ indices then false else manager.freeReceiveBuffers index := by
  induction count generalizing manager indices with
  | zero =>
      cases created
      simp
  | succ count ih =>
      simp only [Manager.createReceiveBuffers, Option.bind_eq_bind, Option.bind_eq_some_iff, Prod.exists] at created
      obtain ⟨middle, first, head, last, rest, tail, done⟩ := created
      cases done
      obtain ⟨free, after⟩ := create_receive_buffer_free manager middle first head
      obtain ⟨length, nodup, wereFree, marks⟩ := ih middle rest tail
      have notAgain : first ∉ rest := by
        intro again
        have still := wereFree first again
        rw [after, Function.update_self] at still
        cases still
      refine ⟨by rw [List.length_cons, length], List.nodup_cons.mpr ⟨notAgain, nodup⟩, ?_, ?_⟩
      · intro index member
        cases member with
        | head => exact free
        | tail _ later =>
            have still := wereFree index later
            have different : index ≠ first := fun same => notAgain (same ▸ later)
            rwa [after, Function.update_of_ne different] at still
      · intro index
        rw [marks index, after]
        by_cases same : index = first
        · subst same
          simp
        · simp [same]

theorem zip_buffers (buffers remote : List Nat) (aligned : remote.length = buffers.length) :
    ((buffers.zip remote).map (fun pair => (⟨pair.1, ⟨pair.2⟩⟩ : Connection))).map Connection.buffer = buffers := by
  rw [List.map_map]
  exact List.map_fst_zip (Nat.le_of_eq aligned.symm)

theorem connect_exclusive (s next : Endpoint) (mine other : Nat) (remote : List Nat) (exclusive : s.Exclusive)
    (stepped : s.step (.connect mine other remote) = some next) : next.Exclusive := by
  simp only [Endpoint.step] at stepped
  split at stepped
  · rename_i announced
    split at stepped
    · cases stepped
    · rename_i manager buffers created
      obtain rfl := Option.some.inj stepped
      obtain ⟨length, nodup, wereFree, marks⟩ := create_receive_buffers_fresh _ _ _ _ created
      have aligned : remote.length = buffers.length := announced.1.trans length.symm
      have fresh : ∀ connection ∈ s.connections, connection.buffer ∉ buffers := by
        intro connection member taken
        have free := wereFree _ taken
        rw [exclusive.used connection member] at free
        cases free
      refine ⟨?_, ?_⟩
      · rw [List.map_append, zip_buffers buffers remote aligned]
        refine List.nodup_append.mpr ⟨exclusive.distinct, nodup, ?_⟩
        intro first left second right same
        obtain ⟨connection, member, rfl⟩ := List.mem_map.mp left
        exact fresh connection member (same ▸ right)
      · intro connection member
        rw [marks connection.buffer]
        cases List.mem_append.mp member with
        | inl old => rw [if_neg (fresh connection old), exclusive.used connection old]
        | inr new =>
            have listed : connection.buffer ∈ buffers := by
              rw [← zip_buffers buffers remote aligned]
              exact List.mem_map_of_mem new
            rw [if_pos listed]
  · cases stepped

theorem destroy_step (s next : Endpoint) (position : Nat) (stepped : s.step (.destroy position) = some next) :
    ∃ connection, s.connections[position]? = some connection ∧
      next = ⟨s.manager.freeRecvBuffer connection.queue.index, s.connections.eraseIdx position⟩ := by
  simp only [Endpoint.step] at stepped
  split at stepped
  · cases stepped
  · rename_i connection found
    exact ⟨connection, found, (Option.some.inj stepped).symm⟩

theorem destroy_exclusive (s next : Endpoint) (position : Nat) (exclusive : s.Exclusive)
    (same : ∀ connection, s.connections[position]? = some connection → connection.queue.index = connection.buffer)
    (stepped : s.step (.destroy position) = some next) : next.Exclusive := by
  obtain ⟨connection, found, rfl⟩ := destroy_step s next position stepped
  refine ⟨exclusive.distinct.sublist ((List.eraseIdx_sublist _ _).map _), ?_⟩
  intro other member
  obtain ⟨elsewhere, apart, access⟩ := List.mem_eraseIdx_iff_getElem?.mp member
  have different : other.buffer ≠ connection.buffer := by
    intro equal
    have first : (s.connections.map Connection.buffer)[elsewhere]? = some other.buffer := by simp [access]
    have second : (s.connections.map Connection.buffer)[position]? = some other.buffer := by simp [found, equal]
    have bound := (List.getElem?_eq_some_iff.mp first).1
    exact apart ((List.getElem?_inj bound exclusive.distinct).mp (first.trans second.symm))
  simp only [Manager.freeRecvBuffer, same connection found]
  rw [Function.update_of_ne different]
  exact exclusive.used other (List.mem_of_mem_eraseIdx member)

theorem same_indices_before (before after : List Call) (same : SameIndices (before ++ after)) : SameIndices before := by
  intro first position rest s connection split ran found
  exact same first position (rest ++ after) s connection (by rw [split, List.append_assoc, List.cons_append]) ran found

theorem run_exclusive (calls : List Call) (s : Endpoint) (same : SameIndices calls)
    (ran : Machine.run Endpoint.step Endpoint.init calls = some s) : s.Exclusive := by
  induction calls using List.reverseRecOn generalizing s with
  | nil =>
      obtain rfl := Option.some.inj ran
      exact ⟨List.nodup_nil, fun connection member => by cases member⟩
  | append_singleton calls call ih =>
      obtain ⟨before, earlier, stepped⟩ := Machine.run_snoc_some ran
      have exclusive := ih before (same_indices_before calls [call] same) earlier
      cases call with
      | connect mine other remote => exact connect_exclusive before s mine other remote exclusive stepped
      | destroy position =>
          exact destroy_exclusive before s position exclusive
            (fun connection found => same calls position [] before connection rfl earlier found) stepped

theorem destroy_releases (s : Endpoint) (position : Nat)
    (same : ∀ connection, s.connections[position]? = some connection → connection.queue.index = connection.buffer) :
    s.Releases position := by
  intro connection next found stepped
  obtain ⟨destroyed, found', rfl⟩ := destroy_step s next position stepped
  obtain rfl := Option.some.inj (found.symm.trans found')
  simp only [Manager.freeRecvBuffer, same connection found]
  exact Function.update_self _ _ _

-- What a destroyed send_queue sets free is the peer's index. So a run is sound
-- if and only if both ends of every destroyed connection have the same index.
theorem rings_exclusive_iff (calls : List Call) : Sound calls ↔ SameIndices calls := by
  constructor
  · intro sound before position after s connection split earlier found
    have used := (sound.1 before (.destroy position :: after) s split earlier).used connection (List.mem_of_getElem? found)
    have stepped : s.step (.destroy position) =
        some ⟨s.manager.freeRecvBuffer connection.queue.index, s.connections.eraseIdx position⟩ := by
      simp only [Endpoint.step, found]
    have released := sound.2 before position after s split earlier connection _ found stepped
    by_contra different
    simp only [Manager.freeRecvBuffer] at released
    rw [Function.update_of_ne (Ne.symm different), used] at released
    cases released
  · intro same
    refine ⟨?_, ?_⟩
    · intro before after s split earlier
      exact run_exclusive before s (same_indices_before before after (split ▸ same)) earlier
    · intro before position after s split earlier
      exact destroy_releases s position (fun connection found => same before position after s connection split earlier found)

-- Two connections whose ends have crossed indices: closing the first frees the
-- ring of the second, and the third connection gets it.
theorem rings_shared : ∃ s, Machine.run Endpoint.step Endpoint.init
    [.connect 1 1 [1], .connect 1 1 [0], .destroy 0, .connect 1 1 [5]] = some s ∧
    (s.connections.map Connection.buffer) = [1, 1] ∧ ¬ s.Exclusive := by
  have buffers : (Machine.run Endpoint.step Endpoint.init
      [.connect 1 1 [1], .connect 1 1 [0], .destroy 0, .connect 1 1 [5]]).map (fun s => s.connections.map Connection.buffer) =
        some [1, 1] := by decide +kernel
  obtain ⟨s, ran, shared⟩ := Option.map_eq_some_iff.mp buffers
  refine ⟨s, ran, shared, ?_⟩
  intro exclusive
  have distinct := exclusive.distinct
  rw [shared] at distinct
  exact absurd distinct (by decide)

end ZipLog.Network
