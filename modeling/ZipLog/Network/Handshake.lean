import ZipLog.Lib.Exchange
import ZipLog.Network.Connection
import ZipLog.Network.Manager

set_option autoImplicit false

namespace ZipLog.Network

open Exchange

-- The number of receive buffers in a huge page.
def buffersPerPage : Nat := 2 ^ 21 / receiveBufferSize

-- What accept and connect read and write of a manager. An address 0 is the null
-- pointer, and handshakes holds the messages of handshakes_.
structure Node where
  manager : Manager
  receiveBuffers : Nat → UInt64
  receiveKeys : Nat → UInt32
  localId : UInt16
  localGid : Gid
  xrcQueueNums : List UInt32
  handshakes : List Bytes

-- What a call gets from outside: the numbers of the i-th queue pairs, the address and
-- the key of a page that is allocated for an index, the padding of the i-th
-- queue_info, and what malloc leaves in the two buffers.
structure Device where
  queuePair : Nat → UInt32 × UInt32
  page : Nat → UInt64 × UInt32
  padding : Nat → UInt32
  sendMemory : Memory
  recvMemory : Memory

def Node.registerPage (node : Node) (index : Nat) (page : UInt64 × UInt32) : Node :=
  { node with
    receiveBuffers := fun place => if index ≤ place ∧ place < index + buffersPerPage then
      page.1 + UInt64.ofNat ((place - index) * receiveBufferSize) else node.receiveBuffers place
    receiveKeys := fun place => if index ≤ place ∧ place < index + buffersPerPage then page.2 else node.receiveKeys place }

structure ReceiveBuffer where
  index : Nat
  address : UInt64
  remoteKey : UInt32
deriving DecidableEq, Repr

-- none is the assertion that an index is free.
def Node.createReceiveBuffer (node : Node) (device : Device) : Option (Node × ReceiveBuffer) :=
  match node.manager.createReceiveBuffer with
  | none => none
  | some (manager, index) =>
      let mapped := if node.receiveBuffers index = 0 then node.registerPage index (device.page index) else node
      some ({ mapped with manager := manager }, ⟨index, mapped.receiveBuffers index, mapped.receiveKeys index⟩)

-- The loop that sets up the queues, less the calls to the device.
def Node.setupQueues (node : Node) (device : Device) : Nat → Option (Node × List ReceiveBuffer)
  | 0 => some (node, [])
  | count + 1 => do
      let (created, buffer) ← node.createReceiveBuffer device
      let (done, buffers) ← created.setupQueues device count
      return (done, buffer :: buffers)

def queueInfos (device : Device) (buffers : List ReceiveBuffer) : List QueueInfo :=
  buffers.mapIdx (fun i buffer => ⟨UInt64.ofNat buffer.index, buffer.address, buffer.remoteKey,
    (device.queuePair i).1, (device.queuePair i).2, device.padding i⟩)

def Node.connectionInfo (node : Node) (device : Device) (buffers : List ReceiveBuffer) (message : Bytes) : ConnectionInfo :=
  ⟨node.localId, node.localGid, queueInfos device buffers, node.xrcQueueNums, message⟩

-- What the constructor of send_queue gets of the peer.
structure QueueTarget where
  index : UInt64
  address : UInt64
  remoteKey : UInt32
  xrcQueueNums : List UInt32
deriving DecidableEq, Repr

structure Session where
  numQueues : Nat
  remote : ConnectionInfo
  queues : List QueueTarget
deriving DecidableEq, Repr

-- A call returns empty, fails an assertion, reads past the end of remote_queue_infos,
-- or returns the queues and the message.
inductive Outcome where
  | empty (node : Node)
  | aborted
  | overrun
  | established (node : Node) (session : Session)

-- The end of accept and connect, which is the same code in both.
def Node.activate (node : Node) (device : Device) (count : Nat) (received : Bytes) (length : Nat) : Outcome :=
  match deserializeConnection (Ring.write device.recvMemory 0 received) length with
  | none => .aborted
  | some remote =>
      if remote.queueInfos.length < count then .overrun
      else .established { node with handshakes := node.handshakes ++ [remote.message] }
        ⟨count, remote, (remote.queueInfos.take count).map (fun info => ⟨info.index, info.address, info.remoteKey, remote.xrcQueueNums⟩)⟩

-- From where the TCP connection is there. What a failed call returns empty with is
-- the manager as the call has left it.
def Node.connect (node : Node) (device : Device) (message : Bytes) (mine : UInt64) : Program UInt8 Outcome :=
  sendOr (Word.encode 8 mine.toNat) (.empty node)
    (recvOr 8 (.empty node) (fun other =>
      match node.setupQueues device (numQueues mine.toNat (Word.decode other)) with
      | none => .done .aborted
      | some (created, buffers) =>
          let sendBuf := serializeConnection device.sendMemory (created.connectionInfo device buffers message)
          sendOr (Word.encode 8 sendBuf.length) (.empty created)
            (recvOr 8 (.empty created) (fun recvBufSize =>
              sendOr sendBuf (.empty created)
                (recvOr (Word.decode recvBufSize) (.empty created) (fun recvBuf =>
                  .done (created.activate device (numQueues mine.toNat (Word.decode other)) recvBuf (Word.decode recvBufSize))))))))

def Node.accept (node : Node) (device : Device) (message : Bytes) (mine : UInt64) : Program UInt8 Outcome :=
  recvOr 8 (.empty node) (fun other =>
    sendOr (Word.encode 8 mine.toNat) (.empty node)
      (match node.setupQueues device (numQueues mine.toNat (Word.decode other)) with
      | none => .done .aborted
      | some (created, buffers) =>
          let sendBuf := serializeConnection device.sendMemory (created.connectionInfo device buffers message)
          recvOr 8 (.empty created) (fun recvBufSize =>
            sendOr (Word.encode 8 sendBuf.length) (.empty created)
              (recvOr (Word.decode recvBufSize) (.empty created) (fun recvBuf =>
                sendOr sendBuf (.empty created)
                  (.done (created.activate device (numQueues mine.toNat (Word.decode other)) recvBuf (Word.decode recvBufSize))))))))

-- What a side comes back with: all that the peer has passed to serialize_connection,
-- and a send_queue for each receive buffer that the peer has allocated.
def Outcome.Mirrors (outcome : Outcome) (created : Node) (count : Nat) (peer : ConnectionInfo) (buffers : List ReceiveBuffer) : Prop :=
  ∃ session, outcome = .established { created with handshakes := created.handshakes ++ [peer.message] } session ∧
    session.numQueues = count ∧ session.remote = peer ∧ session.remote.queueInfos.length = count ∧ session.queues.length = count ∧
    buffers.length = count ∧ ∀ (i : Nat) (buffer : ReceiveBuffer), buffers[i]? = some buffer →
      ∃ target : QueueTarget, session.queues[i]? = some target ∧ target.index.toNat = buffer.index ∧ target.address = buffer.address ∧
        target.remoteKey = buffer.remoteKey ∧ target.xrcQueueNums = peer.xrcQueueNums

theorem num_queues_comm (mine other : Nat) : numQueues mine other = numQueues other mine := by
  by_cases left : mine = 0 <;> by_cases right : other = 0 <;> simp [numQueues, left, right, Nat.min_comm]

theorem create_buffer_index (node created : Node) (device : Device) (buffer : ReceiveBuffer)
    (done : node.createReceiveBuffer device = some (created, buffer)) :
    node.manager.createReceiveBuffer = some (created.manager, buffer.index) := by
  unfold Node.createReceiveBuffer at done
  split at done
  · cases done
  · rename_i manager index found
    cases done
    exact found

theorem create_buffer_keeps (node created : Node) (device : Device) (buffer : ReceiveBuffer)
    (done : node.createReceiveBuffer device = some (created, buffer)) :
    created.localId = node.localId ∧ created.localGid = node.localGid ∧ created.xrcQueueNums = node.xrcQueueNums ∧
      created.handshakes = node.handshakes := by
  unfold Node.createReceiveBuffer at done
  split at done
  · cases done
  · cases done
    dsimp only
    split <;> exact ⟨rfl, rfl, rfl, rfl⟩

theorem setup_queues_succ (node created : Node) (device : Device) (count : Nat) (buffers : List ReceiveBuffer)
    (done : node.setupQueues device (count + 1) = some (created, buffers)) :
    ∃ middle buffer rest, node.createReceiveBuffer device = some (middle, buffer) ∧
      middle.setupQueues device count = some (created, rest) ∧ buffers = buffer :: rest := by
  simp only [Node.setupQueues, Option.bind_eq_bind, Option.bind_eq_some_iff, Prod.exists] at done
  obtain ⟨middle, buffer, first, last, rest, later, same⟩ := done
  cases same
  exact ⟨middle, buffer, rest, first, later, rfl⟩

theorem setup_queues_keeps (device : Device) (count : Nat) (node created : Node) (buffers : List ReceiveBuffer)
    (done : node.setupQueues device count = some (created, buffers)) :
    created.localId = node.localId ∧ created.localGid = node.localGid ∧ created.xrcQueueNums = node.xrcQueueNums ∧
      created.handshakes = node.handshakes := by
  induction count generalizing node buffers with
  | zero =>
      cases done
      exact ⟨rfl, rfl, rfl, rfl⟩
  | succ count ih =>
      obtain ⟨middle, buffer, rest, first, later, rfl⟩ := setup_queues_succ node created device count buffers done
      obtain ⟨localId, localGid, nums, handshakes⟩ := create_buffer_keeps node middle device buffer first
      obtain ⟨localId', localGid', nums', handshakes'⟩ := ih middle rest later
      exact ⟨localId'.trans localId, localGid'.trans localGid, nums'.trans nums, handshakes'.trans handshakes⟩

theorem setup_queues_info (node created : Node) (device : Device) (count : Nat) (buffers : List ReceiveBuffer) (message : Bytes)
    (done : node.setupQueues device count = some (created, buffers)) :
    created.connectionInfo device buffers message = node.connectionInfo device buffers message := by
  obtain ⟨localId, localGid, nums, -⟩ := setup_queues_keeps device count node created buffers done
  rw [Node.connectionInfo, localId, localGid, nums, Node.connectionInfo]

-- The buffers are those that the manager of the index pool alone hands out.
theorem setup_queues_indices (device : Device) (count : Nat) (node created : Node) (buffers : List ReceiveBuffer)
    (done : node.setupQueues device count = some (created, buffers)) :
    node.manager.createReceiveBuffers count = some (created.manager, buffers.map ReceiveBuffer.index) := by
  induction count generalizing node buffers with
  | zero =>
      cases done
      rfl
  | succ count ih =>
      obtain ⟨middle, buffer, rest, first, later, rfl⟩ := setup_queues_succ node created device count buffers done
      simp only [Manager.createReceiveBuffers, create_buffer_index node middle device buffer first, ih middle rest later,
        Option.bind_eq_bind, Option.bind_some, Option.pure_def, List.map_cons]

theorem buffer_index_lt (manager next : Manager) (index : Nat) (created : manager.createReceiveBuffer = some (next, index)) :
    index < maxQueuePairs := by
  unfold Manager.createReceiveBuffer at created
  split at created
  · cases created
  · rename_i found
    cases created
    exact List.mem_range.mp (List.mem_of_find?_eq_some found)

theorem setup_queues_buffers (device : Device) (count : Nat) (node created : Node) (buffers : List ReceiveBuffer)
    (done : node.setupQueues device count = some (created, buffers)) :
    buffers.length = count ∧ ∀ buffer ∈ buffers, buffer.index < maxQueuePairs := by
  induction count generalizing node buffers with
  | zero =>
      cases done
      exact ⟨rfl, fun buffer member => by cases member⟩
  | succ count ih =>
      obtain ⟨middle, buffer, rest, first, later, rfl⟩ := setup_queues_succ node created device count buffers done
      obtain ⟨length, small⟩ := ih middle rest later
      have bound := buffer_index_lt _ _ _ (create_buffer_index node middle device buffer first)
      exact ⟨by rw [List.length_cons, length], List.forall_mem_cons.mpr ⟨bound, small⟩⟩

theorem activate_mirrors (created peer : Node) (device peerDevice : Device) (count : Nat) (buffers : List ReceiveBuffer)
    (message : Bytes) (malloced : Memory) (length : buffers.length = count) (indices : ∀ buffer ∈ buffers, buffer.index < maxQueuePairs)
    (small : (peer.connectionInfo peerDevice buffers message).size < 2 ^ 64) :
    (created.activate device count (serializeConnection malloced (peer.connectionInfo peerDevice buffers message))
      (peer.connectionInfo peerDevice buffers message).size).Mirrors created count (peer.connectionInfo peerDevice buffers message) buffers := by
  have infos : (queueInfos peerDevice buffers).length = count := by rw [queueInfos, List.length_mapIdx, length]
  rw [Node.activate, deserialize_serialize _ _ _ small]
  dsimp only
  rw [if_neg (by rw [Node.connectionInfo, infos]; exact Nat.lt_irrefl count)]
  refine ⟨_, rfl, rfl, rfl, infos, ?_, length, ?_⟩
  · rw [List.length_map, List.length_take, Node.connectionInfo, infos, Nat.min_self]
  · intro i buffer access
    have inside := (List.getElem?_eq_some_iff.mp access).1
    refine ⟨⟨UInt64.ofNat buffer.index, buffer.address, buffer.remoteKey, peer.xrcQueueNums⟩, ?_, ?_, rfl, rfl, rfl⟩
    · rw [List.getElem?_map, List.getElem?_take_of_lt (by omega), Node.connectionInfo, queueInfos, List.getElem?_mapIdx, access]
      rfl
    · have bound := indices buffer (List.mem_of_getElem? access)
      exact UInt64.toNat_ofNat_of_lt' (Nat.lt_trans bound (by decide))

-- Both programs send and receive in step: each send of one meets a recv of the
-- other with the same number of bytes.
theorem handshake_agrees (connecting accepting left right : Node) (device device' : Device) (mine other : UInt64)
    (hello reply : Bytes) (buffers buffers' : List ReceiveBuffer)
    (allocated : connecting.setupQueues device (numQueues mine.toNat other.toNat) = some (left, buffers))
    (allocated' : accepting.setupQueues device' (numQueues mine.toNat other.toNat) = some (right, buffers'))
    (small : (connecting.connectionInfo device buffers hello).size < 2 ^ 64)
    (small' : (accepting.connectionInfo device' buffers' reply).size < 2 ^ 64) :
    ∃ cost, Agree
      (left.activate device (numQueues mine.toNat other.toNat)
        (serializeConnection device'.sendMemory (accepting.connectionInfo device' buffers' reply))
        (accepting.connectionInfo device' buffers' reply).size)
      (right.activate device' (numQueues mine.toNat other.toNat)
        (serializeConnection device.sendMemory (connecting.connectionInfo device buffers hello))
        (connecting.connectionInfo device buffers hello).size)
      (connecting.connect device hello mine) (accepting.accept device' reply other) [] [] cost := by
  have word (value : Nat) : (Word.encode 8 value).length = 8 := Word.encode_length 8 value
  have mineSent : Word.decode (Word.encode 8 mine.toNat) = mine.toNat := Word.decode_encode 8 _ mine.toNat_lt
  have otherSent : Word.decode (Word.encode 8 other.toNat) = other.toNat := Word.decode_encode 8 _ other.toNat_lt
  have info := setup_queues_info connecting left device _ buffers hello allocated
  have info' := setup_queues_info accepting right device' _ buffers' reply allocated'
  have length := serialize_length device.sendMemory _ small
  have length' := serialize_length device'.sendMemory _ small'
  have sizeSent : Word.decode (Word.encode 8 _) = _ := Word.decode_encode 8 _ small
  have sizeSent' : Word.decode (Word.encode 8 _) = _ := Word.decode_encode 8 _ small'
  apply agree_pass_right _ _ _ _ _ _ (word _)
  apply agree_pass_left _ _ _ _ _ _ (word _)
  rw [mineSent, otherSent, num_queues_comm other.toNat, allocated, allocated']
  dsimp only
  rw [info, info', length, length']
  apply agree_pass_right _ _ _ _ _ _ (word _)
  apply agree_pass_left _ _ _ _ _ _ (word _)
  rw [sizeSent, sizeSent']
  apply agree_pass_right _ _ _ _ _ _ length
  apply agree_pass_left _ _ _ _ _ _ length'
  exact ⟨0, .done⟩

-- The main result. No run is longer than the limit, and one that cannot go on has
-- both calls returned.
theorem handshake_symmetric (connecting accepting left right : Node) (device device' : Device) (mine other : UInt64)
    (hello reply : Bytes) (buffers buffers' : List ReceiveBuffer)
    (allocated : connecting.setupQueues device (numQueues mine.toNat other.toNat) = some (left, buffers))
    (allocated' : accepting.setupQueues device' (numQueues mine.toNat other.toNat) = some (right, buffers'))
    (small : (connecting.connectionInfo device buffers hello).size < 2 ^ 64)
    (small' : (accepting.connectionInfo device' buffers' reply).size < 2 ^ 64) :
    ∃ limit, ∀ events s,
      Machine.run Pair.step ⟨connecting.connect device hello mine, accepting.accept device' reply other, [], []⟩ events = some s →
        events.length ≤ limit ∧
        (∀ outcome, s.left = .done outcome → outcome.Mirrors left (numQueues mine.toNat other.toNat)
          (accepting.connectionInfo device' buffers' reply) buffers') ∧
        (∀ outcome, s.right = .done outcome → outcome.Mirrors right (numQueues mine.toNat other.toNat)
          (connecting.connectionInfo device buffers hello) buffers) ∧
        ((∀ event, s.step event = none) → ∃ outcome outcome', s.left = .done outcome ∧ s.right = .done outcome') := by
  obtain ⟨cost, agree⟩ := handshake_agrees connecting accepting left right device device' mine other hello reply buffers buffers'
    allocated allocated' small small'
  obtain ⟨length, indices⟩ := setup_queues_buffers device _ connecting left buffers allocated
  obtain ⟨length', indices'⟩ := setup_queues_buffers device' _ accepting right buffers' allocated'
  refine ⟨cost, ?_⟩
  intro events s ran
  obtain ⟨bound, leftResult, rightResult, stuck⟩ := run_agree _ _ _ s cost events agree ran
  refine ⟨bound, ?_, ?_, ?_⟩
  · intro outcome finished
    rw [leftResult outcome finished]
    exact activate_mirrors left accepting device device' _ buffers' reply _ length' indices' small'
  · intro outcome finished
    rw [rightResult outcome finished]
    exact activate_mirrors right connecting device' device _ buffers hello _ length indices small
  · intro blocked
    obtain ⟨leftDone, rightDone, -, -⟩ := stuck blocked
    exact ⟨_, _, leftDone, rightDone⟩

def Node.idle : Node := ⟨Manager.init, fun _ => 0, fun _ => 0, 1, ⟨List.replicate 16 0, rfl⟩, [7], []⟩

def Device.plain : Device := ⟨fun i => (UInt32.ofNat (2 * i), UInt32.ofNat (2 * i + 1)), fun _ => (1073741824, 5), fun _ => 0, fun _ => 0, fun _ => 0⟩

theorem handshake_symmetric_single : ∃ left right buffers buffers',
    Node.idle.setupQueues Device.plain (numQueues 0 1) = some (left, buffers) ∧
    Node.idle.setupQueues Device.plain (numQueues 0 1) = some (right, buffers') ∧
    ∃ limit, ∀ events s,
      Machine.run Pair.step ⟨Node.idle.connect Device.plain [1, 2] 0, Node.idle.accept Device.plain [3] 1, [], []⟩ events = some s →
        events.length ≤ limit ∧
        (∀ outcome, s.left = .done outcome →
          outcome.Mirrors left (numQueues 0 1) (Node.idle.connectionInfo Device.plain buffers' [3]) buffers') ∧
        (∀ outcome, s.right = .done outcome →
          outcome.Mirrors right (numQueues 0 1) (Node.idle.connectionInfo Device.plain buffers [1, 2]) buffers) ∧
        ((∀ event, s.step event = none) → ∃ outcome outcome', s.left = .done outcome ∧ s.right = .done outcome') := by
  have allocates : (Node.idle.setupQueues Device.plain (numQueues 0 1)).isSome = true := by decide +kernel
  obtain ⟨⟨left, buffers⟩, allocated⟩ := Option.isSome_iff_exists.mp allocates
  have length := (setup_queues_buffers Device.plain _ Node.idle left buffers allocated).1
  have infos (message : Bytes) : (Node.idle.connectionInfo Device.plain buffers message).size = 84 + message.length := by
    have count : (queueInfos Device.plain buffers).length = 1 := by rw [queueInfos, List.length_mapIdx, length]; rfl
    rw [ConnectionInfo.size, Node.connectionInfo, count]
    rfl
  refine ⟨left, left, buffers, buffers, allocated, allocated, ?_⟩
  exact handshake_symmetric Node.idle Node.idle left left Device.plain Device.plain 0 1 [1, 2] [3] buffers buffers allocated allocated
    (by rw [infos]; decide) (by rw [infos]; decide)

end ZipLog.Network
