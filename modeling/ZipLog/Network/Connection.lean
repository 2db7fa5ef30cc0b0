import ZipLog.Lib.Sections
import ZipLog.Network.Lengths

set_option autoImplicit false

namespace ZipLog.Network

-- padding stands for the last four bytes of the struct, which memcpy copies with
-- the rest.
structure QueueInfo where
  index : UInt64
  address : UInt64
  remoteKey : UInt32
  sendQueueNum : UInt32
  recvQueueNum : UInt32
  padding : UInt32
deriving DecidableEq, Repr

def QueueInfo.encode (info : QueueInfo) : Bytes :=
  Word.encode 8 info.index.toNat ++ Word.encode 8 info.address.toNat ++ Word.encode 4 info.remoteKey.toNat ++
    Word.encode 4 info.sendQueueNum.toNat ++ Word.encode 4 info.recvQueueNum.toNat ++ Word.encode 4 info.padding.toNat

def decode32 (bytes : Bytes) : UInt32 := UInt32.ofNat (Word.decode bytes)
def decode64 (bytes : Bytes) : UInt64 := UInt64.ofNat (Word.decode bytes)

def QueueInfo.decode (bytes : Bytes) : QueueInfo :=
  ⟨decode64 (bytes.take 8), decode64 ((bytes.drop 8).take 8), decode32 ((bytes.drop 16).take 4), decode32 ((bytes.drop 20).take 4),
    decode32 ((bytes.drop 24).take 4), decode32 (bytes.drop 28)⟩

abbrev Gid := { bytes : Bytes // bytes.length = 16 }

-- What serialize_connection is given and deserialize_connection returns.
structure ConnectionInfo where
  localId : UInt16
  localGid : Gid
  queueInfos : List QueueInfo
  xrcQueueNums : List UInt32
  message : Bytes
deriving DecidableEq, Repr

def ConnectionInfo.size (info : ConnectionInfo) : Nat :=
  destinationInfo.size + info.queueInfos.length * queueInfoSize + info.xrcQueueNums.length * xrcSize + info.message.length

def xrcOffset (numQueues : Nat) : Nat := destinationInfo.size + numQueues * queueInfoSize
def messageOffset (numQueues numXrcQueues : Nat) : Nat := xrcOffset numQueues + numXrcQueues * xrcSize

-- The constructor of destination_info. The fields are aligned, so the bytes from 2
-- to 8 keep what malloc left there.
def ConnectionInfo.sections (info : ConnectionInfo) : List (Nat × Bytes) :=
  [(0, Word.encode 2 info.localId.toNat), (8, info.localGid.1), (24, Word.encode 8 info.queueInfos.length),
    (32, Word.encode 8 info.xrcQueueNums.length), (40, Word.encode 8 info.message.length),
    (destinationInfo.size, info.queueInfos.flatMap QueueInfo.encode),
    (xrcOffset info.queueInfos.length, info.xrcQueueNums.flatMap (fun num => Word.encode 4 num.toNat)),
    (messageOffset info.queueInfos.length info.xrcQueueNums.length, info.message)]

def serializeConnection (malloced : Memory) (info : ConnectionInfo) : Bytes :=
  Ring.read (Sections.fill malloced info.sections) 0 (uint64 info.size)

def readInfo (buffer : Memory) : ConnectionInfo :=
  ⟨UInt16.ofNat (Word.decode (Ring.read buffer 0 2)), ⟨Ring.read buffer 8 16, Sections.read_length buffer 8 16⟩,
    Sections.readArray buffer destinationInfo.size queueInfoSize (word buffer 24) QueueInfo.decode,
    Sections.readArray buffer (xrcOffset (word buffer 24)) xrcSize (word buffer 32) decode32,
    Ring.read buffer (messageOffset (word buffer 24) (word buffer 32)) (word buffer 40)⟩

-- none is the assertion on the length.
def deserializeConnection (buffer : Memory) (length : Nat) : Option ConnectionInfo :=
  if length = destinationInfo.length buffer then some (readInfo buffer) else none

theorem decode32_encode (value : UInt32) : decode32 (Word.encode 4 value.toNat) = value := by
  rw [decode32, Word.decode_encode 4 _ value.toNat_lt, UInt32.ofNat_toNat]

theorem decode64_encode (value : UInt64) : decode64 (Word.encode 8 value.toNat) = value := by
  rw [decode64, Word.decode_encode 8 _ value.toNat_lt, UInt64.ofNat_toNat]

theorem queue_info_size (info : QueueInfo) : info.encode.length = queueInfoSize := by
  simp [QueueInfo.encode, queueInfoSize]

theorem queue_info_decode (info : QueueInfo) : QueueInfo.decode info.encode = info := by
  simp [QueueInfo.decode, QueueInfo.encode, List.drop_append, List.drop_eq_nil_of_le, decode32_encode, decode64_encode]

theorem infos_length (infos : List QueueInfo) : (infos.flatMap QueueInfo.encode).length = infos.length * queueInfoSize :=
  Sections.array_length _ _ infos queue_info_size

theorem xrc_length (nums : List UInt32) : (nums.flatMap (fun num => Word.encode 4 num.toNat)).length = nums.length * xrcSize :=
  Sections.array_length _ _ nums (fun _ => Word.encode_length 4 _)

theorem sections_apart (info : ConnectionInfo) : info.sections.Pairwise Sections.Apart := by
  have gid := info.localGid.2
  simp only [ConnectionInfo.sections, Sections.Apart, List.pairwise_cons, List.mem_cons, List.not_mem_nil, or_false, forall_eq_or_imp,
    forall_eq, Word.encode_length, infos_length, xrc_length, messageOffset, xrcOffset, destinationInfo]
  simp only [IsEmpty.forall_iff, implies_true, List.Pairwise.nil, and_true]
  omega

theorem sections_inside (info : ConnectionInfo) (part : Nat × Bytes) (member : part ∈ info.sections) :
    part.1 + part.2.length ≤ info.size := by
  have gid := info.localGid.2
  revert part
  simp only [ConnectionInfo.sections, ConnectionInfo.size, List.mem_cons, List.not_mem_nil, or_false, forall_eq_or_imp, forall_eq,
    Word.encode_length, infos_length, xrc_length, messageOffset, xrcOffset, destinationInfo]
  omega

-- What the peer reads of each section.
theorem section_received (malloced behind : Memory) (info : ConnectionInfo) (small : info.size < 2 ^ 64) (part : Nat × Bytes)
    (member : part ∈ info.sections) :
    Ring.read (Ring.write behind 0 (serializeConnection malloced info)) part.1 part.2.length = part.2 := by
  rw [serializeConnection, uint64_of_lt small, Sections.read_copy _ _ _ _ _ (sections_inside info part member)]
  exact Sections.read_fill malloced info.sections part (sections_apart info) member

theorem serialize_length (malloced : Memory) (info : ConnectionInfo) (small : info.size < 2 ^ 64) :
    (serializeConnection malloced info).length = info.size := by
  rw [serializeConnection, Sections.read_length, uint64_of_lt small]

theorem word_received (malloced behind : Memory) (info : ConnectionInfo) (small : info.size < 2 ^ 64) (offset value : Nat)
    (member : (offset, Word.encode 8 value) ∈ info.sections) (bound : value ≤ info.size) :
    word (Ring.write behind 0 (serializeConnection malloced info)) offset = value := by
  have received := section_received malloced behind info small _ member
  rw [Word.encode_length] at received
  rw [word, received, Word.decode_encode 8 value (Nat.lt_of_le_of_lt bound small)]

theorem size_claimed (buffer : Memory) (info : ConnectionInfo) (small : info.size < 2 ^ 64)
    (numQueues : word buffer 24 = info.queueInfos.length) (numXrcQueues : word buffer 32 = info.xrcQueueNums.length)
    (messageLength : word buffer 40 = info.message.length) : info.size = destinationInfo.length buffer := by
  have claimed : destinationInfo.claimed buffer = info.size := by
    simp only [Shape.claimed, ConnectionInfo.size, destinationInfo, List.map_cons, List.map_nil, List.sum_cons, List.sum_nil,
      numQueues, numXrcQueues, messageLength]
    omega
  rw [length_claimed, claimed, uint64_of_lt small]

theorem read_info_of (buffer : Memory) (info : ConnectionInfo) (numQueues : word buffer 24 = info.queueInfos.length)
    (numXrcQueues : word buffer 32 = info.xrcQueueNums.length) (messageLength : word buffer 40 = info.message.length)
    (received : ∀ part ∈ info.sections, Ring.read buffer part.1 part.2.length = part.2) : readInfo buffer = info := by
  simp only [ConnectionInfo.sections, List.mem_cons, List.not_mem_nil, or_false, forall_eq_or_imp, forall_eq] at received
  obtain ⟨localId, localGid, -, -, -, queueInfos, xrcQueueNums, message⟩ := received
  rw [Word.encode_length] at localId
  rw [info.localGid.2] at localGid
  have infos := Sections.read_array buffer destinationInfo.size queueInfoSize QueueInfo.encode QueueInfo.decode info.queueInfos
    queue_info_size queue_info_decode queueInfos
  have nums := Sections.read_array buffer (xrcOffset info.queueInfos.length) xrcSize (fun num => Word.encode 4 num.toNat) decode32
    info.xrcQueueNums (fun _ => Word.encode_length 4 _) decode32_encode xrcQueueNums
  have gid : (⟨Ring.read buffer 8 16, Sections.read_length buffer 8 16⟩ : Gid) = info.localGid := Subtype.ext localGid
  rw [readInfo, numQueues, numXrcQueues, messageLength, infos, nums, message, gid, localId,
    Word.decode_encode 2 _ info.localId.toNat_lt, UInt16.ofNat_toNat]

theorem deserialize_serialize (malloced behind : Memory) (info : ConnectionInfo) (small : info.size < 2 ^ 64) :
    deserializeConnection (Ring.write behind 0 (serializeConnection malloced info)) info.size = some info := by
  have numQueues := word_received malloced behind info small 24 info.queueInfos.length (by simp [ConnectionInfo.sections])
    (by rw [ConnectionInfo.size, queueInfoSize]; omega)
  have numXrcQueues := word_received malloced behind info small 32 info.xrcQueueNums.length (by simp [ConnectionInfo.sections])
    (by rw [ConnectionInfo.size, xrcSize]; omega)
  have messageLength := word_received malloced behind info small 40 info.message.length (by simp [ConnectionInfo.sections])
    (by rw [ConnectionInfo.size]; omega)
  rw [deserializeConnection, if_pos (size_claimed _ info small numQueues numXrcQueues messageLength),
    read_info_of _ info numQueues numXrcQueues messageLength (section_received malloced behind info small)]

end ZipLog.Network
