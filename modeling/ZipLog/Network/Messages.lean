import ZipLog.Lib.Layout
import ZipLog.Lib.Sections
import ZipLog.Network.Lengths
import Mathlib.Data.List.Nodup

set_option autoImplicit false

namespace ZipLog.Network

structure SocketAddress where
  family : Nat
  port : Nat
  address : Nat
  zeros : Nat
deriving DecidableEq, Repr

-- The structs of api.h. A struct with a trailing array does not keep the number of
-- its elements apart from the array.
inductive Message where
  | orderIntro
  | clientIntro (clientId shardId numSlots : Nat)
  | storageIntro (shardId replicaId clientQueues port : Nat)
  | subscriberIntro (subscriberId numQueues : Nat)
  | orderFinished
  | clientFinished (clientId : Nat)
  | storageFinished (shardId replicaId : Nat)
  | subscriberFinished (subscriberId : Nat)
  | storageInsert (insert : StorageInsert)
  | clientInsertAck (ack : ClientInsertAck)
  | orderClientRate (clientId numSlots : Nat)
  | orderClientCut (cut : OrderClientCut)
  | orderClientData (data : OrderClientData)
  | orderClientFreeze (clientId : Nat)
  | storageSlots (slots : StorageSlots)
  | storageClientFinalize (clientId : Nat)
  | storageClientFreeze (clientId : Nat)
  | storageClientCut (cut : StorageClientCut)
  | storageClientPatch (patch : StorageClientPatch)
  | subscriberLogEntry (entry : SubscriberLogEntry)
  | clientStorageInfo (addresses : List SocketAddress)
  | subscriberStorageInfo (addresses : List SocketAddress)
  | clientNewEpoch (beginning numSlots : Nat)
  | clientHeartbeat (id : Nat)
deriving DecidableEq, Repr

inductive MessageType where
  | orderIntro
  | clientIntro
  | storageIntro
  | subscriberIntro
  | orderFinished
  | clientFinished
  | storageFinished
  | subscriberFinished
  | storageInsert
  | clientInsertAck
  | orderClientRate
  | orderClientCut
  | orderClientData
  | orderClientFreeze
  | storageSlots
  | storageClientFinalize
  | storageClientFreeze
  | storageClientCut
  | storageClientPatch
  | subscriberLogEntry
  | clientStorageInfo
  | subscriberStorageInfo
  | clientNewEpoch
  | clientHeartbeat
deriving DecidableEq, Repr

def MessageType.tag : MessageType → Nat
  | .orderIntro => 2 ^ 1
  | .clientIntro => 2 ^ 2
  | .storageIntro => 2 ^ 3
  | .subscriberIntro => 2 ^ 4
  | .orderFinished => 2 ^ 5
  | .clientFinished => 2 ^ 6
  | .storageFinished => 2 ^ 7
  | .subscriberFinished => 2 ^ 8
  | .clientStorageInfo => 2 ^ 9
  | .clientNewEpoch => 2 ^ 10
  | .clientInsertAck => 2 ^ 11
  | .orderClientRate => 2 ^ 12
  | .orderClientFreeze => 2 ^ 13
  | .orderClientCut => 2 ^ 14
  | .orderClientData => 2 ^ 15
  | .storageInsert => 2 ^ 16
  | .storageSlots => 2 ^ 17
  | .storageClientFreeze => 2 ^ 18
  | .storageClientCut => 2 ^ 19
  | .storageClientPatch => 2 ^ 20
  | .storageClientFinalize => 2 ^ 21
  | .subscriberLogEntry => 2 ^ 22
  | .subscriberStorageInfo => 2 ^ 23
  | .clientHeartbeat => 2 ^ 30

-- The widths of the fields between message_type and the number of elements.
def MessageType.fields : MessageType → List Nat
  | .orderIntro => []
  | .clientIntro => [8, 8, 8]
  | .storageIntro => [8, 8, 8, 2]
  | .subscriberIntro => [8, 8]
  | .orderFinished => []
  | .clientFinished => [8]
  | .storageFinished => [8, 8]
  | .subscriberFinished => [8]
  | .storageInsert => [8, 8]
  | .clientInsertAck => [8, 8]
  | .orderClientRate => [8, 8]
  | .orderClientCut => [8, 8, 8, 8]
  | .orderClientData => [8, 8, 8, 8]
  | .orderClientFreeze => [8]
  | .storageSlots => [8]
  | .storageClientFinalize => [8]
  | .storageClientFreeze => [8]
  | .storageClientCut => [8, 8]
  | .storageClientPatch => [8, 8]
  | .subscriberLogEntry => [8, 8, 8, 8, 8]
  | .clientStorageInfo => []
  | .subscriberStorageInfo => []
  | .clientNewEpoch => [8, 8]
  | .clientHeartbeat => [8]

-- The widths of the fields of an element of the trailing array.
def MessageType.element : MessageType → Option (List Nat)
  | .storageInsert => some [1]
  | .orderClientData => some [1]
  | .storageClientPatch => some [1]
  | .subscriberLogEntry => some [1]
  | .storageSlots => some [8, 8]
  | .clientStorageInfo => some [2, 2, 4, 8]
  | .subscriberStorageInfo => some [2, 2, 4, 8]
  | _ => none

-- Where the number of elements is.
def MessageType.count (type : MessageType) : Nat := 8 + type.fields.sum

def MessageType.format (type : MessageType) : MessageFormat :=
  ⟨type.tag, match type.element with
    | none => ⟨type.count, []⟩
    | some widths => ⟨type.count + 8, [(type.count, widths.sum)]⟩⟩

def Message.type : Message → MessageType
  | .orderIntro => .orderIntro
  | .clientIntro .. => .clientIntro
  | .storageIntro .. => .storageIntro
  | .subscriberIntro .. => .subscriberIntro
  | .orderFinished => .orderFinished
  | .clientFinished _ => .clientFinished
  | .storageFinished .. => .storageFinished
  | .subscriberFinished _ => .subscriberFinished
  | .storageInsert _ => .storageInsert
  | .clientInsertAck _ => .clientInsertAck
  | .orderClientRate .. => .orderClientRate
  | .orderClientCut _ => .orderClientCut
  | .orderClientData _ => .orderClientData
  | .orderClientFreeze _ => .orderClientFreeze
  | .storageSlots _ => .storageSlots
  | .storageClientFinalize _ => .storageClientFinalize
  | .storageClientFreeze _ => .storageClientFreeze
  | .storageClientCut _ => .storageClientCut
  | .storageClientPatch _ => .storageClientPatch
  | .subscriberLogEntry _ => .subscriberLogEntry
  | .clientStorageInfo _ => .clientStorageInfo
  | .subscriberStorageInfo _ => .subscriberStorageInfo
  | .clientNewEpoch .. => .clientNewEpoch
  | .clientHeartbeat _ => .clientHeartbeat

-- The values of these fields and of the elements.
def Message.values : Message → List Nat
  | .orderIntro => []
  | .clientIntro clientId shardId numSlots => [clientId, shardId, numSlots]
  | .storageIntro shardId replicaId clientQueues port => [shardId, replicaId, clientQueues, port]
  | .subscriberIntro subscriberId numQueues => [subscriberId, numQueues]
  | .orderFinished => []
  | .clientFinished clientId => [clientId]
  | .storageFinished shardId replicaId => [shardId, replicaId]
  | .subscriberFinished subscriberId => [subscriberId]
  | .storageInsert insert => [insert.clientId, insert.numSlots]
  | .clientInsertAck ack => [ack.replicaId, ack.gsn]
  | .orderClientRate clientId numSlots => [clientId, numSlots]
  | .orderClientCut cut => [cut.clientId, cut.shardId, cut.replicaId, cut.latestGsn]
  | .orderClientData data => [data.clientId, data.shardId, data.replicaId, data.gsn]
  | .orderClientFreeze clientId => [clientId]
  | .storageSlots slots => [slots.startGsn]
  | .storageClientFinalize clientId => [clientId]
  | .storageClientFreeze clientId => [clientId]
  | .storageClientCut cut => [cut.clientId, cut.beginGsn]
  | .storageClientPatch patch => [patch.clientId, patch.gsn]
  | .subscriberLogEntry entry => [entry.replicaId, entry.shardId, entry.threadId, entry.clientId, entry.gsn]
  | .clientStorageInfo _ => []
  | .subscriberStorageInfo _ => []
  | .clientNewEpoch beginning numSlots => [beginning, numSlots]
  | .clientHeartbeat id => [id]

def ofBytes (data : Bytes) : List (List Nat) := data.map (fun byte => [byte.toNat])

def SocketAddress.values (address : SocketAddress) : List Nat := [address.family, address.port, address.address, address.zeros]

def Message.elements : Message → List (List Nat)
  | .storageInsert insert => ofBytes insert.data
  | .orderClientData data => ofBytes data.data
  | .storageClientPatch patch => ofBytes patch.data
  | .subscriberLogEntry entry => ofBytes entry.data
  | .storageSlots slots => slots.assignments.map (fun assignment => [assignment.clientId, assignment.numSlots])
  | .clientStorageInfo addresses => addresses.map SocketAddress.values
  | .subscriberStorageInfo addresses => addresses.map SocketAddress.values
  | _ => []

def Message.encode (message : Message) : Bytes :=
  Layout.pack ((8, message.type.tag) :: message.type.fields.zip message.values) ++
    match message.type.element with
    | none => []
    | some widths => Word.encode 8 message.elements.length ++ Layout.packAll (message.elements.map widths.zip)

-- Every value fits the field it is stored in.
structure Message.Fits (message : Message) : Prop where
  fields : Layout.Fits (message.type.fields.zip message.values)
  elements : ∀ widths, message.type.element = some widths → ∀ element ∈ message.elements, Layout.Fits (widths.zip element)
  length : message.encode.length < 2 ^ 64

def toBytes (elements : List (List Nat)) : Bytes := elements.map (fun element => UInt8.ofNat (element.headD 0))

def toAssignment : List Nat → Assignment
  | [clientId, numSlots] => ⟨clientId, numSlots⟩
  | _ => ⟨0, 0⟩

def toAddress : List Nat → SocketAddress
  | [family, port, address, zeros] => ⟨family, port, address, zeros⟩
  | _ => ⟨0, 0, 0, 0⟩

-- The struct with these values.
def MessageType.message : MessageType → List Nat → List (List Nat) → Option Message
  | .orderIntro, [], _ => some .orderIntro
  | .clientIntro, [clientId, shardId, numSlots], _ => some (.clientIntro clientId shardId numSlots)
  | .storageIntro, [shardId, replicaId, clientQueues, port], _ => some (.storageIntro shardId replicaId clientQueues port)
  | .subscriberIntro, [subscriberId, numQueues], _ => some (.subscriberIntro subscriberId numQueues)
  | .orderFinished, [], _ => some .orderFinished
  | .clientFinished, [clientId], _ => some (.clientFinished clientId)
  | .storageFinished, [shardId, replicaId], _ => some (.storageFinished shardId replicaId)
  | .subscriberFinished, [subscriberId], _ => some (.subscriberFinished subscriberId)
  | .storageInsert, [clientId, numSlots], data => some (.storageInsert ⟨clientId, numSlots, toBytes data⟩)
  | .clientInsertAck, [replicaId, gsn], _ => some (.clientInsertAck ⟨replicaId, gsn⟩)
  | .orderClientRate, [clientId, numSlots], _ => some (.orderClientRate clientId numSlots)
  | .orderClientCut, [clientId, shardId, replicaId, latestGsn], _ => some (.orderClientCut ⟨clientId, shardId, replicaId, latestGsn⟩)
  | .orderClientData, [clientId, shardId, replicaId, gsn], data =>
      some (.orderClientData ⟨clientId, shardId, replicaId, gsn, toBytes data⟩)
  | .orderClientFreeze, [clientId], _ => some (.orderClientFreeze clientId)
  | .storageSlots, [startGsn], assignments => some (.storageSlots ⟨startGsn, assignments.map toAssignment⟩)
  | .storageClientFinalize, [clientId], _ => some (.storageClientFinalize clientId)
  | .storageClientFreeze, [clientId], _ => some (.storageClientFreeze clientId)
  | .storageClientCut, [clientId, beginGsn], _ => some (.storageClientCut ⟨clientId, beginGsn⟩)
  | .storageClientPatch, [clientId, gsn], data => some (.storageClientPatch ⟨clientId, gsn, toBytes data⟩)
  | .subscriberLogEntry, [replicaId, shardId, threadId, clientId, gsn], data =>
      some (.subscriberLogEntry ⟨replicaId, shardId, threadId, clientId, gsn, toBytes data⟩)
  | .clientStorageInfo, [], addresses => some (.clientStorageInfo (addresses.map toAddress))
  | .subscriberStorageInfo, [], addresses => some (.subscriberStorageInfo (addresses.map toAddress))
  | .clientNewEpoch, [beginning, numSlots], _ => some (.clientNewEpoch beginning numSlots)
  | .clientHeartbeat, [id], _ => some (.clientHeartbeat id)
  | _, _, _ => none

-- What a handler sees that takes the struct from the start of a buffer on.
def MessageType.read (type : MessageType) (memory : Memory) : Option Message :=
  type.message (Layout.unpack type.fields (Ring.read memory 8 type.fields.sum))
    (match type.element with
    | none => []
    | some widths => Layout.unpackAll widths (word memory type.count)
        (Ring.read memory (type.count + 8) (word memory type.count * widths.sum)))

def MessageType.all : List MessageType :=
  [.orderIntro, .clientIntro, .storageIntro, .subscriberIntro, .orderFinished, .clientFinished, .storageFinished, .subscriberFinished,
    .storageInsert, .clientInsertAck, .orderClientRate, .orderClientCut, .orderClientData, .orderClientFreeze, .storageSlots,
    .storageClientFinalize, .storageClientFreeze, .storageClientCut, .storageClientPatch, .subscriberLogEntry, .clientStorageInfo,
    .subscriberStorageInfo, .clientNewEpoch, .clientHeartbeat]

theorem all_member (type : MessageType) : type ∈ MessageType.all := by
  cases type <;> decide

theorem tag_injective (first second : MessageType) (same : first.tag = second.tag) : first = second :=
  List.inj_on_of_nodup_map (show (MessageType.all.map MessageType.tag).Nodup by decide) (all_member first) (all_member second) same

theorem tag_lt (type : MessageType) : type.tag < 256 ^ 8 := by
  cases type <;> decide

theorem values_length (message : Message) : message.values.length = message.type.fields.length := by
  cases message <;> rfl

theorem element_length (message : Message) (widths : List Nat) (array : message.type.element = some widths) (element : List Nat)
    (member : element ∈ message.elements) : element.length = widths.length := by
  cases message <;> cases array <;> obtain ⟨_, _, rfl⟩ := List.mem_map.mp member <;> rfl

theorem to_of_bytes (data : Bytes) : toBytes (ofBytes data) = data := by
  rw [toBytes, ofBytes, List.map_map]
  refine (List.map_congr_left ?_).trans (List.map_id data)
  intro byte _
  exact UInt8.ofNat_toNat

theorem message_values (message : Message) : message.type.message message.values message.elements = some message := by
  have assignments : ∀ slots : List Assignment,
      (slots.map (fun assignment => [assignment.clientId, assignment.numSlots])).map toAssignment = slots := by
    intro slots
    rw [List.map_map]
    exact (List.map_congr_left (fun _ _ => rfl)).trans (List.map_id slots)
  have addresses : ∀ servers : List SocketAddress, (servers.map SocketAddress.values).map toAddress = servers := by
    intro servers
    rw [List.map_map]
    exact (List.map_congr_left (fun _ _ => rfl)).trans (List.map_id servers)
  cases message with
  | storageInsert insert => simp only [Message.type, Message.values, Message.elements, MessageType.message, to_of_bytes]
  | orderClientData data => simp only [Message.type, Message.values, Message.elements, MessageType.message, to_of_bytes]
  | storageClientPatch patch => simp only [Message.type, Message.values, Message.elements, MessageType.message, to_of_bytes]
  | subscriberLogEntry entry => simp only [Message.type, Message.values, Message.elements, MessageType.message, to_of_bytes]
  | storageSlots slots => simp only [Message.type, Message.values, Message.elements, MessageType.message, assignments]
  | clientStorageInfo servers => simp only [Message.type, Message.values, Message.elements, MessageType.message, addresses]
  | subscriberStorageInfo servers => simp only [Message.type, Message.values, Message.elements, MessageType.message, addresses]
  | _ => rfl

theorem fields_widths (message : Message) : (message.type.fields.zip message.values).map Prod.fst = message.type.fields :=
  List.map_fst_zip (values_length message).ge

theorem fields_values (message : Message) : (message.type.fields.zip message.values).map Prod.snd = message.values :=
  List.map_snd_zip (values_length message).le

theorem elements_widths (message : Message) (widths : List Nat) (array : message.type.element = some widths) :
    ∀ element ∈ message.elements.map widths.zip, element.map Prod.fst = widths := by
  intro packed member
  obtain ⟨element, inside, rfl⟩ := List.mem_map.mp member
  exact List.map_fst_zip (element_length message widths array element inside).ge

theorem elements_shaped (message : Message) (fits : message.Fits) (widths : List Nat) (array : message.type.element = some widths) :
    Layout.Shaped widths (message.elements.map widths.zip) := by
  intro packed member
  refine ⟨elements_widths message widths array packed member, ?_⟩
  obtain ⟨element, inside, rfl⟩ := List.mem_map.mp member
  exact fits.elements widths array element inside

theorem elements_values (message : Message) (widths : List Nat) (array : message.type.element = some widths) :
    (message.elements.map widths.zip).map (fun element => element.map Prod.snd) = message.elements := by
  rw [List.map_map]
  refine (List.map_congr_left ?_).trans (List.map_id message.elements)
  intro element member
  exact List.map_snd_zip (element_length message widths array element member).le

theorem no_elements (message : Message) (single : message.type.element = none) : message.elements = [] := by
  cases message <;> first | rfl | cases single

-- The parts of a message where the struct has them.
structure Message.Stored (message : Message) (memory : Memory) : Prop where
  tag : word memory 0 = message.type.tag
  fields : Layout.unpack message.type.fields (Ring.read memory 8 message.type.fields.sum) = message.values
  count : ∀ widths, message.type.element = some widths → word memory message.type.count = message.elements.length
  array : ∀ widths, message.type.element = some widths → Layout.unpackAll widths message.elements.length
    (Ring.read memory (message.type.count + 8) (message.elements.length * widths.sum)) = message.elements

theorem encode_parts (message : Message) : message.encode = Word.encode 8 message.type.tag ++
    (Layout.pack (message.type.fields.zip message.values) ++
      match message.type.element with
      | none => []
      | some widths => Word.encode 8 message.elements.length ++ Layout.packAll (message.elements.map widths.zip)) := by
  rw [Message.encode, Layout.pack, List.append_assoc]

theorem array_length (message : Message) (widths : List Nat) (array : message.type.element = some widths) :
    (Layout.packAll (message.elements.map widths.zip)).length = message.elements.length * widths.sum := by
  rw [Layout.pack_all_length widths _ (elements_widths message widths array), List.length_map]

theorem encode_length (message : Message) : message.encode.length = message.type.count +
    (message.type.element.elim 0 (fun widths => 8 + message.elements.length * widths.sum)) := by
  rw [encode_parts, List.length_append, List.length_append, Word.encode_length, Layout.pack_length, fields_widths, MessageType.count]
  cases array : message.type.element with
  | none => simp only [List.length_nil, Option.elim_none, Nat.add_zero]
  | some widths =>
      rw [Option.elim_some, List.length_append, Word.encode_length, array_length message widths array, Nat.add_assoc]

theorem encode_stored (message : Message) (fits : message.Fits) (memory : Memory)
    (stored : Ring.read memory 0 message.encode.length = message.encode) : message.Stored memory := by
  rw [encode_parts] at stored
  obtain ⟨tag, behind⟩ := Sections.read_parts memory 0 _ _ stored
  obtain ⟨fields, rest⟩ := Sections.read_parts memory _ _ _ behind
  rw [Word.encode_length] at tag
  rw [Word.encode_length, Nat.zero_add, Layout.pack_length, fields_widths] at fields rest
  have values := Layout.unpack_pack _ fits.fields []
  rw [fields_widths, fields_values, List.append_nil] at values
  have parts : ∀ widths, message.type.element = some widths →
      word memory message.type.count = message.elements.length ∧
        Ring.read memory (message.type.count + 8) (message.elements.length * widths.sum) = Layout.packAll (message.elements.map widths.zip) := by
    intro widths array
    rw [array] at rest
    obtain ⟨count, elements⟩ := Sections.read_parts memory _ _ _ rest
    rw [Word.encode_length] at count elements
    rw [array_length message widths array] at elements
    have small : message.elements.length < 256 ^ 8 := by
      have whole := fits.length
      have pos : 0 < widths.sum := by
        revert array
        cases message <;> intro array <;> cases array <;> decide
      have most := Nat.le_mul_of_pos_right message.elements.length pos
      rw [encode_length message, array, Option.elim_some] at whole
      omega
    exact ⟨by rw [word, MessageType.count, count, Word.decode_encode 8 _ small], elements⟩
  refine ⟨by rw [word, tag, Word.decode_encode 8 _ (tag_lt message.type)], by rw [fields, values], ?_, ?_⟩
  · intro widths array
    exact (parts widths array).1
  · intro widths array
    have read := Layout.unpack_all_pack widths _ (elements_shaped message fits widths array) []
    rw [List.length_map, List.append_nil, elements_values message widths array] at read
    rw [(parts widths array).2, read]

theorem stored_read (message : Message) (memory : Memory) (stored : message.Stored memory) : message.type.read memory = some message := by
  unfold MessageType.read
  rw [stored.fields]
  cases array : message.type.element with
  | none => rw [← no_elements message array, message_values]
  | some widths =>
      dsimp only
      rw [stored.count widths array, stored.array widths array, message_values]

theorem stored_claimed (message : Message) (memory : Memory) (stored : message.Stored memory) :
    message.type.format.shape.claimed memory = message.encode.length := by
  rw [encode_length message, MessageType.format, Shape.claimed]
  cases array : message.type.element with
  | none => simp only [List.map_nil, List.sum_nil, Option.elim_none]
  | some widths =>
      simp only [List.map_cons, List.map_nil, List.sum_cons, List.sum_nil, Option.elim_some, stored.count widths array, Nat.add_zero,
        Nat.add_assoc]

theorem stored_apply (message : Message) (fits : message.Fits) (memory : Memory) (stored : message.Stored memory)
    (handlers : List MessageType) : apply memory message.encode.length (handlers.map MessageType.format) =
      if message.type ∈ handlers then .handled message.type.format else .unknown := by
  induction handlers with
  | nil => rfl
  | cons first handlers ih =>
      rw [List.map_cons, apply, stored.tag]
      by_cases same : message.type = first
      · subst same
        have checked : message.encode.length = message.type.format.shape.length memory := by
          rw [length_claimed, stored_claimed message memory stored, uint64_of_lt fits.length]
        rw [if_pos (show message.type.tag = message.type.format.tag from rfl), if_pos checked, if_pos (List.mem_cons_self ..)]
      · have different : ¬ message.type.tag = first.format.tag := fun tags => same (tag_injective _ _ tags)
        rw [if_neg different, ih]
        simp only [List.mem_cons, same, false_or]

-- The main result on the messages. A message in a receive buffer, whatever lies
-- behind it, reaches the handler for its type if there is one, passes the length
-- check there and is read back with all its fields; no other message has its bytes.
theorem message_round_trip (message : Message) (fits : message.Fits) (memory : Memory)
    (received : Ring.read memory 0 message.encode.length = message.encode) (handlers : List MessageType) :
    apply memory message.encode.length (handlers.map MessageType.format) =
      (if message.type ∈ handlers then .handled message.type.format else .unknown) ∧
    message.type.read memory = some message ∧ message.type.format.shape.claimed memory = message.encode.length ∧
    ∀ other : Message, other.Fits → Ring.read memory 0 other.encode.length = other.encode → other = message := by
  have stored := encode_stored message fits memory received
  refine ⟨stored_apply message fits memory stored handlers, stored_read message memory stored, stored_claimed message memory stored, ?_⟩
  intro other fits' received'
  have stored' := encode_stored other fits' memory received'
  have types : other.type = message.type := tag_injective _ _ (stored'.tag.symm.trans stored.tag)
  have read := stored_read other memory stored'
  rw [types, stored_read message memory stored] at read
  exact (Option.some.inj read).symm

-- The formats of the messages with a trailing array.
example : [MessageType.storageInsert, .orderClientData, .storageClientPatch, .subscriberLogEntry].map MessageType.format = dataMessages ∧
    [MessageType.storageSlots, .clientStorageInfo, .subscriberStorageInfo].map MessageType.format = arrayMessages := ⟨rfl, rfl⟩

-- The slots of two clients, one of them in another shard, at a control thread.
def slotsOfTwo : Message := .storageSlots ⟨100, [⟨7, 200⟩, ⟨2 ^ 64 - 1, 100⟩]⟩

theorem message_round_trip_slots : apply (buffer slotsOfTwo.encode) 56 ([.storageClientFreeze, .storageSlots].map MessageType.format) =
    .handled (MessageType.format .storageSlots) ∧ MessageType.read .storageSlots (buffer slotsOfTwo.encode) = some slotsOfTwo := by
  have fits : slotsOfTwo.Fits := by
    refine ⟨by decide, ?_, by decide⟩
    intro widths array
    cases array
    decide
  obtain ⟨applied, read, _⟩ := message_round_trip slotsOfTwo fits (buffer slotsOfTwo.encode) (by decide) [.storageClientFreeze, .storageSlots]
  exact ⟨applied, read⟩

end ZipLog.Network
