import ZipLog.Lib.Run
import ZipLog.Storage.Server
import ZipLog.Storage.Invariant

set_option autoImplicit false

namespace ZipLog.Storage

-- What a reader of one log index can see.
structure Observation where
  gsn : Nat
  clientId : Nat
  dataLength : Nat
  payload : Bytes
  set : Bool
deriving DecidableEq, Repr

def Log.observe (log : Log) (index : Nat) : Option Observation :=
  if index < log.currentEntries then
    (log.read (ptr index)).map (fun entry => ⟨entry.gsn, entry.clientId, entry.dataLength, entry.payload, entry.set⟩)
  else none

-- The GSNs of a client's entries in the order in which add_entries made them.
def Log.clientGsns (log : Log) (client : Nat) : List Nat :=
  (((List.range log.currentEntries).map ptr).filter (log.ownedBy client)).filterMap log.gsnAt

theorem observe_represents (log : Log) (contents : Contents) (rep : Represents log contents) (client rank index : Nat)
    (access : (chain contents.slots client)[rank]? = some index) :
    ∃ gsn, contents.slots[index]? = some (gsn, client) ∧
      log.observe index = some ⟨gsn, client, ((contents.fills client).getD rank []).length, (contents.fills client).getD rank [],
        decide (rank < (contents.fills client).length)⟩ := by
  obtain ⟨entry, read, cell⟩ := rep.cells client rank index access
  have bound := chain_bound _ _ _ _ access
  refine ⟨entry.gsn, cell.slot, ?_⟩
  rw [Log.observe, if_pos (by rw [rep.count]; exact bound), read]
  simp only [Option.map_some, cell.owner, cell.length, cell.payload, cell.set]

-- Two logs that represent the same contents look the same at every index.
theorem observe_agrees (first second : Log) (contents : Contents) (left : Represents first contents)
    (right : Represents second contents) (index : Nat) : first.observe index = second.observe index := by
  rcases Nat.lt_or_ge index contents.slots.length with inside | outside
  · obtain ⟨rank, access⟩ := chain_rank_exists contents.slots index _ _ (List.getElem?_eq_getElem inside)
    obtain ⟨gsn, slot, seen⟩ := observe_represents first contents left _ rank index access
    obtain ⟨gsn', slot', seen'⟩ := observe_represents second contents right _ rank index access
    obtain rfl : gsn = gsn' := (Prod.mk.inj (Option.some.inj (slot.symm.trans slot'))).1
    rw [seen, seen']
  · rw [Log.observe, Log.observe, if_neg (by rw [left.count]; omega), if_neg (by rw [right.count]; omega)]

theorem chain_gsns (slots : List (Nat × Nat)) (client : Nat) :
    (chain slots client).filterMap (fun index => slots[index]?.map Prod.fst) = gsns slots client := by
  induction slots using List.reverseRecOn with
  | nil => rfl
  | append_singleton slots slot ih =>
      obtain ⟨gsn, owner⟩ := slot
      have older : (chain slots client).filterMap (fun index => (slots ++ [(gsn, owner)])[index]?.map Prod.fst) =
          gsns slots client := by
        rw [← ih]
        apply List.filterMap_congr
        intro index member
        obtain ⟨rank, access⟩ := List.mem_iff_getElem?.mp member
        rw [List.getElem?_append_left (chain_bound _ _ _ _ access)]
      by_cases mine : client = owner
      · subst mine
        rw [chain_snoc_same, List.filterMap_append, older]
        simp [gsns]
      · rw [chain_snoc_other _ _ _ _ mine, older]
        simp [gsns, Ne.symm mine]

theorem client_gsns_represents (log : Log) (contents : Contents) (rep : Represents log contents) (client : Nat) :
    log.clientGsns client = gsns contents.slots client := by
  rw [Log.clientGsns, rep.count, owned_chain log contents client rep, ← chain_gsns, List.filterMap_map]
  apply List.filterMap_congr
  intro index member
  obtain ⟨rank, access⟩ := List.mem_iff_getElem?.mp member
  obtain ⟨gsn, value, slot⟩ := gsn_at_chain log contents client rank index rep access
  rw [Function.comp_apply, value, slot]
  rfl

theorem gsns_append (slots more : List (Nat × Nat)) (client : Nat) :
    gsns (slots ++ more) client = gsns slots client ++ gsns more client := by
  simp [gsns]

-- The slots that n_1 + ... + n_k counts.
def slotsTaken (inserts : List StorageInsert) : Nat := (inserts.map StorageInsert.numSlots).sum

-- The k-th insert of a client is answered with the GSN of the last of the slots
-- that the first k inserts take.
structure Answered (slots : List (Nat × Nat)) (client : Nat) (inserts : List StorageInsert) (acks : List ClientInsertAck) : Prop where
  count : acks.length = inserts.length
  value : ∀ (index : Nat) ack, acks[index]? = some ack →
    (gsns slots client)[slotsTaken (inserts.take (index + 1)) - 1]? = some ack.gsn

theorem answered_extend (slots more : List (Nat × Nat)) (client : Nat) (inserts : List StorageInsert) (acks : List ClientInsertAck)
    (answered : Answered slots client inserts acks) : Answered (slots ++ more) client inserts acks := by
  refine ⟨answered.count, ?_⟩
  intro index ack access
  have value := answered.value index ack access
  rw [gsns_append, List.getElem?_append_left (List.getElem?_eq_some_iff.mp value).1]
  exact value

theorem answered_snoc (slots : List (Nat × Nat)) (client : Nat) (inserts : List StorageInsert) (acks : List ClientInsertAck)
    (req : StorageInsert) (ack : ClientInsertAck) (answered : Answered slots client inserts acks)
    (value : (gsns slots client)[slotsTaken (inserts ++ [req]) - 1]? = some ack.gsn) :
    Answered slots client (inserts ++ [req]) (acks ++ [ack]) := by
  refine ⟨by simp [answered.count], ?_⟩
  intro index found access
  rcases Nat.lt_or_ge index acks.length with old | new
  · rw [List.getElem?_append_left old] at access
    rw [List.take_append_of_le_length (by rw [← answered.count]; omega)]
    exact answered.value index found access
  · rw [List.getElem?_append_right new] at access
    obtain ⟨bound, rfl⟩ := List.getElem?_eq_some_iff.mp access
    have last : index = acks.length := by
      rw [List.length_singleton] at bound
      omega
    rw [List.getElem_singleton, List.take_of_length_le (by simp [last, answered.count])]
    exact value

theorem payloads_taken (inserts : List StorageInsert) (positive : ∀ req ∈ inserts, 1 ≤ req.numSlots) :
    (inserts.flatMap payloads).length = slotsTaken inserts := by
  induction inserts with
  | nil => rfl
  | cons req inserts ih =>
      have rest := ih (fun r member => positive r (by simp [member]))
      rw [List.flatMap_cons, List.length_append, payloads_length req (positive req (by simp)), rest]
      simp [slotsTaken]

-- A replica with the ACKs it has put on each client's send queue.
structure Replica where
  server : Server
  acks : Nat → List ClientInsertAck

def Replica.init (shardId replicaId : Nat) : Replica := ⟨Server.init shardId replicaId, fun _ => []⟩

-- beyond is what the receive ring happens to hold behind the message's data.
inductive Event where
  | addClient (clientId : Nat)
  | slots (slots : StorageSlots)
  | insert (req : StorageInsert) (beyond : Bytes)
deriving DecidableEq, Repr

def Replica.step (replica : Replica) : Event → Option Replica
  | .addClient clientId => some { replica with server := replica.server.addClient clientId }
  | .slots slots => some { replica with server := replica.server.storageSlots slots }
  | .insert req beyond =>
      if (replica.server.clientState req.clientId).connected then
        match replica.server.storageInsert req beyond with
        | .error _ => none
        | .ok (server, reply) =>
            some ⟨server, Function.update replica.acks req.clientId (replica.acks req.clientId ++ reply.toList)⟩
      else none

-- What a replica has processed so far.
def Event.slots? : Event → Option StorageSlots
  | .slots message => some message
  | _ => none

def Event.insert? (clientId : Nat) : Event → Option StorageInsert
  | .insert req _ => if req.clientId = clientId then some req else none
  | _ => none

def slotsOf (events : List Event) : List StorageSlots := events.filterMap Event.slots?

def insertsOf (events : List Event) (clientId : Nat) : List StorageInsert := events.filterMap (Event.insert? clientId)

-- The contents depend on the two histories alone, not on how they interleave.
def contentsOf (slots : List StorageSlots) (inserts : Nat → List StorageInsert) : Contents :=
  ⟨slots.flatMap newSlots, fun client => (inserts client).flatMap payloads⟩

structure Replica.Inv (replicaId : Nat) (events : List Event) (replica : Replica) : Prop where
  identity : replica.server.replicaId = replicaId
  tracks : replica.server.Tracks (contentsOf (slotsOf events) (insertsOf events))
  joined : ∀ client, (replica.server.clientState client).disconnected = false
  answered : ∀ client,
    Answered ((slotsOf events).flatMap newSlots) client (insertsOf events client) (replica.acks client)
  named : ∀ client, ∀ ack ∈ replica.acks client, ack.replicaId = replicaId

theorem contents_of_slots (slots : List StorageSlots) (message : StorageSlots) (inserts : Nat → List StorageInsert) :
    contentsOf (slots ++ [message]) inserts = (contentsOf slots inserts).extend (newSlots message) := by
  simp [contentsOf, Contents.extend]

theorem contents_of_insert (slots : List StorageSlots) (inserts : Nat → List StorageInsert) (req : StorageInsert) :
    contentsOf slots (Function.update inserts req.clientId (inserts req.clientId ++ [req])) =
      (contentsOf slots inserts).push req.clientId (payloads req) := by
  simp only [contentsOf, Contents.push, Contents.mk.injEq, true_and]
  funext client
  by_cases mine : client = req.clientId
  · subst mine
    simp
  · simp [mine]

theorem inserts_of_snoc (events : List Event) (req : StorageInsert) (beyond : Bytes) :
    insertsOf (events ++ [.insert req beyond]) =
      Function.update (insertsOf events) req.clientId (insertsOf events req.clientId ++ [req]) := by
  funext client
  by_cases mine : client = req.clientId
  · subst mine
    simp [insertsOf, Event.insert?]
  · simp [insertsOf, Event.insert?, mine, Ne.symm mine]

theorem replica_init (shardId replicaId : Nat) : (Replica.init shardId replicaId).Inv replicaId [] := by
  refine ⟨rfl, init_tracks shardId replicaId, fun _ => rfl, ?_, ?_⟩
  · intro client
    refine ⟨rfl, ?_⟩
    intro index ack access
    cases access
  · intro client ack member
    cases member

theorem replica_add_client (replicaId : Nat) (events : List Event) (replica : Replica) (clientId : Nat)
    (inv : replica.Inv replicaId events) :
    { replica with server := replica.server.addClient clientId }.Inv replicaId (events ++ [Event.addClient clientId]) := by
  have sameSlots : slotsOf (events ++ [.addClient clientId]) = slotsOf events := by simp [slotsOf, Event.slots?]
  have sameInserts : insertsOf (events ++ [.addClient clientId]) = insertsOf events := by
    funext client
    simp [insertsOf, Event.insert?]
  refine ⟨?_, ?_, ?_, ?_, inv.named⟩
  · simp only [Server.addClient]
    split
    · exact inv.identity
    · exact inv.identity
  · rw [sameSlots, sameInserts]
    exact add_client_tracks _ _ clientId inv.tracks
  · intro client
    simp only [Server.addClient]
    split
    · exact inv.joined client
    · by_cases mine : client = clientId
      · subst mine
        rw [client_state_same]
        exact inv.joined client
      · rw [client_state_other _ _ _ _ mine]
        exact inv.joined client
  · rw [sameSlots, sameInserts]
    exact inv.answered

theorem replica_slots (replicaId : Nat) (events : List Event) (replica : Replica) (slots : StorageSlots)
    (inv : replica.Inv replicaId events) :
    { replica with server := replica.server.storageSlots slots }.Inv replicaId (events ++ [Event.slots slots]) := by
  have moreSlots : slotsOf (events ++ [.slots slots]) = slotsOf events ++ [slots] := by simp [slotsOf, Event.slots?]
  have sameInserts : insertsOf (events ++ [.slots slots]) = insertsOf events := by
    funext client
    simp [insertsOf, Event.insert?]
  have sameStates : (replica.server.storageSlots slots).clientState = replica.server.clientState := by
    unfold Server.storageSlots
    split <;> rfl
  refine ⟨?_, ?_, ?_, ?_, inv.named⟩
  · unfold Server.storageSlots
    split
    · exact inv.identity
    · exact inv.identity
  · rw [moreSlots, sameInserts, contents_of_slots]
    exact storage_slots_tracks _ _ slots inv.tracks
  · intro client
    rw [sameStates]
    exact inv.joined client
  · intro client
    rw [moreSlots, sameInserts, List.flatMap_append]
    exact answered_extend _ _ _ _ _ (inv.answered client)

theorem replica_insert (replicaId : Nat) (events : List Event) (replica : Replica) (server : Server) (req : StorageInsert)
    (beyond : Bytes) (reply : Option ClientInsertAck) (inv : replica.Inv replicaId events)
    (positive : ∀ client, ∀ r ∈ insertsOf (events ++ [.insert req beyond]) client, 1 ≤ r.numSlots)
    (handled : replica.server.storageInsert req beyond = .ok (server, reply)) :
    Replica.Inv replicaId (events ++ [.insert req beyond])
      ⟨server, Function.update replica.acks req.clientId (replica.acks req.clientId ++ reply.toList)⟩ := by
  have sameSlots : slotsOf (events ++ [.insert req beyond]) = slotsOf events := by simp [slotsOf, Event.slots?]
  have mineOld : ∀ r ∈ insertsOf events req.clientId ++ [req], 1 ≤ r.numSlots := by
    have here := positive req.clientId
    rw [inserts_of_snoc, Function.update_self] at here
    exact here
  obtain ⟨gsn, answer, value, tracks, _, _, position, next⟩ := storage_insert_tracks replica.server server _ req beyond reply
    inv.tracks (mineOld req (by simp)) (inv.joined req.clientId) handled
  refine ⟨?_, ?_, ?_, ?_, ?_⟩
  · rw [next]
    exact inv.identity
  · rw [sameSlots, inserts_of_snoc, contents_of_insert]
    exact tracks
  · intro client
    rw [next]
    by_cases mine : client = req.clientId
    · subst mine
      rw [client_state_same]
      exact inv.joined req.clientId
    · rw [client_state_other _ _ _ _ mine]
      exact inv.joined client
  · intro client
    rw [sameSlots, inserts_of_snoc, answer]
    change Answered _ client _ (Function.update replica.acks _ _ client)
    by_cases mine : client = req.clientId
    · subst mine
      rw [Function.update_self, Function.update_self]
      refine answered_snoc _ _ _ _ req _ (inv.answered req.clientId) ?_
      have taken : slotsTaken (insertsOf events req.clientId ++ [req]) =
          ((insertsOf events req.clientId).flatMap payloads).length + req.numSlots := by
        rw [payloads_taken _ (fun r member => mineOld r (by simp [member]))]
        simp [slotsTaken]
      rw [taken]
      exact value
    · rw [Function.update_of_ne mine, Function.update_of_ne mine]
      exact inv.answered client
  · intro client ack member
    change ack ∈ Function.update replica.acks _ _ client at member
    by_cases mine : client = req.clientId
    · subst mine
      rw [answer, Function.update_self] at member
      rcases List.mem_append.mp member with old | new
      · exact inv.named _ ack old
      · rw [List.mem_singleton.mp new]
        exact inv.identity
    · rw [Function.update_of_ne mine] at member
      exact inv.named client ack member

theorem replica_run (shardId replicaId : Nat) (events : List Event) (replica : Replica)
    (positive : ∀ client, ∀ req ∈ insertsOf events client, 1 ≤ req.numSlots)
    (ran : Machine.run Replica.step (Replica.init shardId replicaId) events = some replica) : replica.Inv replicaId events := by
  refine Machine.run_invariant Replica.step _
    (fun events replica => (∀ client, ∀ req ∈ insertsOf events client, 1 ≤ req.numSlots) → replica.Inv replicaId events)
    (fun _ => replica_init shardId replicaId) ?_ events replica ran positive
  intro events replica event next before stepped positive
  have earlier : ∀ client, ∀ req ∈ insertsOf events client, 1 ≤ req.numSlots := by
    intro client req member
    refine positive client req ?_
    rw [insertsOf, List.filterMap_append]
    exact List.mem_append_left _ member
  have inv := before earlier
  cases event with
  | addClient clientId =>
      obtain rfl := Option.some.inj stepped
      exact replica_add_client replicaId events replica clientId inv
  | slots slots =>
      obtain rfl := Option.some.inj stepped
      exact replica_slots replicaId events replica slots inv
  | insert req beyond =>
      simp only [Replica.step] at stepped
      split at stepped
      · split at stepped
        · cases stepped
        · rename_i server reply handled
          obtain rfl := Option.some.inj stepped
          exact replica_insert replicaId events replica server req beyond reply inv positive handled
      · cases stepped

-- One shard's messages, of which a replica has received a part in order.
structure Received (slots : List StorageSlots) (inserts : Nat → List StorageInsert) (events : List Event) : Prop where
  slots : slotsOf events <+: slots
  inserts : ∀ client, insertsOf events client <+: inserts client

-- The GSN that answers the k-th insert of a client only depends on what the
-- shard was sent.
theorem answer_determined (slots : List StorageSlots) (inserts : Nat → List StorageInsert) (replicaId : Nat) (events : List Event)
    (replica : Replica) (received : Received slots inserts events) (inv : replica.Inv replicaId events) (client index : Nat)
    (ack : ClientInsertAck) (access : (replica.acks client)[index]? = some ack) :
    (gsns (slots.flatMap newSlots) client)[slotsTaken ((inserts client).take (index + 1)) - 1]? = some ack.gsn := by
  have answered := inv.answered client
  have bound := (List.getElem?_eq_some_iff.mp access).1
  obtain ⟨moreSlots, rfl⟩ := received.slots
  obtain ⟨moreInserts, grown⟩ := received.inserts client
  have value := answered.value index ack access
  rw [← grown, List.take_append_of_le_length (by rw [← answered.count]; omega), List.flatMap_append, gsns_append,
    List.getElem?_append_left (List.getElem?_eq_some_iff.mp value).1]
  exact value

-- Replicas of a shard that are sent the same messages agree, however each of
-- them interleaves slots and the inserts of different clients.
theorem replicas_agree (slots : List StorageSlots) (inserts : Nat → List StorageInsert)
    (positive : ∀ client, ∀ req ∈ inserts client, 1 ≤ req.numSlots) (shardId first second : Nat)
    (events others : List Event) (replica other : Replica)
    (ran : Machine.run Replica.step (Replica.init shardId first) events = some replica)
    (ranOther : Machine.run Replica.step (Replica.init shardId second) others = some other)
    (received : Received slots inserts events) (receivedOther : Received slots inserts others) :
    (∀ client, (replica.acks client).length = (insertsOf events client).length ∧
      ∀ (index : Nat) ack, (replica.acks client)[index]? = some ack →
        (replica.server.log.clientGsns client)[((((inserts client).take (index + 1)).map StorageInsert.numSlots).sum) - 1]? =
          some ack.gsn) ∧
    (∀ client (index : Nat) ack ack', (replica.acks client)[index]? = some ack → (other.acks client)[index]? = some ack' →
      ack.gsn = ack'.gsn) ∧
    (slotsOf events = slotsOf others → (∀ client, insertsOf events client = insertsOf others client) →
      ∀ index, replica.server.log.observe index = other.server.log.observe index) := by
  have inv := replica_run shardId first events replica
    (fun client req member => positive client req ((received.inserts client).subset member)) ran
  have invOther := replica_run shardId second others other
    (fun client req member => positive client req ((receivedOther.inserts client).subset member)) ranOther
  refine ⟨?_, ?_, ?_⟩
  · intro client
    refine ⟨(inv.answered client).count, ?_⟩
    intro index ack access
    have bound := (List.getElem?_eq_some_iff.mp access).1
    obtain ⟨more, grown⟩ := received.inserts client
    rw [client_gsns_represents _ _ inv.tracks.rep, ← grown,
      List.take_append_of_le_length (by rw [← (inv.answered client).count]; omega)]
    exact (inv.answered client).value index ack access
  · intro client index ack ack' access access'
    have left := answer_determined slots inserts first events replica received inv client index ack access
    have right := answer_determined slots inserts second others other receivedOther invOther client index ack' access'
    exact Option.some.inj (left.symm.trans right)
  · intro sameSlots sameInserts index
    have sameContents : contentsOf (slotsOf events) (insertsOf events) = contentsOf (slotsOf others) (insertsOf others) := by
      rw [sameSlots, funext sameInserts]
    exact observe_agrees _ _ _ inv.tracks.rep (sameContents ▸ invOther.tracks.rep) index

theorem replicas_agree_interleaved :
    let slots : List StorageSlots := [⟨0, [⟨1, 2⟩, ⟨2, 1⟩]⟩, ⟨3, [⟨2, 1⟩]⟩]
    let events : List Event := [.addClient 1, .slots ⟨0, [⟨1, 2⟩, ⟨2, 1⟩]⟩, .insert ⟨1, 2, [9]⟩ [7], .addClient 2,
      .slots ⟨3, [⟨2, 1⟩]⟩, .insert ⟨2, 1, [8]⟩ []]
    let others : List Event := [.addClient 2, .addClient 1, .slots ⟨0, [⟨1, 2⟩, ⟨2, 1⟩]⟩, .insert ⟨2, 1, [8]⟩ [3],
      .slots ⟨3, [⟨2, 1⟩]⟩, .insert ⟨1, 2, [9]⟩ []]
    ∃ replica other, Machine.run Replica.step (Replica.init 0 0) events = some replica ∧
      Machine.run Replica.step (Replica.init 0 4) others = some other ∧ Received slots (insertsOf events) others ∧
      ∀ index, replica.server.log.observe index = other.server.log.observe index := by
  intro slots events others
  have enabled : (Machine.run Replica.step (Replica.init 0 0) events).isSome = true := by decide +kernel
  have enabledOther : (Machine.run Replica.step (Replica.init 0 4) others).isSome = true := by decide +kernel
  obtain ⟨replica, ran⟩ := Option.isSome_iff_exists.mp enabled
  obtain ⟨other, ranOther⟩ := Option.isSome_iff_exists.mp enabledOther
  have sameInserts : ∀ client, insertsOf events client = insertsOf others client := by
    intro client
    by_cases one : 1 = client
    · subst one
      decide
    · simp [insertsOf, events, others, Event.insert?, List.filterMap_cons, one]
  have positive : ∀ client, ∀ req ∈ insertsOf events client, 1 ≤ req.numSlots := by
    intro client req member
    obtain ⟨event, present, kept⟩ := List.mem_filterMap.mp member
    simp only [events, List.mem_cons, List.not_mem_nil, or_false] at present
    rcases present with rfl | rfl | rfl | rfl | rfl | rfl <;> simp only [Event.insert?] at kept <;>
      first | cases kept | (split at kept <;> cases kept; decide)
  have received : Received slots (insertsOf events) events := ⟨by decide, fun _ => List.prefix_rfl⟩
  have receivedOther : Received slots (insertsOf events) others :=
    ⟨by decide, fun client => sameInserts client ▸ List.prefix_rfl⟩
  exact ⟨replica, other, ran, ranOther, receivedOther, (replicas_agree slots (insertsOf events) positive 0 0 4 events others replica
    other ran ranOther received receivedOther).2.2 (by decide) sameInserts⟩

end ZipLog.Storage
