import ZipLog.Client.Loop
import ZipLog.Lib.Word
import ZipLog.Network.Fanout
import ZipLog.Network.Lengths

set_option autoImplicit false

namespace ZipLog.Client

open Network

-- The message as it lies in its buffer.
def insertBytes (message : StorageInsert) : Bytes :=
  Word.encode 8 storageInsert.tag ++ Word.encode 8 message.clientId ++ Word.encode 8 message.numSlots ++
    Word.encode 8 message.data.length ++ message.data

-- A request that generate_and_send has written and client::insert has not enqueued:
-- the place of its buffer, its data and the index of its response.
structure Prepared where
  place : Nat
  data : Bytes
  response : Nat
deriving DecidableEq, Repr

-- run_test with the loop thread of its client. queued lists the buffers of the
-- requests in requests_, and generated counts the calls of generate_and_send.
structure Append where
  client : Loop
  fanout : Fanout
  queued : List Nat
  iterator : Wraparound
  generated : Nat
  writing : Option Prepared
  responses : Nat → Nat

-- The client after client_storage_info, with one queue for each replica.
def Append.init (replicas : List Nat) (failures clientId shardId : Nat) (senders : Nat → Sender) : Append where
  client := (Loop.init clientId shardId failures).clientStorageInfo replicas
  fanout := ⟨0, replicas, fun queue => Pipeline.init { senders queue with maxOutstanding := maxOutstandingRequests }, []⟩
  queued := []
  iterator := Wraparound.init (maxOutstandingRequests + 1)
  generated := 0
  writing := none
  responses := fun _ => 0

inductive AppendEvent where
  | rewrite (data : Bytes)
  | insert
  | turn (now : Nat) (targets : List (Nat × Nat))
  | ack (ack : ClientInsertAck)
  | newEpoch (beginning numSlots : Nat)
  | send
  | poll (queue : Nat)
  | complete (queue : Nat)
deriving DecidableEq, Repr

-- run_test calls generate_and_send for the first burst, and then whenever the
-- response is there whose turn it is.
def Append.ready (burst : Nat) (s : Append) : Prop :=
  s.writing = none ∧ (s.generated < burst ∨ s.responses (s.generated % burst) ≠ uint64Max)

instance (burst : Nat) (s : Append) : Decidable (s.ready burst) := inferInstanceAs (Decidable (_ ∧ _))

def Append.rewrite (burst : Nat) (s : Append) (data : Bytes) : Append :=
  { s with
    iterator := s.iterator.getAndIncrement.2
    generated := s.generated + 1
    writing := some ⟨s.iterator.getAndIncrement.1, data, s.generated % burst⟩ }

-- client::insert.
def Append.insert (s : Append) (prepared : Prepared) : Append :=
  { s with
    client := s.client.insert prepared.data prepared.response
    queued := s.queued ++ [prepared.place]
    writing := none
    responses := Function.update s.responses prepared.response uint64Max }

-- The send branch of client::loop, up to the first send. The targets are the queues
-- in the order of the container, each with the destination.
def Append.turn (s : Append) (now : Nat) (targets : List (Nat × Nat)) : Option Append :=
  let result := (s.client.switchEpoch now).send now
  match result.2 with
  | none => some { s with client := result.1 }
  | some message =>
      if (targets.map Prod.fst).Perm s.fanout.members then
        match s.queued with
        | place :: queued => some { s with
            client := result.1
            queued := queued
            fanout := s.fanout.publish place (targets.map (fun target => (target.1, ⟨true, insertBytes message, target.2, false⟩))) }
        | [] => some { s with
            client := result.1
            fanout := s.fanout.notify (targets.map (fun target => (target.1, ⟨false, insertBytes message, target.2, false⟩))) }
      else none

def Append.ack (s : Append) (ack : ClientInsertAck) : Append :=
  let client := s.client.clientInsertAck ack
  { s with
    client := client
    responses := (client.stored.drop s.client.stored.length).foldl (fun responses pair => Function.update responses pair.1 pair.2)
      s.responses }

def Append.step (burst size : Nat) (s : Append) : AppendEvent → Option Append
  | .rewrite data => if s.ready burst ∧ data.length = min size maxPayload then some (s.rewrite burst data) else none
  | .insert => s.writing.map s.insert
  | .turn now targets => if s.fanout.Free then s.turn now targets else none
  | .ack ack => if s.fanout.Free then some (s.ack ack) else none
  | .newEpoch beginning numSlots =>
      if s.fanout.Free then some { s with client := s.client.clientNewEpoch beginning numSlots } else none
  | .send => s.fanout.send.map (fun fanout => { s with fanout := fanout })
  | .poll queue => (s.fanout.poll queue).map (fun fanout => { s with fanout := fanout })
  | .complete queue => (s.fanout.complete queue).map (fun fanout => { s with fanout := fanout })

-- No queue has an incomplete request for the buffer at the place that the device
-- still reads from the buffer.
def Append.Unread (s : Append) (place : Nat) : Prop :=
  ∀ queue ∈ s.fanout.members, ∀ entry ∈ (s.fanout.pipelines queue).incomplete, entry.1 = some place → entry.2.inlined = true

-- In every run the buffer that generate_and_send takes is not being sent.
def RewritesUnread (replicas : List Nat) (failures burst size clientId shardId : Nat) (senders : Nat → Sender) : Prop :=
  ∀ events s, Machine.run (Append.step burst size) (Append.init replicas failures clientId shardId senders) events = some s →
    s.ready burst → s.Unread s.iterator.getAndIncrement.1

-- The requests that wait for acknowledgements.
def answers (outstanding : List Outstanding) : List Nat := outstanding.filterMap Outstanding.response

theorem send_requests (client : Loop) (now : Nat) :
    client.send now = (client, none) ∨
    (∃ data response requests other message, client.requests = (data, response) :: requests ∧ client.send now = (other, some message) ∧
      other.requests = requests ∧ other.stored = client.stored ∧ message.data = data ∧
      other.outstanding = client.outstanding ++ [⟨some response, uint64Max, 0⟩]) ∨
    (∃ other message, client.requests = [] ∧ client.send now = (other, some message) ∧ other.requests = [] ∧
      other.stored = client.stored ∧ answers other.outstanding = answers client.outstanding) := by
  unfold Loop.send
  split
  · dsimp only
    split
    · rename_i data response requests here
      exact Or.inr (Or.inl ⟨data, response, requests, _, _, here, rfl, rfl, rfl, rfl, rfl⟩)
    · rename_i here
      split
      · rename_i idle
        refine Or.inr (Or.inr ⟨_, _, here, rfl, here, rfl, ?_⟩)
        rw [idle]
        rfl
      · exact Or.inl rfl
  · exact Or.inl rfl

theorem switch_requests (client : Loop) (now : Nat) :
    (client.switchEpoch now).requests = client.requests ∧ (client.switchEpoch now).outstanding = client.outstanding ∧
      (client.switchEpoch now).stored = client.stored := by
  unfold Loop.switchEpoch
  split
  · exact ⟨rfl, rfl, rfl⟩
  · split <;> exact ⟨rfl, rfl, rfl⟩

theorem answers_set (outstanding : List Outstanding) (index : Nat) (elem other : Outstanding) (access : outstanding[index]? = some elem)
    (same : other.response = elem.response) : answers (outstanding.set index other) = answers outstanding := by
  induction outstanding generalizing index with
  | nil => rfl
  | cons head rest ih =>
      cases index with
      | zero =>
          obtain rfl := Option.some.inj access
          rw [List.set_cons_zero, answers, answers, List.filterMap_cons, List.filterMap_cons, same]
      | succ index =>
          have tail := ih index access
          unfold answers at *
          rw [List.set_cons_succ, List.filterMap_cons, List.filterMap_cons, tail]

theorem answers_erase (outstanding : List Outstanding) (index : Nat) (elem : Outstanding) (access : outstanding[index]? = some elem) :
    (answers (outstanding.eraseIdx index)).length + elem.response.toList.length = (answers outstanding).length := by
  induction outstanding generalizing index with
  | nil => cases access
  | cons head rest ih =>
      cases index with
      | zero =>
          obtain rfl := Option.some.inj access
          rw [List.eraseIdx_cons_zero, answers, answers, List.filterMap_cons]
          cases head.response <;> rfl
      | succ index =>
          have tail := ih index access
          unfold answers at *
          rw [List.eraseIdx_cons_succ, List.filterMap_cons, List.filterMap_cons]
          cases head.response with
          | none => exact tail
          | some response =>
              rw [List.length_cons, List.length_cons]
              omega

-- An acknowledgement stores the response of a request that it takes from the list.
theorem ack_answers (client : Loop) (ack : ClientInsertAck) :
    (client.clientInsertAck ack).requests = client.requests ∧
    ∃ response : Option Nat, (∃ gsn, (client.clientInsertAck ack).stored = client.stored ++ response.toList.map (fun slot => (slot, gsn))) ∧
      (answers (client.clientInsertAck ack).outstanding).length + response.toList.length = (answers client.outstanding).length := by
  have same : ∃ response : Option Nat, (∃ gsn, client.stored = client.stored ++ response.toList.map (fun slot => (slot, gsn))) ∧
      (answers client.outstanding).length + response.toList.length = (answers client.outstanding).length :=
    ⟨none, ⟨0, (List.append_nil _).symm⟩, rfl⟩
  unfold Loop.clientInsertAck
  split
  · exact ⟨rfl, same⟩
  · split
    · exact ⟨rfl, same⟩
    · rename_i index _
      split
      · exact ⟨rfl, same⟩
      · rename_i elem access
        dsimp only
        split
        · exact ⟨rfl, elem.response, ⟨_, rfl⟩, answers_erase client.outstanding index elem access⟩
        · have kept := answers_set client.outstanding index elem (elem.counted ack.gsn) access rfl
          exact ⟨rfl, none, ⟨0, (List.append_nil _).symm⟩, congrArg List.length kept⟩

-- A turn sends nothing, a no-op, or the oldest request.
theorem turn_cases (s next : Append) (now : Nat) (targets : List (Nat × Nat)) (matching : s.queued.length = s.client.requests.length)
    (turned : s.turn now targets = some next) :
    ∃ client fanout queued, next = { s with client := client, fanout := fanout, queued := queued } ∧
      queued.length = client.requests.length ∧ (∀ request ∈ client.requests, request ∈ s.client.requests) ∧
      ((queued = s.queued ∧ answers client.outstanding = answers s.client.outstanding ∧
          (fanout = s.fanout ∨ ∃ calls, fanout = s.fanout.notify calls)) ∨
        ∃ place message response, s.queued = place :: queued ∧ (message.data, response) ∈ s.client.requests ∧
          (targets.map Prod.fst).Perm s.fanout.members ∧ answers client.outstanding = answers s.client.outstanding ++ [response] ∧
          fanout = s.fanout.publish place (targets.map (fun target => (target.1, ⟨true, insertBytes message, target.2, false⟩)))) := by
  obtain ⟨requests, outstanding, -⟩ := switch_requests s.client now
  unfold Append.turn at turned
  obtain none_ | ⟨data, response, rest, other, message, here, sent, left, -, same, answered⟩ | ⟨other, message, here, sent, left, -, answered⟩ :=
    send_requests (s.client.switchEpoch now) now
  · rw [none_] at turned
    obtain rfl := Option.some.inj turned
    refine ⟨s.client.switchEpoch now, s.fanout, s.queued, rfl, ?_, ?_, Or.inl ⟨rfl, ?_, Or.inl rfl⟩⟩
    · rw [requests, matching]
    · rw [requests]
      exact fun request member => member
    · rw [outstanding]
  · rw [sent] at turned
    obtain ⟨every, taken⟩ := Option.ite_none_right_eq_some.mp turned
    rw [requests] at here
    cases queue : s.queued with
    | nil =>
        rw [queue, here] at matching
        cases matching
    | cons place queued =>
        rw [queue] at taken
        obtain rfl := Option.some.inj taken
        rw [queue, here] at matching
        refine ⟨other, _, queued, rfl, ?_, ?_, Or.inr ⟨place, message, response, rfl, ?_, every, ?_, rfl⟩⟩
        · rw [left]
          exact Nat.succ.inj matching
        · rw [left, here]
          exact fun request member => List.mem_cons_of_mem _ member
        · rw [here, same]
          exact List.mem_cons_self
        · rw [answered, outstanding, answers, List.filterMap_append]
          rfl
  · rw [sent] at turned
    obtain ⟨every, taken⟩ := Option.ite_none_right_eq_some.mp turned
    rw [requests] at here
    cases queue : s.queued with
    | cons place queued =>
        rw [queue, here] at matching
        cases matching
    | nil =>
        rw [queue] at taken
        obtain rfl := Option.some.inj taken
        refine ⟨other, _, [], rfl, ?_, ?_, Or.inl ⟨rfl, ?_, Or.inr ⟨_, rfl⟩⟩⟩
        · rw [left]
          rfl
        · rw [left]
          exact fun request member => absurd member List.not_mem_nil
        · rw [answered, outstanding]

-- The buffers in requests_ and the one being written follow those that were sent.
structure Append.Inv (rounds : Nat) (s : Append) : Prop where
  fanout : s.fanout.Inv maxOutstandingRequests rounds
  size : s.iterator.size = maxOutstandingRequests + 1
  taken : s.iterator.Taken s.generated
  matching : s.queued.length = s.client.requests.length
  order : s.queued ++ s.writing.toList.map Prepared.place =
    Ring.places (maxOutstandingRequests + 1) rounds (s.queued.length + s.writing.toList.length)
  counted : rounds + (s.queued.length + s.writing.toList.length) = s.generated

theorem append_init (replicas : List Nat) (unique : replicas.Nodup) (failures clientId shardId : Nat) (senders : Nat → Sender) :
    (Append.init replicas failures clientId shardId senders).Inv 0 := by
  refine ⟨⟨unique, ?_, List.nodup_nil, fun some_ => absurd rfl some_, ?_⟩, rfl, init_taken _ (Nat.succ_pos _), rfl, rfl, rfl⟩
  · exact fun queue _ => ⟨maxOutstandingRequests, Nat.le_refl _,
      init_signaling { senders queue with maxOutstanding := maxOutstandingRequests } outstanding_pos⟩
  · exact fun queue _ => ⟨0, rfl, 0, 0, rfl, rfl⟩

theorem rewrite_inv (burst rounds : Nat) (s : Append) (data : Bytes) (inv : s.Inv rounds) (idle : s.writing = none) :
    (s.rewrite burst data).Inv rounds := by
  have order := inv.order
  have counted := inv.counted
  rw [idle] at order counted
  refine ⟨inv.fanout, inv.size, get_taken s.iterator s.generated inv.taken, inv.matching, ?_, ?_⟩
  · change s.queued ++ [s.iterator.getAndIncrement.1] = Ring.places _ rounds (s.queued.length + 0 + 1)
    rw [Ring.places_snoc, inv.taken.next, inv.size, ← counted]
    congr 1
    exact (List.append_nil _).symm.trans order
  · change rounds + (s.queued.length + 0 + 1) = s.generated + 1
    rw [← counted]
    rfl

theorem insert_inv (rounds : Nat) (s : Append) (prepared : Prepared) (inv : s.Inv rounds) (writing : s.writing = some prepared) :
    (s.insert prepared).Inv rounds := by
  have order := inv.order
  have counted := inv.counted
  rw [writing] at order counted
  have length : (s.queued ++ [prepared.place]).length = s.queued.length + 1 := List.length_append
  refine ⟨inv.fanout, inv.size, inv.taken, ?_, ?_, ?_⟩
  · change (s.queued ++ [prepared.place]).length = (s.client.requests ++ [(prepared.data, prepared.response)]).length
    rw [List.length_append, List.length_append, inv.matching]
    rfl
  · change (s.queued ++ [prepared.place]) ++ [] = Ring.places _ rounds ((s.queued ++ [prepared.place]).length + 0)
    rw [List.append_nil, length]
    exact order
  · change rounds + ((s.queued ++ [prepared.place]).length + 0) = s.generated
    rw [length]
    exact counted

theorem turn_inv (rounds : Nat) (s next : Append) (now : Nat) (targets : List (Nat × Nat)) (inv : s.Inv rounds) (free : s.fanout.Free)
    (turned : s.turn now targets = some next) : ∃ later, next.Inv later := by
  obtain ⟨client, fanout, queued, rfl, matching, -, ⟨rfl, -, same | ⟨calls, same⟩⟩ | ⟨place, message, response, here, -, every, -, same⟩⟩ :=
    turn_cases s next now targets inv.matching turned
  · exact ⟨rounds, same ▸ inv.fanout, inv.size, inv.taken, matching, inv.order, inv.counted⟩
  · exact ⟨rounds, same ▸ notify_inv _ rounds s.fanout inv.fanout free.1 calls, inv.size, inv.taken, matching, inv.order, inv.counted⟩
  · have order := inv.order
    have counted := inv.counted
    rw [here, List.length_cons, Nat.add_right_comm, Ring.places_cons] at order
    rw [here, List.length_cons] at counted
    obtain ⟨first, rest⟩ := List.cons.inj order
    have published := publish_inv maxOutstandingRequests rounds s.fanout inv.fanout free.1
      (targets.map (fun target => (target.1, ⟨true, insertBytes message, target.2, false⟩))) (by rw [List.map_map]; exact every)
    refine ⟨rounds + 1, ?_, inv.size, inv.taken, matching, rest, ?_⟩
    · dsimp only
      rw [same, first]
      exact published
    · dsimp only
      omega

theorem append_step (burst size rounds : Nat) (s next : Append) (event : AppendEvent) (inv : s.Inv rounds)
    (stepped : s.step burst size event = some next) : ∃ later, next.Inv later := by
  cases event with
  | rewrite data =>
      obtain ⟨allowed, same⟩ := Option.ite_none_right_eq_some.mp stepped
      obtain rfl := Option.some.inj same
      exact ⟨rounds, rewrite_inv burst rounds s data inv allowed.1.1⟩
  | insert =>
      obtain ⟨prepared, writing, rfl⟩ := Option.map_eq_some_iff.mp stepped
      exact ⟨rounds, insert_inv rounds s prepared inv writing⟩
  | turn now targets =>
      obtain ⟨free, turned⟩ := Option.ite_none_right_eq_some.mp stepped
      exact turn_inv rounds s next now targets inv free turned
  | ack ack =>
      obtain ⟨-, same⟩ := Option.ite_none_right_eq_some.mp stepped
      obtain rfl := Option.some.inj same
      exact ⟨rounds, inv.fanout, inv.size, inv.taken, inv.matching.trans (congrArg List.length (ack_answers s.client ack).1.symm),
        inv.order, inv.counted⟩
  | newEpoch beginning numSlots =>
      obtain ⟨-, same⟩ := Option.ite_none_right_eq_some.mp stepped
      obtain rfl := Option.some.inj same
      exact ⟨rounds, inv.fanout, inv.size, inv.taken, inv.matching, inv.order, inv.counted⟩
  | send =>
      obtain ⟨fanout, sent, rfl⟩ := Option.map_eq_some_iff.mp stepped
      exact ⟨rounds, fanout_send _ rounds s.fanout fanout inv.fanout sent, inv.size, inv.taken, inv.matching, inv.order, inv.counted⟩
  | poll queue =>
      obtain ⟨fanout, polled, rfl⟩ := Option.map_eq_some_iff.mp stepped
      exact ⟨rounds, fanout_poll _ rounds s.fanout fanout inv.fanout queue polled, inv.size, inv.taken, inv.matching, inv.order, inv.counted⟩
  | complete queue =>
      obtain ⟨fanout, completed, rfl⟩ := Option.map_eq_some_iff.mp stepped
      exact ⟨rounds, fanout_complete _ rounds s.fanout fanout inv.fanout queue completed, inv.size, inv.taken, inv.matching, inv.order,
        inv.counted⟩

-- The requests that are neither answered nor given up.
def Append.pending (s : Append) : Nat := (answers s.client.outstanding).length + s.queued.length + s.writing.toList.length

-- With a burst of one there is one request at a time. Its response comes after the
-- sends to all queues.
structure Append.Single (s : Append) : Prop where
  single : s.pending ≤ 1
  answered : s.ready 1 → s.pending = 0
  delivering : s.fanout.Delivering → 0 < (answers s.client.outstanding).length
  first : ∀ prepared, s.writing = some prepared → prepared.response = 0

theorem single_init (replicas : List Nat) (failures clientId shardId : Nat) (senders : Nat → Sender) :
    (Append.init replicas failures clientId shardId senders).Single := by
  refine ⟨Nat.zero_le _, fun _ => rfl, ?_, fun prepared writing => absurd writing (Option.some_ne_none prepared).symm⟩
  rintro (behind | ⟨queue, -, busy⟩)
  · exact absurd rfl behind
  · exact absurd rfl busy

theorem single_fanout (s : Append) (fanout : Fanout) (single : s.Single) (kept : fanout.Delivering → s.fanout.Delivering) :
    Append.Single { s with fanout := fanout } :=
  ⟨single.single, single.answered, fun delivering => single.delivering (kept delivering), single.first⟩

theorem single_ack (s : Append) (ack : ClientInsertAck) (single : s.Single) (free : s.fanout.Free) : (s.ack ack).Single := by
  obtain ⟨-, response, ⟨gsn, stored⟩, taken⟩ := ack_answers s.client ack
  have before := single.single
  have pending : (s.ack ack).pending + response.toList.length = s.pending := by
    unfold Append.pending Append.ack
    dsimp only
    omega
  have responses : response = none → (s.ack ack).responses = s.responses := by
    rintro rfl
    unfold Append.ack
    dsimp only
    rw [stored, List.drop_left]
    rfl
  refine ⟨by omega, ?_, fun delivering => absurd delivering (free_delivering s.fanout free), single.first⟩
  intro ready
  cases response with
  | none =>
      have same := responses rfl
      unfold Append.ready at ready
      rw [same] at ready
      have none_ := single.answered ready
      omega
  | some slot =>
      have one : (some slot).toList.length = 1 := rfl
      omega

theorem single_turn (s next : Append) (now : Nat) (targets : List (Nat × Nat)) (single : s.Single) (free : s.fanout.Free)
    (matching : s.queued.length = s.client.requests.length) (turned : s.turn now targets = some next) : next.Single := by
  have quiet := free_delivering s.fanout free
  obtain ⟨client, fanout, queued, rfl, -, -, ⟨rfl, answered, kept⟩ | ⟨place, message, response, here, -, -, answered, -⟩⟩ :=
    turn_cases s next now targets matching turned
  · have pending : Append.pending { s with client := client, fanout := fanout, queued := s.queued } = s.pending := by
      unfold Append.pending
      dsimp only
      rw [answered]
    refine ⟨pending ▸ single.single, fun ready => pending.trans (single.answered ready), ?_, single.first⟩
    intro delivering
    obtain rfl | ⟨calls, rfl⟩ := kept
    · exact absurd delivering quiet
    · obtain behind | busy := delivering
      · have plain : (s.fanout.notify calls).behind = [] := notify_behind s.fanout calls
        exact absurd plain behind
      · exact absurd (Or.inr busy) quiet
  · have length : (answers client.outstanding).length = (answers s.client.outstanding).length + 1 := by
      rw [answered, List.length_append]
      rfl
    have before : s.queued.length = queued.length + 1 := congrArg List.length here
    have pending : Append.pending { s with client := client, fanout := fanout, queued := queued } = s.pending := by
      unfold Append.pending
      dsimp only
      omega
    exact ⟨pending ▸ single.single, fun ready => pending.trans (single.answered ready), fun _ => by dsimp only; omega, single.first⟩

theorem single_step (size rounds : Nat) (s next : Append) (event : AppendEvent) (inv : s.Inv rounds) (single : s.Single)
    (stepped : s.step 1 size event = some next) : next.Single := by
  cases event with
  | rewrite data =>
      obtain ⟨allowed, same⟩ := Option.ite_none_right_eq_some.mp stepped
      obtain rfl := Option.some.inj same
      have none_ := single.answered allowed.1
      have idle := allowed.1.1
      refine ⟨?_, fun ready => absurd ready.1 (Option.some_ne_none _), single.delivering, ?_⟩
      · unfold Append.pending at *
        rw [idle] at none_
        exact Nat.le_of_eq (congrArg Nat.succ none_)
      · intro prepared writing
        rw [← Option.some.inj writing]
        exact Nat.mod_one s.generated
  | insert =>
      obtain ⟨prepared, writing, rfl⟩ := Option.map_eq_some_iff.mp stepped
      have before := single.single
      have pending : (s.insert prepared).pending = s.pending := by
        unfold Append.pending Append.insert
        rw [writing]
        dsimp only
        rw [List.length_append]
        rfl
      refine ⟨pending ▸ before, ?_, single.delivering, fun prepared writing => absurd writing (Option.some_ne_none prepared).symm⟩
      rintro ⟨-, early | there⟩
      · have counted := inv.counted
        rw [writing] at counted
        have length : (some prepared).toList.length = 1 := rfl
        change s.generated < 1 at early
        omega
      · change Function.update s.responses prepared.response uint64Max (s.generated % 1) ≠ uint64Max at there
        rw [Nat.mod_one, single.first prepared writing, Function.update_self] at there
        exact absurd rfl there
  | turn now targets =>
      obtain ⟨free, turned⟩ := Option.ite_none_right_eq_some.mp stepped
      exact single_turn s next now targets single free inv.matching turned
  | ack ack =>
      obtain ⟨free, same⟩ := Option.ite_none_right_eq_some.mp stepped
      obtain rfl := Option.some.inj same
      exact single_ack s ack single free
  | newEpoch beginning numSlots =>
      obtain ⟨-, same⟩ := Option.ite_none_right_eq_some.mp stepped
      obtain rfl := Option.some.inj same
      exact ⟨single.single, single.answered, single.delivering, single.first⟩
  | send =>
      obtain ⟨fanout, sent, rfl⟩ := Option.map_eq_some_iff.mp stepped
      exact single_fanout s fanout single (send_delivering s.fanout fanout sent)
  | poll queue =>
      obtain ⟨fanout, polled, rfl⟩ := Option.map_eq_some_iff.mp stepped
      exact single_fanout s fanout single (poll_delivering s.fanout fanout queue polled)
  | complete queue =>
      obtain ⟨fanout, completed, rfl⟩ := Option.map_eq_some_iff.mp stepped
      exact single_fanout s fanout single (complete_delivering s.fanout fanout queue completed)

theorem single_run (size : Nat) (replicas : List Nat) (unique : replicas.Nodup) (failures clientId shardId : Nat) (senders : Nat → Sender)
    (events : List AppendEvent) (s : Append)
    (ran : Machine.run (Append.step 1 size) (Append.init replicas failures clientId shardId senders) events = some s) :
    (∃ rounds, s.Inv rounds) ∧ s.Single := by
  apply Machine.run_preserves (Append.step 1 size) (fun s => (∃ rounds, s.Inv rounds) ∧ s.Single) _ _ s _ events ran
  · rintro s event next ⟨⟨rounds, inv⟩, single⟩ stepped
    exact ⟨append_step 1 size rounds s next event inv stepped, single_step size rounds s next event inv single stepped⟩
  · exact ⟨⟨0, append_init replicas unique failures clientId shardId senders⟩, single_init replicas failures clientId shardId senders⟩

-- The device copies every request when it is posted.
structure Append.Copied (length : Nat) (s : Append) : Prop where
  fanout : s.fanout.Copies
  requests : ∀ request ∈ s.client.requests, request.1.length = length
  writing : ∀ prepared, s.writing = some prepared → prepared.data.length = length

theorem insert_bytes_length (message : StorageInsert) : (insertBytes message).length = 32 + message.data.length := by
  unfold insertBytes
  rw [List.length_append, List.length_append, List.length_append, List.length_append, Word.encode_length, Word.encode_length,
    Word.encode_length, Word.encode_length]

theorem insert_inlined (message : StorageInsert) (length destination : Nat) (data : message.data.length = length)
    (fits : 32 + length ≤ maxInlineData) : (SendCall.mk true (insertBytes message) destination false).sending.inlined = true := by
  apply decide_eq_true
  change (insertBytes message).length ≤ maxInlineData
  rw [insert_bytes_length, data]
  exact fits

theorem copied_step (burst size : Nat) (fits : 32 + min size maxPayload ≤ maxInlineData) (s next : Append) (event : AppendEvent)
    (matching : s.queued.length = s.client.requests.length) (copied : s.Copied (min size maxPayload))
    (stepped : s.step burst size event = some next) : next.Copied (min size maxPayload) := by
  cases event with
  | rewrite data =>
      obtain ⟨allowed, same⟩ := Option.ite_none_right_eq_some.mp stepped
      obtain rfl := Option.some.inj same
      refine ⟨copied.fanout, copied.requests, ?_⟩
      intro prepared writing
      rw [← Option.some.inj writing]
      exact allowed.2
  | insert =>
      obtain ⟨prepared, writing, rfl⟩ := Option.map_eq_some_iff.mp stepped
      refine ⟨copied.fanout, ?_, fun other here => absurd here (Option.some_ne_none other).symm⟩
      intro request member
      obtain old | new := List.mem_append.mp member
      · exact copied.requests request old
      · rw [List.mem_singleton.mp new]
        exact copied.writing prepared writing
  | turn now targets =>
      obtain ⟨-, turned⟩ := Option.ite_none_right_eq_some.mp stepped
      obtain ⟨client, fanout, queued, rfl, -, fewer, ⟨-, -, kept⟩ | ⟨place, message, response, -, member, -, -, rfl⟩⟩ :=
        turn_cases s next now targets matching turned
      · refine ⟨?_, fun request member => copied.requests request (fewer request member), copied.writing⟩
        obtain rfl | ⟨calls, rfl⟩ := kept
        · exact copied.fanout
        · refine ⟨?_, copied.fanout.queues⟩
          intro outgoing sent rotating
          obtain ⟨call, -, rfl⟩ := List.mem_map.mp sent
          exact absurd rotating Bool.false_ne_true
      · refine ⟨⟨?_, copied.fanout.queues⟩, fun request later => copied.requests request (fewer request later), copied.writing⟩
        intro outgoing sent _
        obtain ⟨call, there, rfl⟩ := List.mem_map.mp sent
        obtain ⟨target, -, rfl⟩ := List.mem_map.mp there
        exact insert_inlined message _ target.2 (copied.requests _ member) fits
  | ack ack =>
      obtain ⟨-, same⟩ := Option.ite_none_right_eq_some.mp stepped
      obtain rfl := Option.some.inj same
      refine ⟨copied.fanout, ?_, copied.writing⟩
      change ∀ request ∈ (s.client.clientInsertAck ack).requests, _
      rw [(ack_answers s.client ack).1]
      exact copied.requests
  | newEpoch beginning numSlots =>
      obtain ⟨-, same⟩ := Option.ite_none_right_eq_some.mp stepped
      obtain rfl := Option.some.inj same
      exact ⟨copied.fanout, copied.requests, copied.writing⟩
  | send =>
      obtain ⟨fanout, sent, rfl⟩ := Option.map_eq_some_iff.mp stepped
      exact ⟨send_copies s.fanout fanout copied.fanout sent, copied.requests, copied.writing⟩
  | poll queue =>
      obtain ⟨fanout, polled, rfl⟩ := Option.map_eq_some_iff.mp stepped
      exact ⟨fanout_poll_copies s.fanout fanout queue copied.fanout polled, copied.requests, copied.writing⟩
  | complete queue =>
      obtain ⟨fanout, completed, rfl⟩ := Option.map_eq_some_iff.mp stepped
      exact ⟨fanout_complete_copies s.fanout fanout queue copied.fanout completed, copied.requests, copied.writing⟩

theorem copied_run (burst size : Nat) (fits : 32 + min size maxPayload ≤ maxInlineData) (replicas : List Nat) (unique : replicas.Nodup)
    (failures clientId shardId : Nat) (senders : Nat → Sender) (events : List AppendEvent) (s : Append)
    (ran : Machine.run (Append.step burst size) (Append.init replicas failures clientId shardId senders) events = some s) :
    s.Copied (min size maxPayload) := by
  have both : (∃ rounds, s.Inv rounds) ∧ s.Copied (min size maxPayload) := by
    apply Machine.run_preserves (Append.step burst size) (fun s => (∃ rounds, s.Inv rounds) ∧ s.Copied (min size maxPayload)) _ _ s _
      events ran
    · rintro s event next ⟨⟨rounds, inv⟩, copied⟩ stepped
      exact ⟨append_step burst size rounds s next event inv stepped, copied_step burst size fits s next event inv.matching copied stepped⟩
    · refine ⟨⟨0, append_init replicas unique failures clientId shardId senders⟩, ⟨?_, ?_⟩, ?_, ?_⟩
      · exact fun outgoing member => absurd member List.not_mem_nil
      · exact fun queue _ => ⟨fun entry member => absurd member List.not_mem_nil, fun tag call waits => by cases waits⟩
      · exact fun request member => absurd member List.not_mem_nil
      · exact fun prepared writing => absurd writing (Option.some_ne_none prepared).symm
  exact both.2

-- The main result. With one request at a time, or with requests that are sent
-- inline, the next buffer is not being sent.
theorem rewrites_unread (replicas : List Nat) (unique : replicas.Nodup) (failures burst size clientId shardId : Nat)
    (senders : Nat → Sender) (allowed : burst = 1 ∨ 32 + min size maxPayload ≤ maxInlineData) :
    RewritesUnread replicas failures burst size clientId shardId senders := by
  intro events s ran ready queue member entry held reads
  cases allowed with
  | inl one =>
      subst one
      obtain ⟨⟨rounds, inv⟩, single⟩ := single_run size replicas unique failures clientId shardId senders events s ran
      have none_ := single.answered ready
      have pending := inv.counted
      unfold Append.pending at none_
      have place : s.iterator.getAndIncrement.1 = rounds % (maxOutstandingRequests + 1) := by
        rw [inv.taken.next, inv.size, ← pending]
        congr 1
        omega
      have quiet : ¬ s.fanout.Delivering := by
        intro delivering
        have some_ := single.delivering delivering
        omega
      exact absurd (reads.trans (congrArg some place)) (fanout_unread _ rounds s.fanout inv.fanout quiet queue member entry held)
  | inr fits =>
      have copied := copied_run burst size fits replicas unique failures clientId shardId senders events s ran
      exact (copied.fanout.queues queue member).held entry held (by rw [reads]; exact Option.some_ne_none _)

theorem rewrites_unread_inline : [0, 1].Nodup ∧ RewritesUnread [0, 1] 1 128 8 0 0 (fun _ => ⟨0, 0, 0, 0, 1⟩) :=
  ⟨by decide, rewrites_unread [0, 1] (by decide) 1 128 8 0 0 _ (Or.inr (by decide))⟩

-- With a burst of 128 and requests of 193 bytes the first replica answers two
-- requests while the second queue has completed nothing. The next request goes
-- into the buffer of the first one.
def slowReplica : List AppendEvent :=
  let data : Bytes := List.replicate 161 7
  .newEpoch 0 5000 :: (List.replicate 128 [.rewrite data, .insert]).flatten ++
    [.turn 1000 [(0, 0), (1, 0)], .send, .send, .complete 0, .ack ⟨0, 0⟩, .rewrite data, .insert,
      .turn 2000 [(0, 0), (1, 0)], .send, .send, .complete 0, .ack ⟨0, 1⟩]

theorem buffer_rewritten : ¬ RewritesUnread [0, 1] 0 128 161 0 0 (fun _ => ⟨0, 0, 0, 0, 1⟩) := by
  have reached : (Machine.run (Append.step 128 161) (Append.init [0, 1] 0 0 0 (fun _ => ⟨0, 0, 0, 0, 1⟩)) slowReplica).map
      (fun s => (decide (s.ready 128), s.iterator.getAndIncrement.1, decide (1 ∈ s.fanout.members),
        (s.fanout.pipelines 1).incomplete.map (fun entry => (entry.1, entry.2.inlined)))) =
      some (true, 0, true, [(some 0, false), (some 1, false)]) := by decide +kernel
  obtain ⟨s, ran, same⟩ := Option.map_eq_some_iff.mp reached
  obtain ⟨ready, same⟩ := Prod.mk.inj same
  obtain ⟨place, same⟩ := Prod.mk.inj same
  obtain ⟨member, held⟩ := Prod.mk.inj same
  intro unread
  have there : (some 0, false) ∈ (s.fanout.pipelines 1).incomplete.map (fun entry => (entry.1, entry.2.inlined)) := by
    rw [held]
    exact List.mem_cons_self
  obtain ⟨entry, inside, reads⟩ := List.mem_map.mp there
  obtain ⟨buffer, plain⟩ := Prod.mk.inj reads
  have copied := unread slowReplica s ran (of_decide_eq_true ready) 1 (of_decide_eq_true member) entry inside (by rw [buffer, place])
  rw [plain] at copied
  cases copied

end ZipLog.Client
