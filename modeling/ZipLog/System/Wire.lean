import ZipLog.Storage.Wire
import ZipLog.System.Convergence
import ZipLog.System.Durability

set_option autoImplicit false

namespace ZipLog

open ZipLog.Network

def StorageRequest.message : StorageRequest → Message
  | .insert req => .storageInsert req
  | .clientFinished clientId => .clientFinished clientId

end ZipLog

namespace ZipLog.System

open ZipLog.Network
open ZipLog.Order (Sendable AddressFits sendable_single sendable_array one_small two_small bytes_fit)

-- The fields of a packet from outside, and the clock of the ordering service.
def Event.Fits : Event → Prop
  | .addClient _ _ numSlots => numSlots < 2 ^ 64
  | .epoch now => now < 2 ^ 63
  | .insert _ req _ => req.data.length ≤ maxPayload
  | .suspect _ clientId => clientId < 2 ^ 64
  | _ => True

-- What is kept everywhere and what is on the links of the cluster is small.
structure Cluster.Sized (s : Cluster) : Prop where
  order : s.order.Sized
  servers : ∀ place, s.serves place = true → ∃ contents, (s.servers place).Sized contents
  control : ∀ place, ∀ message ∈ s.control place, Order.ControlSized message
  reports : ∀ place, ∀ report ∈ s.reports place, Storage.ReportSized report
  replies : ∀ place clientId, ∀ reply ∈ s.replies place clientId, Storage.AnswerSized reply
  notices : ∀ clientId, ∀ message ∈ s.notices clientId, Order.ClientSized message

theorem init_cluster_sized (numShards : Nat) (replicas : Nat → List Nat) (shards : numShards ≤ 12) (nodup : ∀ shard, (replicas shard).Nodup)
    (places : ∀ shard, ∀ replica ∈ replicas shard, shard < numShards ∧ replica < maxReplicas) : (Cluster.init numShards replicas).Sized := by
  refine ⟨⟨Order.init_valid numShards, shards, Nat.two_pow_pos 64, nodup, fun shard replica member => (places shard replica member).2,
    fun _ _ present => (by cases present)⟩, ?_, fun _ _ member => (by cases member), fun _ _ member => (by cases member),
    fun _ _ _ member => (by cases member), fun _ _ member => (by cases member)⟩
  intro place serves
  obtain ⟨shard, replica⟩ := places place.1 place.2 (of_decide_eq_true serves)
  have small : ∀ value, value < 12 → value < 2 ^ 64 := fun value few => Nat.lt_trans few (by decide)
  exact ⟨_, Storage.init_sized place.1 place.2 (small _ (Nat.lt_of_lt_of_le shard shards)) (small _ (Nat.lt_trans replica (by decide)))⟩

-- A handler of the ordering service.
theorem ordered_sized (s next : Cluster) (sized : s.Sized) (input : Order.Input) (fits : input.Fits)
    (order : next.order = (s.order.handle input).1) (servers : next.servers = s.servers) (reports : next.reports = s.reports)
    (replies : next.replies = s.replies)
    (control : ∀ place, next.control place = s.control place ++ (s.order.handle input).2.filterMap (toStorage place))
    (notices : ∀ clientId, next.notices clientId = s.notices clientId ++ (s.order.handle input).2.filterMap (toClient clientId)) :
    next.Sized := by
  obtain ⟨after, sent⟩ := Order.handle_sized s.order sized.order input fits
  refine ⟨order ▸ after, ?_, ?_, by rw [reports]; exact sized.reports, by rw [replies]; exact sized.replies, ?_⟩
  · intro place serves
    rw [Cluster.serves, order, Order.handle_queues] at serves
    rw [servers]
    exact sized.servers place serves
  · intro place message member
    rw [control] at member
    cases List.mem_append.mp member with
    | inl old => exact sized.control place message old
    | inr new =>
        obtain ⟨item, inside, same⟩ := List.mem_filterMap.mp new
        have small := sent item inside
        cases item with
        | storage shardId replicaId found =>
            obtain ⟨_, value⟩ := Option.ite_none_right_eq_some.mp same
            exact Option.some.inj value ▸ small
        | client other found => cases same
  · intro clientId message member
    rw [notices] at member
    cases List.mem_append.mp member with
    | inl old => exact sized.notices clientId message old
    | inr new =>
        obtain ⟨item, inside, same⟩ := List.mem_filterMap.mp new
        have small := sent item inside
        cases item with
        | storage shardId replicaId found => cases same
        | client other found =>
            obtain ⟨_, value⟩ := Option.ite_none_right_eq_some.mp same
            exact Option.some.inj value ▸ small

-- A job of a storage server with the replies that go to the links.
theorem job_done_sized (s next : Cluster) (sized : s.Sized) (place : Place) (serves : s.serves place = true) (job : Storage.Job)
    (fits : job.Fits) (server : Storage.Server) (sent : List Storage.Reply) (ran : job.run (s.servers place) = .ok (server, sent))
    (order : next.order = s.order) (servers : next.servers = Function.update s.servers place server) (control : next.control = s.control)
    (notices : next.notices = s.notices)
    (reports : ∀ other, ∀ report ∈ next.reports other, report ∈ s.reports other ∨ .order report ∈ sent)
    (replies : ∀ other clientId, ∀ reply ∈ next.replies other clientId, reply ∈ s.replies other clientId ∨ .client clientId reply ∈ sent) :
    next.Sized := by
  obtain ⟨contents, before⟩ := sized.servers place serves
  obtain ⟨after, small⟩ := Storage.job_sized job (s.servers place) contents before fits (server, sent) ran
  refine ⟨by rw [order]; exact sized.order, ?_, by rw [control]; exact sized.control, ?_, ?_, by rw [notices]; exact sized.notices⟩
  · intro other serving
    rw [servers]
    by_cases mine : other = place
    · subst mine
      rw [Function.update_self]
      exact after
    · rw [Function.update_of_ne mine]
      rw [Cluster.serves, order] at serving
      exact sized.servers other serving
  · intro other report member
    cases reports other report member with
    | inl old => exact sized.reports other report old
    | inr new => exact small _ new
  · intro other clientId reply member
    cases replies other clientId reply member with
    | inl old => exact sized.replies other clientId reply old
    | inr new => exact small _ new

theorem answered_sent (s : Cluster) (place : Place) (clientId : Nat) (server : Storage.Server) (inserts : List StorageInsert)
    (sent : List StorageReply) (other : Place) (client : Nat) (reply : StorageReply)
    (member : reply ∈ (s.answered place clientId server inserts sent).replies other client) :
    reply ∈ s.replies other client ∨ .client client reply ∈ sent.map (Storage.Reply.client clientId) := by
  rw [answered_replies] at member
  cases List.mem_append.mp member with
  | inl old => exact Or.inl old
  | inr new =>
      split at new
      · rename_i mine
        rw [mine.2]
        exact Or.inr (List.mem_map_of_mem new)
      · cases new

def orderInput : OrderControl → Order.Input
  | .clientFreeze clientId => .clientFreeze clientId
  | .clientCut cut => .clientCut cut
  | .clientData data => .clientData data

theorem order_report (order : Order.State) (report : OrderControl) : orderReport order report = order.handle (orderInput report) := by
  cases report <;> rfl

theorem report_fits (report : OrderControl) (sized : Storage.ReportSized report) : (orderInput report).Fits := by
  cases report with
  | clientFreeze clientId => exact trivial
  | clientCut cut => exact sized.2.2.2
  | clientData data => exact sized.2.2.2

theorem cluster_step_sized (s next : Cluster) (event : Event) (sized : s.Sized) (fits : event.Fits) (stepped : s.step event = some next) :
    next.Sized := by
  have handled : ∀ input : Order.Input, input.Fits → (s.ordered (s.order.handle input)).Sized := fun input small =>
    ordered_sized s _ sized input small rfl rfl rfl rfl (fun _ => rfl) (fun _ => rfl)
  cases event with
  | addClient clientId shardId numSlots =>
      obtain ⟨_, result⟩ := Option.ite_none_left_eq_some.mp stepped
      cases result
      exact ordered_sized s _ sized (.addClient clientId shardId numSlots) fits rfl rfl rfl rfl (fun _ => rfl) (fun _ => rfl)
  | clientRate clientId numSlots =>
      cases stepped
      exact handled (.clientRate clientId numSlots) trivial
  | epoch now =>
      obtain ⟨_, result⟩ := Option.ite_none_right_eq_some.mp stepped
      cases result
      exact handled (.epoch now) fits
  | detect clientId =>
      cases stepped
      exact handled (.clientFreeze clientId) trivial
  | finish clientId =>
      cases stepped
      exact handled (.clientFinished clientId) trivial
  | report place =>
      obtain ⟨_, taken⟩ := Option.ite_none_right_eq_some.mp stepped
      obtain ⟨report, access, rfl⟩ := Option.map_eq_some_iff.mp taken
      have small := report_fits report (sized.reports place report (List.mem_of_getElem? access))
      have same := order_report s.order report
      exact ordered_sized s _ sized (orderInput report) small (by rw [Cluster.heard, same]; rfl) rfl rfl rfl
        (fun _ => by rw [Cluster.heard, same]; rfl) (fun _ => by rw [Cluster.heard, same]; rfl)
  | connect place clientId =>
      obtain ⟨serves, result⟩ := Option.ite_none_right_eq_some.mp stepped
      cases result
      exact job_done_sized s _ sized place serves (.addClient clientId) trivial _ [] rfl rfl rfl rfl rfl
        (fun _ _ member => Or.inl member) (fun _ _ _ member => Or.inl member)
  | control place beyond =>
      obtain ⟨serves, message, pending, faulted | done⟩ := control_taken s next place beyond stepped
      · obtain ⟨_, _, rfl⟩ := faulted
        exact ⟨sized.order, sized.servers, sized.control, sized.reports, sized.replies, sized.notices⟩
      · obtain ⟨server, reports, ran, rfl⟩ := done
        have small := sized.control place message (List.mem_of_getElem? (Option.filter_eq_some_iff.mp pending).1)
        refine job_done_sized s _ sized place serves (.control message beyond) small server (reports.map .order)
          (by rw [Storage.Job.run, ran]; rfl) rfl rfl rfl rfl ?_ (fun _ _ _ member => Or.inl member)
        intro other report member
        by_cases mine : other = place
        · subst mine
          simp only [Cluster.controlled, Function.update_self] at member
          exact (List.mem_append.mp member).imp_right (List.mem_map_of_mem (f := Storage.Reply.order))
        · simp only [Cluster.controlled, Function.update_of_ne mine] at member
          exact Or.inl member
  | insert place req beyond =>
      obtain ⟨serves, _, unanswered | done⟩ := insert_taken s next place req beyond stepped
      · obtain ⟨_, _, rfl⟩ := unanswered
        exact sized
      · obtain ⟨server, ack, ran, rfl⟩ := done
        refine job_done_sized s _ sized place serves (.insert req beyond) fits server [.client req.clientId (.insertAck ack)]
          (by rw [Storage.Job.run, ran]; rfl) rfl rfl rfl rfl (fun _ _ member => Or.inl member) ?_
        exact answered_sent s place req.clientId server [req] [.insertAck ack]
  | leave place clientId =>
      obtain ⟨enabled, result⟩ := Option.ite_none_right_eq_some.mp stepped
      cases result
      refine job_done_sized s _ sized place enabled.1 (.clientFinished clientId) trivial ((s.servers place).clientFinished clientId).1
        (((s.servers place).clientFinished clientId).2.toList.map (.client clientId)) rfl rfl rfl rfl rfl
        (fun _ _ member => Or.inl member) ?_
      exact answered_sent s place clientId _ [] _
  | suspect place clientId =>
      obtain ⟨enabled, result⟩ := Option.ite_none_right_eq_some.mp stepped
      cases result
      refine job_done_sized s _ sized place enabled.1 (.suspected clientId) fits _ [.order (.clientFreeze clientId)] rfl rfl rfl rfl rfl ?_
        (fun _ _ _ member => Or.inl member)
      intro other report member
      by_cases mine : other = place
      · subst mine
        simp only [Cluster.suspected, Function.update_self] at member
        exact (List.mem_append.mp member).imp_right (List.mem_map_of_mem (f := Storage.Reply.order))
      · simp only [Cluster.suspected, Function.update_of_ne mine] at member
        exact Or.inl member

def RequestSized : StorageRequest → Prop
  | .insert req => req.clientId < 2 ^ 64 ∧ req.numSlots < 2 ^ 64 ∧ req.data.length ≤ maxPayload
  | .clientFinished clientId => clientId < 2 ^ 64

theorem request_sendable (request : StorageRequest) (sized : RequestSized request) : Sendable .storageClient request.message := by
  cases request with
  | insert req =>
      obtain ⟨client, number, length⟩ := sized
      refine sendable_array _ .storageInsert (.storageInsert req) [1] rfl (by decide) rfl (by decide) (two_small _ _ client number)
        (bytes_fit req.data) ?_
      rw [Message.elements, ofBytes, List.length_map]
      change 32 + req.data.length * 1 ≤ 2048
      change req.data.length ≤ 1992 at length
      omega
  | clientFinished clientId =>
      exact sendable_single _ .clientFinished (.clientFinished clientId) rfl (by decide) rfl (by decide) (one_small _ sized)

-- The payloads wait in the queue of client::insert before they are sent.
structure Caller.Sized (caller : Caller) : Prop where
  client : caller.loop.clientId < 2 ^ 64
  requests : ∀ request ∈ caller.loop.requests, request.1.length ≤ maxPayload
  outbox : ∀ replica, ∀ request ∈ caller.outbox replica, RequestSized request

theorem post_outbox (caller : Caller) (message : StorageRequest) (replica : Nat) (request : StorageRequest)
    (member : request ∈ (caller.post message).outbox replica) : request ∈ caller.outbox replica ∨ request = message := by
  simp only [Caller.post] at member
  split at member
  · exact (List.mem_append.mp member).imp_right List.mem_singleton.mp
  · exact Or.inl member

theorem client_send_sized (client : Client.Loop) (now : Nat) (small : client.clientId < 2 ^ 64)
    (queued : ∀ request ∈ client.requests, request.1.length ≤ maxPayload) :
    (client.send now).1.clientId = client.clientId ∧ (client.send now).1.requests ⊆ client.requests ∧
      ∀ message, (client.send now).2 = some message → RequestSized (.insert message) := by
  have ideal : client.ideal now - client.consumed < 2 ^ 64 := Nat.lt_of_le_of_lt (Nat.sub_le _ _) (Nat.mod_lt _ (by decide))
  unfold Client.Loop.send
  split
  · dsimp only
    split
    · rename_i data response requests waiting
      refine ⟨rfl, fun request member => by rw [waiting]; exact List.mem_cons_of_mem _ member, ?_⟩
      intro message same
      cases same
      exact ⟨small, ideal, queued (data, response) (by rw [waiting]; exact List.mem_cons_self ..)⟩
    · split
      · refine ⟨rfl, List.Subset.refl _, ?_⟩
        intro message same
        cases same
        exact ⟨small, ideal, Nat.zero_le _⟩
      · exact ⟨rfl, List.Subset.refl _, fun message same => (by cases same)⟩
  · exact ⟨rfl, List.Subset.refl _, fun message same => (by cases same)⟩

theorem caller_sized (caller next : Caller) (sized : caller.Sized) (client : next.loop.clientId = caller.loop.clientId)
    (requests : next.loop.requests ⊆ caller.loop.requests)
    (outbox : ∀ replica, ∀ request ∈ next.outbox replica, request ∈ caller.outbox replica ∨ RequestSized request) : next.Sized := by
  refine ⟨client ▸ sized.client, fun request member => sized.requests request (requests member), ?_⟩
  intro replica request member
  cases outbox replica request member with
  | inl old => exact sized.outbox replica request old
  | inr new => exact new

theorem caller_send_sized (caller : Caller) (sized : caller.Sized) (now : Nat) : (caller.send now).Sized := by
  obtain ⟨client, requests, message⟩ := client_send_sized caller.loop now sized.client sized.requests
  unfold Caller.send
  split
  · rename_i loop sent
    rw [sent] at client requests
    exact caller_sized caller _ sized client requests (fun _ _ member => Or.inl member)
  · rename_i loop insert sent
    rw [sent] at client requests message
    refine caller_sized caller _ sized client requests ?_
    intro replica request member
    cases post_outbox caller (.insert insert) replica request member with
    | inl old => exact Or.inl old
    | inr new => exact Or.inr (new ▸ message insert rfl)

theorem caller_stop_sized (caller : Caller) (sized : caller.Sized) : caller.stop.Sized := by
  unfold Caller.stop Client.Loop.checkStop
  split
  · rename_i loop sent
    split at sent
    · cases sent
      exact sized
    · cases sent
  · rename_i loop sent
    split at sent
    · cases sent
    · cases sent
      refine caller_sized caller _ sized rfl (List.Subset.refl _) ?_
      intro replica request member
      cases post_outbox caller (.clientFinished caller.loop.clientId) replica request member with
      | inl old => exact Or.inl old
      | inr new => exact Or.inr (new ▸ sized.client)

theorem caller_reply_sized (caller : Caller) (sized : caller.Sized) (replica : Nat) (message : StorageReply) :
    (caller.reply replica message).Sized := by
  cases message with
  | insertAck ack =>
      obtain ⟨client, _, _, _, requests⟩ := insert_ack_same caller.loop ack
      exact caller_sized caller _ sized client (by rw [Caller.reply, requests]; exact List.Subset.refl _) (fun _ _ member => Or.inl member)
  | storageFinished shardId replicaId =>
      simp only [Caller.reply, Client.Loop.storageFinished]
      split
      · exact caller_sized caller _ sized rfl (List.Subset.refl _) (fun _ _ member => Or.inl member)
      · exact caller_sized caller _ sized rfl (List.Subset.refl _) (fun _ _ member => Or.inl member)

theorem caller_notice_sized (caller : Caller) (sized : caller.Sized) (message : Order.ClientControl) : (caller.notice message).Sized := by
  cases message with
  | storageInfo replicas => exact caller_sized caller _ sized rfl (List.Subset.refl _) (fun _ _ member => Or.inl member)
  | newEpoch beginning numSlots => exact caller_sized caller _ sized rfl (List.Subset.refl _) (fun _ _ member => Or.inl member)
  | orderFinished => exact caller_sized caller _ sized rfl (List.Subset.refl _) (fun _ _ member => Or.inl member)

theorem acts_sized (caller next : Caller) (sized : caller.Sized) (acts : caller.Acts next) : next.Sized := by
  cases acts with
  | enqueue data response small =>
      refine ⟨sized.client, ?_, sized.outbox⟩
      intro request member
      cases List.mem_append.mp member with
      | inl old => exact sized.requests request old
      | inr new =>
          rw [List.mem_singleton.mp new]
          exact small
  | notice message => exact caller_notice_sized caller sized message
  | switchEpoch now =>
      refine caller_sized caller _ sized ?_ ?_ (fun _ _ member => Or.inl member)
      · simp only [Client.Loop.switchEpoch]
        split
        · rfl
        · split <;> rfl
      · simp only [Client.Loop.switchEpoch]
        split
        · exact List.Subset.refl _
        · split <;> exact List.Subset.refl _
  | send now => exact caller_send_sized caller sized now
  | stop => exact caller_stop_sized caller sized
  | reply replica message => exact caller_reply_sized caller sized replica message
  | served taken => exact caller_sized caller _ sized rfl (List.Subset.refl _) (fun _ _ member => Or.inl member)
  | farewell departed => exact caller_sized caller _ sized rfl (List.Subset.refl _) (fun _ _ member => Or.inl member)

structure Service.Sized (s : Service) : Prop where
  cluster : s.cluster.Sized
  clients : ∀ clientId caller, s.clients clientId = some caller → caller.Sized

-- client_intro has words for the ID and the number of slots.
def Move.Fits : Move → Prop
  | .join clientId _ numSlots => clientId < 2 ^ 64 ∧ numSlots < 2 ^ 64
  | .epoch now => now < 2 ^ 63
  | _ => True

-- What a move makes of the cluster.
theorem move_cluster_sized (failures : Nat) (s next : Service) (move : Move) (sized : s.Sized) (fits : move.Fits)
    (stepped : s.step failures move = some next) : next.cluster.Sized := by
  have after : ∀ (event : Event) (cluster : Cluster), event.Fits → s.cluster.step event = some cluster → cluster.Sized :=
    fun event cluster small moved => cluster_step_sized s.cluster cluster event sized.cluster small moved
  have turned : ∀ clientId act, s.turn clientId act = some next → next.cluster.Sized := by
    intro clientId act taken
    obtain ⟨p, q, _, _, result⟩ := turn_cases s next clientId act taken
    rw [result]
    exact sized.cluster
  cases move with
  | join clientId shardId numSlots =>
      obtain ⟨_, joined⟩ := Option.ite_none_left_eq_some.mp stepped
      obtain ⟨cluster, moved, rfl⟩ := Option.map_eq_some_iff.mp joined
      exact after (.addClient clientId shardId numSlots) cluster fits.2 moved
  | clientRate clientId numSlots =>
      simp only [Service.step] at stepped
      obtain ⟨cluster, moved, rfl⟩ := Option.map_eq_some_iff.mp stepped
      exact after (.clientRate clientId numSlots) cluster trivial moved
  | epoch now =>
      simp only [Service.step] at stepped
      obtain ⟨cluster, moved, rfl⟩ := Option.map_eq_some_iff.mp stepped
      exact after (.epoch now) cluster fits moved
  | connect place clientId =>
      simp only [Service.step] at stepped
      obtain ⟨cluster, moved, rfl⟩ := Option.map_eq_some_iff.mp stepped
      exact after (.connect place clientId) cluster trivial moved
  | control place =>
      simp only [Service.step] at stepped
      obtain ⟨cluster, moved, rfl⟩ := Option.map_eq_some_iff.mp stepped
      exact after (.control place []) cluster trivial moved
  | enqueue clientId data response =>
      obtain ⟨_, queued⟩ := Option.ite_none_right_eq_some.mp stepped
      obtain ⟨caller, _, rfl⟩ := Option.map_eq_some_iff.mp queued
      exact sized.cluster
  | notice clientId => exact turned clientId _ stepped
  | switchEpoch clientId now => exact turned clientId _ stepped
  | send clientId now => exact turned clientId _ stepped
  | stop clientId => exact turned clientId _ stepped
  | reply clientId replica => exact turned clientId _ stepped
  | serve clientId replica beyond =>
      simp only [Service.step] at stepped
      split at stepped
      · cases stepped
      · rename_i caller present
        split at stepped
        · cases stepped
        · rename_i request access
          obtain ⟨cluster, moved, rfl⟩ := Option.map_eq_some_iff.mp stepped
          have small := (sized.clients clientId caller present).outbox replica request (List.mem_of_getElem? access)
          refine after (served (caller.loop.shardId, replica) beyond request) cluster ?_ moved
          cases request with
          | insert req => exact small.2.2
          | clientFinished other => exact trivial
  | farewell clientId =>
      simp only [Service.step] at stepped
      split at stepped
      · cases stepped
      · obtain ⟨_, left⟩ := Option.ite_none_right_eq_some.mp stepped
        obtain ⟨cluster, moved, rfl⟩ := Option.map_eq_some_iff.mp left
        exact after (.finish clientId) cluster trivial moved

theorem service_step_sized (failures : Nat) (s next : Service) (move : Move) (sized : s.Sized) (fits : move.Fits)
    (stepped : s.step failures move = some next) : next.Sized := by
  refine ⟨move_cluster_sized failures s next move sized fits stepped, ?_⟩
  intro clientId found there
  rcases step_acts failures s next move stepped clientId found there with (same | ⟨before, present, acts⟩) | ⟨_, _, joined, new⟩
  · exact sized.clients clientId found same
  · exact acts_sized before found (sized.clients clientId before present) acts
  · rw [joined] at fits
    rw [new]
    exact ⟨fits.1, fun _ member => (by cases member), fun _ _ member => (by cases member)⟩

-- subscriber_storage_info lists the addresses of all storage servers, and a thread
-- index is a word.
structure Config.Sized (config : Config) : Prop where
  shards : config.numShards ≤ 12
  nodup : ∀ shard, (config.replicas shard).Nodup
  places : ∀ shard, ∀ replica ∈ config.replicas shard, shard < config.numShards ∧ replica < maxReplicas
  threads : ∀ place, config.subscriberThreads place ≤ 2 ^ 64

def Action.Fits (action : Action) : Prop := ∀ move, action = .service move → move.Fits

theorem feed_wires (config : Config) (s next : Deployment) (place : Place) (index : Nat)
    (bounded : ∀ here, (s.feeders place index).log.entry = some here → here.slot < numEntriesPerBlock)
    (ran : s.feed config place index = some next) (wire : Wire) (message : SubscriberLogEntry) (member : message ∈ next.wires wire) :
    message ∈ s.wires wire ∨ ∃ here entry, (s.service.cluster.servers place).log.read here = some entry ∧ here.slot < numEntriesPerBlock ∧
      message = subscriberMessage (s.service.cluster.servers place) index entry := by
  simp only [Deployment.feed] at ran
  split at ran
  · cases ran
  · cases ran
    exact Or.inl member
  · rename_i log entry advanced
    cases ran
    obtain ⟨_, source⟩ := next_entry_reads _ _ log _ bounded advanced
    obtain ⟨here, slot, read, _⟩ := source entry rfl
    cases List.mem_append.mp member with
    | inl old => exact Or.inl old
    | inr new =>
        obtain ⟨_, _, same⟩ := List.mem_map.mp new
        exact Or.inr ⟨here, entry, read, slot, same.symm⟩

theorem deployment_sized (config : Config) (sized : config.Sized) (actions : List Action) (fits : ∀ action ∈ actions, action.Fits)
    (s : Deployment) (ran : Machine.run (Deployment.step config) (Deployment.init config) actions = some s) :
    s.service.Sized ∧ ∀ wire, ∀ message ∈ s.wires wire, Sendable .subscriberPoll (.subscriberLogEntry message) := by
  induction actions using List.reverseRecOn generalizing s with
  | nil =>
      cases ran
      exact ⟨⟨init_cluster_sized config.numShards config.replicas sized.shards sized.nodup sized.places,
        fun _ _ present => (by cases present)⟩, fun _ _ member => (by cases member)⟩
  | append_singleton actions action ih =>
      obtain ⟨before, earlier, stepped⟩ := Machine.run_snoc_some ran
      obtain ⟨small, wires⟩ := ih (fun other member => fits other (List.mem_append_left _ member)) before earlier
      rcases action_cases config before s action stepped with moved | fed | same
      · obtain ⟨move, performed, step, kept⟩ := moved
        have fitting := fits action (List.mem_append_right _ (List.mem_singleton_self _)) move performed
        exact ⟨service_step_sized config.failures before.service s.service move small fitting step, by rw [kept]; exact wires⟩
      · obtain ⟨place, index, serves, thread, taken⟩ := fed
        rw [feed_service config before s place index taken]
        refine ⟨small, ?_⟩
        intro wire message member
        obtain ⟨history, inv⟩ := deployment_run config sized.nodup actions before earlier
        rcases feed_wires config before s place index (inv.feeders place index) taken wire message member with old | new
        · exact wires wire message old
        · obtain ⟨here, entry, read, slot, rfl⟩ := new
          obtain ⟨contents, server⟩ := small.cluster.servers place serves
          exact Storage.entry_sendable _ contents server here entry read slot index (Nat.lt_of_lt_of_le thread (sized.threads place))
      · rw [same.1, same.2]
        exact ⟨small, wires⟩

-- A connection with this poller at its end that is given these messages: the
-- handlers are called for a prefix of them, in order and with their fields.
def Receives (poller : Poller) (messages : List Message) : Prop :=
  ∀ (index maxOutstanding numQueues queue : Nat) (transfers : List Transfer) (s : Transport), index < maxQueuePairs →
    transfers.filterMap Transfer.payload? = messages.map Message.encode →
    Machine.run (Transport.step queue) (Transport.init index maxOutstanding numQueues) transfers = some s →
    s.called ≤ messages.length ∧
    List.Forall₂ (fun call message => ∀ memory : Memory, Ring.read memory 0 call.slot.length = call.data →
        poller.Handles memory call.slot.length message)
      (s.calls.filter (fun call => decide (call.slot.index = index))) (messages.take s.called)

theorem sendable_receives (poller : Poller) (messages : List Message) (sendable : ∀ message ∈ messages, Sendable poller message) :
    Receives poller messages := by
  intro index maxOutstanding numQueues queue transfers s valid passed ran
  obtain ⟨reach, carried⟩ := calls_carry index maxOutstanding numQueues queue valid messages transfers passed s ran
  refine ⟨reach, carried_typed poller _ _ ?_ carried⟩
  intro message member
  have fitting := sendable message (List.mem_of_mem_take member)
  exact ⟨fitting.fits, fitting.handled⟩

-- The links of the cluster and all links, with the thread at the end of each.
inductive ClusterLink where
  | control (place : Place)
  | reports (place : Place)
  | notices (clientId : Nat)
  | replies (place : Place) (clientId : Nat)
deriving DecidableEq, Repr

inductive Link where
  | cluster (link : ClusterLink)
  | requests (clientId replica : Nat)
  | entries (wire : Wire)
deriving DecidableEq, Repr

def ClusterLink.poller : ClusterLink → Poller
  | .control _ => .storageControl
  | .reports _ => .orderLoop
  | .notices _ => .clientLoop
  | .replies .. => .clientLoop

def Link.poller : Link → Poller
  | .cluster link => link.poller
  | .requests .. => .storageClient
  | .entries _ => .subscriberPoll

section

variable (addresses : Place → SocketAddress)

def Cluster.messages (s : Cluster) : ClusterLink → List Message
  | .control place => (s.control place).map StorageControl.message
  | .reports place => (s.reports place).map OrderControl.message
  | .notices clientId => (s.notices clientId).map (Order.ClientControl.message addresses ((s.homes clientId).getD 0))
  | .replies place clientId => (s.replies place clientId).map StorageReply.message

def Deployment.messages (s : Deployment) : Link → List Message
  | .cluster link => s.service.cluster.messages addresses link
  | .requests clientId replica => ((s.service.clients clientId).elim [] (fun caller => caller.outbox replica)).map StorageRequest.message
  | .entries wire => (s.wires wire).map Message.subscriberLogEntry

theorem cluster_sendable (fit : ∀ place, AddressFits (addresses place)) (s : Cluster) (sized : s.Sized) (link : ClusterLink) :
    ∀ message ∈ s.messages addresses link, Sendable link.poller message := by
  intro message member
  cases link with
  | control place =>
      obtain ⟨control, inside, rfl⟩ := List.mem_map.mp member
      exact Order.control_sendable control (sized.control place control inside)
  | reports place =>
      obtain ⟨report, inside, rfl⟩ := List.mem_map.mp member
      exact Storage.report_sendable report (sized.reports place report inside)
  | notices clientId =>
      obtain ⟨notice, inside, rfl⟩ := List.mem_map.mp member
      exact Order.client_sendable addresses fit _ notice (sized.notices clientId notice inside)
  | replies place clientId =>
      obtain ⟨reply, inside, rfl⟩ := List.mem_map.mp member
      exact Storage.answer_sendable reply (sized.replies place clientId reply inside)

-- Two replicas of the only shard.
def oneShard : Config := ⟨1, fun shard => if shard = 0 then [0, 1] else [], 1, fun _ => 1⟩

theorem one_shard_sized : oneShard.Sized := by
  refine ⟨by decide, ?_, ?_, fun _ => show 1 ≤ 2 ^ 64 by decide⟩
  · intro shard
    simp only [oneShard]
    split
    · decide
    · exact List.nodup_nil
  · intro shard replica member
    simp only [oneShard] at member ⊢
    split at member
    · rename_i first
      refine ⟨by rw [first]; decide, ?_⟩
      have small : ∀ id ∈ [0, 1], id < maxReplicas := by decide
      exact small replica member
    · cases member

theorem address_fits (place : Place) : AddressFits ((fun _ => ⟨2, 6666, 0, 0⟩ : Place → SocketAddress) place) := by
  change Layout.Fits ([2, 2, 4, 8].zip [2, 6666, 0, 0])
  decide

-- A client fails when only one of two replicas has taken its second insert.
def secondPayloadMissing : List Event :=
  [.addClient 0 0 3, .connect (0, 0) 0, .connect (0, 1) 0, .epoch 0, .control (0, 0) [], .control (0, 1) [],
    .insert (0, 0) ⟨0, 1, [7]⟩ [], .insert (0, 1) ⟨0, 1, [7]⟩ [], .insert (0, 1) ⟨0, 1, [8]⟩ [], .suspect (0, 0) 0, .report (0, 0),
    .control (0, 0) [], .control (0, 1) [], .report (0, 0), .report (0, 1), .control (0, 0) [], .control (0, 1) []]

end

def insertTransfers : List Transfer :=
  [.send false (Message.encode (.storageInsert ⟨7, 1, [1, 2, 3]⟩)) 0 true, .land, .recv 8 1, .call]

end ZipLog.System
