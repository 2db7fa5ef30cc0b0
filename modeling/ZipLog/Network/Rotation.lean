import ZipLog.Network.Fanout

set_option autoImplicit false

namespace ZipLog.Network

-- What a server thread has still to do in a handler: take the next buffer, fill it
-- and send it to every queue, send another message, or drop a queue.
inductive Job where
  | rotate (data : Bytes) (targets : List (Nat × Nat))
  | message (queue : Nat) (call : SendCall)
  | drop (queue : Nat)
deriving DecidableEq, Repr

-- A server thread with its rotating buffers.
structure Rotation where
  iterator : Wraparound
  fanout : Fanout
  jobs : List Job

def Rotation.init (size : Nat) (unset : Sender) : Rotation := ⟨Wraparound.init size, Fanout.init unset, []⟩

def Rotation.join (s : Rotation) (queue : Nat) (sender : Sender) : Rotation := { s with fanout := s.fanout.join queue sender }

-- The targets of a rotation are the queues in the order of the container, each
-- with its destination.
def Rotation.rotate (s : Rotation) (data : Bytes) (targets : List (Nat × Nat)) (rest : List Job) : Option Rotation :=
  if (targets.map Prod.fst).Perm s.fanout.members then
    some ⟨s.iterator.getAndIncrement.2,
      s.fanout.publish s.iterator.getAndIncrement.1 (targets.map (fun target => (target.1, ⟨true, data, target.2, false⟩))), rest⟩
  else none

-- The next send, or the next job when the thread is in none.
def Rotation.work (s : Rotation) : Option Rotation :=
  if s.fanout.Free then
    match s.jobs with
    | [] => none
    | .rotate data targets :: rest => s.rotate data targets rest
    | .message queue call :: rest => some { s with fanout := s.fanout.notify [(queue, call)], jobs := rest }
    | .drop queue :: rest => some { s with fanout := s.fanout.drop queue, jobs := rest }
  else s.fanout.send.map (fun fanout => { s with fanout := fanout })

inductive ServerEvent (κ : Type) where
  | handle (request : κ)
  | work
  | poll (queue : Nat)
  | complete (queue : Nat)

-- A thread whose handlers are given. It takes a request when it has done the last one.
def Rotation.step {κ : Type} (handle : Rotation → κ → Option Rotation) (s : Rotation) : ServerEvent κ → Option Rotation
  | .handle request => if s.jobs = [] ∧ s.fanout.Free then handle s request else none
  | .work => s.work
  | .poll queue => (s.fanout.poll queue).map (fun fanout => { s with fanout := fanout })
  | .complete queue => (s.fanout.complete queue).map (fun fanout => { s with fanout := fanout })

-- The place of the buffer that get_and_increment returns next.
def Rotation.rotates (s : Rotation) : Option Nat :=
  if s.fanout.Free then
    match s.jobs with
    | .rotate _ _ :: _ => some s.iterator.getAndIncrement.1
    | _ => none
  else none

-- No queue has an incomplete request that reads the buffer at the place.
def Rotation.Unread (s : Rotation) (place : Nat) : Prop :=
  ∀ queue ∈ s.fanout.members, ∀ entry ∈ (s.fanout.pipelines queue).incomplete, entry.1 ≠ some place

-- An iteration of storage::subscriber: a change of the subscribers, or an entry of the log.
inductive SubscriberTurn where
  | joined (subscriberId : Nat) (sender : Sender)
  | left (subscriberId : Nat) (finished : Bytes)
  | entry (data : Bytes) (targets : List (Nat × Nat))

-- add_subscriber sets the depth of the queues.
def subscriberTurn (depth : Nat) (s : Rotation) : SubscriberTurn → Option Rotation
  | .joined subscriberId sender =>
      (sender.setMaxOutstanding depth).map (fun opened => if subscriberId ∈ s.fanout.members then s else s.join subscriberId opened)
  | .left subscriberId finished => some { s with jobs := [.message subscriberId ⟨false, finished, 0, true⟩, .drop subscriberId] }
  | .entry data targets => some { s with jobs := [.rotate data targets] }

-- The handlers of storage::control that send to the ordering service.
inductive ControlRequest where
  | failure (freeze : Bytes)
  | storageClientFreeze (cut : Bytes)
  | storageClientCut (entries : List Bytes) (flush : Bytes)

def controlRequest (s : Rotation) : ControlRequest → Option Rotation
  | .failure freeze => some { s with jobs := [.message 0 ⟨false, freeze, 0, false⟩] }
  | .storageClientFreeze cut => some { s with jobs := [.message 0 ⟨false, cut, 0, false⟩] }
  | .storageClientCut entries flush => some { s with
      jobs := entries.map (fun data => .rotate data [(0, 0)]) ++ [.message 0 ⟨false, flush, 0, false⟩] }

-- What order::loop and add_storage do with the storage servers of one shard.
inductive ShardRequest where
  | addStorage (replicaId : Nat) (sender : Sender)
  | failed (freeze : Bytes) (queues : List Nat)
  | requested (cut : Bytes) (queues : List Nat)
  | finalized (patches : List Bytes) (finalize : Bytes) (requested : Bool) (queues : List Nat)
  | epoch (slots : Bytes) (queues : List Nat)

def shardRequest (s : Rotation) : ShardRequest → Option Rotation
  | .addStorage replicaId sender =>
      some (if replicaId ∈ s.fanout.members then s else s.join replicaId { sender with maxOutstanding := maxOutstandingRequests })
  | .failed freeze queues => some { s with jobs := queues.map (fun queue => .message queue ⟨false, freeze, 0, false⟩) }
  | .requested cut queues => some { s with jobs := queues.map (fun queue => .message queue ⟨false, cut, 0, false⟩) }
  | .finalized patches finalize requested queues => some { s with
      jobs := patches.flatMap (fun patch => queues.map (fun queue => .message queue ⟨true, patch, 0, false⟩)) ++
        queues.map (fun queue => .message queue ⟨false, finalize, 0, requested⟩) }
  | .epoch slots queues => some { s with jobs := [.rotate slots (queues.map (fun queue => (queue, 0)))] }

structure Rotation.Inv (depth rounds : Nat) (s : Rotation) : Prop where
  size : s.iterator.size = depth + 1
  taken : s.iterator.Taken rounds
  fanout : s.fanout.Inv depth rounds

section

variable (depth rounds : Nat) (s next : Rotation) (inv : s.Inv depth rounds)

include inv

theorem rotates_unread (place : Nat) (rotates : s.rotates = some place) : s.Unread place := by
  obtain ⟨free, here⟩ := Option.ite_none_right_eq_some.mp rotates
  have same : s.iterator.getAndIncrement.1 = place := by
    cases jobs : s.jobs with
    | nil =>
        rw [jobs] at here
        cases here
    | cons first rest =>
        rw [jobs] at here
        cases first with
        | rotate data targets => exact Option.some.inj here
        | message queue call => cases here
        | drop queue => cases here
  rw [← same, inv.taken.next, inv.size]
  exact fanout_unread depth rounds s.fanout inv.fanout (free_delivering s.fanout free)

theorem rotate_inv (data : Bytes) (targets : List (Nat × Nat)) (rest : List Job) (free : s.fanout.Free)
    (rotated : s.rotate data targets rest = some next) : next.Inv depth (rounds + 1) := by
  obtain ⟨every, same⟩ := Option.ite_none_right_eq_some.mp rotated
  obtain rfl := Option.some.inj same
  have place : s.iterator.getAndIncrement.1 = rounds % (depth + 1) := by rw [inv.taken.next, inv.size]
  refine ⟨inv.size, get_taken s.iterator rounds inv.taken, ?_⟩
  dsimp only
  rw [place]
  apply publish_inv depth rounds s.fanout inv.fanout free.1
  rw [List.map_map]
  exact every

theorem work_inv (worked : s.work = some next) : ∃ later, next.Inv depth later := by
  unfold Rotation.work at worked
  by_cases free : s.fanout.Free
  · rw [if_pos free] at worked
    cases jobs : s.jobs with
    | nil =>
        rw [jobs] at worked
        cases worked
    | cons first rest =>
        rw [jobs] at worked
        cases first with
        | rotate data targets => exact ⟨rounds + 1, rotate_inv depth rounds s next inv data targets rest free worked⟩
        | message queue call =>
            obtain rfl := Option.some.inj worked
            exact ⟨rounds, inv.size, inv.taken, notify_inv depth rounds s.fanout inv.fanout free.1 _⟩
        | drop queue =>
            obtain rfl := Option.some.inj worked
            exact ⟨rounds, inv.size, inv.taken, drop_inv depth rounds s.fanout inv.fanout queue⟩
  · rw [if_neg free] at worked
    obtain ⟨fanout, sent, rfl⟩ := Option.map_eq_some_iff.mp worked
    exact ⟨rounds, inv.size, inv.taken, fanout_send depth rounds s.fanout fanout inv.fanout sent⟩

end

-- What a request changes: the jobs of the thread, or one new queue.
def Rotation.Accepts (depth : Nat) (s next : Rotation) : Prop :=
  (∃ jobs, next = { s with jobs := jobs }) ∨
    ∃ queue sender, queue ∉ s.fanout.members ∧ 0 < sender.maxOutstanding ∧ sender.maxOutstanding ≤ depth ∧ next = s.join queue sender

section

variable {κ : Type} (handle : Rotation → κ → Option Rotation) (depth : Nat)
  (accepts : ∀ s request next, handle s request = some next → s.Accepts depth next)

include accepts

theorem rotation_step (rounds : Nat) (s next : Rotation) (event : ServerEvent κ) (inv : s.Inv depth rounds)
    (stepped : s.step handle event = some next) : ∃ later, next.Inv depth later := by
  cases event with
  | handle request =>
      obtain ⟨free, handled⟩ := Option.ite_none_right_eq_some.mp stepped
      obtain ⟨jobs, rfl⟩ | ⟨queue, sender, fresh, positive, short, rfl⟩ := accepts s request next handled
      · exact ⟨rounds, inv.size, inv.taken, inv.fanout⟩
      · exact ⟨rounds, inv.size, inv.taken, join_inv depth rounds s.fanout inv.fanout queue sender fresh free.2.1 positive short⟩
  | work => exact work_inv depth rounds s next inv stepped
  | poll queue =>
      obtain ⟨fanout, polled, rfl⟩ := Option.map_eq_some_iff.mp stepped
      exact ⟨rounds, inv.size, inv.taken, fanout_poll depth rounds s.fanout fanout inv.fanout queue polled⟩
  | complete queue =>
      obtain ⟨fanout, completed, rfl⟩ := Option.map_eq_some_iff.mp stepped
      exact ⟨rounds, inv.size, inv.taken, fanout_complete depth rounds s.fanout fanout inv.fanout queue completed⟩

theorem rotation_run (rounds : Nat) (start final : Rotation) (inv : start.Inv depth rounds) (events : List (ServerEvent κ))
    (ran : Machine.run (Rotation.step handle) start events = some final) (place : Nat) (rotates : final.rotates = some place) :
    final.Unread place := by
  obtain ⟨later, kept⟩ := Machine.run_preserves (Rotation.step handle) (fun s => ∃ rounds, s.Inv depth rounds)
    (fun s event next before stepped => rotation_step handle depth accepts before.choose s next event before.choose_spec stepped)
    start final ⟨rounds, inv⟩ events ran
  exact rotates_unread depth later final kept place rotates

end

theorem init_rotation (depth : Nat) (unset : Sender) : (Rotation.init (depth + 1) unset).Inv depth 0 :=
  ⟨rfl, init_taken (depth + 1) (Nat.succ_pos depth), init_fanout depth unset⟩

theorem subscriber_accepts (depth : Nat) (positive : 0 < depth) (s : Rotation) (turn : SubscriberTurn) (next : Rotation)
    (handled : subscriberTurn depth s turn = some next) : s.Accepts depth next := by
  cases turn with
  | joined subscriberId sender =>
      obtain ⟨opened, set, rfl⟩ := Option.map_eq_some_iff.mp handled
      obtain ⟨-, same⟩ := Option.ite_none_right_eq_some.mp set
      obtain rfl := Option.some.inj same
      by_cases old : subscriberId ∈ s.fanout.members
      · rw [if_pos old]
        exact Or.inl ⟨s.jobs, rfl⟩
      · rw [if_neg old]
        exact Or.inr ⟨subscriberId, _, old, positive, Nat.le_refl depth, rfl⟩
  | left subscriberId finished => exact Or.inl ⟨_, (Option.some.inj handled).symm⟩
  | entry data targets => exact Or.inl ⟨_, (Option.some.inj handled).symm⟩

theorem control_accepts (s : Rotation) (request : ControlRequest) (next : Rotation) (handled : controlRequest s request = some next) :
    s.Accepts maxOutstandingRequests next := by
  cases request <;> exact Or.inl ⟨_, (Option.some.inj handled).symm⟩

theorem shard_accepts (s : Rotation) (request : ShardRequest) (next : Rotation) (handled : shardRequest s request = some next) :
    s.Accepts maxOutstandingRequests next := by
  cases request with
  | addStorage replicaId sender =>
      obtain rfl := Option.some.inj handled
      by_cases old : replicaId ∈ s.fanout.members
      · rw [if_pos old]
        exact Or.inl ⟨s.jobs, rfl⟩
      · rw [if_neg old]
        exact Or.inr ⟨replicaId, _, old, outstanding_pos, Nat.le_refl maxOutstandingRequests, rfl⟩
  | failed freeze queues => exact Or.inl ⟨_, (Option.some.inj handled).symm⟩
  | requested cut queues => exact Or.inl ⟨_, (Option.some.inj handled).symm⟩
  | finalized patches finalize requested queues => exact Or.inl ⟨_, (Option.some.inj handled).symm⟩
  | epoch slots queues => exact Or.inl ⟨_, (Option.some.inj handled).symm⟩

-- storage::control starts with the queue of the ordering service.
def controlStart (unset order : Sender) : Rotation :=
  (Rotation.init (maxOutstandingRequests + 1) unset).join 0 { order with maxOutstanding := maxOutstandingRequests }

def shardStart (unset : Sender) : Rotation := Rotation.init (maxOutstandingRequests + 1) unset

-- The main result. The buffer that get_and_increment returns is read by no incomplete
-- request, in storage::subscriber, storage::control and order::loop.
theorem rotated_buffer_unread (unset : Sender) :
    (∀ (depth : Nat) (events : List (ServerEvent SubscriberTurn)) (s : Rotation) (place : Nat), 1 ≤ depth →
      Machine.run (Rotation.step (subscriberTurn depth)) (Rotation.init (depth + 1) unset) events = some s →
      s.rotates = some place → s.Unread place) ∧
    (∀ (order : Sender) (events : List (ServerEvent ControlRequest)) (s : Rotation) (place : Nat),
      Machine.run (Rotation.step controlRequest) (controlStart unset order) events = some s →
      s.rotates = some place → s.Unread place) ∧
    (∀ (events : List (ServerEvent ShardRequest)) (s : Rotation) (place : Nat),
      Machine.run (Rotation.step shardRequest) (shardStart unset) events = some s →
      s.rotates = some place → s.Unread place) := by
  refine ⟨?_, ?_, ?_⟩
  · intro depth events s place positive ran rotates
    exact rotation_run (subscriberTurn depth) depth (subscriber_accepts depth positive) 0 _ s (init_rotation depth unset) events ran
      place rotates
  · intro order events s place ran rotates
    have order_ := join_inv maxOutstandingRequests 0 _ (init_fanout maxOutstandingRequests unset) 0
      { order with maxOutstanding := maxOutstandingRequests } List.not_mem_nil rfl outstanding_pos (Nat.le_refl _)
    have start : (controlStart unset order).Inv maxOutstandingRequests 0 :=
      ⟨rfl, init_taken (maxOutstandingRequests + 1) (Nat.succ_pos _), order_⟩
    exact rotation_run controlRequest maxOutstandingRequests control_accepts 0 _ s start events ran place rotates
  · intro events s place ran rotates
    exact rotation_run shardRequest maxOutstandingRequests shard_accepts 0 _ s (init_rotation maxOutstandingRequests unset) events ran
      place rotates

-- With a depth of one the second entry goes into the other buffer while the request
-- of the first one is incomplete.
def secondEntry : List (ServerEvent SubscriberTurn) :=
  [.handle (.joined 5 spareSender), .handle (.entry [1] [(5, 1)]), .work, .work, .handle (.entry [2] [(5, 1)])]

theorem rotated_buffer_unread_second : ∃ s, Machine.run (Rotation.step (subscriberTurn 1)) (Rotation.init 2 spareSender) secondEntry = some s ∧
    (s.fanout.pipelines 5).incomplete.map Prod.fst = [some 0] ∧ s.rotates = some 1 ∧ s.Unread 1 := by
  have reached : (Machine.run (Rotation.step (subscriberTurn 1)) (Rotation.init 2 spareSender) secondEntry).map
      (fun s => ((s.fanout.pipelines 5).incomplete.map Prod.fst, s.rotates)) = some ([some 0], some 1) := by decide +kernel
  obtain ⟨s, ran, same⟩ := Option.map_eq_some_iff.mp reached
  obtain ⟨held, rotates⟩ := Prod.mk.inj same
  exact ⟨s, ran, held, rotates, (rotated_buffer_unread spareSender).1 1 secondEntry s 1 (Nat.le_refl 1) ran rotates⟩

end ZipLog.Network
