import ZipLog.Api
import ZipLog.Lib.Run
import Mathlib.Data.List.Nodup
import Mathlib.Logic.Function.Basic

set_option autoImplicit false

namespace ZipLog.Storage

-- A connection of the subscriber in question or of somebody else. Its send
-- queues are told apart by the index in the vector.
inductive Connection where
  | own (number : Nat)
  | other (number : Nat)
deriving DecidableEq, Repr

structure Queue where
  connection : Connection
  index : Nat
deriving DecidableEq, Repr

-- change_t: a subscriber_state or the ID of a subscriber that has finished.
inductive Change where
  | added (subscriberId numQueues : Nat) (connection : Connection)
  | removed (subscriberId : Nat)
deriving DecidableEq, Repr

inductive Mail where
  | entry (destination : Nat) (entry : SubscriberLogEntry)
  | finished
deriving DecidableEq, Repr

structure Recipient where
  subscriberId : Nat
  numQueues : Nat
  queue : Queue
deriving DecidableEq, Repr

-- The locals of one storage::subscriber thread. polled is num_polled_ of its
-- bag_reader.
structure Follower where
  polled : Nat
  subscribers : List Recipient
  numSent : Nat
deriving DecidableEq, Repr

-- subscribers_, the bag subscriber_changes_, the threads, and what has been sent
-- on each queue.
structure Host where
  subscribers : List Nat
  changes : List Change
  followers : Nat → Follower
  sent : Queue → List Mail

def Host.init : Host := ⟨[], [], fun index => ⟨0, [], index⟩, fun _ => []⟩

def Host.addSubscriber (host : Host) (subscriberId numQueues : Nat) (connection : Connection) : Host :=
  if subscriberId ∈ host.subscribers then host
  else { host with
    changes := host.changes ++ [.added subscriberId numQueues connection]
    subscribers := host.subscribers ++ [subscriberId] }

def Host.subscriberFinished (host : Host) (subscriberId : Nat) : Host :=
  if subscriberId ∉ host.subscribers then host
  else { host with
    changes := host.changes ++ [.removed subscriberId]
    subscribers := host.subscribers.filter (fun other => other ≠ subscriberId) }

def Host.send (host : Host) (queue : Queue) (mail : Mail) : Host :=
  { host with sent := Function.update host.sent queue (host.sent queue ++ [mail]) }

def Host.setFollower (host : Host) (index : Nat) (follower : Follower) : Host :=
  { host with followers := Function.update host.followers index follower }

-- A change that a thread has read. The result is none where subscribers[sid]
-- would make up a send queue.
def Host.follow (host : Host) (index : Nat) (change : Change) : Option Host :=
  let follower := host.followers index
  let follower := { follower with polled := follower.polled + 1 }
  match change with
  | .added subscriberId numQueues connection =>
      if subscriberId ∈ follower.subscribers.map Recipient.subscriberId then some (host.setFollower index follower)
      else some (host.setFollower index { follower with
        subscribers := follower.subscribers ++ [⟨subscriberId, numQueues, ⟨connection, index⟩⟩] })
  | .removed subscriberId =>
      match follower.subscribers.find? (fun sub => sub.subscriberId == subscriberId) with
      | none => none
      | some sub => some ((host.send sub.queue .finished).setFollower index { follower with
          subscribers := follower.subscribers.filter (fun other => other.subscriberId != subscriberId) })

-- One turn of the loop: changes.get(), if there is an element.
def Host.poll (host : Host) (index : Nat) : Option Host :=
  match host.changes[(host.followers index).polled]? with
  | none => some host
  | some change => host.follow index change

-- An entry of the log goes to every subscriber of the thread.
def Host.feed (host : Host) (threads index : Nat) (entry : SubscriberLogEntry) : Host :=
  let follower := host.followers index
  (follower.subscribers.foldl (fun host sub => host.send sub.queue (.entry (1 + follower.numSent % sub.numQueues) entry)) host).setFollower
    index { follower with numSent := follower.numSent + threads }

-- The subscribers after a list of changes.
def present : List Change → List (Nat × Nat × Connection) :=
  List.foldl (fun subs change => match change with
    | .added subscriberId numQueues connection => subs ++ [(subscriberId, numQueues, connection)]
    | .removed subscriberId => subs.filter (fun sub => sub.1 ≠ subscriberId)) []

def ownQueue (index : Nat) (sub : Nat × Nat × Connection) : Recipient := ⟨sub.1, sub.2.1, ⟨sub.2.2, index⟩⟩

theorem present_added (changes : List Change) (subscriberId numQueues : Nat) (connection : Connection) :
    present (changes ++ [.added subscriberId numQueues connection]) = present changes ++ [(subscriberId, numQueues, connection)] := by
  simp [present]

theorem present_removed (changes : List Change) (subscriberId : Nat) :
    present (changes ++ [.removed subscriberId]) = (present changes).filter (fun sub => sub.1 ≠ subscriberId) := by
  simp [present]

def Change.connection? : Change → Option Connection
  | .added _ _ connection => some connection
  | .removed _ => none

-- What the checks under the lock guarantee of the changes.
structure Accepted (changes : List Change) : Prop where
  joins : ∀ earlier subscriberId numQueues connection, earlier ++ [.added subscriberId numQueues connection] <+: changes →
    subscriberId ∉ (present earlier).map Prod.fst
  leaves : ∀ earlier subscriberId, earlier ++ [.removed subscriberId] <+: changes → subscriberId ∈ (present earlier).map Prod.fst
  once : (changes.filterMap Change.connection?).Nodup

theorem present_keys (changes earlier : List Change) (accepted : Accepted changes) (before : earlier <+: changes) :
    ((present earlier).map Prod.fst).Nodup := by
  induction earlier using List.reverseRecOn with
  | nil => exact List.nodup_nil
  | append_singleton earlier change ih =>
      have keys := ih ((List.prefix_append earlier [change]).trans before)
      cases change with
      | added subscriberId numQueues connection =>
          have fresh := accepted.joins earlier subscriberId numQueues connection before
          rw [present_added, List.map_append, List.map_singleton, ← List.concat_eq_append]
          exact keys.concat fresh
      | removed subscriberId =>
          rw [present_removed]
          exact keys.sublist (List.filter_sublist.map Prod.fst)

theorem present_connections (changes : List Change) :
    List.Sublist ((present changes).map (fun sub => sub.2.2)) (changes.filterMap Change.connection?) := by
  induction changes using List.reverseRecOn with
  | nil => exact List.Sublist.refl _
  | append_singleton changes change ih =>
      rw [List.filterMap_append]
      cases change with
      | added subscriberId numQueues connection =>
          rw [present_added, List.map_append]
          exact ih.append (List.Sublist.refl _)
      | removed subscriberId =>
          rw [present_removed]
          exact ((List.filter_sublist.map _).trans ih).trans (List.sublist_append_left _ _)

-- The mail on one queue when the thread has read these changes: nothing before
-- the connection is known, entries while the subscriber is there, and a last
-- storage_finished when it has left.
structure Mailed (read : List Change) (connection : Connection) (mail : List Mail) : Prop where
  unknown : connection ∉ read.filterMap Change.connection? → mail = []
  member : connection ∈ (present read).map (fun sub => sub.2.2) → Mail.finished ∉ mail
  gone : connection ∈ read.filterMap Change.connection? → connection ∉ (present read).map (fun sub => sub.2.2) →
    ∃ entries, Mail.finished ∉ entries ∧ mail = entries ++ [.finished]

structure Host.Inv (host : Host) : Prop where
  accepted : Accepted host.changes
  subscribers : host.subscribers = (present host.changes).map Prod.fst
  polled : ∀ index, (host.followers index).polled ≤ host.changes.length
  maps : ∀ index, (host.followers index).subscribers =
    (present (host.changes.take (host.followers index).polled)).map (ownQueue index)
  mail : ∀ index connection, Mailed (host.changes.take (host.followers index).polled) connection (host.sent ⟨connection, index⟩)

theorem host_init : Host.init.Inv := by
  refine ⟨⟨?_, ?_, List.nodup_nil⟩, rfl, fun _ => Nat.le_refl _, fun _ => rfl, ?_⟩
  · intro earlier subscriberId numQueues connection before
    have short := before.length_le
    rw [List.length_append] at short
    cases short
  · intro earlier subscriberId before
    have short := before.length_le
    rw [List.length_append] at short
    cases short
  · intro index connection
    refine ⟨fun _ => rfl, ?_, ?_⟩
    · intro member
      cases member
    · intro known
      cases known

theorem own_queue_keys (index : Nat) (subs : List (Nat × Nat × Connection)) :
    (subs.map (ownQueue index)).map Recipient.subscriberId = subs.map Prod.fst := by
  rw [List.map_map]
  rfl

theorem own_queue_filter (index subscriberId : Nat) (subs : List (Nat × Nat × Connection)) :
    (subs.map (ownQueue index)).filter (fun other => other.subscriberId != subscriberId) =
      (subs.filter (fun sub => sub.1 ≠ subscriberId)).map (ownQueue index) := by
  rw [List.filter_map]
  congr 1
  apply List.filter_congr
  intro sub _
  by_cases same : sub.1 = subscriberId
  · simp [ownQueue, same]
  · simp [ownQueue, same]

theorem find_key {α β : Type} [BEq β] [LawfulBEq β] (key : α → β) (items : List α) (item : α) (keys : (items.map key).Nodup) (inside : item ∈ items) :
    items.find? (fun other => key other == key item) = some item := by
  obtain ⟨other, found⟩ := Option.isSome_iff_exists.mp (List.find?_isSome (p := fun other => key other == key item) |>.mpr
    ⟨item, inside, beq_self_eq_true _⟩)
  have matched := List.find?_some found
  have same : key other = key item := beq_iff_eq.mp matched
  rw [found, List.inj_on_of_nodup_map keys (List.mem_of_find?_eq_some found) inside same]

-- A change that the checks let pass.
theorem change_inv (host : Host) (inv : host.Inv) (change : Change) (subscribers : List Nat) (accepted : Accepted (host.changes ++ [change]))
    (same : subscribers = (present (host.changes ++ [change])).map Prod.fst) :
    Host.Inv { host with changes := host.changes ++ [change], subscribers := subscribers } := by
  refine ⟨accepted, same, ?_, ?_, ?_⟩
  · intro index
    rw [List.length_append]
    exact Nat.le_add_right_of_le (inv.polled index)
  · intro index
    dsimp only
    rw [List.take_append_of_le_length (inv.polled index)]
    exact inv.maps index
  · intro index connection
    dsimp only
    rw [List.take_append_of_le_length (inv.polled index)]
    exact inv.mail index connection

theorem accepted_snoc (changes : List Change) (change : Change) (accepted : Accepted changes)
    (joins : ∀ subscriberId numQueues connection, change = .added subscriberId numQueues connection →
      subscriberId ∉ (present changes).map Prod.fst ∧ connection ∉ changes.filterMap Change.connection?)
    (leaves : ∀ subscriberId, change = .removed subscriberId → subscriberId ∈ (present changes).map Prod.fst) :
    Accepted (changes ++ [change]) := by
  refine ⟨?_, ?_, ?_⟩
  · intro earlier subscriberId numQueues connection before
    cases List.prefix_concat_iff.mp before with
    | inl whole =>
        obtain ⟨same, last⟩ := List.append_inj' whole rfl
        rw [same]
        exact (joins subscriberId numQueues connection (List.cons.inj last).1.symm).1
    | inr shorter => exact accepted.joins earlier subscriberId numQueues connection shorter
  · intro earlier subscriberId before
    cases List.prefix_concat_iff.mp before with
    | inl whole =>
        obtain ⟨same, last⟩ := List.append_inj' whole rfl
        rw [same]
        exact leaves subscriberId (List.cons.inj last).1.symm
    | inr shorter => exact accepted.leaves earlier subscriberId shorter
  · rw [List.filterMap_append]
    cases change with
    | added subscriberId numQueues connection =>
        have fresh := (joins subscriberId numQueues connection rfl).2
        rw [show [Change.added subscriberId numQueues connection].filterMap Change.connection? = [connection] from rfl,
          ← List.concat_eq_append]
        exact accepted.once.concat fresh
    | removed subscriberId =>
        rw [show [Change.removed subscriberId].filterMap Change.connection? = [] from rfl, List.append_nil]
        exact accepted.once

theorem add_subscriber_inv (host : Host) (inv : host.Inv) (subscriberId numQueues : Nat) (connection : Connection)
    (fresh : connection ∉ host.changes.filterMap Change.connection?) : (host.addSubscriber subscriberId numQueues connection).Inv := by
  unfold Host.addSubscriber
  split
  · exact inv
  · rename_i absent
    refine change_inv host inv _ _ (accepted_snoc host.changes _ inv.accepted ?_ ?_) ?_
    · intro id queues conn same
      cases same
      rw [← inv.subscribers]
      exact ⟨absent, fresh⟩
    · intro id same
      cases same
    · rw [present_added, List.map_append, inv.subscribers]
      rfl

theorem subscriber_finished_inv (host : Host) (inv : host.Inv) (subscriberId : Nat) : (host.subscriberFinished subscriberId).Inv := by
  unfold Host.subscriberFinished
  split
  · exact inv
  · rename_i there
    refine change_inv host inv _ _ (accepted_snoc host.changes _ inv.accepted ?_ ?_) ?_
    · intro id queues conn same
      cases same
    · intro id same
      cases same
      rw [← inv.subscribers]
      exact not_not.mp there
    · rw [present_removed, inv.subscribers, List.filter_map]
      rfl

theorem mailed_entry (read : List Change) (connection : Connection) (mail : List Mail) (destination : Nat) (entry : SubscriberLogEntry)
    (mailed : Mailed read connection mail) (member : connection ∈ (present read).map (fun sub => sub.2.2)) :
    Mailed read connection (mail ++ [.entry destination entry]) := by
  have known := (present_connections read).subset member
  refine ⟨fun unknown => absurd known unknown, ?_, fun _ gone => absurd member gone⟩
  intro _ finished
  cases List.mem_append.mp finished with
  | inl earlier => exact mailed.member member earlier
  | inr last => cases List.mem_singleton.mp last

-- A thread has read that a subscriber joins.
theorem mailed_added (read : List Change) (subscriberId numQueues : Nat) (joined connection : Connection) (mail : List Mail)
    (mailed : Mailed read connection mail) (fresh : joined ∉ read.filterMap Change.connection?) :
    Mailed (read ++ [.added subscriberId numQueues joined]) connection mail := by
  have known : (read ++ [Change.added subscriberId numQueues joined]).filterMap Change.connection? =
      read.filterMap Change.connection? ++ [joined] := List.filterMap_append
  have members : (present (read ++ [Change.added subscriberId numQueues joined])).map (fun sub => sub.2.2) =
      (present read).map (fun sub => sub.2.2) ++ [joined] := by rw [present_added, List.map_append, List.map_singleton]
  refine ⟨?_, ?_, ?_⟩
  · intro unknown
    rw [known] at unknown
    exact mailed.unknown (fun earlier => unknown (List.mem_append_left _ earlier))
  · intro member
    rw [members] at member
    cases List.mem_append.mp member with
    | inl earlier => exact mailed.member earlier
    | inr last =>
        rw [mailed.unknown (List.mem_singleton.mp last ▸ fresh)]
        exact List.not_mem_nil
  · intro seen absent
    rw [known] at seen
    rw [members] at absent
    cases List.mem_append.mp seen with
    | inl earlier => exact mailed.gone earlier (fun member => absent (List.mem_append_left _ member))
    | inr last => exact absurd (List.mem_append_right _ last) absent

-- A thread has read that a subscriber leaves. The storage_finished goes to the
-- connection it had.
theorem mailed_removed (read : List Change) (sub : Nat × Nat × Connection) (connection : Connection) (mail : List Mail)
    (mailed : Mailed read connection mail) (there : sub ∈ present read) (keys : ((present read).map Prod.fst).Nodup)
    (connections : ((present read).map (fun sub => sub.2.2)).Nodup) :
    Mailed (read ++ [.removed sub.1]) connection (if connection = sub.2.2 then mail ++ [.finished] else mail) := by
  have known : (read ++ [Change.removed sub.1]).filterMap Change.connection? = read.filterMap Change.connection? := by
    rw [List.filterMap_append]
    exact List.append_nil _
  refine ⟨?_, ?_, ?_⟩
  · intro unknown
    rw [known] at unknown
    rw [if_neg, mailed.unknown unknown]
    intro same
    exact unknown ((present_connections read).subset (same ▸ List.mem_map_of_mem there))
  · intro member
    rw [present_removed] at member
    obtain ⟨other, kept, same⟩ := List.mem_map.mp member
    obtain ⟨inside, different⟩ := List.mem_filter.mp kept
    rw [if_neg]
    · exact mailed.member (same ▸ List.mem_map_of_mem inside)
    · intro removed
      rw [List.inj_on_of_nodup_map connections inside there (same.trans removed)] at different
      exact of_decide_eq_true different rfl
  · intro seen absent
    rw [known] at seen
    rw [present_removed] at absent
    split
    · rename_i same
      exact ⟨mail, mailed.member (same ▸ List.mem_map_of_mem there), rfl⟩
    · rename_i different
      refine mailed.gone seen (fun member => ?_)
      obtain ⟨other, inside, same⟩ := List.mem_map.mp member
      refine absent (List.mem_map.mpr ⟨other, List.mem_filter.mpr ⟨inside, decide_eq_true ?_⟩, same⟩)
      intro removed
      rw [List.inj_on_of_nodup_map keys inside there removed] at same
      exact different same.symm

-- A turn of one thread leaves the changes and the queues of the other threads
-- as they are.
theorem thread_inv (host : Host) (inv : host.Inv) (index : Nat) (follower : Follower) (sent : Queue → List Mail)
    (polled : follower.polled ≤ host.changes.length)
    (maps : follower.subscribers = (present (host.changes.take follower.polled)).map (ownQueue index))
    (mail : ∀ connection, Mailed (host.changes.take follower.polled) connection (sent ⟨connection, index⟩))
    (others : ∀ queue : Queue, queue.index ≠ index → sent queue = host.sent queue) :
    Host.Inv { host with followers := Function.update host.followers index follower, sent := sent } := by
  refine ⟨inv.accepted, inv.subscribers, ?_, ?_, ?_⟩
  · intro other
    dsimp only
    by_cases here : other = index
    · rw [here, Function.update_self]
      exact polled
    · rw [Function.update_of_ne here]
      exact inv.polled other
  · intro other
    dsimp only
    by_cases here : other = index
    · rw [here, Function.update_self]
      exact maps
    · rw [Function.update_of_ne here]
      exact inv.maps other
  · intro other connection
    dsimp only
    by_cases here : other = index
    · rw [here, Function.update_self]
      exact mail connection
    · rw [Function.update_of_ne here, others ⟨connection, other⟩ here]
      exact inv.mail other connection

theorem send_sent (host : Host) (queue other : Queue) (mail : Mail) :
    (host.send queue mail).sent other = if other = queue then host.sent queue ++ [mail] else host.sent other :=
  Function.update_apply _ _ _ _

theorem read_next (host : Host) (index : Nat) (change : Change)
    (next : host.changes[(host.followers index).polled]? = some change) :
    host.changes.take ((host.followers index).polled + 1) = host.changes.take (host.followers index).polled ++ [change] ∧
      (host.followers index).polled + 1 ≤ host.changes.length := by
  refine ⟨?_, (List.getElem?_eq_some_iff.mp next).1⟩
  rw [List.take_add_one, next]
  rfl

theorem poll_inv (host : Host) (inv : host.Inv) (index : Nat) : ∃ next, host.poll index = some next ∧ next.Inv := by
  unfold Host.poll
  split
  · exact ⟨host, rfl, inv⟩
  · rename_i change at_polled
    obtain ⟨read, within⟩ := read_next host index change at_polled
    have before : host.changes.take (host.followers index).polled ++ [change] <+: host.changes := read ▸ List.take_prefix _ _
    have keys := present_keys host.changes _ inv.accepted ((List.prefix_append _ _).trans before)
    unfold Host.follow
    cases change with
    | added subscriberId numQueues connection =>
        have fresh := inv.accepted.joins _ subscriberId numQueues connection before
        have once := inv.accepted.once.sublist (before.sublist.filterMap Change.connection?)
        rw [List.filterMap_append] at once
        have new : connection ∉ (host.changes.take (host.followers index).polled).filterMap Change.connection? :=
          fun old => List.disjoint_of_nodup_append once old List.mem_cons_self
        dsimp only
        refine ⟨_, if_neg ?_, thread_inv host inv index _ _ within ?_ ?_ (fun _ _ => rfl)⟩
        · rw [inv.maps, own_queue_keys]
          exact fresh
        · dsimp only
          rw [read, present_added, List.map_append, inv.maps]
          rfl
        · intro other
          dsimp only
          rw [read]
          exact mailed_added _ subscriberId numQueues connection other _ (inv.mail index other) new
    | removed subscriberId =>
        have there := inv.accepted.leaves _ subscriberId before
        have connections := inv.accepted.once.sublist ((present_connections _).trans (((List.prefix_append _ _).trans before).sublist.filterMap Change.connection?))
        obtain ⟨sub, inside, rfl⟩ : ∃ sub ∈ present (host.changes.take (host.followers index).polled), sub.1 = subscriberId :=
          List.mem_map.mp there
        have found := find_key Recipient.subscriberId (host.followers index).subscribers (ownQueue index sub)
          (by rw [inv.maps, own_queue_keys]; exact keys) (by rw [inv.maps]; exact List.mem_map_of_mem inside)
        dsimp only
        rw [show sub.1 = (ownQueue index sub).subscriberId from rfl, found]
        refine ⟨_, rfl, thread_inv host inv index _ _ within ?_ ?_ ?_⟩
        · dsimp only
          rw [read, present_removed, inv.maps, own_queue_filter]
          rfl
        · intro connection
          dsimp only
          rw [read, send_sent]
          have mailed := mailed_removed _ sub connection _ (inv.mail index connection) inside keys connections
          by_cases same : connection = sub.2.2
          · rw [if_pos same] at mailed
            rw [same] at mailed ⊢
            rw [if_pos (show (⟨sub.2.2, index⟩ : Queue) = (ownQueue index sub).queue from rfl)]
            exact mailed
          · rw [if_neg same] at mailed
            rw [if_neg (fun equal => same (congrArg Queue.connection equal))]
            exact mailed
        · intro queue elsewhere
          rw [send_sent]
          exact if_neg (fun equal => elsewhere (congrArg Queue.index equal))

-- An entry for a subscriber of the thread.
theorem send_entry_inv (host : Host) (inv : host.Inv) (index : Nat) (sub : Nat × Nat × Connection) (destination : Nat)
    (entry : SubscriberLogEntry) (member : sub ∈ present (host.changes.take (host.followers index).polled)) :
    (host.send (ownQueue index sub).queue (.entry destination entry)).Inv := by
  refine ⟨inv.accepted, inv.subscribers, inv.polled, inv.maps, ?_⟩
  intro other connection
  rw [send_sent]
  split
  · rename_i same
    cases same
    exact mailed_entry _ _ _ destination entry (inv.mail index sub.2.2) (List.mem_map_of_mem member)
  · exact inv.mail other connection

theorem send_entries_inv (host : Host) (inv : host.Inv) (index : Nat) (subs : List (Nat × Nat × Connection)) (destination : Recipient → Nat)
    (entry : SubscriberLogEntry) (members : ∀ sub ∈ subs, sub ∈ present (host.changes.take (host.followers index).polled)) :
    ((subs.map (ownQueue index)).foldl (fun host sub => host.send sub.queue (.entry (destination sub) entry)) host).Inv ∧
      ((subs.map (ownQueue index)).foldl (fun host sub => host.send sub.queue (.entry (destination sub) entry)) host).followers =
        host.followers := by
  induction subs generalizing host with
  | nil => exact ⟨inv, rfl⟩
  | cons sub subs ih =>
      rw [List.map_cons, List.foldl_cons]
      exact ih _ (send_entry_inv host inv index sub _ entry (members sub List.mem_cons_self))
        (fun other inside => members other (List.mem_cons_of_mem _ inside))

theorem feed_inv (host : Host) (inv : host.Inv) (threads index : Nat) (entry : SubscriberLogEntry) : (host.feed threads index entry).Inv := by
  unfold Host.feed
  dsimp only
  rw [inv.maps index]
  obtain ⟨kept, same⟩ := send_entries_inv host inv index _
    (fun sub => 1 + (host.followers index).numSent % sub.numQueues) entry (fun _ member => member)
  have polled := kept.polled index
  have maps := kept.maps index
  have mail := kept.mail index
  rw [same] at polled maps mail
  refine thread_inv _ kept index _ _ polled ?_ mail (fun _ _ => rfl)
  exact (inv.maps index).symm.trans maps

theorem mailed_count (read : List Change) (connection : Connection) (mail : List Mail) (mailed : Mailed read connection mail) :
    mail.count .finished ≤ 1 := by
  by_cases known : connection ∈ read.filterMap Change.connection?
  · by_cases member : connection ∈ (present read).map (fun sub => sub.2.2)
    · rw [List.count_eq_zero_of_not_mem (mailed.member member)]
      exact Nat.zero_le _
    · obtain ⟨entries, before, all⟩ := mailed.gone known member
      rw [all, List.count_append, List.count_eq_zero_of_not_mem before]
      exact Nat.le_refl _
  · rw [mailed.unknown known]
    exact Nat.zero_le _

theorem send_grows (host : Host) (queue other : Queue) (mail : Mail) : host.sent other <+: (host.send queue mail).sent other := by
  rw [send_sent]
  split
  · rename_i same
    rw [same]
    exact List.prefix_append _ _
  · exact List.prefix_refl _

theorem add_subscriber_grows (host : Host) (subscriberId numQueues : Nat) (connection : Connection) :
    (∀ queue, host.sent queue <+: (host.addSubscriber subscriberId numQueues connection).sent queue) ∧
      ∀ seen ∈ (host.addSubscriber subscriberId numQueues connection).changes.filterMap Change.connection?,
        seen ∈ host.changes.filterMap Change.connection? ∨ seen = connection := by
  unfold Host.addSubscriber
  split
  · exact ⟨fun _ => List.prefix_refl _, fun _ seen => Or.inl seen⟩
  · refine ⟨fun _ => List.prefix_refl _, fun other seen => ?_⟩
    rw [List.filterMap_append] at seen
    cases List.mem_append.mp seen with
    | inl earlier => exact Or.inl earlier
    | inr last => exact Or.inr (List.mem_singleton.mp last)

theorem subscriber_finished_grows (host : Host) (subscriberId : Nat) :
    (∀ queue, host.sent queue <+: (host.subscriberFinished subscriberId).sent queue) ∧
      (host.subscriberFinished subscriberId).changes.filterMap Change.connection? = host.changes.filterMap Change.connection? := by
  unfold Host.subscriberFinished
  split
  · exact ⟨fun _ => List.prefix_refl _, rfl⟩
  · refine ⟨fun _ => List.prefix_refl _, ?_⟩
    rw [List.filterMap_append]
    exact List.append_nil _

theorem poll_grows (host next : Host) (index : Nat) (polled : host.poll index = some next) :
    next.changes = host.changes ∧ ∀ queue, host.sent queue <+: next.sent queue := by
  unfold Host.poll at polled
  split at polled
  · cases polled
    exact ⟨rfl, fun _ => List.prefix_refl _⟩
  · rename_i change _
    unfold Host.follow at polled
    cases change with
    | added subscriberId numQueues connection =>
        dsimp only at polled
        split at polled
        · cases polled
          exact ⟨rfl, fun _ => List.prefix_refl _⟩
        · cases polled
          exact ⟨rfl, fun _ => List.prefix_refl _⟩
    | removed subscriberId =>
        dsimp only at polled
        split at polled
        · cases polled
        · cases polled
          exact ⟨rfl, fun queue => send_grows host _ queue .finished⟩

theorem send_entries_grow (host : Host) (subs : List Recipient) (mail : Recipient → Mail) :
    (subs.foldl (fun host sub => host.send sub.queue (mail sub)) host).changes = host.changes ∧
      ∀ queue, host.sent queue <+: (subs.foldl (fun host sub => host.send sub.queue (mail sub)) host).sent queue := by
  induction subs generalizing host with
  | nil => exact ⟨rfl, fun _ => List.prefix_refl _⟩
  | cons sub subs ih =>
      obtain ⟨changes, grown⟩ := ih (host.send sub.queue (mail sub))
      exact ⟨changes, fun queue => (send_grows host sub.queue queue (mail sub)).trans (grown queue)⟩

theorem feed_grows (host : Host) (threads index : Nat) (entry : SubscriberLogEntry) :
    (host.feed threads index entry).changes = host.changes ∧ ∀ queue, host.sent queue <+: (host.feed threads index entry).sent queue :=
  send_entries_grow host (host.followers index).subscribers
    (fun sub => .entry (1 + (host.followers index).numSent % sub.numQueues) entry)

-- A connection that is not in use any more is not used again.
theorem gone_for_good (changes earlier later : List Change) (connection : Connection) (accepted : Accepted changes)
    (known : connection ∈ earlier.filterMap Change.connection?) (gone : connection ∉ (present earlier).map (fun sub => sub.2.2))
    (order : earlier <+: later) (before : later <+: changes) : connection ∉ (present later).map (fun sub => sub.2.2) := by
  obtain ⟨rest, rfl⟩ := order
  induction rest using List.reverseRecOn with
  | nil =>
      rw [List.append_nil]
      exact gone
  | append_singleton rest change ih =>
      rw [← List.append_assoc] at before ⊢
      have absent := ih ((List.prefix_append _ _).trans before)
      cases change with
      | added subscriberId numQueues joined =>
          have once := accepted.once.sublist (before.sublist.filterMap Change.connection?)
          rw [List.filterMap_append, List.filterMap_append] at once
          rw [present_added, List.map_append]
          intro member
          cases List.mem_append.mp member with
          | inl was => exact absent was
          | inr last =>
              have same : connection = joined := List.mem_singleton.mp last
              exact List.disjoint_of_nodup_append once (List.mem_append_left _ (same ▸ known)) List.mem_cons_self
      | removed subscriberId =>
          rw [present_removed]
          intro member
          obtain ⟨sub, kept, same⟩ := List.mem_map.mp member
          exact absent (List.mem_map.mpr ⟨sub, (List.mem_filter.mp kept).1, same⟩)

theorem removed_connection (changes : List Change) (sub : Nat × Nat × Connection) (there : sub ∈ present changes)
    (connections : ((present changes).map (fun sub => sub.2.2)).Nodup) :
    sub.2.2 ∉ (present (changes ++ [.removed sub.1])).map (fun sub => sub.2.2) := by
  rw [present_removed]
  intro member
  obtain ⟨other, kept, same⟩ := List.mem_map.mp member
  obtain ⟨inside, different⟩ := List.mem_filter.mp kept
  rw [List.inj_on_of_nodup_map connections inside there same] at different
  exact of_decide_eq_true different rfl

-- What each thread sends for a removal, before and after it has read it.
theorem removal_mail (host : Host) (inv : host.Inv) (position subscriberId : Nat)
    (at_position : host.changes[position]? = some (.removed subscriberId)) :
    ∃ numQueues connection, (subscriberId, numQueues, connection) ∈ present (host.changes.take position) ∧ ∀ index,
      (position < (host.followers index).polled → ∃ entries, Mail.finished ∉ entries ∧ host.sent ⟨connection, index⟩ = entries ++ [.finished]) ∧
      ((host.followers index).polled ≤ position → Mail.finished ∉ host.sent ⟨connection, index⟩) := by
  have read : host.changes.take (position + 1) = host.changes.take position ++ [.removed subscriberId] := by
    rw [List.take_add_one, at_position]
    rfl
  have before : host.changes.take position ++ [.removed subscriberId] <+: host.changes := read ▸ List.take_prefix _ _
  have connections := inv.accepted.once.sublist ((present_connections _).trans ((List.take_prefix position host.changes).sublist.filterMap _))
  obtain ⟨sub, inside, rfl⟩ := List.mem_map.mp (inv.accepted.leaves _ subscriberId before)
  have known := (present_connections _).subset (List.mem_map_of_mem inside)
  refine ⟨sub.2.1, sub.2.2, inside, fun index => ⟨?_, ?_⟩⟩
  · intro passed
    have later : host.changes.take position ++ [.removed sub.1] <+: host.changes.take (host.followers index).polled :=
      read ▸ List.take_prefix_take_left passed
    have seen := (((List.prefix_append _ _).trans later).sublist.filterMap Change.connection?).subset known
    refine (inv.mail index sub.2.2).gone seen (gone_for_good host.changes _ _ sub.2.2 inv.accepted ?_ ?_ later (List.take_prefix _ _))
    · rw [List.filterMap_append]
      exact List.mem_append_left _ known
    · exact removed_connection _ sub inside connections
  · intro ahead
    have earlier : host.changes.take (host.followers index).polled <+: host.changes.take position := List.take_prefix_take_left ahead
    by_cases seen : sub.2.2 ∈ (host.changes.take (host.followers index).polled).filterMap Change.connection?
    · apply (inv.mail index sub.2.2).member
      by_contra gone
      exact gone_for_good host.changes _ _ sub.2.2 inv.accepted seen gone earlier (List.take_prefix _ _) (List.mem_map_of_mem inside)
    · rw [(inv.mail index sub.2.2).unknown seen]
      exact List.not_mem_nil

end ZipLog.Storage
