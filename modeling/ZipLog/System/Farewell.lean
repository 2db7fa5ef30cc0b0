import ZipLog.Lib.Quorum
import ZipLog.Network.Manager
import ZipLog.Storage.Subscribers
import ZipLog.Subscriber.Control

set_option autoImplicit false

namespace ZipLog.Subscriber

open ZipLog.Storage

-- One subscriber process, the storage servers and the subscriber table of
-- order. made lists the connections that the process has added to its map, and
-- waiting those of them that the server has not yet passed to add_subscriber.
-- delivered counts the storage_finished that control has handled, by connection
-- and thread.
structure Farewell where
  control : Control
  hosts : Nat × Nat → Host
  made : List ((Nat × Nat) × Nat)
  waiting : List ((Nat × Nat) × Nat)
  delivered : (Nat × Nat) × Nat → Nat → Nat
  subscriberQueue : List (Nat × Connection)
  orderSent : List Connection
  orderDelivered : Nat

def Farewell.init : Farewell := ⟨Control.init, fun _ => Host.init, [], [], fun _ _ => 0, [], [], 0⟩

inductive FarewellEvent where
  | stop
  | check
  | connect (server : Nat × Nat)
  | accept (server : Nat × Nat) (connection : Nat)
  | addSubscriber (server : Nat × Nat) (subscriberId numQueues number : Nat)
  | subscriberFinished (server : Nat × Nat) (subscriberId : Nat)
  | poll (server : Nat × Nat) (index : Nat)
  | feed (server : Nat × Nat) (index : Nat) (entry : SubscriberLogEntry)
  | deliver (server : Nat × Nat) (connection index : Nat)
  | orderAddSubscriber (subscriberId : Nat) (connection : Connection)
  | orderSubscriberFinished (subscriberId : Nat)
  | orderDeliver
deriving DecidableEq, Repr

def Farewell.setHost (s : Farewell) (server : Nat × Nat) (host : Host) : Farewell :=
  { s with hosts := Function.update s.hosts server host }

-- A turn of subscriber::control, which takes none after its loop.
def Farewell.handle (s : Farewell) (event : ControlEvent) : Option Farewell :=
  if s.control.ended = true then none else (s.control.step event).map (fun control => { s with control := control })

def Farewell.orderAdd (s : Farewell) (subscriberId : Nat) (connection : Connection) : Farewell :=
  if subscriberId ∈ s.subscriberQueue.map Prod.fst then s
  else { s with subscriberQueue := s.subscriberQueue ++ [(subscriberId, connection)] }

def Farewell.orderFinish (s : Farewell) (subscriberId : Nat) : Farewell :=
  match s.subscriberQueue.find? (fun sub => sub.1 == subscriberId) with
  | none => s
  | some sub => { s with
      orderSent := s.orderSent ++ [sub.2]
      subscriberQueue := s.subscriberQueue.filter (fun other => other.1 != subscriberId) }

section

variable (threads : Nat × Nat → Nat) (subscriberId numQueues : Nat)

-- The process connects with 0 queues, the server accepts with one for each of
-- its threads.
def Farewell.connection (server : Nat × Nat) : StorageIntro := ⟨true, server.1, server.2, 0, Network.numQueues 0 (threads server)⟩

-- Other processes may use any ID, the process's own included, and any message
-- subscriber_finished may arrive. The links keep their order: of the messages
-- storage_finished on one queue the next one is handled.
def Farewell.step (s : Farewell) : FarewellEvent → Option Farewell
  | .stop => some { s with control := { s.control with stop := true } }
  | .check => s.handle .check
  | .connect server =>
      if s.control.accepts (some (Farewell.connection threads server)) then
        (s.handle (.storageInfo [some (Farewell.connection threads server)])).map (fun next => { next with
          made := s.made ++ [(server, s.control.connections)]
          waiting := s.waiting ++ [(server, s.control.connections)] })
      else s.handle (.storageInfo [some (Farewell.connection threads server)])
  | .accept server connection =>
      if (server, connection) ∈ s.waiting then
        some { s with
          hosts := Function.update s.hosts server ((s.hosts server).addSubscriber subscriberId numQueues (.own connection))
          waiting := s.waiting.filter (fun link => link ≠ (server, connection)) }
      else none
  | .addSubscriber server otherId queues number =>
      if .other number ∈ (s.hosts server).changes.filterMap Change.connection? then none
      else some (s.setHost server ((s.hosts server).addSubscriber otherId queues (.other number)))
  | .subscriberFinished server otherId => some (s.setHost server ((s.hosts server).subscriberFinished otherId))
  | .poll server index =>
      if index < threads server then ((s.hosts server).poll index).map (s.setHost server) else none
  | .feed server index entry =>
      if index < threads server then some (s.setHost server ((s.hosts server).feed (threads server) index entry)) else none
  | .deliver server connection index =>
      if index < threads server ∧
          s.delivered (server, connection) index < ((s.hosts server).sent ⟨.own connection, index⟩).count .finished then
        Farewell.handle { s with
          delivered := Function.update s.delivered (server, connection) (Quorum.advance (s.delivered (server, connection)) index) }
          (.storageFinished server.1 server.2)
      else none
  | .orderAddSubscriber otherId connection => some (s.orderAdd otherId connection)
  | .orderSubscriberFinished otherId => some (s.orderFinish otherId)
  | .orderDeliver =>
      if s.orderDelivered < s.orderSent.count (.own 0) then
        Farewell.handle { s with orderDelivered := s.orderDelivered + 1 } .orderFinished
      else none

-- The servers and the process count alike: while a server is in the map,
-- storage_finished is how many of its threads have finished that connection.
structure Farewell.Inv (s : Farewell) : Prop where
  hosts : ∀ server, (s.hosts server).Inv
  known : ∀ server connection, Connection.own connection ∈ (s.hosts server).changes.filterMap Change.connection? →
    (server, connection) ∈ s.made ∧ (server, connection) ∉ s.waiting
  waiting : ∀ link ∈ s.waiting, link ∈ s.made
  numbers : ∀ link ∈ s.made, link.2 < s.control.connections
  links : ∀ link ∈ s.control.storageQueues, (link.server, link.connection) ∈ s.made ∧ link.sendQueues = threads link.server
  servers : (s.control.storageQueues.map Link.server).Nodup
  delivered : ∀ server connection index,
    s.delivered (server, connection) index ≤ ((s.hosts server).sent ⟨.own connection, index⟩).count .finished
  counted : ∀ link ∈ s.control.storageQueues, s.control.storageFinished link.server =
    Quorum.count (List.range (threads link.server)) (s.delivered (link.server, link.connection)) 0
  fresh : ∀ server ∉ s.control.storageQueues.map Link.server, s.control.storageFinished server = 0
  done : ∀ server connection, (server, connection) ∈ s.made →
    (∀ link ∈ s.control.storageQueues, (link.server, link.connection) ≠ (server, connection)) →
    ∀ index < threads server, 0 < s.delivered (server, connection) index
  order : s.orderDelivered ≤ s.orderSent.count (.own 0) ∧ (s.control.orderFinished = true → 0 < s.orderDelivered)
  ended : s.control.ended = true → s.control.orderFinished = true ∧ s.control.storageQueues = []

theorem farewell_init : Farewell.init.Inv threads := by
  refine ⟨fun _ => host_init, ?_, ?_, ?_, ?_, List.nodup_nil, fun _ _ _ => Nat.le_refl _, ?_, fun _ _ => rfl, ?_,
    ⟨Nat.le_refl _, ?_⟩, ?_⟩
  · intro server connection known
    cases known
  · intro link member
    cases member
  · intro link member
    cases member
  · intro link member
    cases member
  · intro link member
    cases member
  · intro server connection member
    cases member
  · intro finished
    cases finished
  · intro ended
    cases ended

-- A step of a storage server, which may take an introduction off the list.
theorem set_host_inv (s : Farewell) (inv : s.Inv threads) (server : Nat × Nat) (host : Host) (waiting : List ((Nat × Nat) × Nat))
    (host_inv : host.Inv) (grown : ∀ queue, (s.hosts server).sent queue <+: host.sent queue)
    (fewer : ∀ link ∈ waiting, link ∈ s.waiting)
    (known : ∀ connection, Connection.own connection ∈ host.changes.filterMap Change.connection? →
      (server, connection) ∈ s.made ∧ (server, connection) ∉ waiting) :
    Farewell.Inv threads { s with hosts := Function.update s.hosts server host, waiting := waiting } := by
  refine ⟨?_, ?_, fun link member => inv.waiting link (fewer link member), inv.numbers, inv.links, inv.servers, ?_,
    inv.counted, inv.fresh, inv.done, inv.order, inv.ended⟩
  · intro other
    dsimp only
    by_cases here : other = server
    · rw [here, Function.update_self]
      exact host_inv
    · rw [Function.update_of_ne here]
      exact inv.hosts other
  · intro other connection
    dsimp only
    by_cases here : other = server
    · rw [here, Function.update_self]
      exact known connection
    · rw [Function.update_of_ne here]
      intro seen
      obtain ⟨made, admitted⟩ := inv.known other connection seen
      exact ⟨made, fun member => admitted (fewer _ member)⟩
  · intro other connection index
    dsimp only
    by_cases here : other = server
    · rw [here, Function.update_self]
      exact Nat.le_trans (inv.delivered server connection index) ((grown _).sublist.count_le _)
    · rw [Function.update_of_ne here]
      exact inv.delivered other connection index

theorem farewell_connected (s next : Farewell) (inv : s.Inv threads) (server : Nat × Nat) (some_thread : 0 < threads server)
    (accepted : s.control.accepts (some (Farewell.connection threads server)))
    (handled : s.handle (.storageInfo [some (Farewell.connection threads server)]) = some next) :
    Farewell.Inv threads { next with
      made := s.made ++ [(server, s.control.connections)]
      waiting := s.waiting ++ [(server, s.control.connections)] } := by
  unfold Farewell.handle at handled
  rw [Option.ite_none_left_eq_some] at handled
  obtain ⟨running, taken⟩ := handled
  have queues : Network.numQueues 0 (threads server) = threads server := by
    unfold Network.numQueues
    rw [if_neg (by omega), if_pos rfl]
  have connected : s.control.connect (some (Farewell.connection threads server)) = { s.control with
      storageQueues := s.control.storageQueues ++ [⟨server, threads server, s.control.connections⟩]
      connections := s.control.connections + 1 } := by
    rw [Control.connect, if_pos accepted, Farewell.connection, queues]
  have step : s.control.step (.storageInfo [some (Farewell.connection threads server)]) =
      some (s.control.connect (some (Farewell.connection threads server))) := rfl
  rw [step, connected] at taken
  cases taken
  obtain ⟨intro_, same, -, -, absent⟩ := accepted
  cases same
  have new : ∀ host, (host, s.control.connections) ∉ s.made := fun host old => absurd (inv.numbers _ old) (Nat.lt_irrefl _)
  have unsent : ∀ index, s.delivered (server, s.control.connections) index = 0 := by
    intro index
    have bound := inv.delivered server s.control.connections index
    rw [((inv.hosts server).mail index (.own s.control.connections)).unknown ?_] at bound
    · exact Nat.le_zero.mp bound
    · intro seen
      rw [List.mem_filterMap] at seen
      obtain ⟨change, early, made⟩ := seen
      exact new server (inv.known server _ (List.mem_filterMap.mpr ⟨change, List.mem_of_mem_take early, made⟩)).1
  refine ⟨inv.hosts, ?_, ?_, ?_, ?_, ?_, inv.delivered, ?_, ?_, ?_, inv.order, fun ended => absurd ended running⟩
  · intro other connection seen
    obtain ⟨made, admitted⟩ := inv.known other connection seen
    refine ⟨List.mem_append_left _ made, fun member => ?_⟩
    cases List.mem_append.mp member with
    | inl earlier => exact admitted earlier
    | inr last =>
        rw [List.mem_singleton.mp last] at made
        exact new server made
  · intro link member
    cases List.mem_append.mp member with
    | inl earlier => exact List.mem_append_left _ (inv.waiting link earlier)
    | inr last => exact List.mem_append_right _ last
  · intro link member
    cases List.mem_append.mp member with
    | inl earlier => exact Nat.lt_succ_of_lt (inv.numbers link earlier)
    | inr last =>
        rw [List.mem_singleton.mp last]
        exact Nat.lt_succ_self _
  · intro link member
    cases List.mem_append.mp member with
    | inl earlier => exact ⟨List.mem_append_left _ (inv.links link earlier).1, (inv.links link earlier).2⟩
    | inr last =>
        rw [List.mem_singleton.mp last]
        exact ⟨List.mem_append_right _ List.mem_cons_self, rfl⟩
  · dsimp only
    rw [List.map_append, List.map_singleton, ← List.concat_eq_append]
    exact inv.servers.concat absent
  · intro link member
    cases List.mem_append.mp member with
    | inl earlier => exact inv.counted link earlier
    | inr last =>
        rw [List.mem_singleton.mp last]
        dsimp only
        rw [inv.fresh server absent, Quorum.count_zero _ _ _ (fun index _ => Nat.le_of_eq (unsent index))]
  · intro other missing
    dsimp only at missing
    rw [List.map_append] at missing
    exact inv.fresh other (fun earlier => missing (List.mem_append_left _ earlier))
  · intro other connection member gone
    cases List.mem_append.mp member with
    | inl earlier => exact inv.done other connection earlier (fun link inside => gone link (List.mem_append_left _ inside))
    | inr last => exact absurd (List.mem_singleton.mp last).symm (gone _ (List.mem_append_right _ List.mem_cons_self))

theorem farewell_finalized (s : Farewell) (inv : s.Inv threads) :
    Farewell.Inv threads { s with control := s.control.finalized } := by
  unfold Control.finalized
  split
  · rename_i both
    exact ⟨inv.hosts, inv.known, inv.waiting, inv.numbers, inv.links, inv.servers, inv.delivered, inv.counted, inv.fresh, inv.done,
      inv.order, fun _ => both⟩
  · exact inv

-- The next storage_finished of a thread comes on the connection in the map.
theorem farewell_current (s : Farewell) (inv : s.Inv threads) (server : Nat × Nat) (connection index : Nat) (thread : index < threads server)
    (more : s.delivered (server, connection) index < ((s.hosts server).sent ⟨.own connection, index⟩).count .finished) :
    ∃ link ∈ s.control.storageQueues, link.server = server ∧ link.connection = connection := by
  have mailed := (inv.hosts server).mail index (.own connection)
  by_contra gone
  have seen : Connection.own connection ∈ ((s.hosts server).changes.take ((s.hosts server).followers index).polled).filterMap Change.connection? := by
    by_contra unknown
    rw [mailed.unknown unknown] at more
    exact Nat.not_lt_zero _ more
  obtain ⟨change, early, names⟩ := List.mem_filterMap.mp seen
  have made := (inv.known server connection (List.mem_filterMap.mpr ⟨change, List.mem_of_mem_take early, names⟩)).1
  have positive := inv.done server connection made (fun link inside same =>
    gone ⟨link, inside, congrArg Prod.fst same, congrArg Prod.snd same⟩) index thread
  have once := mailed_count _ _ _ mailed
  omega

section

variable (s : Farewell) (inv : s.Inv threads) (link : Link) (inside : link ∈ s.control.storageQueues) (index : Nat)
  (thread : index < threads link.server)
  (more : s.delivered (link.server, link.connection) index <
    ((s.hosts link.server).sent ⟨.own link.connection, index⟩).count .finished)

include inv more

theorem delivered_advance (server : Nat × Nat) (connection other : Nat) :
    Function.update s.delivered (link.server, link.connection) (Quorum.advance (s.delivered (link.server, link.connection)) index)
        (server, connection) other ≤ ((s.hosts server).sent ⟨.own connection, other⟩).count .finished := by
  by_cases here : (server, connection) = (link.server, link.connection)
  · rw [here, Function.update_self]
    cases here
    by_cases same : other = index
    · rw [same, Quorum.advance, Function.update_self]
      exact more
    · rw [Quorum.advance, Function.update_of_ne same]
      exact inv.delivered _ _ _
  · rw [Function.update_of_ne here]
    exact inv.delivered _ _ _

include inside thread

-- The thread had not finished before, so it counts.
theorem delivered_count : Quorum.count (List.range (threads link.server))
    (Quorum.advance (s.delivered (link.server, link.connection)) index) 0 = s.control.storageFinished link.server + 1 := by
  have once := mailed_count _ _ _ ((inv.hosts link.server).mail index (.own link.connection))
  have count := Quorum.count_advance (List.range (threads link.server)) (s.delivered (link.server, link.connection)) index 0
    List.nodup_range (List.mem_range.mpr thread)
  rw [if_pos (by omega), ← inv.counted link inside] at count
  exact count

-- The last thread of the server: its connection leaves the map.
theorem farewell_complete (running : s.control.ended ≠ true)
    (complete : s.control.storageFinished link.server + 1 = threads link.server) :
    Farewell.Inv threads { s with
      control := { s.control with
        storageFinished := Function.update s.control.storageFinished link.server 0
        storageQueues := s.control.storageQueues.filter (fun other => other.server != link.server) }
      delivered := Function.update s.delivered (link.server, link.connection)
        (Quorum.advance (s.delivered (link.server, link.connection)) index) } := by
  refine ⟨inv.hosts, inv.known, inv.waiting, inv.numbers, ?_, ?_, delivered_advance threads s inv link index more, ?_, ?_, ?_, inv.order,
    fun ended => absurd ended running⟩
  · intro other kept
    exact inv.links other (List.mem_filter.mp kept).1
  · exact inv.servers.sublist (List.filter_sublist.map _)
  · intro other kept
    obtain ⟨was, different⟩ := List.mem_filter.mp kept
    have elsewhere : other.server ≠ link.server := bne_iff_ne.mp different
    dsimp only
    rw [Function.update_of_ne elsewhere, Function.update_of_ne (fun same => elsewhere (congrArg Prod.fst same))]
    exact inv.counted other was
  · intro server missing
    dsimp only
    by_cases here : server = link.server
    · rw [here, Function.update_self]
    · rw [Function.update_of_ne here]
      apply inv.fresh
      intro was
      obtain ⟨other, old, named⟩ := List.mem_map.mp was
      exact missing (List.mem_map.mpr ⟨other, List.mem_filter.mpr ⟨old, bne_iff_ne.mpr (named ▸ here)⟩, named⟩)
  · intro server connection made gone other exists_
    dsimp only
    by_cases here : (server, connection) = (link.server, link.connection)
    · cases here
      rw [Function.update_self]
      refine Quorum.count_all (List.range (threads link.server)) _ 0 ?_ other (List.mem_range.mpr exists_)
      rw [delivered_count threads s inv link inside index thread more, List.length_range]
      exact complete
    · rw [Function.update_of_ne here]
      refine inv.done server connection made (fun old was same => ?_) other exists_
      by_cases there : old.server = link.server
      · rw [List.inj_on_of_nodup_map inv.servers was inside there] at same
        exact here same.symm
      · exact gone old (List.mem_filter.mpr ⟨was, bne_iff_ne.mpr there⟩) same

-- More threads of the server are to come.
theorem farewell_counted (running : s.control.ended ≠ true) :
    Farewell.Inv threads { s with
      control := { s.control with
        storageFinished := Function.update s.control.storageFinished link.server (s.control.storageFinished link.server + 1) }
      delivered := Function.update s.delivered (link.server, link.connection)
        (Quorum.advance (s.delivered (link.server, link.connection)) index) } := by
  refine ⟨inv.hosts, inv.known, inv.waiting, inv.numbers, inv.links, inv.servers, delivered_advance threads s inv link index more, ?_, ?_,
    ?_, inv.order, fun ended => absurd ended running⟩
  · intro other was
    dsimp only
    by_cases there : other.server = link.server
    · rw [List.inj_on_of_nodup_map inv.servers was inside there, Function.update_self, Function.update_self,
        delivered_count threads s inv link inside index thread more]
    · rw [Function.update_of_ne there, Function.update_of_ne (fun same => there (congrArg Prod.fst same))]
      exact inv.counted other was
  · intro server missing
    have elsewhere : server ≠ link.server := by
      intro same
      rw [same] at missing
      exact missing (List.mem_map_of_mem inside)
    dsimp only
    rw [Function.update_of_ne elsewhere]
    exact inv.fresh server missing
  · intro server connection made gone other exists_
    dsimp only
    rw [Function.update_of_ne (fun same => gone link inside same.symm)]
    exact inv.done server connection made gone other exists_

end

theorem farewell_delivered (s next : Farewell) (inv : s.Inv threads) (server : Nat × Nat) (connection index : Nat)
    (thread : index < threads server)
    (more : s.delivered (server, connection) index < ((s.hosts server).sent ⟨.own connection, index⟩).count .finished)
    (handled : Farewell.handle { s with
      delivered := Function.update s.delivered (server, connection) (Quorum.advance (s.delivered (server, connection)) index) }
      (.storageFinished server.1 server.2) = some next) : next.Inv threads := by
  obtain ⟨link, inside, rfl, rfl⟩ := farewell_current threads s inv server connection index thread more
  unfold Farewell.handle at handled
  rw [Option.ite_none_left_eq_some] at handled
  obtain ⟨running, taken⟩ := handled
  unfold Control.step at taken
  dsimp only at taken running
  rw [Prod.eta] at taken
  rw [find_key Link.server s.control.storageQueues link inv.servers inside] at taken
  dsimp only at taken
  split at taken
  · rename_i complete
    cases taken
    rw [(inv.links link inside).2] at complete
    exact farewell_finalized threads _ (farewell_complete threads s inv link inside index thread more running complete)
  · cases taken
    exact farewell_finalized threads _ (farewell_counted threads s inv link inside index thread more running)

theorem farewell_handled (s next : Farewell) (event : ControlEvent) (handled : s.handle event = some next) :
    s.control.ended ≠ true ∧ ∃ control, s.control.step event = some control ∧ next = { s with control := control } := by
  unfold Farewell.handle at handled
  rw [Option.ite_none_left_eq_some] at handled
  obtain ⟨control, step, same⟩ := Option.map_eq_some_iff.mp handled.2
  exact ⟨handled.1, control, step, same.symm⟩

theorem farewell_step (some_thread : ∀ server, 0 < threads server) (s next : Farewell) (event : FarewellEvent) (inv : s.Inv threads)
    (step : s.step threads subscriberId numQueues event = some next) : next.Inv threads := by
  unfold Farewell.step at step
  cases event with
  | stop =>
      cases step
      exact ⟨inv.hosts, inv.known, inv.waiting, inv.numbers, inv.links, inv.servers, inv.delivered, inv.counted, inv.fresh, inv.done,
        inv.order, inv.ended⟩
  | check =>
      obtain ⟨running, control, taken, rfl⟩ := farewell_handled s next .check step
      unfold Control.step at taken
      dsimp only at taken
      rw [if_neg running] at taken
      cases taken
      unfold Control.check
      split
      · exact ⟨inv.hosts, inv.known, inv.waiting, inv.numbers, inv.links, inv.servers, inv.delivered, inv.counted, inv.fresh, inv.done,
          inv.order, inv.ended⟩
      · exact inv
  | connect server =>
      dsimp only at step
      split at step
      · rename_i accepted
        obtain ⟨after, handled, rfl⟩ := Option.map_eq_some_iff.mp step
        exact farewell_connected threads s after inv server (some_thread server) accepted handled
      · rename_i refused
        obtain ⟨running, control, taken, rfl⟩ := farewell_handled s next _ step
        unfold Control.step at taken
        dsimp only [List.foldl_cons, List.foldl_nil] at taken
        rw [control_connect_refused s.control _ refused] at taken
        cases taken
        exact inv
  | accept server connection =>
      dsimp only at step
      rw [Option.ite_none_right_eq_some] at step
      obtain ⟨waits, taken⟩ := step
      cases taken
      have unknown : Connection.own connection ∉ (s.hosts server).changes.filterMap Change.connection? :=
        fun seen => (inv.known server connection seen).2 waits
      obtain ⟨grown, old⟩ := add_subscriber_grows (s.hosts server) subscriberId numQueues (.own connection)
      refine set_host_inv threads s inv server _ _ (add_subscriber_inv _ (inv.hosts server) subscriberId numQueues _ unknown) grown ?_ ?_
      · intro link member
        exact (List.mem_filter.mp member).1
      · intro other seen
        cases old _ seen with
        | inl earlier =>
            obtain ⟨made, admitted⟩ := inv.known server other earlier
            exact ⟨made, fun member => admitted (List.mem_filter.mp member).1⟩
        | inr same =>
            cases same
            exact ⟨inv.waiting _ waits, fun member => of_decide_eq_true (List.mem_filter.mp member).2 rfl⟩
  | addSubscriber server otherId queues number =>
      dsimp only at step
      rw [Option.ite_none_left_eq_some] at step
      obtain ⟨unknown, taken⟩ := step
      cases taken
      obtain ⟨grown, old⟩ := add_subscriber_grows (s.hosts server) otherId queues (.other number)
      refine set_host_inv threads s inv server _ _ (add_subscriber_inv _ (inv.hosts server) otherId queues _ unknown) grown
        (fun _ member => member) ?_
      intro connection seen
      cases old _ seen with
      | inl earlier => exact inv.known server connection earlier
      | inr same => cases same
  | subscriberFinished server otherId =>
      cases step
      obtain ⟨grown, known⟩ := subscriber_finished_grows (s.hosts server) otherId
      refine set_host_inv threads s inv server _ _ (subscriber_finished_inv _ (inv.hosts server) otherId) grown (fun _ member => member) ?_
      rw [known]
      exact inv.known server
  | poll server index =>
      dsimp only at step
      rw [Option.ite_none_right_eq_some] at step
      obtain ⟨host, polled, same⟩ := Option.map_eq_some_iff.mp step.2
      cases same
      obtain ⟨after, taken, kept⟩ := poll_inv (s.hosts server) (inv.hosts server) index
      rw [polled] at taken
      cases taken
      obtain ⟨changes, grown⟩ := poll_grows (s.hosts server) host index polled
      refine set_host_inv threads s inv server host _ kept grown (fun _ member => member) ?_
      rw [changes]
      exact inv.known server
  | feed server index entry =>
      dsimp only at step
      rw [Option.ite_none_right_eq_some] at step
      cases step.2
      obtain ⟨changes, grown⟩ := feed_grows (s.hosts server) (threads server) index entry
      refine set_host_inv threads s inv server _ _ (feed_inv _ (inv.hosts server) (threads server) index entry) grown
        (fun _ member => member) ?_
      rw [changes]
      exact inv.known server
  | deliver server connection index =>
      dsimp only at step
      rw [Option.ite_none_right_eq_some] at step
      obtain ⟨⟨thread, more⟩, handled⟩ := step
      exact farewell_delivered threads s next inv server connection index thread more handled
  | orderAddSubscriber otherId connection =>
      cases step
      unfold Farewell.orderAdd
      split
      · exact inv
      · exact ⟨inv.hosts, inv.known, inv.waiting, inv.numbers, inv.links, inv.servers, inv.delivered, inv.counted, inv.fresh, inv.done,
          inv.order, inv.ended⟩
  | orderSubscriberFinished otherId =>
      cases step
      unfold Farewell.orderFinish
      split
      · exact inv
      · refine ⟨inv.hosts, inv.known, inv.waiting, inv.numbers, inv.links, inv.servers, inv.delivered, inv.counted, inv.fresh, inv.done,
          ⟨?_, inv.order.2⟩, inv.ended⟩
        dsimp only
        rw [List.count_append]
        exact Nat.le_add_right_of_le inv.order.1
  | orderDeliver =>
      dsimp only at step
      rw [Option.ite_none_right_eq_some] at step
      obtain ⟨more, handled⟩ := step
      obtain ⟨running, control, taken, rfl⟩ := farewell_handled _ next _ handled
      unfold Control.step at taken
      dsimp only at taken
      split at taken
      · cases taken
      · cases taken
        refine farewell_finalized threads { s with
          control := { s.control with orderFinished := true }
          orderDelivered := s.orderDelivered + 1 } ⟨inv.hosts, inv.known, inv.waiting, inv.numbers, inv.links, inv.servers, inv.delivered,
            inv.counted, inv.fresh, inv.done, ⟨more, fun _ => Nat.succ_pos _⟩, fun ended => absurd ended running⟩

theorem farewell_run (some_thread : ∀ server, 0 < threads server) (events : List FarewellEvent) (s : Farewell)
    (ran : Machine.run (Farewell.step threads subscriberId numQueues) Farewell.init events = some s) : s.Inv threads :=
  Machine.run_preserves (Farewell.step threads subscriberId numQueues) (Farewell.Inv threads)
    (fun s event next inv step => farewell_step threads subscriberId numQueues some_thread s next event inv step)
    _ s (farewell_init threads) events ran

end

theorem subscribers_followed (threads : Nat × Nat → Nat) (some_thread : ∀ server, 0 < threads server) (subscriberId numQueues : Nat)
    (events : List FarewellEvent) (s : Farewell)
    (ran : Machine.run (Farewell.step threads subscriberId numQueues) Farewell.init events = some s) :
    (∀ server, (s.hosts server).subscribers = (present (s.hosts server).changes).map Prod.fst ∧
      ((s.hosts server).changes.filterMap Change.connection?).Nodup ∧
      ∀ index, ((s.hosts server).poll index).isSome = true ∧
        ((s.hosts server).followers index).polled ≤ (s.hosts server).changes.length ∧
        ((s.hosts server).followers index).subscribers =
          (present ((s.hosts server).changes.take ((s.hosts server).followers index).polled)).map (ownQueue index)) ∧
    (∀ server position otherId, (s.hosts server).changes[position]? = some (.removed otherId) →
      ∃ queues connection, (otherId, queues, connection) ∈ present ((s.hosts server).changes.take position) ∧ ∀ index,
        (position < ((s.hosts server).followers index).polled →
          ∃ entries, Mail.finished ∉ entries ∧ (s.hosts server).sent ⟨connection, index⟩ = entries ++ [.finished]) ∧
        (((s.hosts server).followers index).polled ≤ position → Mail.finished ∉ (s.hosts server).sent ⟨connection, index⟩)) ∧
    (s.control.ended = true → Connection.own 0 ∈ s.orderSent ∧ ∀ server connection, (server, connection) ∈ s.made →
      ∀ index < threads server, Mail.finished ∈ (s.hosts server).sent ⟨.own connection, index⟩) := by
  have inv := farewell_run threads subscriberId numQueues some_thread events s ran
  refine ⟨?_, ?_, ?_⟩
  · intro server
    refine ⟨(inv.hosts server).subscribers, (inv.hosts server).accepted.once, fun index => ⟨?_, (inv.hosts server).polled index,
      (inv.hosts server).maps index⟩⟩
    obtain ⟨next, polled, -⟩ := poll_inv (s.hosts server) (inv.hosts server) index
    exact Option.isSome_iff_exists.mpr ⟨next, polled⟩
  · intro server position otherId at_position
    exact removal_mail (s.hosts server) (inv.hosts server) position otherId at_position
  · intro ended
    obtain ⟨finished, empty⟩ := inv.ended ended
    refine ⟨List.count_pos_iff.mp (Nat.lt_of_lt_of_le (inv.order.2 finished) inv.order.1), ?_⟩
    intro server connection made index thread
    have gone : ∀ link ∈ s.control.storageQueues, (link.server, link.connection) ≠ (server, connection) := by
      rw [empty]
      intro link member
      cases member
    have positive := inv.done server connection made gone index thread
    exact List.count_pos_iff.mp (Nat.lt_of_lt_of_le positive (inv.delivered server connection index))

-- Two threads, a stranger that uses the ID first, and a second join.
theorem subscribers_followed_two_threads :
    ∃ s, Machine.run (Farewell.step (fun _ => 2) 5 1) Farewell.init
        [.orderAddSubscriber 5 (.own 0), .addSubscriber (0, 0) 5 1 0, .subscriberFinished (0, 0) 5, .connect (0, 0), .accept (0, 0) 0,
          .poll (0, 0) 0, .poll (0, 0) 0, .poll (0, 0) 0, .stop, .check, .subscriberFinished (0, 0) 5, .orderSubscriberFinished 5,
          .orderDeliver, .poll (0, 0) 0, .poll (0, 0) 1, .poll (0, 0) 1, .poll (0, 0) 1, .poll (0, 0) 1, .deliver (0, 0) 0 1,
          .deliver (0, 0) 0 0] = some s ∧
      s.control.ended = true ∧ Mail.finished ∈ (s.hosts (0, 0)).sent ⟨.own 0, 1⟩ := by
  have outcome : (Machine.run (Farewell.step (fun _ => 2) 5 1) Farewell.init
        [.orderAddSubscriber 5 (.own 0), .addSubscriber (0, 0) 5 1 0, .subscriberFinished (0, 0) 5, .connect (0, 0), .accept (0, 0) 0,
          .poll (0, 0) 0, .poll (0, 0) 0, .poll (0, 0) 0, .stop, .check, .subscriberFinished (0, 0) 5, .orderSubscriberFinished 5,
          .orderDeliver, .poll (0, 0) 0, .poll (0, 0) 1, .poll (0, 0) 1, .poll (0, 0) 1, .poll (0, 0) 1, .deliver (0, 0) 0 1,
          .deliver (0, 0) 0 0]).map (fun s => (s.control.ended, s.made)) = some (true, [((0, 0), 0)]) := by decide +kernel
  obtain ⟨s, ran, values⟩ := Option.map_eq_some_iff.mp outcome
  simp only [Prod.mk.injEq] at values
  obtain ⟨ended, made⟩ := values
  have followed := subscribers_followed (fun _ => 2) (fun _ => Nat.succ_pos 1) 5 1 _ s ran
  exact ⟨s, ran, ended, (followed.2.2 ended).2 (0, 0) 0 (made ▸ List.mem_cons_self) 1 (Nat.lt_succ_self 1)⟩

end ZipLog.Subscriber
