import ZipLog.System.Session
import ZipLog.System.Startup

set_option autoImplicit false

namespace ZipLog.System

open ZipLog.Network

theorem set_cases {α : Type} (items : List α) (place other : Nat) (new found : α) (access : (items.set place new)[other]? = some found) :
    (other = place ∧ found = new) ∨ items[other]? = some found := by
  by_cases same : place = other
  · subst same
    have bound := (List.getElem?_eq_some_iff.mp access).1
    rw [List.length_set] at bound
    rw [List.getElem?_set_self bound] at access
    exact Or.inl ⟨rfl, (Option.some.inj access).symm⟩
  · rw [List.getElem?_set_ne same] at access
    exact Or.inr access

theorem set_there {α : Type} (items : List α) (place : Nat) (old new : α) (access : items[place]? = some old) :
    (items.set place new)[place]? = some new := List.getElem?_set_self (List.getElem?_eq_some_iff.mp access).1

theorem snoc_cases {α : Type} (items : List α) (last : α) (place : Nat) (found : α) (access : (items ++ [last])[place]? = some found) :
    items[place]? = some found ∨ (place = items.length ∧ found = last) := by
  rcases Nat.lt_or_ge place items.length with inside | beyond
  · rw [List.getElem?_append_left inside] at access
    exact Or.inl access
  · have bound := (List.getElem?_eq_some_iff.mp access).1
    rw [List.length_append, List.length_singleton] at bound
    have same : place = items.length := by omega
    rw [same, List.getElem?_concat_length] at access
    exact Or.inr ⟨same, (Option.some.inj access).symm⟩

theorem snoc_there {α : Type} (items : List α) (last found : α) (place : Nat) (access : items[place]? = some found) :
    (items ++ [last])[place]? = some found := by
  rw [List.getElem?_append_left (List.getElem?_eq_some_iff.mp access).1]
  exact access

-- The introduction of a process has been handled at a storage server, or is about to be.
def Station.Has (station : Station) : Message → Prop
  | .clientIntro clientId _ _ => (station.server.clientState clientId).connected = true
  | .subscriberIntro subscriberId _ => subscriberId ∈ station.subscribers
  | _ => True

def Station.Knows (station : Station) (number : Nat) (message : Message) : Prop :=
  station.accepted = some (number, message) ∨ station.Has message

-- What only grows: the table, the storage servers with what they know, the processes.
structure Startup.Grows (s next : Startup) : Prop where
  addresses : ∀ place address, s.addresses place = some address → next.addresses place = some address
  stations : ∀ (other : Nat) (station : Station), s.stations[other]? = some station → ∃ later : Station,
    next.stations[other]? = some later ∧ later.site = station.site ∧
      ∀ number message, station.Knows number message → later.Knows number message
  processes : ∀ (number : Nat) (process : Process), s.processes[number]? = some process → ∃ later : Process,
    next.processes[number]? = some later ∧ later.introduction = process.introduction ∧ process.told ≤ later.told

theorem grows_same (s next : Startup) (addresses : next.addresses = s.addresses) (stations : next.stations = s.stations)
    (processes : next.processes = s.processes) : s.Grows next :=
  ⟨fun place address known => by rw [addresses]; exact known,
    fun other station present => ⟨station, by rw [stations]; exact present, rfl, fun _ _ knows => knows⟩,
    fun number process present => ⟨process, by rw [processes]; exact present, rfl, Nat.le_refl _⟩⟩

theorem set_process_grows (s : Startup) (number : Nat) (old new : Process) (present : s.processes[number]? = some old)
    (introduction : new.introduction = old.introduction) (told : old.told ≤ new.told) : s.Grows (s.setProcess number new) := by
  refine ⟨fun _ _ known => known, fun other station there => ⟨station, there, rfl, fun _ _ knows => knows⟩, ?_⟩
  intro other process there
  by_cases same : number = other
  · subst same
    rw [present] at there
    cases there
    exact ⟨new, set_there _ _ _ _ present, introduction, told⟩
  · exact ⟨process, (List.getElem?_set_ne same).trans there, rfl, Nat.le_refl _⟩

theorem set_station_grows (s : Startup) (number : Nat) (old new : Station) (present : s.stations[number]? = some old)
    (site : new.site = old.site) (knows : ∀ other message, old.Knows other message → new.Knows other message) :
    s.Grows (s.setStation number new) := by
  refine ⟨fun _ _ known => known, ?_, fun other process there => ⟨process, there, rfl, Nat.le_refl _⟩⟩
  intro other station there
  by_cases same : number = other
  · subst same
    rw [present] at there
    cases there
    exact ⟨new, set_there _ _ _ _ present, site, knows⟩
  · exact ⟨station, (List.getElem?_set_ne same).trans there, rfl, fun _ _ known => known⟩

-- A client is for one shard, a subscriber for all.
def Meant : Message → Nat → Prop
  | .clientIntro _ shardId _, shard => shardId = shard
  | .subscriberIntro _ _, _ => True
  | _, _ => False

-- A storage server that the ordering service has in its table.
def Startup.Listed (s : Startup) (site : Site) : Prop := s.addresses site.place = some site.address

-- A storage server that has had the introduction of a process.
def Startup.Contacted (s : Startup) (number : Nat) (message : Message) (site : Site) : Prop :=
  s.Listed site ∧ ∃ (other : Nat) (station : Station), s.stations[other]? = some station ∧ station.site = site ∧ station.Knows number message

-- A process that a storage server has to do with.
def Startup.Met (s : Startup) (site : Site) (number : Nat) (message : Message) : Prop :=
  s.Listed site ∧ Meant message site.shardId ∧ ∃ process : Process, s.processes[number]? = some process ∧ process.introduction = message ∧
    0 < process.told

theorem contacted_grows (s next : Startup) (grows : s.Grows next) (number : Nat) (message : Message) (site : Site)
    (contacted : s.Contacted number message site) : next.Contacted number message site := by
  obtain ⟨listed, other, station, present, same, knows⟩ := contacted
  obtain ⟨later, there, site_kept, still⟩ := grows.stations other station present
  exact ⟨grows.addresses _ _ listed, other, later, there, site_kept.trans same, still number message knows⟩

theorem met_grows (s next : Startup) (grows : s.Grows next) (site : Site) (number : Nat) (message : Message)
    (met : s.Met site number message) : next.Met site number message := by
  obtain ⟨listed, meant, process, present, introduction, told⟩ := met
  obtain ⟨later, there, same, more⟩ := grows.processes number process present
  exact ⟨grows.addresses _ _ listed, meant, later, there, same.trans introduction, Nat.lt_of_lt_of_le told more⟩

-- The map of send queues agrees with the storage servers it leads to. Inserts go to a
-- receive queue that a client thread of each of them polls.
def Role.Sound (known : Site → Prop) : Role → Prop
  | .client shutdown =>
      (∀ replicaId ∈ shutdown.loop.queues, ∃ site, known site ∧ site.place = (shutdown.loop.shardId, replicaId) ∧
        site.clientThreads = shutdown.clientQueues) ∧
      (shutdown.loop.queues ≠ [] → 1 ≤ shutdown.destination ∧ shutdown.destination ≤ shutdown.clientQueues)
  | .subscriber control =>
      ∀ link ∈ control.storageQueues, ∃ site, known site ∧ site.place = link.server ∧ link.sendQueues = Network.numQueues 0 site.subscriberThreads

-- The storage servers that a process has queues to.
def Role.places : Role → List Place
  | .client shutdown => shutdown.loop.queues.map (fun replicaId => (shutdown.loop.shardId, replicaId))
  | .subscriber control => control.storageQueues.map Subscriber.Link.server

def Role.Introduced : Role → Message → Prop
  | .client shutdown, message => ∃ numSlots, message = .clientIntro shutdown.loop.clientId shutdown.loop.shardId numSlots
  | .subscriber _, message => ∃ subscriberId pollingThreads, message = .subscriberIntro subscriberId pollingThreads

theorem sound_mono (role : Role) (known more : Site → Prop) (grows : ∀ site, known site → more site) (sound : role.Sound known) :
    role.Sound more := by
  cases role with
  | client shutdown =>
      refine ⟨?_, sound.2⟩
      intro replicaId member
      obtain ⟨site, there, rest⟩ := sound.1 replicaId member
      exact ⟨site, grows site there, rest⟩
  | subscriber control =>
      intro link member
      obtain ⟨site, there, rest⟩ := sound link member
      exact ⟨site, grows site there, rest⟩

-- What a process does between two messages of the ordering service about the storage
-- servers can only take queues away.
structure Role.Lessens (before after : Role) : Prop where
  introduced : ∀ message, before.Introduced message → after.Introduced message
  places : after.places ⊆ before.places
  sound : ∀ known, before.Sound known → after.Sound known

theorem client_lessens (before after : Client.Shutdown) (client : after.loop.clientId = before.loop.clientId)
    (shard : after.loop.shardId = before.loop.shardId) (queues : after.loop.queues ⊆ before.loop.queues)
    (clientQueues : after.clientQueues = before.clientQueues) (destination : after.destination = before.destination) :
    (Role.client before).Lessens (.client after) := by
  refine ⟨?_, ?_, ?_⟩
  · rintro message ⟨numSlots, sent⟩
    exact ⟨numSlots, by rw [client, shard]; exact sent⟩
  · intro place member
    obtain ⟨replicaId, inside, rfl⟩ := List.mem_map.mp member
    rw [shard]
    exact List.mem_map_of_mem (queues inside)
  · intro known sound
    refine ⟨?_, ?_⟩
    · intro replicaId member
      rw [shard, clientQueues]
      exact sound.1 replicaId (queues member)
    · intro some_queue
      rw [clientQueues, destination]
      exact sound.2 (fun none => some_queue (List.subset_nil.mp (none ▸ queues)))

theorem loop_turn_same (loop : Client.Loop) (now : Nat) : ((loop.switchEpoch now).send now).1.clientId = loop.clientId ∧
    ((loop.switchEpoch now).send now).1.shardId = loop.shardId ∧ ((loop.switchEpoch now).send now).1.queues = loop.queues := by
  have switched : (loop.switchEpoch now).clientId = loop.clientId ∧ (loop.switchEpoch now).shardId = loop.shardId ∧
      (loop.switchEpoch now).queues = loop.queues := by
    unfold Client.Loop.switchEpoch
    split
    · exact ⟨rfl, rfl, rfl⟩
    · split <;> exact ⟨rfl, rfl, rfl⟩
  have sent : ∀ other : Client.Loop, (other.send now).1.clientId = other.clientId ∧ (other.send now).1.shardId = other.shardId ∧
      (other.send now).1.queues = other.queues := by
    intro other
    unfold Client.Loop.send
    split
    · dsimp only
      split
      · exact ⟨rfl, rfl, rfl⟩
      · split <;> exact ⟨rfl, rfl, rfl⟩
    · exact ⟨rfl, rfl, rfl⟩
  obtain ⟨client, shard, queues⟩ := sent (loop.switchEpoch now)
  exact ⟨client.trans switched.1, shard.trans switched.2.1, queues.trans switched.2.2⟩

theorem shutdown_lessens (shutdown next : Client.Shutdown) (event : Client.ShutdownEvent) (uninformed : clientInformed event = false)
    (stepped : shutdown.step event = some next) : (Role.client shutdown).Lessens (.client next) := by
  cases event with
  | storageInfo connections => cases uninformed
  | check =>
      simp only [Client.Shutdown.step] at stepped
      split at stepped
      · cases stepped
      · split at stepped
        · cases stepped
          unfold Client.Loop.checkStop
          split <;> exact client_lessens shutdown _ rfl rfl (List.Subset.refl _) rfl rfl
        · cases stepped
          exact client_lessens shutdown _ rfl rfl (List.Subset.refl _) rfl rfl
  | turn now =>
      cases stepped
      obtain ⟨client, shard, queues⟩ := loop_turn_same shutdown.loop now
      exact client_lessens shutdown _ client shard (by rw [queues]; exact List.Subset.refl _) rfl rfl
  | insertAck ack =>
      cases stepped
      obtain ⟨client, shard, queues, _⟩ := insert_ack_same shutdown.loop ack
      exact client_lessens shutdown _ client shard (by rw [queues]; exact List.Subset.refl _) rfl rfl
  | storageFinished shardId replicaId =>
      cases stepped
      obtain ⟨_, fewer⟩ := Client.storage_finished_fewer shutdown.loop shardId replicaId
      unfold Client.Loop.storageFinished at fewer ⊢
      split at fewer
      · rename_i foreign
        rw [if_pos foreign]
        exact client_lessens shutdown _ rfl rfl fewer rfl rfl
      · rename_i ours
        rw [if_neg ours]
        exact client_lessens shutdown _ rfl rfl fewer rfl rfl
  | _ =>
      cases stepped
      exact client_lessens shutdown _ rfl rfl (List.Subset.refl _) rfl rfl

theorem subscriber_lessens (before after : Subscriber.Control) (queues : after.storageQueues ⊆ before.storageQueues) :
    (Role.subscriber before).Lessens (.subscriber after) :=
  ⟨fun _ introduced => introduced, List.map_subset _ queues, fun _ sound link member => sound link (queues member)⟩

theorem finalized_lessens (before after : Subscriber.Control) (queues : after.storageQueues ⊆ before.storageQueues) :
    (Role.subscriber before).Lessens (.subscriber after.finalized) :=
  subscriber_lessens before _ (by rw [(Subscriber.finalized_same after).1]; exact queues)

theorem control_lessens (control next : Subscriber.Control) (event : Subscriber.ControlEvent)
    (uninformed : subscriberInformed event = false) (stepped : control.step event = some next) :
    (Role.subscriber control).Lessens (.subscriber next) := by
  cases event with
  | storageInfo connections => cases uninformed
  | stop =>
      cases stepped
      exact subscriber_lessens control _ (List.Subset.refl _)
  | check =>
      obtain ⟨_, checked⟩ := Option.ite_none_left_eq_some.mp stepped
      cases checked
      unfold Subscriber.Control.check
      split <;> exact subscriber_lessens control _ (List.Subset.refl _)
  | orderFinished =>
      obtain ⟨_, finished⟩ := Option.ite_none_left_eq_some.mp stepped
      cases finished
      exact finalized_lessens control { control with orderFinished := true } (List.Subset.refl _)
  | storageFinished shardId replicaId =>
      simp only [Subscriber.Control.step] at stepped
      split at stepped
      · cases stepped
        exact subscriber_lessens control _ (List.Subset.refl _)
      · split at stepped
        · cases stepped
          exact finalized_lessens control _ List.filter_sublist.subset
        · cases stepped
          exact finalized_lessens control _ (List.Subset.refl _)

theorem connect_introduced (role : Role) (connection : Option StorageIntro) (message : Message) (introduced : role.Introduced message) :
    (role.connect connection).Introduced message := by
  cases role with
  | client shutdown =>
      have same : (shutdown.connect connection).loop.clientId = shutdown.loop.clientId ∧
          (shutdown.connect connection).loop.shardId = shutdown.loop.shardId := by
        unfold Client.Shutdown.connect
        split
        · exact ⟨rfl, rfl⟩
        · split <;> exact ⟨rfl, rfl⟩
      obtain ⟨numSlots, sent⟩ := introduced
      exact ⟨numSlots, by rw [same.1, same.2]; exact sent⟩
  | subscriber control => exact introduced

-- A storage server that answers is added as what it is.
theorem connect_sound (role : Role) (known : Site → Prop) (station : Station) (sound : role.Sound known) (there : known station.site)
    (threads : 0 < station.site.clientThreads) : (role.connect (some (station.offer role))).Sound known := by
  cases role with
  | client shutdown =>
      simp only [Role.connect, Client.Shutdown.connect]
      split
      · rename_i accepts
        obtain ⟨offered, same, _, shard, fresh, uniform⟩ := accepts
        cases same
        simp only [Station.offer] at shard fresh uniform ⊢
        by_cases first : shutdown.loop.queues = []
        · refine ⟨?_, ?_⟩
          · intro replicaId member
            dsimp only at member ⊢
            rw [first, List.nil_append, List.mem_singleton] at member
            refine ⟨station.site, there, ?_, by rw [if_pos first]⟩
            rw [member, ← shard]
            rfl
          · intro _
            dsimp only
            rw [if_pos first, if_pos first]
            have inside := Nat.mod_lt (shutdown.loop.clientId / numShards) threads
            omega
        · have equal := uniform.resolve_left first
          refine ⟨?_, ?_⟩
          · intro replicaId member
            dsimp only at member ⊢
            rw [if_neg first]
            cases List.mem_append.mp member with
            | inl old => exact sound.1 replicaId old
            | inr new =>
                refine ⟨station.site, there, ?_, equal.symm⟩
                rw [List.mem_singleton.mp new, ← shard]
                rfl
          · intro _
            dsimp only
            rw [if_neg first, if_neg first]
            exact sound.2 first
      · exact sound
  | subscriber control =>
      simp only [Role.connect, Subscriber.Control.connect]
      split
      · intro link member
        cases List.mem_append.mp member with
        | inl old => exact sound link old
        | inr new =>
            rw [List.mem_singleton.mp new]
            exact ⟨station.site, there, rfl, rfl⟩
      · exact sound

end ZipLog.System
