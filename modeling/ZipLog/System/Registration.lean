import ZipLog.System.Contacts

set_option autoImplicit false

namespace ZipLog.System

open ZipLog.Network

theorem add_client_connects (server : Storage.Server) (clientId : Nat) (valid : clientId < maxClients) (other : Nat) :
    ((server.addClient clientId).clientState other).connected = true ↔
      other = clientId ∨ (server.clientState other).connected = true := by
  unfold Storage.Server.addClient
  dsimp only
  split
  · rename_i refused
    have known := refused.resolve_left (Nat.not_le_of_lt valid)
    exact ⟨Or.inr, fun either => either.elim (fun same => by rw [same]; exact known) id⟩
  · by_cases same : other = clientId
    · subst same
      rw [Storage.client_state_same]
      exact ⟨fun _ => Or.inl rfl, fun _ => rfl⟩
    · rw [Storage.client_state_other _ _ _ _ same]
      exact ⟨Or.inr, fun either => either.resolve_left same⟩

structure Process.Good (s : Startup) (number : Nat) (process : Process) : Prop where
  introduced : process.role.Introduced process.introduction
  valid : ∀ clientId shardId numSlots, process.introduction = .clientIntro clientId shardId numSlots → clientId < maxClients
  once : process.inbox.length + process.told ≤ 1
  untold : process.told = 0 → process.connecting = [] ∧ process.role.places = []
  addresses : ∀ address, (address ∈ process.connecting ∨ ∃ info ∈ process.inbox, address ∈ info) →
    ∃ place, s.addresses place = some address ∧ Meant process.introduction place.1
  sound : process.role.Sound (s.Contacted number process.introduction)

structure Station.Good (s : Startup) (station : Station) : Prop where
  threads : 0 < station.site.clientThreads
  crashed : station.crashed = true → station.site.subscriberThreads = 0
  accepted : ∀ number message, station.accepted = some (number, message) → s.Met station.site number message
  clients : ∀ clientId, (station.server.clientState clientId).connected = true →
    ∃ number shardId numSlots, s.Met station.site number (.clientIntro clientId shardId numSlots)
  subscribers : ∀ subscriberId ∈ station.subscribers,
    ∃ number pollingThreads, s.Met station.site number (.subscriberIntro subscriberId pollingThreads)

-- What accept of the ordering service has returned comes from a process of which it has
-- not heard before.
def Startup.Pending (s : Startup) (accepted : Accepted) : Prop :=
  match accepted.peer with
  | .station number => ∃ station, s.stations[number]? = some station ∧ accepted.message = station.site.introduction ∧
      accepted.ip = station.site.ip
  | .process number => ∃ process, s.processes[number]? = some process ∧ accepted.message = process.introduction ∧
      process.inbox = [] ∧ process.told = 0

structure Startup.Inv (s : Startup) : Prop where
  pending : ∀ accepted, s.accepted = some accepted → s.Pending accepted
  apart : ∀ (first second : Nat) (a b : Station), s.stations[first]? = some a → s.stations[second]? = some b →
    a.site.address = b.site.address → first = second
  table : ∀ place address, s.addresses place = some address →
    ∃ (number : Nat) (station : Station), s.stations[number]? = some station ∧ station.site.place = place ∧ station.site.address = address
  queues : ∀ place, (s.addresses place).isSome = true ↔ place.2 ∈ s.order.state.storageQueues place.1
  processes : ∀ (number : Nat) (process : Process), s.processes[number]? = some process → process.Good s number
  stations : ∀ (number : Nat) (station : Station), s.stations[number]? = some station → station.Good s

theorem process_grows (s next : Startup) (grows : s.Grows next) (number : Nat) (process : Process) (good : process.Good s number) :
    process.Good next number := by
  refine ⟨good.introduced, good.valid, good.once, good.untold, ?_, sound_mono _ _ _ (contacted_grows s next grows number _) good.sound⟩
  intro address member
  obtain ⟨place, known, meant⟩ := good.addresses address member
  exact ⟨place, grows.addresses place address known, meant⟩

theorem station_grows (s next : Startup) (grows : s.Grows next) (station : Station) (good : station.Good s) : station.Good next := by
  refine ⟨good.threads, good.crashed, fun number message waiting => met_grows s next grows _ _ _ (good.accepted number message waiting), ?_, ?_⟩
  · intro clientId connected
    obtain ⟨number, shardId, numSlots, met⟩ := good.clients clientId connected
    exact ⟨number, shardId, numSlots, met_grows s next grows _ _ _ met⟩
  · intro subscriberId member
    obtain ⟨number, pollingThreads, met⟩ := good.subscribers subscriberId member
    exact ⟨number, pollingThreads, met_grows s next grows _ _ _ met⟩

-- The sites do not change: what is said of them alone is kept.
theorem sites_kept (s next : Startup) (inv : s.Inv) (grows : s.Grows next) (addresses : next.addresses = s.addresses)
    (sites : ∀ (number : Nat) (station : Station), next.stations[number]? = some station →
      ∃ old : Station, s.stations[number]? = some old ∧ old.site = station.site) :
    (∀ (first second : Nat) (a b : Station), next.stations[first]? = some a → next.stations[second]? = some b →
      a.site.address = b.site.address → first = second) ∧
    ∀ place address, next.addresses place = some address →
      ∃ (number : Nat) (station : Station), next.stations[number]? = some station ∧ station.site.place = place ∧ station.site.address = address := by
  refine ⟨?_, ?_⟩
  · intro first second a b left right same
    obtain ⟨old_a, there_a, site_a⟩ := sites first a left
    obtain ⟨old_b, there_b, site_b⟩ := sites second b right
    exact inv.apart first second old_a old_b there_a there_b (by rw [site_a, site_b]; exact same)
  · intro place address known
    rw [addresses] at known
    obtain ⟨number, station, present, at_place, at_address⟩ := inv.table place address known
    obtain ⟨later, there, site, _⟩ := grows.stations number station present
    exact ⟨number, later, there, by rw [site]; exact at_place, by rw [site]; exact at_address⟩

-- A process changes.
theorem process_inv (s : Startup) (inv : s.Inv) (number : Nat) (old new : Process) (present : s.processes[number]? = some old)
    (introduction : new.introduction = old.introduction) (told : old.told ≤ new.told)
    (heard : s.accepted = none ∨ (old.inbox = [] → old.told = 0 → new.inbox = [] ∧ new.told = 0)) (good : new.Good s number) :
    (s.setProcess number new).Inv := by
  have grows := set_process_grows s number old new present introduction told
  obtain ⟨apart, table⟩ := sites_kept s (s.setProcess number new) inv grows rfl (fun other station there => ⟨station, there, rfl⟩)
  refine ⟨?_, apart, table, inv.queues, ?_, fun other station there => station_grows s _ grows station (inv.stations other station there)⟩
  · intro accepted waiting
    have before := inv.pending accepted waiting
    unfold Startup.Pending at before ⊢
    cases peer : accepted.peer with
    | station other =>
        rw [peer] at before
        exact before
    | process other =>
        rw [peer] at before
        obtain ⟨process, there, message, empty, untold⟩ := before
        by_cases same : number = other
        · subst same
          rw [present] at there
          cases there
          have heard := heard.resolve_left (fun none => by rw [show s.accepted = some accepted from waiting] at none; cases none)
          obtain ⟨still, never⟩ := heard empty untold
          exact ⟨new, set_there _ _ _ _ present, by rw [introduction]; exact message, still, never⟩
        · exact ⟨process, (List.getElem?_set_ne same).trans there, message, empty, untold⟩
  · intro other process there
    cases set_cases _ _ _ _ _ there with
    | inl mine =>
        rw [mine.1, mine.2]
        exact process_grows s _ grows number new good
    | inr others => exact process_grows s _ grows other process (inv.processes other process others)

-- A storage server changes.
theorem station_inv (s : Startup) (inv : s.Inv) (number : Nat) (old new : Station) (present : s.stations[number]? = some old)
    (site : new.site = old.site) (knows : ∀ other message, old.Knows other message → new.Knows other message) (good : new.Good s) :
    (s.setStation number new).Inv := by
  have grows := set_station_grows s number old new present site knows
  have sites : ∀ (other : Nat) (station : Station), (s.setStation number new).stations[other]? = some station →
      ∃ before : Station, s.stations[other]? = some before ∧ before.site = station.site := by
    intro other station there
    cases set_cases _ _ _ _ _ there with
    | inl mine =>
        rw [mine.1, mine.2]
        exact ⟨old, present, site.symm⟩
    | inr others => exact ⟨station, others, rfl⟩
  obtain ⟨apart, table⟩ := sites_kept s (s.setStation number new) inv grows rfl sites
  refine ⟨?_, apart, table, inv.queues, fun other process there => process_grows s _ grows other process (inv.processes other process there), ?_⟩
  · intro accepted waiting
    have before := inv.pending accepted waiting
    unfold Startup.Pending at before ⊢
    cases peer : accepted.peer with
    | station other =>
        rw [peer] at before
        obtain ⟨station, there, message, ip⟩ := before
        obtain ⟨later, at_last, same, _⟩ := grows.stations other station there
        exact ⟨later, at_last, by rw [same]; exact message, by rw [same]; exact ip⟩
    | process other =>
        rw [peer] at before
        exact before
  · intro other station there
    cases set_cases _ _ _ _ _ there with
    | inl mine =>
        rw [mine.2]
        exact station_grows s _ grows new good
    | inr others => exact station_grows s _ grows station (inv.stations other station others)

theorem client_step_cases (s next : Startup) (number : Nat) (event : Client.ShutdownEvent)
    (stepped : s.step (.client number event) = some next) : ∃ (process : Process) (shutdown after : Client.Shutdown),
      s.processes[number]? = some process ∧ process.role = .client shutdown ∧ clientInformed event = false ∧
        shutdown.step event = some after ∧ next = s.setProcess number { process with role := .client after } := by
  simp only [Startup.step] at stepped
  split at stepped
  · cases stepped
  · rename_i process present
    split at stepped
    · cases stepped
    · rename_i shutdown role
      obtain ⟨⟨_, uninformed⟩, stepped⟩ := Option.ite_none_right_eq_some.mp stepped
      obtain ⟨after, turned, result⟩ := Option.map_eq_some_iff.mp stepped
      exact ⟨process, shutdown, after, present, role, uninformed, turned, result.symm⟩

theorem subscriber_step_cases (s next : Startup) (number : Nat) (event : Subscriber.ControlEvent)
    (stepped : s.step (.subscriber number event) = some next) : ∃ (process : Process) (control after : Subscriber.Control),
      s.processes[number]? = some process ∧ process.role = .subscriber control ∧ subscriberInformed event = false ∧
        control.step event = some after ∧ next = s.setProcess number { process with role := .subscriber after } := by
  simp only [Startup.step] at stepped
  split at stepped
  · cases stepped
  · rename_i process present
    split at stepped
    · cases stepped
    · rename_i control role
      obtain ⟨⟨_, uninformed⟩, stepped⟩ := Option.ite_none_right_eq_some.mp stepped
      obtain ⟨after, turned, result⟩ := Option.map_eq_some_iff.mp stepped
      exact ⟨process, control, after, present, role, uninformed, turned, result.symm⟩

section

variable (s : Startup) (inv : s.Inv)

include inv

theorem launch_storage_inv (site : Site) (threads : 0 < site.clientThreads)
    (vacant : ∀ station ∈ s.stations, station.site.address ≠ site.address) :
    Startup.Inv { s with
      accepted := some ⟨.station s.stations.length, site.ip, site.introduction⟩
      stations := s.stations ++ [Station.init site] } := by
  have grows : s.Grows { s with
      accepted := some ⟨.station s.stations.length, site.ip, site.introduction⟩
      stations := s.stations ++ [Station.init site] } :=
    ⟨fun _ _ known => known, fun other station present => ⟨station, snoc_there _ _ _ _ present, rfl, fun _ _ knows => knows⟩,
      fun number process present => ⟨process, present, rfl, Nat.le_refl _⟩⟩
  refine ⟨?_, ?_, ?_, inv.queues, fun number process there => process_grows s _ grows number process (inv.processes number process there), ?_⟩
  · intro accepted waiting
    cases waiting
    exact ⟨Station.init site, List.getElem?_concat_length, rfl, rfl⟩
  · intro first second a b left right same
    rcases snoc_cases _ _ _ _ left with old_a | ⟨at_a, rfl⟩
    · rcases snoc_cases _ _ _ _ right with old_b | ⟨_, rfl⟩
      · exact inv.apart first second a b old_a old_b same
      · exact absurd same (vacant a (List.mem_of_getElem? old_a))
    · rcases snoc_cases _ _ _ _ right with old_b | ⟨at_b, _⟩
      · exact absurd same.symm (vacant b (List.mem_of_getElem? old_b))
      · rw [at_a, at_b]
  · intro place address known
    obtain ⟨number, station, present, at_place, at_address⟩ := inv.table place address known
    exact ⟨number, station, snoc_there _ _ _ _ present, at_place, at_address⟩
  · intro number station there
    rcases snoc_cases _ _ _ _ there with old | ⟨_, rfl⟩
    · exact station_grows s _ grows station (inv.stations number station old)
    · refine ⟨threads, fun crashed => (by cases crashed), fun _ _ waiting => (by cases waiting), fun _ connected => (by cases connected),
        fun _ member => (by cases member)⟩

theorem launch_inv (next : Startup) (ip : Nat) (role : Role) (message : Message) (introduced : role.Introduced message)
    (valid : ∀ clientId shardId numSlots, message = .clientIntro clientId shardId numSlots → clientId < maxClients)
    (alone : role.places = []) (sound : ∀ known, role.Sound known) (stepped : s.launch ip role message = some next) : next.Inv := by
  obtain ⟨idle, result⟩ := Option.ite_none_right_eq_some.mp stepped
  cases result
  have grows : s.Grows { s with
      accepted := some ⟨.process s.processes.length, ip, message⟩
      processes := s.processes ++ [⟨role, message, 0, [], []⟩] } :=
    ⟨fun _ _ known => known, fun other station present => ⟨station, present, rfl, fun _ _ knows => knows⟩,
      fun number process present => ⟨process, snoc_there _ _ _ _ present, rfl, Nat.le_refl _⟩⟩
  refine ⟨?_, inv.apart, inv.table, inv.queues, ?_, fun other station there => station_grows s _ grows station (inv.stations other station there)⟩
  · intro accepted waiting
    cases waiting
    exact ⟨⟨role, message, 0, [], []⟩, List.getElem?_concat_length, rfl, rfl, rfl⟩
  · intro number process there
    rcases snoc_cases _ _ _ _ there with old | ⟨_, rfl⟩
    · exact process_grows s _ grows number process (inv.processes number process old)
    · refine ⟨introduced, valid, Nat.zero_le _, fun _ => ⟨rfl, alone⟩, ?_, sound _⟩
      rintro address (waiting | ⟨info, member, _⟩)
      · cases waiting
      · cases member

-- The ordering service has handled what accept returned, without any change to its table.
theorem handled_inv (order : Order.Loop) (queues : order.state.storageQueues = s.order.state.storageQueues) :
    Startup.Inv { s with accepted := none, order := order } := by
  have grows := grows_same s { s with accepted := none, order := order } rfl rfl rfl
  refine ⟨fun _ waiting => (by cases waiting), inv.apart, inv.table, ?_,
    fun number process there => process_grows s _ grows number process (inv.processes number process there),
    fun other station there => station_grows s _ grows station (inv.stations other station there)⟩
  intro place
  rw [inv.queues place]
  exact (congrArg (fun lists => place.2 ∈ lists place.1) queues.symm).to_iff

-- A newcomer is sent one list at most, of the storage servers of its shard.
theorem deliver_inv (idle : s.accepted = none) (number : Nat) (process : Process) (present : s.processes[number]? = some process)
    (empty : process.inbox = []) (untold : process.told = 0) (infos : List (List Place)) (one : infos.length ≤ 1)
    (meant : ∀ places ∈ infos, ∀ place ∈ places, Meant process.introduction place.1) : (s.deliver (.process number) infos).Inv := by
  have good := inv.processes number process present
  have stepped : s.deliver (.process number) infos =
      s.setProcess number { process with inbox := process.inbox ++ infos.map (fun places => places.filterMap s.addresses) } := by
    rw [Startup.deliver, present]
  rw [stepped]
  refine process_inv s inv number process _ present rfl (Nat.le_refl _) (Or.inl idle)
    ⟨good.introduced, good.valid, ?_, good.untold, ?_, good.sound⟩
  · rw [empty, List.nil_append, List.length_map, untold]
    exact one
  · rintro address (waiting | ⟨info, member, inside⟩)
    · exact good.addresses address (Or.inl waiting)
    · rw [empty, List.nil_append] at member
      obtain ⟨places, listed, rfl⟩ := List.mem_map.mp member
      obtain ⟨place, among, known⟩ := List.mem_filterMap.mp inside
      exact ⟨place, known, meant places listed place among⟩

-- A storage server is entered in the table under its own address.
theorem entered_inv (number : Nat) (station : Station) (present : s.stations[number]? = some station) (order : Order.Loop)
    (vacant : s.addresses station.site.place = none)
    (queues : order.state.storageQueues = Function.update s.order.state.storageQueues station.site.shardId
      (s.order.state.storageQueues station.site.shardId ++ [station.site.replicaId])) :
    Startup.Inv { s with
      accepted := none
      order := order
      addresses := Function.update s.addresses station.site.place (some station.site.address) } := by
  have grows : s.Grows { s with
      accepted := none
      order := order
      addresses := Function.update s.addresses station.site.place (some station.site.address) } := by
    refine ⟨?_, fun other station there => ⟨station, there, rfl, fun _ _ knows => knows⟩,
      fun other process there => ⟨process, there, rfl, Nat.le_refl _⟩⟩
    intro place address before
    by_cases mine : place = station.site.place
    · rw [mine, vacant] at before
      cases before
    · exact (Function.update_of_ne mine _ _).trans before
  refine ⟨fun _ waiting => (by cases waiting), inv.apart, ?_, ?_,
    fun other process there => process_grows s _ grows other process (inv.processes other process there),
    fun other station there => station_grows s _ grows station (inv.stations other station there)⟩
  · intro place address entered
    by_cases mine : place = station.site.place
    · subst mine
      cases (show some station.site.address = some address from
        (Function.update_self station.site.place (some station.site.address) s.addresses).symm.trans entered)
      exact ⟨number, station, present, rfl, rfl⟩
    · exact inv.table place address ((Function.update_of_ne mine _ _).symm.trans entered)
  · intro place
    have before := inv.queues place
    dsimp only
    rw [queues]
    by_cases mine : place = station.site.place
    · subst mine
      rw [Function.update_self, show station.site.place.1 = station.site.shardId from rfl, Function.update_self]
      exact ⟨fun _ => List.mem_append_right _ (List.mem_singleton_self _), fun _ => rfl⟩
    · rw [Function.update_of_ne mine, before]
      by_cases shard : place.1 = station.site.shardId
      · rw [shard, Function.update_self, List.mem_append, List.mem_singleton]
        exact ⟨Or.inl, fun either => either.resolve_right (fun replica => mine (Prod.ext shard replica))⟩
      · rw [Function.update_of_ne shard]

theorem introduce_station_inv (number : Nat) (station : Station) (present : s.stations[number]? = some station) (next : Startup)
    (stepped : s.introduce ⟨.station number, station.site.ip, station.site.introduction⟩ = some next) : next.Inv := by
  obtain ⟨order, added, result⟩ := Option.map_eq_some_iff.mp stepped
  rw [← result]
  have known : (s.addresses station.site.place).isSome = true ↔ station.site.replicaId ∈ s.order.state.storageQueues station.site.shardId :=
    inv.queues station.site.place
  unfold Order.Loop.addStorage at added
  by_cases refused : s.order.state.numShards ≤ station.site.shardId ∨ maxReplicas ≤ station.site.replicaId ∨
      (s.addresses station.site.place).isSome = true
  · rw [if_pos (by rw [← known]; exact refused)] at added
    rw [show (if s.order.state.numShards ≤ station.site.shardId ∨ maxReplicas ≤ station.site.replicaId ∨
      (s.addresses (station.site.shardId, station.site.replicaId)).isSome = true then s.addresses else _) = s.addresses from if_pos refused,
      ← Option.some.inj added]
    exact handled_inv s inv s.order rfl
  · have fresh : ¬ (s.order.state.numShards ≤ station.site.shardId ∨ maxReplicas ≤ station.site.replicaId ∨
        station.site.replicaId ∈ s.order.state.storageQueues station.site.shardId) := by
      rw [← known]
      exact refused
    rw [if_neg fresh] at added
    obtain ⟨_, added⟩ := Option.ite_none_right_eq_some.mp added
    rw [show (if s.order.state.numShards ≤ station.site.shardId ∨ maxReplicas ≤ station.site.replicaId ∨
      (s.addresses (station.site.shardId, station.site.replicaId)).isSome = true then s.addresses else _) = _ from if_neg refused]
    refine entered_inv s inv number station present order ?_ ?_
    · push Not at refused
      exact Option.not_isSome_iff_eq_none.mp refused.2.2
    · rw [← Option.some.inj added]
      dsimp only
      rw [Order.State.addStorage, if_neg fresh]

-- What accept has returned is introduced as what it is.
theorem introduce_inv (accepted : Accepted) (waiting : s.accepted = some accepted) (next : Startup) (stepped : s.introduce accepted = some next) :
    next.Inv := by
  have pending := inv.pending accepted waiting
  obtain ⟨peer, ip, message⟩ := accepted
  cases peer with
  | station number =>
      obtain ⟨station, present, rfl, rfl⟩ := pending
      exact introduce_station_inv s inv number station present next stepped
  | process number =>
      obtain ⟨process, present, sent, empty, untold⟩ := pending
      dsimp only at sent
      have introduced := (inv.processes number process present).introduced
      cases role : process.role with
      | client shutdown =>
          rw [role] at introduced
          obtain ⟨numSlots, introduction⟩ := introduced
          rw [introduction] at sent
          subst sent
          cases stepped
          refine deliver_inv _ (handled_inv s inv _ ?_) rfl number process present empty untold _ ?_ ?_
          · exact (Order.keeps_add_client s.order.state shutdown.loop.clientId shutdown.loop.shardId numSlots).queues
          · refine (List.length_filterMap_le _ _).trans ?_
            unfold Order.State.addClient
            split <;> simp
          · intro places member place among
            obtain ⟨output, inside, named⟩ := List.mem_filterMap.mp member
            rw [introduction]
            unfold storageInfo? at named
            split at named
            · cases named
              obtain ⟨replicaId, _, rfl⟩ := List.mem_map.mp among
              rfl
            · cases named
      | subscriber control =>
          rw [role] at introduced
          obtain ⟨subscriberId, pollingThreads, introduction⟩ := introduced
          rw [introduction] at sent
          subst sent
          cases stepped
          refine deliver_inv _ (handled_inv s inv _ ?_) rfl number process present empty untold _ ?_ ?_
          · unfold Order.Loop.addSubscriber
            split <;> rfl
          · split <;> simp
          · intro _ _ place _
            rw [introduction]
            trivial

-- The ordering service does not change its table otherwise.
theorem order_inv (event : Order.Event) (others : adds event = false) (order : Order.Loop) (stepped : s.order.step event = some order) :
    Startup.Inv { s with order := order } := by
  have queues : order.state.storageQueues = s.order.state.storageQueues := by
    obtain ⟨⟨_, tells, _⟩, _⟩ := Order.step_tells s.order order event (fun _ _ same => by rw [same] at others; cases others)
      (fun _ _ _ same => by rw [same] at others; cases others) (fun _ same => by rw [same] at others; cases others) stepped
    exact tells.queues
  have grows := grows_same s { s with order := order } rfl rfl rfl
  refine ⟨inv.pending, inv.apart, inv.table, ?_,
    fun number process there => process_grows s _ grows number process (inv.processes number process there),
    fun number station there => station_grows s _ grows station (inv.stations number station there)⟩
  intro place
  dsimp only
  rw [queues]
  exact inv.queues place

theorem bind_inv (number : Nat) (station : Station) (present : s.stations[number]? = some station) :
    (s.setStation number { station with bound := true }).Inv := by
  have good := inv.stations number station present
  exact station_inv s inv number station _ present rfl (fun _ _ knows => knows)
    ⟨good.threads, good.crashed, good.accepted, good.clients, good.subscribers⟩

theorem inform_inv (number : Nat) (process : Process) (present : s.processes[number]? = some process) (info : List SocketAddress)
    (rest : List (List SocketAddress)) (inbox : process.inbox = info :: rest) :
    (s.setProcess number { process with told := process.told + 1, inbox := rest, connecting := info }).Inv := by
  have good := inv.processes number process present
  refine process_inv s inv number process _ present rfl (Nat.le_succ _) (Or.inr (fun empty => by rw [inbox] at empty; cases empty))
    ⟨good.introduced, good.valid, ?_, fun untold => absurd untold (Nat.succ_ne_zero _), ?_, good.sound⟩
  · have once := good.once
    rw [inbox, List.length_cons] at once
    dsimp only
    omega
  · rintro address (waiting | ⟨other, member, inside⟩)
    · exact good.addresses address (Or.inr ⟨info, by rw [inbox]; exact List.mem_cons_self, waiting⟩)
    · exact good.addresses address (Or.inr ⟨other, by rw [inbox]; exact List.mem_cons_of_mem _ member, inside⟩)

-- What a process does on its own.
theorem role_inv (number : Nat) (process : Process) (present : s.processes[number]? = some process) (role : Role)
    (lessens : process.role.Lessens role) : (s.setProcess number { process with role := role }).Inv := by
  have good := inv.processes number process present
  refine process_inv s inv number process _ present rfl (Nat.le_refl _) (Or.inr (fun empty untold => ⟨empty, untold⟩))
    ⟨lessens.introduced _ good.introduced, good.valid, good.once, ?_, good.addresses, lessens.sound _ good.sound⟩
  intro untold
  obtain ⟨idle, alone⟩ := good.untold untold
  exact ⟨idle, List.subset_nil.mp (alone ▸ lessens.places)⟩

-- The address of a list leads to the storage server that the list was about.
theorem address_met (number : Nat) (process : Process) (present : s.processes[number]? = some process) (address : SocketAddress)
    (member : address ∈ process.connecting) (other : Nat) (station : Station) (there : s.stations[other]? = some station)
    (same : station.site.address = address) : s.Met station.site number process.introduction := by
  have good := inv.processes number process present
  obtain ⟨place, known, meant⟩ := good.addresses address (Or.inl member)
  obtain ⟨listed, found, at_last, at_place, at_address⟩ := inv.table place address known
  have one := inv.apart listed other found station at_last there (at_address.trans same.symm)
  subst one
  rw [there] at at_last
  cases at_last
  subst at_place
  refine ⟨known.trans (congrArg some same.symm), meant, process, present, rfl, Nat.pos_of_ne_zero ?_⟩
  intro untold
  rw [(good.untold untold).1] at member
  cases member

theorem connect_failed_inv (number : Nat) (process : Process) (present : s.processes[number]? = some process) (address : SocketAddress)
    (rest : List SocketAddress) (connecting : process.connecting = address :: rest) :
    (s.setProcess number { process with connecting := rest, role := process.role.connect none }).Inv := by
  have good := inv.processes number process present
  have same : process.role.connect none = process.role := by cases process.role <;> rfl
  rw [same]
  refine process_inv s inv number process _ present rfl (Nat.le_refl _) (Or.inr (fun empty untold => ⟨empty, untold⟩))
    ⟨good.introduced, good.valid, good.once, ?_, ?_, good.sound⟩
  · intro untold
    have idle := (good.untold untold).1
    rw [connecting] at idle
    cases idle
  · rintro other (waiting | inside)
    · exact good.addresses other (Or.inl (by rw [connecting]; exact List.mem_cons_of_mem _ waiting))
    · exact good.addresses other (Or.inr inside)

theorem connect_accepted_inv (number : Nat) (process : Process) (present : s.processes[number]? = some process) (address : SocketAddress)
    (rest : List SocketAddress) (connecting : process.connecting = address :: rest) (other : Nat) (station : Station)
    (there : s.stations[other]? = some station) (listening : station.listening = true) (same : station.site.address = address)
    (returned : Bool) :
    ((s.setStation other { station with accepted := some (number, process.introduction) }).setProcess number
      { process with
        connecting := rest
        role := process.role.connect (if returned then some (station.offer process.role) else none) }).Inv := by
  have server := inv.stations other station there
  have met := address_met s inv number process present address (by rw [connecting]; exact List.mem_cons_self) other station there same
  have vacant : station.accepted = none := by
    simp only [Station.listening, Bool.and_eq_true, Option.isNone_iff_eq_none] at listening
    exact listening.2
  have accepted : (s.setStation other { station with accepted := some (number, process.introduction) }).Inv := by
    refine station_inv s inv other station _ there rfl ?_ ⟨server.threads, server.crashed, ?_, server.clients, server.subscribers⟩
    · rintro _ _ (waiting | has)
      · rw [vacant] at waiting
        cases waiting
      · exact Or.inr has
    · intro _ _ waiting
      cases waiting
      exact met
  cases returned with
  | false => exact connect_failed_inv _ accepted number process present address rest connecting
  | true =>
      have good := accepted.processes number process present
      refine process_inv _ accepted number process _ present rfl (Nat.le_refl _) (Or.inr (fun empty untold => ⟨empty, untold⟩))
        ⟨connect_introduced _ _ _ good.introduced, good.valid, good.once, ?_, ?_, ?_⟩
      · intro untold
        have idle := (good.untold untold).1
        rw [connecting] at idle
        cases idle
      · rintro address (waiting | inside)
        · exact good.addresses address (Or.inl (by rw [connecting]; exact List.mem_cons_of_mem _ waiting))
        · exact good.addresses address (Or.inr inside)
      · refine connect_sound process.role _ station good.sound ?_ server.threads
        exact ⟨met.1, other, _, set_there _ _ _ _ there, rfl, Or.inl rfl⟩

-- What a storage server has accepted is for its shard.
theorem receive_client_inv (number : Nat) (station : Station) (present : s.stations[number]? = some station)
    (sender clientId shardId numSlots : Nat) (waiting : station.accepted = some (sender, .clientIntro clientId shardId numSlots)) :
    (s.setStation number (station.receive (.clientIntro clientId shardId numSlots))).Inv := by
  have good := inv.stations number station present
  have met := good.accepted sender _ waiting
  obtain ⟨listed, meant, process, there, introduction, told⟩ := met
  have valid := (inv.processes sender process there).valid clientId shardId numSlots introduction
  rw [show station.receive (.clientIntro clientId shardId numSlots) =
    { station with accepted := none, server := station.server.addClient clientId } from if_pos meant.symm]
  have connected := add_client_connects station.server clientId valid
  refine station_inv s inv number station _ present rfl ?_ ⟨good.threads, good.crashed, fun _ _ none => (by cases none), ?_, good.subscribers⟩
  · rintro other message (same | has)
    · rw [waiting] at same
      cases same
      exact Or.inr ((connected clientId).mpr (Or.inl rfl))
    · refine Or.inr ?_
      cases message with
      | clientIntro other shardId numSlots => exact (connected other).mpr (Or.inr has)
      | _ => exact has
  · intro other now
    rcases (connected other).mp now with rfl | before
    · exact ⟨sender, shardId, numSlots, good.accepted sender _ waiting⟩
    · exact good.clients other before

theorem receive_subscriber_inv (number : Nat) (station : Station) (present : s.stations[number]? = some station)
    (sender subscriberId pollingThreads : Nat) (waiting : station.accepted = some (sender, .subscriberIntro subscriberId pollingThreads)) :
    (s.setStation number (station.receive (.subscriberIntro subscriberId pollingThreads))).Inv := by
  have good := inv.stations number station present
  have handled : ∀ subscribers, subscriberId ∈ subscribers → station.subscribers ⊆ subscribers → ∀ other message,
      station.Knows other message → Station.Knows { station with accepted := none, subscribers := subscribers } other message := by
    rintro subscribers member more other message (same | has)
    · rw [waiting] at same
      cases same
      exact Or.inr member
    · refine Or.inr ?_
      cases message with
      | subscriberIntro other pollingThreads => exact more has
      | _ => exact has
  unfold Station.receive
  dsimp only
  split
  · rename_i member
    exact station_inv s inv number station _ present rfl (handled station.subscribers member (List.Subset.refl _))
      ⟨good.threads, good.crashed, fun _ _ none => (by cases none), good.clients, good.subscribers⟩
  · split
    · rename_i threads
      exact station_inv s inv number station _ present rfl (fun _ _ knows => knows)
        ⟨good.threads, fun _ => threads, good.accepted, good.clients, good.subscribers⟩
    · refine station_inv s inv number station _ present rfl
        (handled _ (List.mem_append_right _ (List.mem_singleton_self _)) (List.subset_append_left _ _))
        ⟨good.threads, good.crashed, fun _ _ none => (by cases none), good.clients, ?_⟩
      intro other member
      cases List.mem_append.mp member with
      | inl before => exact good.subscribers other before
      | inr new =>
          rw [List.mem_singleton.mp new]
          exact ⟨sender, pollingThreads, good.accepted sender _ waiting⟩

theorem receive_inv (number : Nat) (station : Station) (present : s.stations[number]? = some station) (sender : Nat) (message : Message)
    (waiting : station.accepted = some (sender, message)) : (s.setStation number (station.receive message)).Inv := by
  have meant := ((inv.stations number station present).accepted sender message waiting).2.1
  cases message with
  | clientIntro clientId shardId numSlots => exact receive_client_inv s inv number station present sender clientId shardId numSlots waiting
  | subscriberIntro subscriberId pollingThreads =>
      exact receive_subscriber_inv s inv number station present sender subscriberId pollingThreads waiting
  | _ => exact meant.elim

theorem connect_inv (number : Nat) (contact : Contact) (next : Startup) (stepped : s.connect number contact = some next) : next.Inv := by
  unfold Startup.connect at stepped
  split at stepped
  · cases stepped
  · rename_i process present
    split at stepped
    · cases stepped
    · rename_i address rest connecting
      cases stepped
      exact connect_failed_inv s inv number process present address rest connecting
    · rename_i address rest other returned connecting
      split at stepped
      · cases stepped
      · rename_i station there
        obtain ⟨⟨listening, same⟩, result⟩ := Option.ite_none_right_eq_some.mp stepped
        cases result
        exact connect_accepted_inv s inv number process present address rest connecting other station there listening same returned

theorem step_inv (next : Startup) (event : StartupEvent) (stepped : s.step event = some next) : next.Inv := by
  cases event with
  | launchStorage site =>
      obtain ⟨⟨_, _, _, threads, vacant⟩, result⟩ := Option.ite_none_right_eq_some.mp stepped
      cases result
      exact launch_storage_inv s inv site threads vacant
  | launchClient ip clientId shardId failures numSlots =>
      obtain ⟨⟨valid, _⟩, launched⟩ := Option.ite_none_right_eq_some.mp stepped
      exact launch_inv s inv next ip (.client (Client.Shutdown.init clientId shardId failures)) _ ⟨numSlots, rfl⟩ (fun _ _ _ same => by cases same; exact valid) rfl
        (fun _ => ⟨fun _ member => (by cases member), fun some_queue => absurd rfl some_queue⟩) launched
  | launchSubscriber ip subscriberId pollingThreads =>
      obtain ⟨_, launched⟩ := Option.ite_none_right_eq_some.mp stepped
      exact launch_inv s inv next ip (.subscriber Subscriber.Control.init) _ ⟨subscriberId, pollingThreads, rfl⟩ (fun _ _ _ same => by cases same) rfl
        (fun _ _ member => by cases member) launched
  | introduce =>
      obtain ⟨accepted, waiting, result⟩ := Option.bind_eq_some_iff.mp stepped
      exact introduce_inv s inv accepted waiting next result
  | bind number =>
      obtain ⟨station, present, result⟩ := Option.map_eq_some_iff.mp stepped
      rw [← result]
      exact bind_inv s inv number station present
  | inform number =>
      simp only [Startup.step] at stepped
      split at stepped
      · cases stepped
      · rename_i process present
        split at stepped
        · rename_i info rest _ inbox
          cases stepped
          exact inform_inv s inv number process present info rest inbox
        · cases stepped
  | connect number contact => exact connect_inv s inv number contact next stepped
  | receive number =>
      simp only [Startup.step] at stepped
      split at stepped
      · cases stepped
      · rename_i station present
        split at stepped
        · cases stepped
        · obtain ⟨accepted, waiting, result⟩ := Option.map_eq_some_iff.mp stepped
          rw [← result]
          exact receive_inv s inv number station present accepted.1 accepted.2 waiting
  | order event =>
      obtain ⟨others, stepped⟩ := Option.ite_none_left_eq_some.mp stepped
      obtain ⟨order, turned, result⟩ := Option.map_eq_some_iff.mp stepped
      rw [← result]
      exact order_inv s inv event (Bool.eq_false_of_not_eq_true others) order turned
  | client number event =>
      obtain ⟨process, shutdown, after, present, role, uninformed, turned, rfl⟩ := client_step_cases s next number event stepped
      exact role_inv s inv number process present _ (by rw [role]; exact shutdown_lessens shutdown after event uninformed turned)
  | subscriber number event =>
      obtain ⟨process, control, after, present, role, uninformed, turned, rfl⟩ := subscriber_step_cases s next number event stepped
      exact role_inv s inv number process present _ (by rw [role]; exact control_lessens control after event uninformed turned)

end

theorem startup_init (numShards : Nat) : (Startup.init numShards).Inv :=
  ⟨fun _ waiting => (by cases waiting), fun _ _ _ _ left => (by cases left), fun _ _ known => (by cases known),
    fun _ => ⟨fun known => (by cases known), fun member => (by cases member)⟩, fun _ _ present => (by cases present),
    fun _ _ present => (by cases present)⟩

theorem startup_run (numShards : Nat) (events : List StartupEvent) (s : Startup)
    (ran : Machine.run Startup.step (Startup.init numShards) events = some s) : s.Inv :=
  Machine.run_preserves Startup.step Startup.Inv (fun s event next before stepped => step_inv s before next event stepped)
    _ s (startup_init numShards) events ran

-- Two storage servers, of which the second is not bound yet when a client connects.
def enrolment : List StartupEvent :=
  [.launchStorage ⟨0, 0, 1, 9000, 2, 1⟩, .introduce, .launchStorage ⟨0, 1, 2, 9000, 2, 1⟩, .introduce, .bind 0, .launchClient 3 7 0 0 16, .introduce,
    .inform 0, .connect 0 (.accepted 0 true), .connect 0 .failed, .receive 0, .bind 1]

-- What of a state the runs below are about.
def Process.clientQueues (process : Process) : List Nat × Nat :=
  match process.role with
  | .client shutdown => (shutdown.loop.queues, shutdown.destination)
  | .subscriber _ => ([], 0)

end ZipLog.System
