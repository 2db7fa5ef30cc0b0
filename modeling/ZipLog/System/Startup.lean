import ZipLog.Network.Manager
import ZipLog.Network.Messages
import ZipLog.Order.Membership
import ZipLog.Subscriber.Control
import ZipLog.System.Cluster

set_option autoImplicit false

namespace ZipLog.System

open ZipLog.Network

-- A uint16_t with its two bytes exchanged.
def htons (port : Nat) : Nat := port % 256 * 256 + port / 256 % 256

-- The options of a storage server, with the address that its host has for the others.
structure Site where
  shardId : Nat
  replicaId : Nat
  ip : Nat
  port : Nat
  clientThreads : Nat
  subscriberThreads : Nat
deriving DecidableEq, Repr

def Site.place (site : Site) : Place := (site.shardId, site.replicaId)

-- AF_INET is 2. The ordering service stores the port of the message as sin_port.
def storageAddress (ip port : Nat) : SocketAddress := ⟨2, htons port, ip, 0⟩

def Site.address (site : Site) : SocketAddress := storageAddress site.ip site.port

def Site.introduction (site : Site) : Message := .storageIntro site.shardId site.replicaId site.clientThreads site.port

-- start_storage with what accept has returned and has not been dealt with. crashed is
-- an assertion that failed, or the division by subscriber_threads_.
structure Station where
  site : Site
  bound : Bool
  accepted : Option (Nat × Message)
  server : Storage.Server
  subscribers : List Nat
  crashed : Bool

def Station.init (site : Site) : Station := ⟨site, false, none, Storage.Server.init site.shardId site.replicaId, [], false⟩

inductive Role where
  | client (shutdown : Client.Shutdown)
  | subscriber (control : Subscriber.Control)

-- The argument num_queues of connect.
def Role.numQueues : Role → Nat
  | .client _ => 1
  | .subscriber _ => 0

def Role.connect (role : Role) (connection : Option StorageIntro) : Role :=
  match role with
  | .client shutdown => .client (shutdown.connect connection)
  | .subscriber control => .subscriber (control.connect connection)

-- A client or a subscriber with its intro_. inbox has the lists of storage servers that
-- were sent to it, told counts those it has taken up, and connecting is what is left
-- of the last one.
structure Process where
  role : Role
  introduction : Message
  told : Nat
  inbox : List (List SocketAddress)
  connecting : List SocketAddress

inductive Peer where
  | station (number : Nat)
  | process (number : Nat)
deriving DecidableEq, Repr

structure Accepted where
  peer : Peer
  ip : Nat
  message : Message
deriving DecidableEq, Repr

-- start_order, the storage servers, and the clients and subscribers in the order of
-- their start. addresses is storage_addresses_.
structure Startup where
  order : Order.Loop
  addresses : Place → Option SocketAddress
  accepted : Option Accepted
  stations : List Station
  processes : List Process

def Startup.init (numShards : Nat) : Startup := ⟨Order.Loop.init numShards, fun _ => none, none, [], []⟩

def Startup.setStation (s : Startup) (number : Nat) (station : Station) : Startup :=
  { s with stations := s.stations.set number station }

def Startup.setProcess (s : Startup) (number : Nat) (process : Process) : Startup :=
  { s with processes := s.processes.set number process }

-- What goes to the send queue that add_client and add_subscriber are given.
def Startup.deliver (s : Startup) (peer : Peer) (infos : List (List Place)) : Startup :=
  match peer with
  | .station _ => s
  | .process number =>
      match s.processes[number]? with
      | none => s
      | some process =>
          s.setProcess number { process with inbox := process.inbox ++ infos.map (fun places => places.filterMap s.addresses) }

def storageInfo? (shardId : Nat) : Order.Sent → Option (List Place)
  | .client _ (.storageInfo replicas) => some (replicas.map (fun replicaId => (shardId, replicaId)))
  | _ => none

-- The lambdas of start_order; the result is none where the assertion of add_storage
-- fails.
def Startup.introduce (s : Startup) (accepted : Accepted) : Option Startup :=
  match accepted.message with
  | .clientIntro clientId shardId numSlots =>
      some ({ s with accepted := none, order := s.order.addClient clientId shardId numSlots }.deliver accepted.peer
        ((s.order.state.addClient clientId shardId numSlots).2.filterMap (storageInfo? shardId)))
  | .subscriberIntro subscriberId _ =>
      some ({ s with accepted := none, order := s.order.addSubscriber subscriberId }.deliver accepted.peer
        (if subscriberId ∈ s.order.subscribers then [] else [s.order.state.servers]))
  | .storageIntro shardId replicaId _ port =>
      (s.order.addStorage shardId replicaId).map (fun order =>
        { s with
          accepted := none
          order := order
          addresses := if s.order.state.numShards ≤ shardId ∨ maxReplicas ≤ replicaId ∨ (s.addresses (shardId, replicaId)).isSome then s.addresses
            else Function.update s.addresses (shardId, replicaId) (some (storageAddress accepted.ip port)) })
  | _ => some { s with accepted := none }

-- The lambdas of start_storage.
def Station.receive (station : Station) (message : Message) : Station :=
  match message with
  | .clientIntro clientId shardId _ =>
      if station.site.shardId = shardId then { station with accepted := none, server := station.server.addClient clientId }
      else { station with crashed := true }
  | .subscriberIntro subscriberId _ =>
      if subscriberId ∈ station.subscribers then { station with accepted := none }
      else if station.site.subscriberThreads = 0 then { station with crashed := true }
      else { station with accepted := none, subscribers := station.subscribers ++ [subscriberId] }
  | _ => { station with accepted := none }

-- start_storage is in accept.
def Station.listening (station : Station) : Bool := station.bound && !station.crashed && station.accepted.isNone

-- What connect returns to a process, with the number of queues that both set up.
def Station.offer (station : Station) (role : Role) : StorageIntro :=
  ⟨true, station.site.shardId, station.site.replicaId, station.site.clientThreads,
    numQueues role.numQueues station.site.subscriberThreads⟩

-- How a call of connect ends. accept sends last, so it may have returned the message
-- where connect has failed.
inductive Contact where
  | failed
  | accepted (number : Nat) (returned : Bool)
deriving DecidableEq, Repr

-- One turn of the loop over the addresses.
def Startup.connect (s : Startup) (number : Nat) (contact : Contact) : Option Startup :=
  match s.processes[number]? with
  | none => none
  | some process =>
      match process.connecting, contact with
      | [], _ => none
      | _ :: rest, .failed => some (s.setProcess number { process with connecting := rest, role := process.role.connect none })
      | address :: rest, .accepted other returned =>
          match s.stations[other]? with
          | none => none
          | some station =>
              if station.listening = true ∧ station.site.address = address then
                some ((s.setStation other { station with accepted := some (number, process.introduction) }).setProcess number
                  { process with
                    connecting := rest
                    role := process.role.connect (if returned then some (station.offer process.role) else none) })
              else none

def Startup.launch (s : Startup) (ip : Nat) (role : Role) (introduction : Message) : Option Startup :=
  if s.accepted = none then
    some { s with
      accepted := some ⟨.process s.processes.length, ip, introduction⟩
      processes := s.processes ++ [⟨role, introduction, 0, [], []⟩] }
  else none

-- A constructor runs up to its connection with the ordering service, which is in accept
-- then. bind is bind_server, which comes after the constructor of storage.
inductive StartupEvent where
  | launchStorage (site : Site)
  | launchClient (ip clientId shardId failures numSlots : Nat)
  | launchSubscriber (ip subscriberId pollingThreads : Nat)
  | introduce
  | bind (number : Nat)
  | inform (number : Nat)
  | connect (number : Nat) (contact : Contact)
  | receive (number : Nat)
  | order (event : Order.Event)
  | client (number : Nat) (event : Client.ShutdownEvent)
  | subscriber (number : Nat) (event : Subscriber.ControlEvent)

-- The events of the ordering service, the clients and the subscribers that are steps of
-- their own here.
def adds : Order.Event → Bool
  | .addStorage .. => true
  | .addClient .. => true
  | .addSubscriber _ => true
  | _ => false

def clientInformed : Client.ShutdownEvent → Bool
  | .storageInfo _ => true
  | _ => false

def subscriberInformed : Subscriber.ControlEvent → Bool
  | .storageInfo _ => true
  | _ => false

-- The assertions of the three constructors are conditions; a port is a uint16_t, and no
-- two storage servers listen on one address.
def Startup.step (s : Startup) : StartupEvent → Option Startup
  | .launchStorage site =>
      if s.accepted = none ∧ site.shardId < s.order.state.numShards ∧ site.replicaId < maxReplicas ∧ 0 < site.clientThreads ∧
          ∀ station ∈ s.stations, station.site.address ≠ site.address then
        some { s with
          accepted := some ⟨.station s.stations.length, site.ip, site.introduction⟩
          stations := s.stations ++ [Station.init site] }
      else none
  | .launchClient ip clientId shardId failures numSlots =>
      if clientId < maxClients ∧ shardId < s.order.state.numShards then
        s.launch ip (.client (Client.Shutdown.init clientId shardId failures)) (.clientIntro clientId shardId numSlots)
      else none
  | .launchSubscriber ip subscriberId pollingThreads =>
      if 0 < pollingThreads then s.launch ip (.subscriber Subscriber.Control.init) (.subscriberIntro subscriberId pollingThreads) else none
  | .introduce => s.accepted.bind s.introduce
  | .bind number => s.stations[number]?.map (fun station => s.setStation number { station with bound := true })
  | .inform number =>
      match s.processes[number]? with
      | none => none
      | some process =>
          match process.connecting, process.inbox with
          | [], info :: rest => some (s.setProcess number { process with told := process.told + 1, inbox := rest, connecting := info })
          | _, _ => none
  | .connect number contact => s.connect number contact
  | .receive number =>
      match s.stations[number]? with
      | none => none
      | some station =>
          if station.crashed then none else station.accepted.map (fun accepted => s.setStation number (station.receive accepted.2))
  | .order event => if adds event then none else (s.order.step event).map (fun order => { s with order := order })
  | .client number event =>
      match s.processes[number]? with
      | none => none
      | some process =>
          match process.role with
          | .subscriber _ => none
          | .client shutdown =>
              if process.connecting = [] ∧ clientInformed event = false then
                (shutdown.step event).map (fun shutdown => s.setProcess number { process with role := .client shutdown })
              else none
  | .subscriber number event =>
      match s.processes[number]? with
      | none => none
      | some process =>
          match process.role with
          | .client _ => none
          | .subscriber control =>
              if process.connecting = [] ∧ subscriberInformed event = false then
                (control.step event).map (fun control => s.setProcess number { process with role := .subscriber control })
              else none

end ZipLog.System
