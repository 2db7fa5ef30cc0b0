import ZipLog.Subscriber.Poll
import ZipLog.System.Service

set_option autoImplicit false

namespace ZipLog.System

structure Config where
  numShards : Nat
  replicas : Nat → List Nat
  failures : Nat
  subscriberThreads : Place → Nat

-- subscriber_changes_ of a storage server.
inductive Change where
  | added (subscriberId numQueues : Nat)
  | removed (subscriberId : Nat)
deriving DecidableEq, Repr

-- The locals of one storage::subscriber thread. changes counts what it has read
-- of the changes; a subscriber is its ID and its number of polling queues.
structure Feeder where
  changes : Nat
  subscribers : List (Nat × Nat)
  numSent : Nat
  log : Storage.Iterator
deriving DecidableEq, Repr

def Feeder.init (index subscriberThreads : Nat) : Feeder := ⟨0, [], index, Storage.Iterator.init index subscriberThreads⟩

def Feeder.change (feeder : Feeder) (change : Change) : Feeder :=
  let feeder := { feeder with changes := feeder.changes + 1 }
  match change with
  | .added subscriberId numQueues =>
      if subscriberId ∈ feeder.subscribers.map Prod.fst then feeder
      else { feeder with subscribers := feeder.subscribers ++ [(subscriberId, numQueues)] }
  | .removed subscriberId => { feeder with subscribers := feeder.subscribers.filter (fun sub => sub.1 ≠ subscriberId) }

def subscriberMessage (server : Storage.Server) (index : Nat) (entry : Storage.Entry) : SubscriberLogEntry :=
  ⟨server.replicaId, server.shardId, index, entry.clientId, entry.gsn, entry.payload⟩

-- The link from one thread of one storage server to one polling queue.
structure Wire where
  place : Place
  thread : Nat
  subscriberId : Nat
  queue : Nat
deriving DecidableEq, Repr

-- A subscriber. passed lists the calls of position::insert, stored those that
-- have returned and taken what next_entry has given each application thread.
structure Reader where
  pollingThreads : Nat
  applicationThreads : Nat
  log : Subscriber.Log
  pollers : Nat → Subscriber.Poller
  iterators : Nat → Subscriber.Iterator
  passed : List SubscriberLogEntry
  stored : List SubscriberLogEntry
  taken : List (Nat × SubscriberLogEntry)

def Reader.init (pollingThreads applicationThreads : Nat) (sequential : Bool) (unset : Nat → Nat) : Reader :=
  { pollingThreads := pollingThreads
    applicationThreads := applicationThreads
    log := Subscriber.Log.init applicationThreads
    pollers := fun _ => Subscriber.Poller.init
    iterators := fun index => Subscriber.processIterator sequential index applicationThreads (unset index)
    passed := []
    stored := []
    taken := [] }

def Reader.poll (failures : Nat) (reader : Reader) (queue : Nat) (message : SubscriberLogEntry) : Reader :=
  let poller := (reader.pollers queue).poll failures message
  { reader with
    pollers := Function.update reader.pollers queue poller
    passed := reader.passed ++ poller.inserting.toList }

def Reader.store (reader : Reader) (queue : Nat) : Option Reader :=
  ((reader.pollers queue).store reader.log).map (fun result =>
    { reader with
      log := result.1
      pollers := Function.update reader.pollers queue result.2
      stored := reader.stored ++ (reader.pollers queue).inserting.toList })

def Reader.process (reader : Reader) (index : Nat) : Option Reader :=
  ((reader.iterators index).nextEntry reader.log).map (fun result =>
    { reader with
      log := result.1
      iterators := Function.update reader.iterators index result.2.1
      taken := reader.taken ++ result.2.2.toList.map (fun entry => (index, entry)) })

def Reader.recycle (reader : Reader) : Reader := { reader with log := reader.log.recycleBlocks }

-- The whole system: the service, the subscribers and the links to them, which
-- are reliable and in order. polled counts what has been handled of each.
structure Deployment where
  service : Service
  registered : Place → List Nat
  changes : Place → List Change
  feeders : Place → Nat → Feeder
  wires : Wire → List SubscriberLogEntry
  polled : Wire → Nat
  readers : Nat → Option Reader

def Deployment.init (config : Config) : Deployment :=
  { service := Service.init config.numShards config.replicas
    registered := fun _ => []
    changes := fun _ => []
    feeders := fun place index => Feeder.init index (config.subscriberThreads place)
    wires := fun _ => []
    polled := fun _ => 0
    readers := fun _ => none }

inductive Action where
  | service (move : Move)
  | launch (subscriberId pollingThreads applicationThreads : Nat) (sequential : Bool) (unset : Nat → Nat)
  | addSubscriber (place : Place) (subscriberId : Nat)
  | subscriberFinished (place : Place) (subscriberId : Nat)
  | change (place : Place) (index : Nat)
  | feed (place : Place) (index : Nat)
  | poll (wire : Wire)
  | store (subscriberId queue : Nat)
  | process (subscriberId index : Nat)
  | recycle (subscriberId : Nat)

def Deployment.setFeeder (s : Deployment) (place : Place) (index : Nat) (feeder : Feeder) : Deployment :=
  { s with feeders := Function.update s.feeders place (Function.update (s.feeders place) index feeder) }

def Deployment.setReader (s : Deployment) (subscriberId : Nat) (reader : Reader) : Deployment :=
  { s with readers := Function.update s.readers subscriberId (some reader) }

-- queue.send for every subscriber of the thread.
def Deployment.send (s : Deployment) (place : Place) (index : Nat) (feeder : Feeder) (message : SubscriberLogEntry) : Deployment :=
  { s with
    wires := fun wire => s.wires wire ++
      (feeder.subscribers.filter (fun sub => wire = ⟨place, index, sub.1, 1 + feeder.numSent % sub.2⟩)).map (fun _ => message) }

def Deployment.feed (config : Config) (s : Deployment) (place : Place) (index : Nat) : Option Deployment :=
  let feeder := s.feeders place index
  let server := s.service.cluster.servers place
  match feeder.log.nextEntry server.log with
  | .error _ => none
  | .ok (log, none) => some (s.setFeeder place index { feeder with log := log })
  | .ok (log, some entry) =>
      some ((s.send place index feeder (subscriberMessage server index entry)).setFeeder place index
        { feeder with log := log, numSent := feeder.numSent + config.subscriberThreads place })

-- The threads of a server exist, and a polling thread handles its next message
-- when it is not inside position::insert.
def Deployment.step (config : Config) (s : Deployment) : Action → Option Deployment
  | .service move => (s.service.step config.failures move).map (fun service => { s with service := service })
  | .launch subscriberId pollingThreads applicationThreads sequential unset =>
      if 0 < pollingThreads ∧ 0 < applicationThreads ∧ s.readers subscriberId = none then
        some (s.setReader subscriberId (Reader.init pollingThreads applicationThreads sequential unset))
      else none
  | .addSubscriber place subscriberId =>
      match s.readers subscriberId with
      | none => none
      | some reader =>
          if subscriberId ∈ s.registered place then some s
          else some { s with
            registered := Function.update s.registered place (s.registered place ++ [subscriberId])
            changes := Function.update s.changes place (s.changes place ++ [.added subscriberId reader.pollingThreads]) }
  | .subscriberFinished place subscriberId =>
      if subscriberId ∈ s.registered place then
        some { s with
          registered := Function.update s.registered place ((s.registered place).filter (fun other => other ≠ subscriberId))
          changes := Function.update s.changes place (s.changes place ++ [.removed subscriberId]) }
      else some s
  | .change place index =>
      if s.service.cluster.serves place ∧ index < config.subscriberThreads place then
        ((s.changes place)[(s.feeders place index).changes]?).map (fun change =>
          s.setFeeder place index ((s.feeders place index).change change))
      else none
  | .feed place index =>
      if s.service.cluster.serves place ∧ index < config.subscriberThreads place then s.feed config place index else none
  | .poll wire =>
      match s.readers wire.subscriberId with
      | none => none
      | some reader =>
          if (reader.pollers wire.queue).inserting = none then
            ((s.wires wire)[s.polled wire]?).map (fun message =>
              { s with polled := Function.update s.polled wire (s.polled wire + 1) }.setReader wire.subscriberId
                (reader.poll config.failures wire.queue message))
          else none
  | .store subscriberId queue =>
      match s.readers subscriberId with
      | none => none
      | some reader => (reader.store queue).map (s.setReader subscriberId)
  | .process subscriberId index =>
      match s.readers subscriberId with
      | none => none
      | some reader =>
          if index < reader.applicationThreads then (reader.process index).map (s.setReader subscriberId) else none
  | .recycle subscriberId => (s.readers subscriberId).map (fun reader => s.setReader subscriberId reader.recycle)

end ZipLog.System
