import ZipLog.LockService.Callback
import Mathlib.Data.List.Nodup
import Mathlib.Logic.Function.Basic

set_option autoImplicit false

namespace ZipLog.LockService

-- The clients and the services around one log. pending holds the requests that
-- a client has handed to its ZipLog client and that have no GSN yet, current the
-- flag of the Lock of a key that the client has not unlocked, issued the number
-- of its requests. A service that failed an assertion is none.
structure Locking where
  log : List LockRequest
  pending : Nat → List LockRequest
  current : Nat → Nat → Option Nat
  issued : Nat → Nat
  services : Nat → Option Service
  applied : Nat → Nat

inductive Action where
  | acquire (client key : Nat)
  | release (instance_ key : Nat)
  | append (client : Nat)
  | deliver (instance_ : Nat)
deriving DecidableEq, Repr

def Locking.init (numKeys : Nat) (cids : Nat → Nat) : Locking :=
  ⟨[], fun _ => [], fun _ _ => none, fun _ => 0, fun i => some (Service.init (cids i) numKeys), fun _ => 0⟩

-- lock_service::request up to the insert.
def Locking.request (s : Locking) (client key : Nat) (action : LockAction) (current : Option Nat) : Locking :=
  { s with
    pending := Function.update s.pending client (s.pending client ++ [⟨action, client, key, s.issued client⟩])
    current := Function.update s.current client (Function.update (s.current client) key current)
    issued := Function.update s.issued client (s.issued client + 1) }

-- A client locks a key only when it has no Lock of it, and unlocks it only when
-- the service of the client has set the flag of that Lock. The requests of one
-- client get their GSNs in the order of its inserts; those of several clients
-- mix in any way.
def Locking.step (numKeys : Nat) (s : Locking) : Action → Option Locking
  | .acquire client key =>
      if key < numKeys ∧ s.current client key = none then some (s.request client key .lock (some (s.issued client))) else none
  | .release instance_ key =>
      match s.services instance_ with
      | none => none
      | some service =>
          match s.current service.cid key with
          | none => none
          | some flag => if flag ∈ service.done then some (s.request service.cid key .unlock none) else none
  | .append client =>
      match s.pending client with
      | [] => none
      | req :: rest => some { s with log := s.log ++ [req], pending := Function.update s.pending client rest }
  | .deliver instance_ =>
      match s.log[s.applied instance_]? with
      | none => none
      | some req => some { s with
          services := Function.update s.services instance_ ((s.services instance_).bind (fun service => service.callback req))
          applied := Function.update s.applied instance_ (s.applied instance_ + 1) }

-- Where a client stands with a key: the flag of its Lock, its requests for the
-- key that have no GSN, its requests in the queue, and the front of the queue.
inductive Session (client key : Nat) : Option Nat → List LockRequest → List LockRequest → Option LockRequest → Prop where
  | idle (front : Option LockRequest) : Session client key none [] [] front
  | sent (flag : Nat) (front : Option LockRequest) : Session client key (some flag) [⟨.lock, client, key, flag⟩] [] front
  | queued (flag : Nat) (front : Option LockRequest) : Session client key (some flag) [] [⟨.lock, client, key, flag⟩] front
  | leaving (unlock own : LockRequest) (action : unlock.action = .unlock) : Session client key none [unlock] [own] (some own)
  | returning (flag : Nat) (unlock own : LockRequest) (action : unlock.action = .unlock) :
      Session client key (some flag) [unlock, ⟨.lock, client, key, flag⟩] [own] (some own)

def ofKey (requests : List LockRequest) (key : Nat) : List LockRequest := requests.filter (fun r => r.lockKey = key)

def ofClient (requests : List LockRequest) (client : Nat) : List LockRequest := requests.filter (fun r => r.client = client)

def Locking.Follows (s : Locking) (client key : Nat) : Prop :=
  Session client key (s.current client key) (ofKey (s.pending client) key) (ofClient (waiting s.log key) client)
    (waiting s.log key).head?

structure Locking.Inv (numKeys : Nat) (cids : Nat → Nat) (s : Locking) : Prop where
  numbered : ∀ client, (ofClient s.log client ++ s.pending client).map LockRequest.done = List.range (s.issued client)
  owned : ∀ client, ∀ r ∈ s.pending client, r.client = client ∧ r.lockKey < numKeys
  follows : ∀ client key, s.Follows client key
  accepted : ∀ earlier, earlier <+: s.log → Accepted numKeys earlier
  served : ∀ i, s.services i = replay (cids i) numKeys (s.log.take (s.applied i)) ∧ s.applied i ≤ s.log.length
  single : ∀ earlier r later, s.log = earlier ++ r :: later → r.action = .lock → ofClient (waiting earlier r.lockKey) r.client = []

theorem of_client_append (requests more : List LockRequest) (client : Nat) :
    ofClient (requests ++ more) client = ofClient requests client ++ ofClient more client := List.filter_append _ _

theorem of_key_append (requests more : List LockRequest) (key : Nat) :
    ofKey (requests ++ more) key = ofKey requests key ++ ofKey more key := List.filter_append _ _

theorem of_client_cons_own (req : LockRequest) (requests : List LockRequest) (client : Nat) (own : req.client = client) :
    ofClient (req :: requests) client = req :: ofClient requests client := List.filter_cons_of_pos (by simpa using own)

theorem of_client_cons_other (req : LockRequest) (requests : List LockRequest) (client : Nat) (other : req.client ≠ client) :
    ofClient (req :: requests) client = ofClient requests client := List.filter_cons_of_neg (by simpa using other)

theorem of_key_cons_own (req : LockRequest) (requests : List LockRequest) (key : Nat) (own : req.lockKey = key) :
    ofKey (req :: requests) key = req :: ofKey requests key := List.filter_cons_of_pos (by simpa using own)

theorem of_key_cons_other (req : LockRequest) (requests : List LockRequest) (key : Nat) (other : req.lockKey ≠ key) :
    ofKey (req :: requests) key = ofKey requests key := List.filter_cons_of_neg (by simpa using other)

theorem mem_of_client (requests : List LockRequest) (client : Nat) (r : LockRequest) :
    r ∈ ofClient requests client ↔ r ∈ requests ∧ r.client = client := by
  simp only [ofClient, List.mem_filter, decide_eq_true_eq]

theorem mem_of_key (requests : List LockRequest) (key : Nat) (r : LockRequest) :
    r ∈ ofKey requests key ↔ r ∈ requests ∧ r.lockKey = key := by
  simp only [ofKey, List.mem_filter, decide_eq_true_eq]

section

variable (numKeys : Nat) (cids : Nat → Nat) (s : Locking) (inv : s.Inv numKeys cids)

include inv

theorem log_nodup : s.log.Nodup := by
  refine List.nodup_iff_sublist.mpr (fun r twice => ?_)
  have own : List.Sublist [r, r] (ofClient s.log r.client) := by
    have kept := twice.filter (fun other => other.client = r.client)
    simpa [ofClient] using kept
  have flags := (own.trans (List.sublist_append_left _ (s.pending r.client))).map LockRequest.done
  rw [inv.numbered r.client] at flags
  exact List.nodup_iff_sublist.mp List.nodup_range _ flags

theorem flags_nodup (client : Nat) :
    ((ofClient s.log client).map LockRequest.done ++ (s.pending client).map LockRequest.done).Nodup := by
  rw [← List.map_append, inv.numbered]
  exact List.nodup_range

-- The flag tells a client's requests apart.
theorem flag_unique (r other : LockRequest) (member : r ∈ s.log) (member' : other ∈ s.log) (client : other.client = r.client)
    (flag : other.done = r.done) : r = other := by
  have nodup := (List.nodup_append.mp (flags_nodup numKeys cids s inv r.client)).1
  exact List.inj_on_of_nodup_map nodup ((mem_of_client _ _ _).mpr ⟨member, rfl⟩) ((mem_of_client _ _ _).mpr ⟨member', client⟩) flag.symm

theorem flag_fresh (r other : LockRequest) (member : r ∈ s.log) (waits : other ∈ s.pending r.client) : r.done ≠ other.done :=
  (List.nodup_append.mp (flags_nodup numKeys cids s inv r.client)).2.2 _
    (List.mem_map_of_mem ((mem_of_client _ _ _).mpr ⟨member, rfl⟩)) _ (List.mem_map_of_mem waits)

end

theorem locks_grow (log earlier : List LockRequest) (key : Nat) (before : earlier <+: log) :
    locks earlier key <+: locks log key := before.filter _

theorem unlocks_grow (log earlier : List LockRequest) (key : Nat) (before : earlier <+: log) :
    (unlocks earlier key).length ≤ (unlocks log key).length := (before.filter _).length_le

theorem granted_grows (log earlier : List LockRequest) (key : Nat) (before : earlier <+: log) :
    granted earlier key <+: granted log key := by
  refine List.prefix_take_iff.mpr ⟨(List.take_prefix _ _).trans (locks_grow log earlier key before), ?_⟩
  have less := unlocks_grow log earlier key before
  rw [granted, List.length_take]
  omega

-- A request that is granted and still in the queue is the front.
theorem granted_front (log : List LockRequest) (key : Nat) (nodup : (locks log key).Nodup) (r : LockRequest)
    (member : r ∈ granted log key) (waits : r ∈ waiting log key) : (waiting log key).head? = some r := by
  rw [granted_eq] at member
  cases List.mem_append.mp member with
  | inl released =>
      rw [← List.take_append_drop (unlocks log key).length (locks log key)] at nodup
      exact absurd rfl ((List.nodup_append.mp nodup).2.2 r released r waits)
  | inr first =>
      cases queue : waiting log key with
      | nil =>
          rw [queue] at waits
          cases waits
      | cons top rest =>
          rw [queue, List.take_succ_cons, List.take_zero, List.mem_singleton] at first
          rw [first, List.head?_cons]

-- A client whose only request in the queue is the front.
theorem front_split (queue : List LockRequest) (client : Nat) (own : LockRequest) (alone : ofClient queue client = [own])
    (front : queue.head? = some own) : ∃ rest, queue = own :: rest ∧ own.client = client ∧ ofClient rest client = [] := by
  have mine : own.client = client := ((mem_of_client _ _ _).mp (alone ▸ List.mem_cons_self : own ∈ ofClient queue client)).2
  cases queue with
  | nil => cases front
  | cons top rest =>
      have same : top = own := Option.some.inj front
      subst same
      rw [of_client_cons_own top rest client mine] at alone
      exact ⟨rest, rfl, mine, (List.cons.inj alone).2⟩

section

variable (numKeys : Nat) (cids : Nat → Nat) (s : Locking) (inv : s.Inv numKeys cids)

include inv

theorem locks_nodup (key : Nat) : (locks s.log key).Nodup := (log_nodup numKeys cids s inv).filter _

-- A flag that the client's service has set belongs to a request in the log.
theorem flag_logged (i : Nat) (service : Service) (there : s.services i = some service) (flag : Nat) (set : flag ∈ service.done) :
    ∃ key, ∃ r ∈ granted s.log key, r ∈ s.log ∧ r.action = .lock ∧ r.lockKey = key ∧ r.client = service.cid ∧ r.done = flag := by
  have before := List.take_prefix (s.applied i) s.log
  obtain ⟨service', ran, -, spec⟩ := inv.accepted _ before (cids i)
  have same : service' = service := Option.some.inj (ran.symm.trans ((inv.served i).1.symm.trans there))
  subst same
  obtain ⟨key, r, member, own, number⟩ := (spec.flags flag).mp set
  have member' := (granted_grows s.log _ key before).subset member
  obtain ⟨logged, action, lockKey⟩ := (mem_locks _ _ _).mp (List.mem_of_mem_take member')
  exact ⟨key, r, member', logged, action, lockKey, own, number⟩

-- A client that sees its flag set is the front of the queue.
theorem release_ready (i : Nat) (service : Service) (there : s.services i = some service) (key flag : Nat)
    (current : s.current service.cid key = some flag) (set : flag ∈ service.done) :
    ∃ own, ofKey (s.pending service.cid) key = [] ∧ ofClient (waiting s.log key) service.cid = [own] ∧
      (waiting s.log key).head? = some own := by
  obtain ⟨place, r, member, logged, action, lockKey, client, number⟩ := flag_logged numKeys cids s inv i service there flag set
  have session := inv.follows service.cid key
  rw [Locking.Follows, current] at session
  generalize pending : ofKey (s.pending service.cid) key = requests at session
  generalize queued : ofClient (waiting s.log key) service.cid = waits at session
  generalize top : (waiting s.log key).head? = front at session
  have sent_absurd : ⟨.lock, service.cid, key, flag⟩ ∉ ofKey (s.pending service.cid) key := by
    intro inside
    have waits := ((mem_of_key _ _ _).mp inside).1
    rw [← client] at waits
    exact flag_fresh numKeys cids s inv r _ logged waits number
  rw [pending] at sent_absurd
  cases session with
  | sent => exact absurd List.mem_cons_self sent_absurd
  | returning => exact absurd (List.mem_cons_of_mem _ List.mem_cons_self) sent_absurd
  | queued =>
      have inside : ⟨.lock, service.cid, key, flag⟩ ∈ waiting s.log key :=
        ((mem_of_client _ _ _).mp (queued ▸ List.mem_cons_self)).1
      have logged' := ((mem_locks _ _ _).mp (List.mem_of_mem_drop inside)).1
      have same := flag_unique numKeys cids s inv r _ logged logged' client.symm number.symm
      have keys : place = key := by
        rw [← lockKey, same]
      rw [same, keys] at member
      rw [← top]
      exact ⟨_, rfl, rfl, granted_front s.log key (locks_nodup numKeys cids s inv key) _ member inside⟩

theorem request_inv (client key : Nat) (action : LockAction) (current : Option Nat) (valid : key < numKeys)
    (session : Session client key current (ofKey (s.pending client) key ++ [⟨action, client, key, s.issued client⟩])
      (ofClient (waiting s.log key) client) (waiting s.log key).head?) : (s.request client key action current).Inv numKeys cids := by
  refine ⟨?_, ?_, ?_, inv.accepted, inv.served, inv.single⟩
  · intro other
    by_cases same : other = client
    · subst same
      simp only [Locking.request, Function.update_self]
      rw [← List.append_assoc, List.map_append, inv.numbered, List.map_singleton, List.range_succ]
    · simp only [Locking.request, Function.update_of_ne same]
      exact inv.numbered other
  · intro other r member
    by_cases same : other = client
    · subst same
      simp only [Locking.request, Function.update_self] at member
      cases List.mem_append.mp member with
      | inl old => exact inv.owned other r old
      | inr last =>
          rw [List.mem_singleton.mp last]
          exact ⟨rfl, valid⟩
    · simp only [Locking.request, Function.update_of_ne same] at member
      exact inv.owned other r member
  · intro other place
    rw [Locking.Follows]
    by_cases same : other = client
    · subst same
      simp only [Locking.request, Function.update_self, of_key_append]
      by_cases here : place = key
      · subst here
        rw [Function.update_self, of_key_cons_own _ _ _ rfl]
        exact session
      · rw [Function.update_of_ne here, of_key_cons_other _ _ _ (fun equal => here equal.symm),
          show ofKey [] place = [] from rfl, List.append_nil]
        exact inv.follows other place
    · simp only [Locking.request, Function.update_of_ne same]
      exact inv.follows other place

theorem acquire_inv (client key : Nat) (valid : key < numKeys) (free : s.current client key = none) :
    (s.request client key .lock (some (s.issued client))).Inv numKeys cids := by
  refine request_inv numKeys cids s inv client key .lock _ valid ?_
  have session := inv.follows client key
  rw [Locking.Follows, free] at session
  generalize ofKey (s.pending client) key = requests at session ⊢
  generalize ofClient (waiting s.log key) client = waits at session ⊢
  generalize (waiting s.log key).head? = front at session ⊢
  cases session with
  | idle => exact Session.sent _ _
  | leaving unlock own action => exact Session.returning _ unlock own action

theorem release_inv (i : Nat) (service : Service) (there : s.services i = some service) (key flag : Nat)
    (current : s.current service.cid key = some flag) (set : flag ∈ service.done) :
    (s.request service.cid key .unlock none).Inv numKeys cids := by
  obtain ⟨own, none_sent, alone, front⟩ := release_ready numKeys cids s inv i service there key flag current set
  have inside : own ∈ waiting s.log key := ((mem_of_client _ _ _).mp (alone ▸ List.mem_cons_self)).1
  have logged := (mem_locks _ _ _).mp (List.mem_of_mem_drop inside)
  obtain ⟨first, ran, -, spec⟩ := inv.accepted s.log List.prefix_rfl 0
  have valid : key < numKeys := logged.2.2 ▸ spec.keys own logged.1
  refine request_inv numKeys cids s inv service.cid key .unlock _ valid ?_
  rw [none_sent, alone, front]
  exact Session.leaving _ own rfl

-- What the next request of a client finds in the queue: a Lock finds no request
-- of the client, an Unlock finds the client at the front.
theorem append_cases (client : Nat) (req : LockRequest) (rest : List LockRequest) (pending : s.pending client = req :: rest) :
    (∃ flag, req.action = .lock ∧ s.current client req.lockKey = some flag ∧ req = ⟨.lock, client, req.lockKey, flag⟩ ∧
      ofKey rest req.lockKey = [] ∧ ofClient (waiting s.log req.lockKey) client = []) ∨
    (∃ top queue, req.action = .unlock ∧ waiting s.log req.lockKey = top :: queue ∧ top.client = client ∧ ofClient queue client = [] ∧
      Session client req.lockKey (s.current client req.lockKey) (ofKey rest req.lockKey) [] queue.head?) := by
  have session := inv.follows client req.lockKey
  rw [Locking.Follows, pending, of_key_cons_own req rest req.lockKey rfl] at session
  generalize same : s.current client req.lockKey = current at session ⊢
  generalize queued : ofClient (waiting s.log req.lockKey) client = waits at session ⊢
  generalize top : (waiting s.log req.lockKey).head? = front at session
  generalize requests : req :: ofKey rest req.lockKey = sent at session
  cases session with
  | idle => cases requests
  | queued => cases requests
  | sent flag =>
      obtain ⟨head, tail⟩ := List.cons.inj requests
      exact Or.inl ⟨flag, by rw [head], rfl, head, tail, rfl⟩
  | leaving unlock own action =>
      obtain ⟨head, tail⟩ := List.cons.inj requests
      obtain ⟨queue, split, mine, others⟩ := front_split _ client own queued top
      rw [tail]
      exact Or.inr ⟨own, queue, by rw [head]; exact action, split, mine, others, Session.idle _⟩
  | returning flag unlock own action =>
      obtain ⟨head, tail⟩ := List.cons.inj requests
      obtain ⟨queue, split, mine, others⟩ := front_split _ client own queued top
      rw [tail]
      exact Or.inr ⟨own, queue, by rw [head]; exact action, split, mine, others, Session.sent flag _⟩

theorem append_accepts (client : Nat) (req : LockRequest) (rest : List LockRequest) (pending : s.pending client = req :: rest) :
    Accepts numKeys s.log req := by
  obtain ⟨own, valid⟩ := inv.owned client req (by rw [pending]; exact List.mem_cons_self)
  refine ⟨valid, fun action => ?_⟩
  cases append_cases numKeys cids s inv client req rest pending with
  | inl lock =>
      obtain ⟨flag, other, -⟩ := lock
      rw [action] at other
      cases other
  | inr unlock =>
      obtain ⟨top, queue, -, split, mine, -⟩ := unlock
      exact ⟨top, queue, split, mine.trans own.symm⟩

-- The queue of the key after the request, and what it means for a client that
-- is not the one who sent it.
theorem append_other (client other : Nat) (req : LockRequest) (rest : List LockRequest) (pending : s.pending client = req :: rest)
    (different : other ≠ client) (current : Option Nat) (requests : List LockRequest)
    (session : Session other req.lockKey current requests (ofClient (waiting s.log req.lockKey) other) (waiting s.log req.lockKey).head?) :
    Session other req.lockKey current requests (ofClient (waiting (s.log ++ [req]) req.lockKey) other)
      (waiting (s.log ++ [req]) req.lockKey).head? := by
  obtain ⟨own, -⟩ := inv.owned client req (by rw [pending]; exact List.mem_cons_self)
  obtain ⟨service, -, -, spec⟩ := inv.accepted s.log List.prefix_rfl 0
  cases append_cases numKeys cids s inv client req rest pending with
  | inl lock =>
      obtain ⟨flag, action, -⟩ := lock
      have foreign : req.client ≠ other := fun same => different (same.symm.trans own)
      rw [waiting_lock s.log req action (spec.bound _), of_client_append, of_client_cons_other _ _ _ foreign,
        show ofClient [] other = [] from rfl, List.append_nil]
      generalize queued : ofClient (waiting s.log req.lockKey) other = waits at session ⊢
      generalize top : (waiting s.log req.lockKey).head? = front at session
      cases session with
      | idle => exact Session.idle _
      | sent flag => exact Session.sent flag _
      | queued flag => exact Session.queued flag _
      | leaving unlock own' action' =>
          rw [List.head?_append, top]
          exact Session.leaving unlock own' action'
      | returning flag unlock own' action' =>
          rw [List.head?_append, top]
          exact Session.returning flag unlock own' action'
  | inr unlock =>
      obtain ⟨top, queue, action, split, mine, -⟩ := unlock
      have foreign : top.client ≠ other := fun same => different (same.symm.trans mine)
      rw [waiting_unlock s.log req action, split, List.tail_cons]
      rw [split, of_client_cons_other _ _ _ foreign, List.head?_cons] at session
      generalize queued : ofClient queue other = waits at session ⊢
      cases session with
      | idle => exact Session.idle _
      | sent flag => exact Session.sent flag _
      | queued flag => exact Session.queued flag _
      | leaving unlock own' action' =>
          have inside : top ∈ ofClient queue other := queued ▸ List.mem_cons_self
          exact absurd ((mem_of_client _ _ _).mp inside).2 foreign
      | returning flag unlock own' action' =>
          have inside : top ∈ ofClient queue other := queued ▸ List.mem_cons_self
          exact absurd ((mem_of_client _ _ _).mp inside).2 foreign

theorem append_own (client : Nat) (req : LockRequest) (rest : List LockRequest) (pending : s.pending client = req :: rest) :
    Session client req.lockKey (s.current client req.lockKey) (ofKey rest req.lockKey)
      (ofClient (waiting (s.log ++ [req]) req.lockKey) client) (waiting (s.log ++ [req]) req.lockKey).head? := by
  obtain ⟨own, -⟩ := inv.owned client req (by rw [pending]; exact List.mem_cons_self)
  obtain ⟨service, -, -, spec⟩ := inv.accepted s.log List.prefix_rfl 0
  cases append_cases numKeys cids s inv client req rest pending with
  | inl lock =>
      obtain ⟨flag, action, current, shape, none_left, alone⟩ := lock
      rw [waiting_lock s.log req action (spec.bound _), of_client_append, alone, of_client_cons_own _ _ _ own,
        show ofClient [] client = [] from rfl, current, none_left, List.nil_append, shape]
      exact Session.queued flag _
  | inr unlock =>
      obtain ⟨top, queue, action, split, -, alone, session⟩ := unlock
      rw [waiting_unlock s.log req action, split, List.tail_cons, alone]
      exact session

theorem append_inv (client : Nat) (req : LockRequest) (rest : List LockRequest) (pending : s.pending client = req :: rest) :
    Locking.Inv numKeys cids { s with log := s.log ++ [req], pending := Function.update s.pending client rest } := by
  obtain ⟨own, -⟩ := inv.owned client req (by rw [pending]; exact List.mem_cons_self)
  refine ⟨?_, ?_, ?_, ?_, ?_, ?_⟩
  · intro other
    dsimp only
    by_cases same : other = client
    · subst same
      rw [Function.update_self, of_client_append, of_client_cons_own _ _ _ own, show ofClient [] other = [] from rfl,
        List.append_assoc, List.singleton_append, ← pending]
      exact inv.numbered other
    · have foreign : req.client ≠ other := fun equal => same (equal.symm.trans own)
      rw [Function.update_of_ne same, of_client_append, of_client_cons_other _ _ _ foreign, show ofClient [] other = [] from rfl,
        List.append_nil]
      exact inv.numbered other
  · intro other r member
    dsimp only at member
    by_cases same : other = client
    · subst same
      rw [Function.update_self] at member
      exact inv.owned other r (by rw [pending]; exact List.mem_cons_of_mem _ member)
    · rw [Function.update_of_ne same] at member
      exact inv.owned other r member
  · intro other key
    rw [Locking.Follows]
    dsimp only
    by_cases here : req.lockKey = key
    · subst here
      by_cases same : other = client
      · subst same
        rw [Function.update_self]
        exact append_own numKeys cids s inv other req rest pending
      · rw [Function.update_of_ne same]
        exact append_other numKeys cids s inv client other req rest pending same _ _ (inv.follows other req.lockKey)
    · rw [waiting_other s.log req key here]
      by_cases same : other = client
      · subst same
        have session := inv.follows other key
        rw [Locking.Follows, pending, of_key_cons_other _ _ _ here] at session
        rw [Function.update_self]
        exact session
      · rw [Function.update_of_ne same]
        exact inv.follows other key
  · intro earlier before
    cases List.prefix_concat_iff.mp before with
    | inl whole =>
        rw [whole]
        exact accepted_snoc numKeys s.log req (inv.accepted s.log List.prefix_rfl) (append_accepts numKeys cids s inv client req rest pending)
    | inr shorter => exact inv.accepted earlier shorter
  · intro i
    obtain ⟨same, bound⟩ := inv.served i
    dsimp only
    rw [List.take_append_of_le_length bound, List.length_append]
    exact ⟨same, Nat.le_add_right_of_le bound⟩
  · intro earlier r later split action
    cases later using List.reverseRecOn with
    | nil =>
        obtain ⟨before, last⟩ := List.append_inj' split rfl
        have same : req = r := (List.cons.inj last).1
        subst same before
        cases append_cases numKeys cids s inv client req rest pending with
        | inl lock =>
            obtain ⟨flag, -, -, -, -, alone⟩ := lock
            rw [own]
            exact alone
        | inr unlock =>
            obtain ⟨top, queue, other, -⟩ := unlock
            rw [action] at other
            cases other
    | append_singleton later last =>
        rw [← List.cons_append, ← List.append_assoc] at split
        exact inv.single earlier r later (List.append_inj' split rfl).1 action

theorem deliver_inv (i : Nat) (req : LockRequest) (next : s.log[s.applied i]? = some req) :
    Locking.Inv numKeys cids { s with
      services := Function.update s.services i ((s.services i).bind (fun service => service.callback req))
      applied := Function.update s.applied i (s.applied i + 1) } := by
  refine ⟨inv.numbered, inv.owned, inv.follows, inv.accepted, ?_, inv.single⟩
  intro other
  dsimp only
  by_cases same : other = i
  · subst same
    rw [Function.update_self, Function.update_self, (inv.served other).1]
    refine ⟨?_, (List.getElem?_eq_some_iff.mp next).1⟩
    rw [List.take_add_one, next, Option.toList_some, replay, replay, Machine.run_snoc]
  · rw [Function.update_of_ne same, Function.update_of_ne same]
    exact inv.served other

end

theorem init_inv (numKeys : Nat) (cids : Nat → Nat) : (Locking.init numKeys cids).Inv numKeys cids := by
  refine ⟨fun _ => rfl, ?_, fun _ _ => Session.idle _, ?_, fun _ => ⟨rfl, Nat.le_refl _⟩, ?_⟩
  · intro client r member
    cases member
  · intro earlier before
    rw [List.prefix_nil.mp before]
    exact accepted_nil numKeys
  · intro earlier r later split
    cases earlier with
    | nil => cases split
    | cons head rest => cases split

theorem step_inv (numKeys : Nat) (cids : Nat → Nat) (s next : Locking) (action : Action) (inv : s.Inv numKeys cids)
    (step : s.step numKeys action = some next) : next.Inv numKeys cids := by
  cases action with
  | acquire client key =>
      obtain ⟨⟨valid, free⟩, result⟩ := Option.ite_none_right_eq_some.mp step
      cases result
      exact acquire_inv numKeys cids s inv client key valid free
  | release i key =>
      unfold Locking.step at step
      dsimp only at step
      split at step
      · cases step
      · rename_i service there
        split at step
        · cases step
        · rename_i flag current
          obtain ⟨set, result⟩ := Option.ite_none_right_eq_some.mp step
          cases result
          exact release_inv numKeys cids s inv i service there key flag current set
  | append client =>
      unfold Locking.step at step
      dsimp only at step
      split at step
      · cases step
      · rename_i req rest pending
        cases step
        exact append_inv numKeys cids s inv client req rest pending
  | deliver i =>
      unfold Locking.step at step
      dsimp only at step
      split at step
      · cases step
      · rename_i req there
        cases step
        exact deliver_inv numKeys cids s inv i req there

theorem run_inv (numKeys : Nat) (cids : Nat → Nat) (actions : List Action) (s : Locking)
    (ran : Machine.run (Locking.step numKeys) (Locking.init numKeys cids) actions = some s) : s.Inv numKeys cids :=
  Machine.run_preserves (Locking.step numKeys) (Locking.Inv numKeys cids) (fun s action next inv step => step_inv numKeys cids s next action inv step)
    (Locking.init numKeys cids) s (init_inv numKeys cids) actions ran

-- The service of the client that sent the request has set its flag.
def Granted (numKeys : Nat) (log : List LockRequest) (r : LockRequest) : Prop :=
  ∃ service, replay r.client numKeys log = some service ∧ r.done ∈ service.done

-- The client has been granted a Lock of the key that it has not unlocked since.
def Holds (numKeys : Nat) (log : List LockRequest) (key client : Nat) : Prop :=
  ∃ earlier r later, log = earlier ++ r :: later ∧ r.action = .lock ∧ r.lockKey = key ∧ r.client = client ∧ Granted numKeys log r ∧
    ∀ u ∈ later, ¬ (u.action = .unlock ∧ u.lockKey = key ∧ u.client = client)

theorem of_client_length (requests : List LockRequest) (client : Nat) :
    (ofClient requests client).length = (requests.map LockRequest.client).count client := by
  rw [ofClient, ← List.countP_eq_length_filter, List.count, List.countP_map]
  congr 1

-- The Unlocks of a client match those of its Locks that have left the queue.
theorem unlocks_matched (numKeys : Nat) (log : List LockRequest) (service : Service) (spec : Replayed numKeys log service)
    (key client : Nat) : (ofClient (unlocks log key) client).length =
      (ofClient ((locks log key).take (unlocks log key).length) client).length := by
  rw [of_client_length, of_client_length, spec.matched key]

theorem unlocks_all (numKeys : Nat) (log : List LockRequest) (service : Service) (spec : Replayed numKeys log service)
    (key client : Nat) (none_waits : ofClient (waiting log key) client = []) :
    (ofClient (unlocks log key) client).length = (ofClient (locks log key) client).length := by
  have split := congrArg (fun requests => (ofClient requests client).length)
    (List.take_append_drop (unlocks log key).length (locks log key))
  rw [of_client_append, List.length_append] at split
  rw [waiting] at none_waits
  rw [none_waits, List.length_nil, Nat.add_zero] at split
  rw [unlocks_matched numKeys log service spec key client, split]

theorem granted_snoc (log : List LockRequest) (req : LockRequest) (key : Nat)
    (bound : (unlocks log key).length ≤ (locks log key).length) :
    ∃ extra, granted (log ++ [req]) key = granted log key ++ extra ∧ extra.length ≤ 1 := by
  by_cases here : req.lockKey = key
  · subst here
    cases action : req.action with
    | lock =>
        refine ⟨_, granted_lock log req action bound, ?_⟩
        split
        · exact Nat.le_refl 1
        · exact Nat.zero_le 1
    | unlock => exact ⟨_, granted_unlock log req action, List.length_take_le 1 _⟩
  · exact ⟨[], by rw [granted_other log req key here, List.append_nil], Nat.zero_le 1⟩

section

variable (numKeys : Nat) (cids : Nat → Nat) (s : Locking) (inv : s.Inv numKeys cids)

include inv

theorem granted_iff (log : List LockRequest) (before : log <+: s.log) (r : LockRequest) (logged : r ∈ s.log) :
    Granted numKeys log r ↔ r ∈ granted log r.lockKey := by
  obtain ⟨service, ran, own, spec⟩ := inv.accepted log before r.client
  constructor
  · intro ⟨service', ran', set⟩
    have same : service = service' := Option.some.inj (ran.symm.trans ran')
    subst same
    obtain ⟨key, other, member, client, flag⟩ := (spec.flags _).mp set
    obtain ⟨inside, -, lockKey⟩ := (mem_locks _ _ _).mp (List.mem_of_mem_take member)
    have equal := flag_unique numKeys cids s inv r other logged (before.subset inside) (client.trans own) flag
    subst equal
    rw [lockKey]
    exact member
  · intro member
    exact ⟨service, ran, (spec.flags _).mpr ⟨r.lockKey, r, member, own.symm, rfl⟩⟩

-- The client's Unlocks before one of its Locks are as many as its Locks there.
theorem unlocks_before (log : List LockRequest) (before : log <+: s.log) (earlier later : List LockRequest) (r : LockRequest)
    (split : log = earlier ++ r :: later) (action : r.action = .lock) :
    (ofClient (unlocks log r.lockKey) r.client).length =
      (ofClient (locks earlier r.lockKey) r.client).length + (ofClient (unlocks later r.lockKey) r.client).length := by
  obtain ⟨more, whole⟩ := before
  have single := inv.single earlier r (later ++ more) (by rw [← whole, split, List.append_assoc, List.cons_append]) action
  have prefix_ : earlier <+: s.log := ⟨r :: later ++ more, by rw [← whole, split, List.append_assoc]⟩
  obtain ⟨service, -, -, spec⟩ := inv.accepted earlier prefix_ 0
  have not_unlock : unlocks (r :: later) r.lockKey = unlocks later r.lockKey := List.filter_cons_of_neg (by simp [action])
  rw [split, unlocks_append, of_client_append, List.length_append, not_unlock,
    unlocks_all numKeys earlier service spec r.lockKey r.client single]

omit inv in
theorem locks_split (log : List LockRequest) (earlier later : List LockRequest) (r : LockRequest)
    (split : log = earlier ++ r :: later) (action : r.action = .lock) :
    locks log r.lockKey = locks earlier r.lockKey ++ r :: locks later r.lockKey := by
  rw [split, locks_append]
  congr 1
  exact List.filter_cons_of_pos (by simp [action])

theorem holds_front (log : List LockRequest) (before : log <+: s.log) (key client : Nat) (held : Holds numKeys log key client) :
    (waiting log key).head?.map LockRequest.client = some client := by
  obtain ⟨earlier, r, later, split, action, here, mine, grant, kept⟩ := held
  subst here mine
  have logged : r ∈ s.log := before.subset (by rw [split]; simp)
  have member := (granted_iff numKeys cids s inv log before r logged).mp grant
  rw [granted_eq] at member
  cases List.mem_append.mp member with
  | inr first =>
      cases queue : waiting log r.lockKey with
      | nil =>
          rw [queue] at first
          cases first
      | cons top rest =>
          rw [queue, List.take_succ_cons, List.take_zero, List.mem_singleton] at first
          rw [first]
          rfl
  | inl released =>
      -- Its Lock has left the queue, so one more of its Unlocks is in the log than
      -- there are before the Lock.
      have whole := locks_split log earlier later r split action
      have nodup := (before.sublist.nodup (log_nodup numKeys cids s inv)).filter (fun r' => r'.action = .lock ∧ r'.lockKey = r.lockKey)
      change (locks log r.lockKey).Nodup at nodup
      rw [whole] at nodup
      have past : (locks earlier r.lockKey).length < (unlocks log r.lockKey).length := by
        by_contra short
        rw [whole, List.take_append_of_le_length (Nat.le_of_not_lt short)] at released
        exact (List.nodup_append.mp nodup).2.2 r (List.mem_of_mem_take released) r List.mem_cons_self rfl
      have part : locks earlier r.lockKey ++ [r] <+: (locks log r.lockKey).take (unlocks log r.lockKey).length := by
        refine List.prefix_take_iff.mpr ⟨⟨locks later r.lockKey, by rw [whole, List.append_assoc, List.singleton_append]⟩, ?_⟩
        rw [List.length_append, List.length_singleton]
        exact past
      have more : (ofClient (locks earlier r.lockKey) r.client).length + 1 ≤ (ofClient (unlocks log r.lockKey) r.client).length := by
        obtain ⟨service, -, -, spec⟩ := inv.accepted log before 0
        have shorter := (part.filter (fun r' => r'.client = r.client)).length_le
        rw [List.filter_append, List.length_append] at shorter
        rw [unlocks_matched numKeys log service spec]
        simpa [ofClient] using shorter
      have none_later : ofClient (unlocks later r.lockKey) r.client = [] := by
        refine List.eq_nil_iff_forall_not_mem.mpr (fun u inside => ?_)
        obtain ⟨unlock, owner⟩ := (mem_of_client _ _ _).mp inside
        simp only [unlocks, List.mem_filter, decide_eq_true_eq] at unlock
        exact kept u unlock.1 ⟨unlock.2.1, unlock.2.2, owner⟩
      have count := unlocks_before numKeys cids s inv log before earlier later r split action
      rw [none_later, List.length_nil] at count
      omega

theorem front_holds (log : List LockRequest) (before : log <+: s.log) (key client : Nat)
    (front : (waiting log key).head?.map LockRequest.client = some client) : Holds numKeys log key client := by
  obtain ⟨r, top, mine⟩ := Option.map_eq_some_iff.mp front
  obtain ⟨rest, queue⟩ := List.head?_eq_some_iff.mp top
  have inside : r ∈ locks log key := List.mem_of_mem_drop (queue ▸ List.mem_cons_self : r ∈ waiting log key)
  obtain ⟨logged, action, here⟩ := (mem_locks _ _ _).mp inside
  subst here mine
  obtain ⟨earlier, later, split⟩ := List.append_of_mem logged
  refine ⟨earlier, r, later, split, action, rfl, rfl, ?_, ?_⟩
  · rw [granted_iff numKeys cids s inv log before r (before.subset logged), granted_eq, queue]
    exact List.mem_append_right _ List.mem_cons_self
  · intro u member bad
    have nodup : (locks log r.lockKey).Nodup := (before.sublist.nodup (log_nodup numKeys cids s inv)).filter _
    have whole := locks_split log earlier later r split action
    have cut : (locks log r.lockKey).take (unlocks log r.lockKey).length = locks earlier r.lockKey := by
      have other := List.take_append_drop (unlocks log r.lockKey).length (locks log r.lockKey)
      rw [← waiting, queue] at other
      have unique := nodup
      rw [← other] at unique
      have parts := List.nodup_append.mp unique
      refine ((List.append_cons_inj_of_notMem (fun early => ?_) (fun late => ?_)).mp (other.trans whole)).1
      · exact parts.2.2 r early r List.mem_cons_self rfl
      · exact (List.nodup_cons.mp parts.2.1).1 late
    obtain ⟨service, -, -, spec⟩ := inv.accepted log before 0
    have count := unlocks_before numKeys cids s inv log before earlier later r split action
    rw [unlocks_matched numKeys log service spec, cut] at count
    have some_later : u ∈ ofClient (unlocks later r.lockKey) r.client := by
      refine (mem_of_client _ _ _).mpr ⟨?_, bad.2.2⟩
      simp only [unlocks, List.mem_filter, decide_eq_true_eq]
      exact ⟨member, bad.1, bad.2.1⟩
    have positive := List.length_pos_of_mem some_later
    omega

-- A grant comes after the grants of all earlier Locks of the key.
theorem grants_ordered (log : List LockRequest) (before : log <+: s.log) (earlier middle later : List LockRequest)
    (first second : LockRequest) (split : s.log = earlier ++ first :: (middle ++ second :: later)) (action : first.action = .lock)
    (action' : second.action = .lock) (same : first.lockKey = second.lockKey) (grant : Granted numKeys log second) :
    ∃ shorter, shorter <+: log ∧ Granted numKeys shorter first ∧ ¬ Granted numKeys shorter second := by
  have logged : first ∈ s.log := by
    rw [split]
    simp
  have logged' : second ∈ s.log := by
    rw [split]
    simp
  have listed : ∃ front back, locks s.log second.lockKey = front ++ second :: back ∧ first ∈ front := by
    refine ⟨_, _, locks_split s.log (earlier ++ first :: middle) later second (by rw [split, List.append_assoc]; rfl) action', ?_⟩
    exact (mem_locks _ _ _).mpr ⟨by simp, action, same⟩
  obtain ⟨front, back, listed, inside⟩ := listed
  induction log using List.reverseRecOn with
  | nil =>
      have member := (granted_iff numKeys cids s inv [] before second logged').mp grant
      cases member
  | append_singleton log req ih =>
      have before' : log <+: s.log := (List.prefix_append log [req]).trans before
      by_cases already : Granted numKeys log second
      · obtain ⟨shorter, part, result⟩ := ih before' already
        exact ⟨shorter, part.trans (List.prefix_append log [req]), result⟩
      · refine ⟨log, List.prefix_append log [req], ?_, already⟩
        rw [granted_iff numKeys cids s inv _ before' second logged'] at already
        have member := (granted_iff numKeys cids s inv _ before second logged').mp grant
        rw [granted_iff numKeys cids s inv _ before' first logged, same]
        obtain ⟨service, -, -, spec⟩ := inv.accepted log before' 0
        obtain ⟨extra, grown, small⟩ := granted_snoc log req second.lockKey (spec.bound _)
        rw [grown] at member
        have last : extra = [second] := by
          have inside' := (List.mem_append.mp member).resolve_left already
          obtain ⟨only, single⟩ := List.length_eq_one_iff.mp (Nat.le_antisymm small (List.length_pos_of_mem inside'))
          rw [single] at inside' ⊢
          rw [List.mem_singleton.mp inside']
        obtain ⟨more, whole⟩ := (List.take_prefix _ _).trans (locks_grow s.log (log ++ [req]) second.lockKey before)
        have whole' : granted log second.lockKey ++ second :: more = front ++ second :: back := by
          rw [← listed, ← whole, ← granted, grown, last, List.append_assoc, List.singleton_append]
        have unique := locks_nodup numKeys cids s inv second.lockKey
        rw [listed, ← whole'] at unique
        have fresh := (List.nodup_cons.mp (List.nodup_append.mp unique).2.1).1
        rw [((List.append_cons_inj_of_notMem already fresh).mp whole').1]
        exact inside

end

-- A client is inside when its service has set the flag of its Lock and it has
-- not yet issued the Unlock.
def Locking.Inside (s : Locking) (key client : Nat) : Prop :=
  ∃ i service flag, s.services i = some service ∧ service.cid = client ∧ s.current client key = some flag ∧ flag ∈ service.done

theorem inside_unique (numKeys : Nat) (cids : Nat → Nat) (s : Locking) (inv : s.Inv numKeys cids) (key client other : Nat)
    (enters : s.Inside key client) (enters' : s.Inside key other) : client = other := by
  obtain ⟨i, service, flag, there, rfl, current, set⟩ := enters
  obtain ⟨j, service', flag', there', rfl, current', set'⟩ := enters'
  obtain ⟨own, -, alone, front⟩ := release_ready numKeys cids s inv i service there key flag current set
  obtain ⟨own', -, alone', front'⟩ := release_ready numKeys cids s inv j service' there' key flag' current' set'
  obtain ⟨-, -, mine, -⟩ := front_split _ _ own alone front
  obtain ⟨-, -, mine', -⟩ := front_split _ _ own' alone' front'
  rw [← mine, ← mine', Option.some.inj (front.symm.trans front')]

-- Two clients and one key: the second waits for the first.
def twoClients : List Action :=
  [.acquire 5 0, .acquire 6 0, .append 5, .append 6, .deliver 0, .deliver 1, .release 0 0, .append 5, .deliver 0, .deliver 1, .deliver 1]

end ZipLog.LockService
