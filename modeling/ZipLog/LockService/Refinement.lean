import ZipLog.LockService.Exclusion
import ZipLog.LockService.Replicas
import ZipLog.System.InOrder

set_option autoImplicit false

namespace ZipLog.LockService

open ZipLog.System Streams

-- The lock service on the whole system. The instance on a subscriber is that of the
-- client cids subscriberId and has done what processed says; current and issued are
-- those of Locking.
structure LockSystem where
  deployment : Deployment
  current : Nat → Nat → Option Nat
  issued : Nat → Nat

def LockSystem.init (config : Config) : LockSystem := ⟨Deployment.init config, fun _ _ => none, fun _ => 0⟩

-- lock_service::request up to the end of client::insert. The padding is what lies in the
-- buffer; the flags are told apart by numbers, as in Locking.
def LockSystem.request (config : Config) (s : LockSystem) (client key : Nat) (action : LockAction) (current : Option Nat)
    (padding response : Nat) : Option LockSystem :=
  let request : LockRequest := ⟨action, client, key, s.issued client⟩
  if Layout.Fits (request.fields padding) then
    (s.deployment.step config (.service (.enqueue client (request.encode padding) response))).map (fun deployment =>
      { deployment := deployment
        current := Function.update s.current client (Function.update (s.current client) key current)
        issued := Function.update s.issued client (s.issued client + 1) })
  else none

inductive LockEvent where
  | acquire (client key padding response : Nat)
  | release (subscriberId key padding response : Nat)
  | system (action : ZipLog.System.Action)

-- callback takes no lock, so a subscriber has one application thread; and nobody else
-- calls client::insert.
def LockEvent.plain : ZipLog.System.Action → Bool
  | .service (.enqueue ..) => false
  | .launch _ _ applicationThreads _ _ => decide (applicationThreads = 1)
  | _ => true

def LockSystem.step (config : Config) (numKeys : Nat) (cids : Nat → Nat) (s : LockSystem) : LockEvent → Option LockSystem
  | .acquire client key padding response =>
      if key < numKeys ∧ s.current client key = none then s.request config client key .lock (some (s.issued client)) padding response
      else none
  | .release subscriberId key padding response =>
      match (s.deployment.readers subscriberId).bind (processed (cids subscriberId) numKeys) with
      | none => none
      | some service =>
          match s.current service.cid key with
          | none => none
          | some flag => if flag ∈ service.done then s.request config service.cid key .unlock none padding response else none
  | .system action =>
      if LockEvent.plain action then (s.deployment.step config action).map (fun deployment => { s with deployment := deployment }) else none

-- Locking with the calls at the instances for the log.
structure LockSystem.Tracks (s : LockSystem) (a : Locking) : Prop where
  current : a.current = s.current
  issued : a.issued = s.issued
  requests : ∀ client, (s.deployment.service.requests client).map LockRequest.decode = (ofClient a.log client ++ a.pending client).map some
  calls : ∀ subscriberId, (s.deployment.calls subscriberId).map (fun item => LockRequest.decode item.2.2) =
    (a.log.take (a.applied subscriberId)).map some

-- The log is as long as the calls at one of them.
structure LockSystem.Refines (s : LockSystem) (a : Locking) : Prop extends s.Tracks a where
  reached : ∃ subscriberId, a.applied subscriberId = a.log.length

def LockSystem.Single (s : LockSystem) : Prop :=
  ∀ subscriberId reader, s.deployment.readers subscriberId = some reader → reader.applicationThreads = 1

-- callback on the decoded calls.
theorem deliver_replay (service : Service) (calls : List (Nat × Nat × Bytes)) (log : List LockRequest)
    (decoded : calls.map (fun item => LockRequest.decode item.2.2) = log.map some) :
    Machine.run Service.deliver service calls = Machine.run Service.callback service log := by
  induction calls generalizing service log with
  | nil =>
      rw [List.map_nil] at decoded
      rw [List.map_eq_nil_iff.mp decoded.symm]
      rfl
  | cons item rest ih =>
      obtain ⟨req, others, rfl, first, later⟩ := List.map_eq_cons_iff.mp decoded.symm
      have once : service.deliver item = service.callback req := by
        rw [Service.deliver, show LockRequest.decode item.2.2 = some req from first.symm]
        rfl
      simp only [Machine.run, List.foldlM_cons, Option.bind_eq_bind, once]
      cases service.callback req with
      | none => rfl
      | some next => exact ih next others later.symm

-- The calls for a client are its requests in the log.
theorem decoded_own (calls : List (Nat × Nat × Bytes)) (log : List LockRequest) (client : Nat)
    (decoded : calls.map (fun item => LockRequest.decode item.2.2) = log.map some)
    (owned : ∀ item ∈ calls, ∀ req, LockRequest.decode item.2.2 = some req → req.client = item.2.1) :
    (calls.filter (fun item => item.2.1 = client)).map (fun item => LockRequest.decode item.2.2) = (ofClient log client).map some := by
  induction calls generalizing log with
  | nil =>
      rw [List.map_nil] at decoded
      rw [List.map_eq_nil_iff.mp decoded.symm]
      rfl
  | cons item rest ih =>
      obtain ⟨req, others, rfl, first, later⟩ := List.map_eq_cons_iff.mp decoded.symm
      have owner := owned item List.mem_cons_self req first.symm
      have tail := ih others later.symm (fun other member => owned other (List.mem_cons_of_mem _ member))
      by_cases mine : req.client = client
      · rw [of_client_cons_own req others client mine, List.filter_cons_of_pos (by simpa [← owner] using mine), List.map_cons, List.map_cons,
          tail, first]
      · rw [of_client_cons_other req others client mine, List.filter_cons_of_neg (by simpa [← owner] using mine), tail]

section

variable (config : Config) (numKeys : Nat) (cids : Nat → Nat) (s : LockSystem) (a : Locking) (refines : s.Refines a)

include refines

-- What an instance has done is what it has done in Locking.
theorem processed_served (inv : a.Inv numKeys cids) (subscriberId : Nat) (reader : Reader)
    (present : s.deployment.readers subscriberId = some reader) : processed (cids subscriberId) numKeys reader = a.services subscriberId := by
  have calls := refines.calls subscriberId
  rw [Deployment.calls, present] at calls
  rw [(inv.served subscriberId).1]
  exact deliver_replay _ _ _ calls

theorem request_refines (client key : Nat) (action : LockAction) (current : Option Nat) (padding response : Nat) (next : LockSystem)
    (stepped : s.request config client key action current padding response = some next) :
    next.Refines (a.request client key action current) := by
  obtain ⟨fits, enqueued⟩ := Option.ite_none_right_eq_some.mp stepped
  obtain ⟨deployment, moved, rfl⟩ := Option.map_eq_some_iff.mp enqueued
  obtain ⟨service, queued, rfl⟩ := Option.map_eq_some_iff.mp moved
  have requests := enqueue_requests config.failures _ service client _ response queued
  have read := decode_encode padding ⟨action, client, key, s.issued client⟩ fits []
  rw [List.append_nil] at read
  refine ⟨⟨?_, ?_, ?_, refines.calls⟩, refines.reached⟩
  · rw [← refines.current]
    rfl
  · rw [← refines.issued]
    rfl
  · intro other
    dsimp only
    rw [requests other]
    by_cases mine : other = client
    · subst mine
      rw [if_pos rfl, List.map_append, refines.requests other, List.map_singleton, read, ← refines.issued, Locking.request]
      simp only [Function.update_self, List.map_append, List.map_cons, List.map_nil, List.append_assoc]
    · rw [if_neg mine, refines.requests other, Locking.request]
      simp only [Function.update_of_ne mine]

end

section

variable (numKeys : Nat) (cids : Nat → Nat) (s : LockSystem) (a : Locking) (tracks : s.Tracks a) (inv : a.Inv numKeys cids)

include tracks inv

-- The next request of a client gets its GSN.
theorem append_tracks (client : Nat) (req : LockRequest) (rest : List LockRequest) (pending : a.pending client = req :: rest) :
    s.Tracks { a with log := a.log ++ [req], pending := Function.update a.pending client rest } := by
  have owner := (inv.owned client req (by rw [pending]; exact List.mem_cons_self)).1
  refine ⟨tracks.current, tracks.issued, ?_, ?_⟩
  · intro other
    rw [tracks.requests other]
    dsimp only
    rw [of_client_append]
    by_cases mine : other = client
    · subst mine
      rw [pending, Function.update_self, of_client_cons_own req [] other owner, List.append_assoc]
      rfl
    · rw [Function.update_of_ne mine, of_client_cons_other req [] other (by rw [owner]; exact fun same => mine same.symm)]
      simp [ofClient]
  · intro subscriberId
    dsimp only
    rw [tracks.calls subscriberId, List.take_append_of_le_length (inv.served subscriberId).2]

omit inv in
-- A call at an instance is the next request of the log.
theorem deliver_tracks (deployment : Deployment) (requests : deployment.service.requests = s.deployment.service.requests) (subscriberId : Nat)
    (item : Nat × Nat × Bytes) (calls : ∀ other, deployment.calls other = s.deployment.calls other ++ if other = subscriberId then [item] else [])
    (req : LockRequest) (read : LockRequest.decode item.2.2 = some req) (there : a.log[a.applied subscriberId]? = some req) :
    ∃ next, Locking.step numKeys a (.deliver subscriberId) = some next ∧ LockSystem.Tracks { s with deployment := deployment } next ∧
      next.log = a.log ∧ next.applied = Function.update a.applied subscriberId (a.applied subscriberId + 1) := by
  have stepped : Locking.step numKeys a (.deliver subscriberId) = some { a with
      services := Function.update a.services subscriberId ((a.services subscriberId).bind (fun service => service.callback req))
      applied := Function.update a.applied subscriberId (a.applied subscriberId + 1) } := by
    rw [Locking.step, there]
  refine ⟨_, stepped, ⟨tracks.current, tracks.issued, ?_, ?_⟩, rfl, rfl⟩
  · intro client
    dsimp only
    rw [requests]
    exact tracks.requests client
  · intro other
    dsimp only
    rw [calls other, List.map_append, tracks.calls other]
    by_cases mine : other = subscriberId
    · subst mine
      rw [if_pos rfl, Function.update_self, List.take_add_one, there, List.map_append, List.map_singleton, read]
      rfl
    · rw [if_neg mine, Function.update_of_ne mine, List.map_nil, List.append_nil]

end

section

variable (replicas : Nat → List Nat) (deployment : Deployment) (history : Nat → List StorageControl)
  (good : deployment.Inv replicas history) (turns : deployment.InTurn)
  (single : ∀ subscriberId reader, deployment.readers subscriberId = some reader → reader.applicationThreads = 1)

include good turns single

-- The calls for a client are its first requests, none of which is empty.
theorem calls_requests (client subscriberId : Nat) (requests : List LockRequest)
    (decoded : (deployment.service.requests client).map LockRequest.decode = requests.map some) :
    ((deployment.calls subscriberId).filter (fun item => item.2.1 = client)).map (fun item => LockRequest.decode item.2.2) <+:
      requests.map some := by
  have before : ((deployment.calls subscriberId).filter (fun item => item.2.1 = client)).map (fun item => item.2.2) <+:
      (deployment.service.requests client).filter (fun data => 0 < data.length) := by
    unfold Deployment.calls
    split
    · exact List.nil_prefix
    · rename_i reader present
      exact own_requests replicas deployment history good subscriberId reader present (turns subscriberId reader present)
        (single subscriberId reader present) client
  have nonempty : (deployment.service.requests client).filter (fun data => 0 < data.length) = deployment.service.requests client := by
    refine List.filter_eq_self.mpr (fun data member => ?_)
    have read : LockRequest.decode data ∈ requests.map some := decoded ▸ List.mem_map_of_mem member
    obtain ⟨req, _, same⟩ := List.mem_map.mp read
    refine decide_eq_true (Nat.pos_of_ne_zero (fun empty => ?_))
    rw [List.eq_nil_of_length_eq_zero empty] at same
    cases same
  rw [nonempty] at before
  have read := before.map LockRequest.decode
  rw [List.map_map, decoded] at read
  exact read

theorem calls_comparable (subscriberId otherId : Nat) : Comparable (deployment.calls subscriberId) (deployment.calls otherId) := by
  unfold Deployment.calls
  split
  · exact Or.inl List.nil_prefix
  · rename_i reader present
    split
    · exact Or.inr List.nil_prefix
    · rename_i other there
      have agree := fun entry entry' member member' same => genuine_agree replicas deployment.service history good.service entry entry'
        ((good.readers subscriberId reader present).passed entry member) ((good.readers otherId other there).passed entry' member') same
      exact (streams_comparable reader other (turns subscriberId reader present) (turns otherId other there)
        (single subscriberId reader present) (single otherId other there) agree).2

end

theorem append_steps (numKeys : Nat) (a : Locking) (client : Nat) (req : LockRequest) (rest : List LockRequest)
    (pending : a.pending client = req :: rest) : Locking.step numKeys a (.append client) =
      some { a with log := a.log ++ [req], pending := Function.update a.pending client rest } := by
  rw [Locking.step, pending]

section

variable (numKeys : Nat) (cids : Nat → Nat) (replicas : Nat → List Nat) (s : LockSystem) (a : Locking) (refines : s.Refines a)
  (inv : a.Inv numKeys cids) (deployment : Deployment) (history : Nat → List StorageControl) (good : deployment.Inv replicas history)
  (turns : deployment.InTurn)
  (single : ∀ subscriberId reader, deployment.readers subscriberId = some reader → reader.applicationThreads = 1)
  (requests : deployment.service.requests = s.deployment.service.requests) (subscriberId : Nat) (item : Nat × Nat × Bytes)
  (calls : ∀ other, deployment.calls other = s.deployment.calls other ++ if other = subscriberId then [item] else [])

include refines inv good turns single requests calls

omit inv requests in
-- Another instance has had this call.
theorem behind_reads (behind : a.applied subscriberId < a.log.length) :
    LockRequest.decode item.2.2 = some (a.log[a.applied subscriberId]) := by
  obtain ⟨top, reached⟩ := refines.reached
  have different : top ≠ subscriberId := fun same => by rw [same] at reached; omega
  have grown : deployment.calls subscriberId = s.deployment.calls subscriberId ++ [item] := by rw [calls, if_pos rfl]
  have whole : (deployment.calls top).map (fun item => LockRequest.decode item.2.2) = a.log.map some := by
    rw [calls top, if_neg different, List.append_nil, refines.calls top, reached, List.take_length]
  have count : (s.deployment.calls subscriberId).length = a.applied subscriberId := by
    have sizes := congrArg List.length (refines.calls subscriberId)
    rw [List.length_map, List.length_map, List.length_take] at sizes
    omega
  have longer : (deployment.calls subscriberId).length ≤ (deployment.calls top).length := by
    have sizes := congrArg List.length whole
    rw [List.length_map, List.length_map] at sizes
    rw [grown, List.length_append, List.length_singleton]
    omega
  have before : deployment.calls subscriberId <+: deployment.calls top := by
    cases calls_comparable replicas deployment history good turns single subscriberId top with
    | inl before => exact before
    | inr after => rw [after.eq_of_length (Nat.le_antisymm after.length_le longer)]
  have read := before.map (fun item => LockRequest.decode item.2.2)
  rw [whole, grown, List.map_append] at read
  have access := Storage.prefix_access _ _ read (a.applied subscriberId) (LockRequest.decode item.2.2) (by
    rw [List.getElem?_append_right (by rw [List.length_map, count]), List.length_map, count, Nat.sub_self]
    rfl)
  rw [List.getElem?_map, List.getElem?_eq_getElem behind] at access
  exact (Option.some.inj access).symm

-- The call is the next request of its client.
theorem ahead_reads (ahead : a.applied subscriberId = a.log.length) :
    ∃ req rest, a.pending item.2.1 = req :: rest ∧ LockRequest.decode item.2.2 = some req := by
  have grown : deployment.calls subscriberId = s.deployment.calls subscriberId ++ [item] := by rw [calls, if_pos rfl]
  have own := fun client => calls_requests replicas deployment history good turns single client subscriberId
    (ofClient a.log client ++ a.pending client) (by rw [requests]; exact refines.requests client)
  have owned : ∀ call ∈ s.deployment.calls subscriberId, ∀ req, LockRequest.decode call.2.2 = some req → req.client = call.2.1 := by
    intro call member req read
    have inside : call ∈ (deployment.calls subscriberId).filter (fun item => item.2.1 = call.2.1) :=
      List.mem_filter.mpr ⟨by rw [grown]; exact List.mem_append_left _ member, decide_eq_true rfl⟩
    obtain ⟨known, there, same⟩ := List.mem_map.mp ((own call.2.1).subset (List.mem_map_of_mem inside))
    rw [read] at same
    cases same
    cases List.mem_append.mp there with
    | inl logged => exact ((mem_of_client _ _ _).mp logged).2
    | inr waiting => exact (inv.owned call.2.1 req waiting).1
  have logged := decoded_own (s.deployment.calls subscriberId) a.log item.2.1
    (by rw [refines.calls subscriberId, ahead, List.take_length]) owned
  have more := own item.2.1
  rw [grown, List.filter_append, List.map_append, logged, List.map_append, List.filter_cons_of_pos (by simp)] at more
  obtain ⟨rest, tail⟩ := (List.prefix_append_right_inj _).mp more
  obtain ⟨req, others, pending, first, _⟩ := List.map_eq_cons_iff.mp tail.symm
  exact ⟨req, others, pending, first.symm⟩

-- The longest sequence of calls is ahead of the log by one call at most.
theorem call_refines :
    ∃ actions next, Machine.run (Locking.step numKeys) a actions = some next ∧ LockSystem.Refines { s with deployment := deployment } next := by
  rcases Nat.lt_or_ge (a.applied subscriberId) a.log.length with behind | beyond
  · obtain ⟨top, reached⟩ := refines.reached
    have different : top ≠ subscriberId := fun same => by rw [same] at reached; omega
    have read := behind_reads replicas s a refines deployment history good turns single subscriberId item calls behind
    obtain ⟨next, stepped, tracks, log, applied⟩ :=
      deliver_tracks numKeys s a refines.toTracks deployment requests subscriberId item calls _ read (List.getElem?_eq_getElem behind)
    refine ⟨[.deliver subscriberId], next, ?_, tracks, top, ?_⟩
    · simp [Machine.run, stepped]
    · rw [log, applied, Function.update_of_ne different, reached]
  · have ahead := Nat.le_antisymm (inv.served subscriberId).2 beyond
    obtain ⟨req, rest, pending, read⟩ :=
      ahead_reads numKeys cids replicas s a refines inv deployment history good turns single requests subscriberId item calls ahead
    have appended := append_tracks numKeys cids s a refines.toTracks inv item.2.1 req rest pending
    obtain ⟨next, stepped, tracks, log, applied⟩ := deliver_tracks numKeys s _ appended deployment requests subscriberId item calls req read
      (by rw [ahead]; exact List.getElem?_concat_length)
    refine ⟨[.append item.2.1, .deliver subscriberId], next, ?_, tracks, subscriberId, ?_⟩
    · simp [Machine.run, append_steps numKeys a item.2.1 req rest pending, stepped]
    · rw [log, applied, Function.update_self, List.length_append, ahead]
      rfl

end

end ZipLog.LockService
