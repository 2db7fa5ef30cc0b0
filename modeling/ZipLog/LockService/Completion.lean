import ZipLog.LockService.Exclusion

set_option autoImplicit false

namespace ZipLog.LockService

-- No assertion fails on the way: the keys exist and an Unlock comes from the
-- client at the front.
def WellFormed (numKeys : Nat) (log : List LockRequest) : Prop :=
  ∀ before req, before ++ [req] <+: log → Accepts numKeys before req

-- The Lock r, number index among the Locks of the key, is the front of the queue.
def Front (log : List LockRequest) (key index : Nat) (r : LockRequest) : Prop :=
  (locks log key)[index]? = some r ∧ index = (unlocks log key).length

-- The calls that req completes: a Lock that becomes the front, and req itself
-- where it is an Unlock.
def Completes (before : List LockRequest) (req r : LockRequest) : Prop :=
  (req.action = .unlock ∧ r = req) ∨ ∃ key index, Front (before ++ [req]) key index r ∧ ¬ Front before key index r

-- The flags that the callback stores to when it handles req behind this log.
def Written (cid numKeys : Nat) (before : List LockRequest) (req : LockRequest) (written : List Nat) : Prop :=
  ∃ service next, replay cid numKeys before = some service ∧ service.callback req = some next ∧ next.done = service.done ++ written

def CompletesRight (cid numKeys : Nat) (log : List LockRequest) : Prop :=
  ∀ before req, before ++ [req] <+: log → ∃ written, Written cid numKeys before req written ∧
    ∀ flag, flag ∈ written ↔ ∃ r, Completes before req r ∧ r.client = cid ∧ r.done = flag

-- No flag is written whose call is over.
def LeavesCompleted (cid numKeys : Nat) (log : List LockRequest) : Prop :=
  ∀ before req written, before ++ [req] <+: log → Written cid numKeys before req written →
    ∀ earlier other r, earlier ++ [other] <+: before → Completes earlier other r → r.client = cid → r.done ∉ written

-- Every Unlock of the client points to the flag of the Lock that it releases.
def SharesFlags (cid : Nat) (log : List LockRequest) : Prop :=
  ∀ before req, before ++ [req] <+: log → req.action = .unlock → req.client = cid →
    (waiting before req.lockKey).head?.map LockRequest.done = some req.done

-- Every call of the client has a flag of its own.
def OwnFlags (cid : Nat) (log : List LockRequest) : Prop := ((ofClient log cid).map LockRequest.done).Nodup

instance (cid : Nat) (log : List LockRequest) : Decidable (OwnFlags cid log) := inferInstanceAs (Decidable (List.Nodup _))

theorem formed_nil (numKeys : Nat) : WellFormed numKeys [] := by
  intro before req earlier
  simp at earlier

theorem formed_snoc (numKeys : Nat) (log : List LockRequest) (req : LockRequest) (formed : WellFormed numKeys log)
    (accepts : Accepts numKeys log req) : WellFormed numKeys (log ++ [req]) := by
  intro before other earlier
  cases List.prefix_concat_iff.mp earlier with
  | inl whole =>
      obtain ⟨same, last⟩ := List.append_inj' whole rfl
      cases last
      exact same ▸ accepts
  | inr part => exact formed before other part

theorem front_waiting (log : List LockRequest) (key : Nat) (r : LockRequest) :
    (∃ index, Front log key index r) ↔ (waiting log key).head? = some r := by
  rw [waiting, List.head?_drop]
  constructor
  · rintro ⟨index, access, here⟩
    exact here ▸ access
  · intro access
    exact ⟨_, access, rfl⟩

theorem store_done (service : Service) (r : LockRequest) :
    (service.store r).done = service.done ++ (ofClient [r] service.cid).map LockRequest.done := by
  unfold Service.store
  by_cases own : r.client = service.cid
  · rw [if_pos own, of_client_cons_own r [] _ own]
    rfl
  · rw [if_neg own, of_client_cons_other r [] _ own]
    exact (List.append_nil _).symm

theorem mem_flags (requests : List LockRequest) (cid flag : Nat) :
    flag ∈ (ofClient requests cid).map LockRequest.done ↔ ∃ r, r ∈ requests ∧ r.client = cid ∧ r.done = flag := by
  simp only [List.mem_map, mem_of_client, and_assoc]

section

variable (numKeys : Nat) (before : List LockRequest) (service : Service) (spec : Replayed numKeys before service) (req : LockRequest)

include spec

theorem lock_written (valid : req.lockKey < numKeys) (action : req.action = .lock) : ∃ next, service.callback req = some next ∧
    next.done = service.done ++ (ofClient (if waiting before req.lockKey = [] then [req] else []) service.cid).map LockRequest.done := by
  unfold Service.callback
  rw [queue_at numKeys before service spec req.lockKey valid, action]
  refine ⟨_, rfl, ?_⟩
  cases waiting before req.lockKey with
  | nil => exact store_done service req
  | cons top rest => exact (List.append_nil _).symm

-- The flag written for an Unlock is that of the Lock at the front.
theorem unlock_written (valid : req.lockKey < numKeys) (action : req.action = .unlock) (top : LockRequest) (rest : List LockRequest)
    (front : waiting before req.lockKey = top :: rest) (owner : top.client = req.client) : ∃ next, service.callback req = some next ∧
    next.done = service.done ++ (ofClient (top :: rest.take 1) service.cid).map LockRequest.done := by
  have member : top ∈ locks before req.lockKey := List.mem_of_mem_drop (front ▸ List.mem_cons_self : top ∈ waiting before req.lockKey)
  obtain ⟨-, lock, key⟩ := (mem_locks _ _ _).mp member
  unfold Service.callback
  rw [queue_at numKeys before service spec req.lockKey valid, action, front]
  dsimp only
  rw [if_neg (by rw [lock, owner, key]; simp)]
  refine ⟨_, rfl, ?_⟩
  cases rest with
  | nil => exact store_done service top
  | cons next rest =>
      change ((service.store top).store next).done = _
      rw [store_done, store_done, store_cid, List.append_assoc, ← List.map_append, ← of_client_append]
      rfl

end

theorem completes_lock (before : List LockRequest) (req r : LockRequest) (action : req.action = .lock)
    (bound : (unlocks before req.lockKey).length ≤ (locks before req.lockKey).length) :
    Completes before req r ↔ waiting before req.lockKey = [] ∧ r = req := by
  have locks' := (after_lock before req action).1
  have unlocks' := (after_lock before req action).2
  rw [waiting, List.drop_eq_nil_iff]
  constructor
  · intro completes
    cases completes with
    | inl unlock =>
        rw [action] at unlock
        cases unlock.1
    | inr front =>
        obtain ⟨key, index, ⟨access, here⟩, fresh⟩ := front
        by_cases same : req.lockKey = key
        · subst same
          rw [unlocks'] at here
          rw [locks'] at access
          rcases Nat.lt_or_ge index (locks before req.lockKey).length with old | new
          · rw [List.getElem?_append_left old] at access
            exact absurd ⟨access, here⟩ fresh
          · have last : index = (locks before req.lockKey).length := by omega
            rw [last, List.getElem?_append_right (Nat.le_refl _), Nat.sub_self] at access
            exact ⟨by omega, (Option.some.inj access).symm⟩
        · rw [(other_key before req key same).1] at access
          rw [(other_key before req key same).2] at here
          exact absurd ⟨access, here⟩ fresh
  · rintro ⟨empty, same⟩
    refine Or.inr ⟨req.lockKey, (locks before req.lockKey).length, ⟨?_, by rw [unlocks']; omega⟩, ?_⟩
    · rw [locks', List.getElem?_append_right (Nat.le_refl _), Nat.sub_self, same]
      rfl
    · rintro ⟨access, _⟩
      exact absurd (List.getElem?_eq_some_iff.mp access).1 (Nat.lt_irrefl _)

theorem completes_unlock (before : List LockRequest) (req r : LockRequest) (action : req.action = .unlock) :
    Completes before req r ↔ r ∈ req :: (waiting before req.lockKey).tail.take 1 := by
  have locks' := (after_unlock before req action).1
  have unlocks' := (after_unlock before req action).2
  have next : r ∈ (waiting before req.lockKey).tail.take 1 ↔
      (locks before req.lockKey)[(unlocks before req.lockKey).length + 1]? = some r := by
    rw [waiting, List.tail_drop, List.take_one, List.head?_drop, Option.mem_toList]
  rw [List.mem_cons, next]
  constructor
  · intro completes
    cases completes with
    | inl unlock => exact Or.inl unlock.2
    | inr front =>
        obtain ⟨key, index, ⟨access, here⟩, fresh⟩ := front
        by_cases same : req.lockKey = key
        · subst same
          rw [unlocks', List.length_append, List.length_singleton] at here
          rw [locks', here] at access
          exact Or.inr access
        · rw [(other_key before req key same).1] at access
          rw [(other_key before req key same).2] at here
          exact absurd ⟨access, here⟩ fresh
  · intro cases_
    cases cases_ with
    | inl same => exact Or.inl ⟨action, same⟩
    | inr access =>
        refine Or.inr ⟨req.lockKey, _, ⟨by rw [locks']; exact access, by rw [unlocks', List.length_append, List.length_singleton]⟩, ?_⟩
        rintro ⟨_, here⟩
        omega

section

variable (cid numKeys : Nat) (log : List LockRequest) (formed : WellFormed numKeys log)

include formed

theorem formed_accepted (before : List LockRequest) (earlier : before <+: log) : Accepted numKeys before := by
  induction before using List.reverseRecOn with
  | nil => exact accepted_nil numKeys
  | append_singleton before req ih =>
      exact accepted_snoc numKeys before req (ih ((List.prefix_append before [req]).trans earlier)) (formed before req earlier)

theorem formed_step (before : List LockRequest) (req : LockRequest) (earlier : before ++ [req] <+: log) :
    ∃ service, replay cid numKeys before = some service ∧ service.cid = cid ∧ Replayed numKeys before service ∧ Accepts numKeys before req := by
  obtain ⟨service, ran, own, spec⟩ := formed_accepted numKeys log formed before ((List.prefix_append before [req]).trans earlier) cid
  exact ⟨service, ran, own, spec, formed before req earlier⟩

-- What is written for a Lock is right.
theorem lock_right (before : List LockRequest) (req : LockRequest) (earlier : before ++ [req] <+: log) (action : req.action = .lock) :
    ∃ written, Written cid numKeys before req written ∧
      ∀ flag, flag ∈ written ↔ ∃ r, Completes before req r ∧ r.client = cid ∧ r.done = flag := by
  obtain ⟨service, ran, own, spec, accepts⟩ := formed_step cid numKeys log formed before req earlier
  obtain ⟨next, result, done⟩ := lock_written numKeys before service spec req accepts.1 action
  refine ⟨_, ⟨service, next, ran, result, done⟩, fun flag => ?_⟩
  rw [mem_flags, own]
  apply exists_congr
  intro r
  rw [completes_lock before req r action (spec.bound _)]
  by_cases empty : waiting before req.lockKey = []
  · simp [empty]
  · simp [empty]

-- What is written for an Unlock is right but for the flag of the Unlock itself.
theorem unlock_flags (before : List LockRequest) (req : LockRequest) (earlier : before ++ [req] <+: log) (action : req.action = .unlock) :
    ∃ top rest, waiting before req.lockKey = top :: rest ∧ top.client = req.client ∧
      Written cid numKeys before req ((ofClient (top :: rest.take 1) cid).map LockRequest.done) ∧
      ∀ r, Completes before req r ↔ r ∈ req :: rest.take 1 := by
  obtain ⟨service, ran, own, spec, accepts⟩ := formed_step cid numKeys log formed before req earlier
  obtain ⟨top, rest, front, owner⟩ := accepts.2 action
  obtain ⟨next, result, done⟩ := unlock_written numKeys before service spec req accepts.1 action top rest front owner
  refine ⟨top, rest, front, owner, ⟨service, next, ran, result, own ▸ done⟩, fun r => ?_⟩
  rw [completes_unlock before req r action, front, List.tail_cons]

end

theorem written_unique (cid numKeys : Nat) (before : List LockRequest) (req : LockRequest) (written other : List Nat)
    (first : Written cid numKeys before req written) (second : Written cid numKeys before req other) : written = other := by
  obtain ⟨service, next, ran, result, done⟩ := first
  obtain ⟨service', next', ran', result', done'⟩ := second
  cases ran.symm.trans ran'
  cases result.symm.trans result'
  exact List.append_cancel_left (done.symm.trans done')

theorem shares_right (cid numKeys : Nat) (log : List LockRequest) (formed : WellFormed numKeys log) (shares : SharesFlags cid log) :
    CompletesRight cid numKeys log := by
  intro before req earlier
  cases action : req.action with
  | lock => exact lock_right cid numKeys log formed before req earlier action
  | unlock =>
      obtain ⟨top, rest, front, owner, written, completes⟩ := unlock_flags cid numKeys log formed before req earlier action
      refine ⟨_, written, fun flag => ?_⟩
      have same : req.client = cid → top.done = req.done := by
        intro mine
        have shared := shares before req earlier action mine
        rw [front] at shared
        exact Option.some.inj shared
      rw [mem_flags]
      simp only [completes, List.mem_cons, or_and_right, exists_or, exists_eq_left, owner]
      by_cases mine : req.client = cid
      · rw [same mine]
      · simp only [mine, false_and, false_or]

-- The flags of an Unlock and of the Lock before it, with the one flag that both
-- steps may write beside them.
theorem right_shares (cid numKeys : Nat) (log : List LockRequest) (formed : WellFormed numKeys log) (right : CompletesRight cid numKeys log) :
    SharesFlags cid log := by
  intro before req earlier action mine
  obtain ⟨top, rest, front, owner, written, completes⟩ := unlock_flags cid numKeys log formed before req earlier action
  obtain ⟨written', there, exact_⟩ := right before req earlier
  rw [written_unique cid numKeys before req _ _ there written] at exact_
  have first := exact_ top.done
  have second := exact_ req.done
  rw [mem_flags] at first second
  simp only [completes, List.mem_cons, or_and_right, exists_or, exists_eq_left, owner, mine, true_and] at first second
  rw [front, List.head?_cons, Option.map_some]
  congr 1
  by_contra different
  have left := (first.mp (Or.inl trivial)).resolve_left (fun same => different same.symm)
  have right' := (second.mpr (Or.inl trivial)).resolve_left different
  obtain ⟨r, member, _, number⟩ := left
  obtain ⟨r', member', _, number'⟩ := right'
  cases rest with
  | nil => cases member
  | cons next rest =>
      rw [List.take_succ_cons, List.take_zero, List.mem_singleton] at member member'
      rw [member] at number
      rw [member'] at number'
      exact different (number.symm.trans number')

theorem own_flags_position (log requests : List LockRequest) (cid : Nat) (own : OwnFlags cid log) (part : List.Sublist requests log)
    (r : LockRequest) (mine : r.client = cid) (first second : Nat) (access : requests[first]? = some r)
    (access' : requests[second]? = some r) (less : first < second) : False := by
  have nodup : (ofClient requests cid).Nodup := (List.Nodup.of_map _ own).sublist (part.filter _)
  rw [← List.take_append_drop second requests, of_client_append] at nodup
  have early : r ∈ requests.take second := List.mem_of_getElem? ((List.getElem?_take_of_lt less).trans access)
  have late : r ∈ requests.drop second := List.mem_of_getElem? ((List.getElem?_drop ..).trans (by rw [Nat.add_zero]; exact access'))
  exact (List.nodup_append.mp nodup).2.2 r ((mem_of_client _ _ _).mpr ⟨early, mine⟩) r ((mem_of_client _ _ _).mpr ⟨late, mine⟩) rfl

theorem shares_no_unlock (cid numKeys : Nat) (log : List LockRequest) (formed : WellFormed numKeys log) (own : OwnFlags cid log)
    (shares : SharesFlags cid log) : ∀ r ∈ log, r.client = cid → r.action = .lock := by
  intro r member mine
  cases action : r.action with
  | lock => rfl
  | unlock =>
      obtain ⟨before, after, split⟩ := List.append_of_mem member
      have earlier : before ++ [r] <+: log := ⟨after, by rw [split, List.append_assoc, List.singleton_append]⟩
      obtain ⟨top, rest, front, owner⟩ := (formed before r earlier).2 action
      have shared := shares before r earlier action mine
      rw [front] at shared
      have logged : top ∈ before := ((mem_locks _ _ _).mp (List.mem_of_mem_drop (front ▸ List.mem_cons_self : top ∈ waiting before r.lockKey))).1
      rw [OwnFlags, split, of_client_append, of_client_cons_own r after cid mine, List.map_append, List.map_cons] at own
      exact absurd (Option.some.inj shared) ((List.nodup_append.mp own).2.2 _
        (List.mem_map_of_mem ((mem_of_client _ _ _).mpr ⟨logged, owner.trans mine⟩)) _ List.mem_cons_self)

-- A Lock becomes the front once.
theorem front_once (cid : Nat) (log before earlier : List LockRequest) (req other r : LockRequest) (own : OwnFlags cid log)
    (reached : before ++ [req] <+: log) (past : earlier ++ [other] <+: before) (mine : r.client = cid) (key key' index index' : Nat)
    (front : Front (before ++ [req]) key index r) (front' : Front (earlier ++ [other]) key' index' r) : Front before key index r := by
  have keys : key' = key := by
    have first := ((mem_locks _ _ _).mp (List.mem_of_getElem? front.1)).2.2
    have second := ((mem_locks _ _ _).mp (List.mem_of_getElem? front'.1)).2.2
    exact second.symm.trans first
  subst keys
  have grown : before <+: before ++ [req] := List.prefix_append before [req]
  have access : (locks before key')[index']? = some r := by
    obtain ⟨more, same⟩ := locks_grow before (earlier ++ [other]) key' past
    rw [← same, List.getElem?_append_left (List.getElem?_eq_some_iff.mp front'.1).1]
    exact front'.1
  have access' : (locks (before ++ [req]) key')[index']? = some r := by
    rw [locks_append, List.getElem?_append_left (List.getElem?_eq_some_iff.mp access).1]
    exact access
  have part : List.Sublist (locks (before ++ [req]) key') log := List.filter_sublist.trans reached.sublist
  have positions : index = index' := by
    rcases Nat.lt_trichotomy index index' with less | same | less
    · exact (own_flags_position log _ cid own part r mine index index' front.1 access' less).elim
    · exact same
    · exact (own_flags_position log _ cid own part r mine index' index access' front.1 less).elim
  subst positions
  have few := unlocks_grow before (earlier ++ [other]) key' past
  have more := unlocks_grow (before ++ [req]) before key' grown
  have here := front.2
  have here' := front'.2
  exact ⟨access, by omega⟩

theorem completes_logged (before : List LockRequest) (req r : LockRequest) (completes : Completes before req r) : r ∈ before ++ [req] := by
  cases completes with
  | inl unlock => exact List.mem_append_right _ (List.mem_singleton.mpr unlock.2)
  | inr front =>
      obtain ⟨key, index, ⟨access, _⟩, _⟩ := front
      exact ((mem_locks _ _ _).mp (List.mem_of_getElem? access)).1

theorem no_unlock_leaves (cid numKeys : Nat) (log : List LockRequest) (right : CompletesRight cid numKeys log) (own : OwnFlags cid log)
    (none : ∀ r ∈ log, r.client = cid → r.action = .lock) : LeavesCompleted cid numKeys log := by
  intro before req written reached there earlier other r past over_ mine member
  obtain ⟨written', there', exact_⟩ := right before req reached
  rw [← written_unique cid numKeys before req written written' there there'] at exact_
  obtain ⟨r', completes, mine', number⟩ := (exact_ r.done).mp member
  have logged' := reached.subset (completes_logged before req r' completes)
  have logged := reached.subset (List.mem_append_left _ (past.subset (completes_logged earlier other r over_)))
  have same : r' = r := List.inj_on_of_nodup_map own ((mem_of_client _ _ _).mpr ⟨logged', mine'⟩)
    ((mem_of_client _ _ _).mpr ⟨logged, mine⟩) number
  subst same
  have lock := none r' logged mine
  have unlocks' : ∀ (log' : List LockRequest) (last : LockRequest), Completes log' last r' →
      ∃ key index, Front (log' ++ [last]) key index r' ∧ ¬ Front log' key index r' := by
    intro log' last ends
    cases ends with
    | inl unlock =>
        rw [unlock.2] at lock
        rw [unlock.1] at lock
        cases lock
    | inr front => exact front
  obtain ⟨key, index, front, fresh⟩ := unlocks' before req completes
  obtain ⟨key', index', front', _⟩ := unlocks' earlier other over_
  exact fresh (front_once cid log before earlier req other r' own reached past mine key key' index index' front front')

-- Front speaks of the queues that the service keeps.
theorem front_queue (cid numKeys : Nat) (log : List LockRequest) (formed : WellFormed numKeys log) (before : List LockRequest)
    (earlier : before <+: log) (service : Service) (ran : replay cid numKeys before = some service) (key : Nat) (valid : key < numKeys)
    (r : LockRequest) : (∃ index, Front before key index r) ↔ (service.lockQueue[key]?.bind List.head?) = some r := by
  obtain ⟨service', ran', _, spec⟩ := formed_accepted numKeys log formed before earlier cid
  cases ran.symm.trans ran'
  rw [front_waiting, queue_at numKeys before service spec key valid, Option.bind_some]

-- Client 1 has the lock and hands it on to client 2.
def handedOn : List LockRequest := [⟨.lock, 1, 0, 0⟩, ⟨.lock, 2, 0, 0⟩, ⟨.unlock, 1, 0, 1⟩]

theorem handed_on_formed : WellFormed 1 handedOn := by
  have first := formed_snoc 1 [] ⟨.lock, 1, 0, 0⟩ (formed_nil 1) ⟨by decide, fun action => by cases action⟩
  have second := formed_snoc 1 _ ⟨.lock, 2, 0, 0⟩ first ⟨by decide, fun action => by cases action⟩
  exact formed_snoc 1 _ ⟨.unlock, 1, 0, 1⟩ second ⟨by decide, fun _ => ⟨⟨.lock, 1, 0, 0⟩, [⟨.lock, 2, 0, 0⟩], by decide, rfl⟩⟩

end ZipLog.LockService
