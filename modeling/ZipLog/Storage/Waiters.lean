import ZipLog.Storage.Linear

set_option autoImplicit false

namespace ZipLog.Storage

def Phase.awaits? : Phase → Option Nat
  | .waiting _ _ ref => some ref
  | _ => none

structure Threads.Parked (s : Threads) : Prop where
  waiters : ∀ thread ref, thread ∈ s.waiters ref ↔ (s.phase thread).awaits? = some ref
  once : ∀ ref, (s.waiters ref).Nodup

theorem init_parked (shardId replicaId : Nat) : (Threads.init shardId replicaId).Parked := by
  constructor
  · intro thread ref
    exact ⟨fun member => (by cases member), fun there => (by cases there)⟩
  · intro ref
    exact List.nodup_nil

-- A step in which one thread moves, and neither begins nor ends to wait.
theorem parked_update (s next : Threads) (parked : s.Parked) (thread : Nat) (phase : Phase) (phases : next.phase = Function.update s.phase thread phase)
    (old : (s.phase thread).awaits? = none) (new : phase.awaits? = none) (waiters : next.waiters = s.waiters) : next.Parked := by
  constructor
  · intro other ref
    rw [waiters, phases, parked.waiters]
    by_cases mine : other = thread
    · rw [mine, Function.update_self, old, new]
    · rw [Function.update_of_ne mine]
  · rw [waiters]
    exact parked.once

theorem block_parked (s : Threads) (parked : s.Parked) (thread : Nat) (job : Job) (clientId ref : Nat)
    (old : (s.phase thread).awaits? = none) : (s.block thread job clientId ref).Parked := by
  have absent : ∀ place, thread ∉ s.waiters place := by
    intro place member
    rw [(parked.waiters thread place).mp member] at old
    cases old
  constructor
  · intro other place
    change other ∈ Function.update s.waiters ref (s.waiters ref ++ [thread]) place ↔
      ((Function.update s.phase thread (.waiting job clientId ref)) other).awaits? = some place
    by_cases mine : other = thread
    · subst mine
      rw [Function.update_self]
      by_cases here : place = ref
      · subst here
        rw [Function.update_self]
        exact ⟨fun _ => rfl, fun _ => List.mem_append_right _ (List.mem_singleton_self _)⟩
      · rw [Function.update_of_ne here]
        exact ⟨fun member => absurd member (absent place), fun same => absurd (Option.some.inj same).symm here⟩
    · rw [Function.update_of_ne mine, ← parked.waiters]
      by_cases here : place = ref
      · subst here
        rw [Function.update_self, List.mem_append, List.mem_singleton, or_iff_left mine]
      · rw [Function.update_of_ne here]
  · intro place
    change (Function.update s.waiters ref (s.waiters ref ++ [thread]) place).Nodup
    by_cases here : place = ref
    · subst here
      rw [Function.update_self]
      refine List.nodup_append.mpr ⟨parked.once place, List.nodup_singleton thread, ?_⟩
      rintro other member last there rfl
      rw [List.mem_singleton.mp there] at member
      exact absent place member
    · rw [Function.update_of_ne here]
      exact parked.once place

theorem wake_waiters (s : Threads) (thread ref : Nat) (waits : (s.phase thread).awaits? = some ref) :
    (s.wake thread).waiters = Function.update s.waiters ref ((s.waiters ref).erase thread) := by
  cases phase : s.phase thread with
  | waiting job clientId place =>
      rw [phase] at waits
      cases waits
      rw [Threads.wake, phase]
  | _ =>
      rw [phase] at waits
      cases waits

theorem wake_parked (s : Threads) (parked : s.Parked) (thread ref : Nat) (waits : (s.phase thread).awaits? = some ref) :
    (s.wake thread).Parked := by
  have woken : (s.phase thread).woken.awaits? = none := by cases s.phase thread <;> rfl
  constructor
  · intro other place
    rw [wake_waiters s thread ref waits, wake_phase]
    by_cases mine : other = thread
    · subst mine
      rw [Function.update_self, woken]
      refine ⟨fun member => ?_, fun none => (by cases none)⟩
      by_cases here : place = ref
      · subst here
        rw [Function.update_self] at member
        exact absurd member (parked.once place).not_mem_erase
      · rw [Function.update_of_ne here, parked.waiters, waits] at member
        exact absurd (Option.some.inj member).symm here
    · rw [Function.update_of_ne mine, ← parked.waiters]
      by_cases here : place = ref
      · subst here
        rw [Function.update_self]
        exact List.mem_erase_of_ne mine
      · rw [Function.update_of_ne here]
  · intro place
    rw [wake_waiters s thread ref waits]
    by_cases here : place = ref
    · subst here
      rw [Function.update_self]
      exact (parked.once place).erase thread
    · rw [Function.update_of_ne here]
      exact parked.once place

-- notify_one finds a thread that waits for this client.
theorem notified_waits (s : Threads) (parked : s.Parked) (thread other : Nat) (job : Job) (clientId ref : Nat) (result : Server × List Reply)
    (phase : (s.phase thread).awaits? = none) (notifies : s.notifies job clientId ref (some other) = true) :
    ((s.complete thread job clientId ref result).phase other).awaits? = some ref := by
  have waits := (parked.waiters other ref).mp (of_decide_eq_true notifies).2.2
  refine (congrArg Phase.awaits? (Function.update_of_ne ?_ _ _)).trans waits
  rintro rfl
  rw [waits] at phase
  cases phase

theorem parked_step (s next : Threads) (label : ThreadStep) (parked : s.Parked) (moves : s.Moves label next) : next.Parked := by
  cases moves with
  | direct thread job result idle => exact parked_update s _ parked thread .idle rfl (by rw [idle]; rfl) rfl rfl
  | hit thread job clientId ref idle => exact parked_update s _ parked thread _ rfl (by rw [idle]; rfl) rfl rfl
  | miss thread job clientId idle => exact parked_update s _ parked thread _ rfl (by rw [idle]; rfl) rfl rfl
  | install thread job clientId fresh phase => exact parked_update s _ parked thread _ rfl (by rw [phase]; rfl) rfl rfl
  | discard thread spurious job clientId fresh phase => exact parked_update s _ parked thread _ rfl (by rw [phase]; rfl) rfl rfl
  | block thread notified job clientId ref phase => exact block_parked s parked thread job clientId ref (by rw [phase]; rfl)
  | complete thread notified job clientId ref result phase ready notifies =>
      have done : (s.complete thread job clientId ref result).Parked := parked_update s _ parked thread .idle rfl (by rw [phase]; rfl) rfl rfl
      cases notified with
      | none => exact done
      | some other => exact wake_parked _ done other ref (notified_waits s parked thread other job clientId ref result (by rw [phase]; rfl) notifies)
  | wake thread job clientId ref phase => exact wake_parked s parked thread ref (by rw [phase]; rfl)

theorem threads_parked (shardId replicaId : Nat) (steps : List ThreadStep) (s : Threads)
    (ran : Machine.run Threads.step (Threads.init shardId replicaId) steps = some s) : s.Parked :=
  Machine.run_preserves Threads.step Threads.Parked (fun s label next parked stepped => parked_step s next label parked (step_moves s next label stepped))
    _ s (init_parked shardId replicaId) steps ran

theorem waits_connected (job : Job) (clientId : Nat) (client : job.client? = some clientId) (server : Server) (waits : job.waits server = true) :
    (server.clientState clientId).connected = false := by
  cases job with
  | addClient other => cases waits
  | control message beyond =>
      cases message with
      | clientFreeze other =>
          cases client
          simpa [Job.waits, Server.waits] using waits
      | _ => cases waits
  | _ =>
      cases client
      simpa [Job.waits] using waits

-- Once a client is connected no thread begins to wait for it, and only one that
-- leaves cv.wait on its own stops.
structure Threads.Calm (s next : Threads) (label : ThreadStep) (clientId ref : Nat) : Prop where
  location : next.location clientId = some ref
  connected : (next.states ref).connected = true
  waiters : (next.waiters ref).Sublist (s.waiters ref)
  kept : (∀ thread, label ≠ .wake thread) → next.waiters ref = s.waiters ref

theorem complete_calm (shardId replicaId : Nat) (s : Threads) (inv : s.Inv shardId replicaId) (parked : s.Parked) (thread : Nat)
    (notified : Option Nat) (job : Job) (client place clientId ref : Nat) (result : Server × List Reply)
    (there : s.location clientId = some ref) (connected : (s.states ref).connected = true)
    (phase : s.phase thread = .found job client (some place)) (notifies : s.notifies job client place notified = true)
    (ran : job.run (s.seen client place) = .ok result) : Threads.Calm s
      (notified.elim (s.complete thread job client place result) (s.complete thread job client place result).wake) (.enter thread notified)
      clientId ref := by
  have sound := inv.sound thread
  rw [phase] at sound
  have still : ((s.complete thread job client place result).states ref).connected = true := by
    change (Function.update s.states place (result.1.clientState client) ref).connected = true
    by_cases here : ref = place
    · subst here
      rw [Function.update_self]
      refine job_connected job client sound.1 _ result ran ?_
      change (Function.update (fun _ => ClientState.init) client (s.states ref) client).connected = true
      rw [Function.update_self]
      exact connected
    · rw [Function.update_of_ne here]
      exact connected
  cases notified with
  | none => exact ⟨there, still, List.Sublist.refl _, fun _ => rfl⟩
  | some other =>
      have waits := notified_waits s parked thread other job client place result (by rw [phase]; rfl) notifies
      have waiters : ((s.complete thread job client place result).wake other).waiters ref = s.waiters ref := by
        rw [wake_waiters _ other place waits, Function.update_of_ne]
        · rfl
        · rintro rfl
          have fresh := (of_decide_eq_true notifies).2.1
          rw [connected] at fresh
          cases fresh
      have frame := wake_frame (s.complete thread job client place result) other
      refine ⟨?_, ?_, ?_, fun _ => waiters⟩
      · rw [Option.elim_some, frame]
        exact there
      · rw [Option.elim_some, frame]
        exact still
      · rw [Option.elim_some, waiters]

theorem step_calm (shardId replicaId : Nat) (s next : Threads) (inv : s.Inv shardId replicaId) (parked : s.Parked) (label : ThreadStep)
    (clientId ref : Nat) (there : s.location clientId = some ref) (connected : (s.states ref).connected = true)
    (moves : s.Moves label next) : s.Calm next label clientId ref := by
  cases moves with
  | direct thread job result => exact ⟨there, connected, List.Sublist.refl _, fun _ => rfl⟩
  | hit thread job client place => exact ⟨there, connected, List.Sublist.refl _, fun _ => rfl⟩
  | miss thread job client =>
      obtain ⟨holder, owned⟩ := inv.owned
      refine ⟨there, ?_, List.Sublist.refl _, fun _ => rfl⟩
      refine (congrArg ClientState.connected (Function.update_of_ne ?_ _ _)).trans connected
      exact Nat.ne_of_lt ((owned.location clientId ref).mp there).1
  | install thread job client fresh phase empty =>
      refine ⟨(Function.update_of_ne ?_ _ _).trans there, connected, List.Sublist.refl _, fun _ => rfl⟩
      rintro rfl
      rw [empty] at there
      cases there
  | discard thread spurious job client fresh => exact ⟨there, connected, List.Sublist.refl _, fun _ => rfl⟩
  | block thread notified job client place phase waits =>
      have sound := inv.sound thread
      rw [phase] at sound
      have waiters : (s.block thread job client place).waiters ref = s.waiters ref := by
        refine Function.update_of_ne ?_ _ _
        rintro rfl
        have early := waits_connected job client sound.1 _ waits
        change (Function.update (fun _ => ClientState.init) client (s.states ref) client).connected = false at early
        rw [Function.update_self, connected] at early
        cases early
      exact ⟨there, connected, by rw [waiters], fun _ => waiters⟩
  | complete thread notified job client place result phase ready notifies ran =>
      exact complete_calm shardId replicaId s inv parked thread notified job client place clientId ref result there connected phase notifies ran
  | wake thread job client place phase =>
      have frame := wake_frame s thread
      refine ⟨by rw [frame]; exact there, by rw [frame]; exact connected, ?_, fun none => absurd rfl (none thread)⟩
      rw [wake_waiters s thread place (by rw [phase]; rfl)]
      by_cases here : ref = place
      · subst here
        rw [Function.update_self]
        exact List.erase_sublist
      · rw [Function.update_of_ne here]

theorem run_calm (shardId replicaId : Nat) (s final : Threads) (inv : s.Inv shardId replicaId) (parked : s.Parked) (clientId ref : Nat)
    (there : s.location clientId = some ref) (connected : (s.states ref).connected = true) (steps : List ThreadStep)
    (ran : Machine.run Threads.step s steps = some final) :
    (final.Inv shardId replicaId ∧ final.Parked ∧ final.location clientId = some ref ∧ (final.states ref).connected = true) ∧
      (final.waiters ref).Sublist (s.waiters ref) ∧ ((∀ thread, .wake thread ∉ steps) → final.waiters ref = s.waiters ref) := by
  refine Machine.run_invariant Threads.step s (fun steps final =>
    (final.Inv shardId replicaId ∧ final.Parked ∧ final.location clientId = some ref ∧ (final.states ref).connected = true) ∧
      (final.waiters ref).Sublist (s.waiters ref) ∧ ((∀ thread, .wake thread ∉ steps) → final.waiters ref = s.waiters ref))
    ⟨⟨inv, parked, there, connected⟩, List.Sublist.refl _, fun _ => rfl⟩ ?_ steps final ran
  rintro steps mid label next ⟨⟨inv, parked, there, connected⟩, fewer, same⟩ stepped
  have moves := step_moves mid next label stepped
  have calm := step_calm shardId replicaId mid next inv parked label clientId ref there connected moves
  refine ⟨⟨threads_step shardId replicaId mid next label inv stepped, parked_step mid next label parked moves, calm.location, calm.connected⟩,
    calm.waiters.trans fewer, ?_⟩
  intro quiet
  have earlier : ∀ thread, .wake thread ∉ steps := fun thread member => quiet thread (List.mem_append_left _ member)
  rw [calm.kept (fun thread here => quiet thread (by rw [here]; exact List.mem_append_right _ (List.mem_singleton_self _))), same earlier]

-- add_client connects the client and notifies one of the threads that wait.
theorem add_client_notifies (shardId replicaId : Nat) (s next : Threads) (inv : s.Inv shardId replicaId) (parked : s.Parked) (thread : Nat)
    (notified : Option Nat) (clientId ref : Nat) (phase : s.phase thread = .found (.addClient clientId) clientId (some ref))
    (fresh : (s.states ref).connected = false) (stepped : s.step (.enter thread notified) = some next) :
    (next.states ref).connected = true ∧ next.waiters ref = notified.elim [] (s.waiters ref).erase ∧
      next.location = s.location ∧ (notified = none → s.waiters ref = []) ∧ ∀ other, notified = some other → other ∈ s.waiters ref := by
  have sound := inv.sound thread
  rw [phase] at sound
  obtain ⟨valid, _⟩ := Option.ite_none_left_eq_some.mp sound.1
  cases step_moves s next _ stepped with
  | block _ _ job client place phase' waits =>
      rw [phase] at phase'
      cases phase'
      cases waits
  | complete _ _ job client place result phase' ready notifies ran =>
      rw [phase] at phase'
      cases phase'
      have joined : (result.1.clientState clientId).connected = true := by
        have here : ((s.seen clientId ref).clientState clientId).connected = false := by
          change (Function.update (fun _ => ClientState.init) clientId (s.states ref) clientId).connected = false
          rw [Function.update_self]
          exact fresh
        cases ran
        simp only [Server.addClient, here, valid, Bool.false_eq_true, or_self, if_false]
        rw [client_state_same]
      have states : (s.complete thread (.addClient clientId) clientId ref result).states ref = result.1.clientState clientId :=
        Function.update_self _ _ _
      cases notified with
      | none =>
          have nobody : s.waiters ref = [] := by
            rcases of_decide_eq_true notifies with other | connected | empty
            · exact absurd rfl other
            · rw [fresh] at connected
              cases connected
            · exact empty
          exact ⟨(congrArg ClientState.connected states).trans joined, nobody, rfl, fun _ => nobody, fun other same => (by cases same)⟩
      | some woken =>
          have waits := notified_waits s parked thread woken _ clientId ref result (by rw [phase]; rfl) notifies
          have frame := wake_frame (s.complete thread (.addClient clientId) clientId ref result) woken
          refine ⟨?_, ?_, ?_, fun same => (by cases same), ?_⟩
          · rw [Option.elim_some, frame]
            exact (congrArg ClientState.connected states).trans joined
          · rw [Option.elim_some, wake_waiters _ woken ref waits, Function.update_self]
            rfl
          · rw [Option.elim_some, frame]
            rfl
          · rintro other same
            cases same
            exact (of_decide_eq_true notifies).2.2

theorem waiting_client (shardId replicaId : Nat) (s : Threads) (inv : s.Inv shardId replicaId) (parked : s.Parked) (clientId ref : Nat)
    (there : s.location clientId = some ref) (thread : Nat) :
    thread ∈ s.waiters ref ↔ ∃ job, s.phase thread = .waiting job clientId ref := by
  rw [parked.waiters]
  constructor
  · intro waits
    cases phase : s.phase thread with
    | waiting job client place =>
        rw [phase] at waits
        cases waits
        have sound := inv.sound thread
        rw [phase] at sound
        obtain ⟨holder, owned⟩ := inv.owned
        have held := ((owned.location client ref).mp sound.2).2
        rw [((owned.location clientId ref).mp there).2] at held
        cases held
        exact ⟨job, rfl⟩
    | _ =>
        rw [phase] at waits
        cases waits
  · rintro ⟨job, phase⟩
    rw [phase]
    rfl

-- The main result on the waiting threads. When a client is connected one of the
-- threads that wait for it is notified, so if none leaves cv.wait on its own, a
-- thread waits for the connected client ever after exactly if two waited before.
-- Who has a reference to a connected client does not wait any more.
theorem waiters_notified (shardId replicaId : Nat) (before after : List ThreadStep) (thread : Nat) (notified : Option Nat) (clientId ref : Nat)
    (s final : Threads) (ran : Machine.run Threads.step (Threads.init shardId replicaId) before = some s)
    (phase : s.phase thread = .found (.addClient clientId) clientId (some ref)) (fresh : (s.states ref).connected = false)
    (rest : Machine.run Threads.step s (.enter thread notified :: after) = some final) :
    (∀ other job, final.phase other = .found job clientId (some ref) → job.waits (final.seen clientId ref) = false) ∧
    (∀ other job, final.phase other = .waiting job clientId ref →
      notified ≠ some other ∧ ∃ job', s.phase other = .waiting job' clientId ref) ∧
    ((∀ other, .wake other ∉ after) → ((∃ other job, final.phase other = .waiting job clientId ref) ↔
      ∃ first second job job', first ≠ second ∧ s.phase first = .waiting job clientId ref ∧ s.phase second = .waiting job' clientId ref)) := by
  have inv := threads_inv shardId replicaId before s ran
  have parked := threads_parked shardId replicaId before s ran
  have sound := inv.sound thread
  rw [phase] at sound
  have there := sound.2 ref rfl
  rw [← List.singleton_append] at rest
  obtain ⟨next, once, later⟩ := Machine.run_append_some rest
  have stepped : s.step (.enter thread notified) = some next := by simpa [Machine.run] using once
  obtain ⟨connected, waiters, location, nobody, one⟩ := add_client_notifies shardId replicaId s next inv parked thread notified clientId ref phase fresh stepped
  obtain ⟨⟨inv', parked', there', connected'⟩, fewer, kept⟩ := run_calm shardId replicaId next final
    (threads_step shardId replicaId s next _ inv stepped) (parked_step s next _ parked (step_moves s next _ stepped)) clientId ref
    (by rw [location]; exact there) connected after later
  have waits := waiting_client shardId replicaId s inv parked clientId ref there
  have waits' := waiting_client shardId replicaId final inv' parked' clientId ref there'
  have left : ∀ other, other ∈ next.waiters ref ↔ notified ≠ some other ∧ other ∈ s.waiters ref := by
    intro other
    rw [waiters]
    cases notified with
    | none =>
        rw [nobody rfl]
        exact ⟨fun member => (by cases member), fun both => (by cases both.2)⟩
    | some woken =>
        rw [Option.elim_some, (parked.once ref).mem_erase_iff]
        exact and_congr_left (fun _ => ⟨fun different same => different (Option.some.inj same).symm, fun different same => different (by rw [same])⟩)
  refine ⟨?_, ?_, ?_⟩
  · intro other job found
    have sound' := inv'.sound other
    rw [found] at sound'
    cases ready : job.waits (final.seen clientId ref) with
    | false => rfl
    | true =>
        have early := waits_connected job clientId sound'.1 _ ready
        change (Function.update (fun _ => ClientState.init) clientId (final.states ref) clientId).connected = false at early
        rw [Function.update_self, connected'] at early
        cases early
  · intro other job waiting
    obtain ⟨different, member⟩ := (left other).mp (fewer.subset ((waits' other).mpr ⟨job, waiting⟩))
    exact ⟨different, (waits other).mp member⟩
  · intro quiet
    constructor
    · rintro ⟨other, job, waiting⟩
      obtain ⟨different, member⟩ := (left other).mp (fewer.subset ((waits' other).mpr ⟨job, waiting⟩))
      obtain ⟨job', waited⟩ := (waits other).mp member
      cases notified with
      | none =>
          rw [nobody rfl] at member
          cases member
      | some woken =>
          obtain ⟨job'', asleep⟩ := (waits woken).mp (one woken rfl)
          exact ⟨woken, other, job'', job', fun same => different (by rw [same]), asleep, waited⟩
    · rintro ⟨first, second, job, job', different, waited, waited'⟩
      have either : ∃ other, notified ≠ some other ∧ other ∈ s.waiters ref := by
        by_cases mine : notified = some first
        · refine ⟨second, ?_, (waits second).mpr ⟨job', waited'⟩⟩
          rw [mine]
          exact fun same => different (Option.some.inj same)
        · exact ⟨first, mine, (waits first).mpr ⟨job, waited⟩⟩
      obtain ⟨other, member⟩ := either
      have asleep := (left other).mpr member
      rw [← kept quiet, waits'] at asleep
      obtain ⟨last, waiting⟩ := asleep
      exact ⟨other, last, waiting⟩

-- A client thread and the control thread wait for a client that is not connected yet.
def twoWaiters : List ThreadStep :=
  [.start 2 (.clientFinished 7), .exchange 2 false, .enter 2 none, .start 0 (.control (.clientFreeze 7) []), .enter 0 none,
    .start 1 (.addClient 7)]

theorem waiters_notified_two : ∃ s final, Machine.run Threads.step (Threads.init 0 3) twoWaiters = some s ∧
    Machine.run Threads.step s [.enter 1 (some 2), .enter 2 none] = some final ∧
    (∃ other job, final.phase other = .waiting job 7 0) ∧ ∀ job, final.phase 2 ≠ .waiting job 7 0 := by
  have enabled : (Machine.run Threads.step (Threads.init 0 3) twoWaiters).map (fun s =>
      decide (s.phase 1 = .found (.addClient 7) 7 (some 0) ∧ (s.states 0).connected = false ∧
        s.phase 0 = .waiting (.control (.clientFreeze 7) []) 7 0 ∧ s.phase 2 = .waiting (.clientFinished 7) 7 0 ∧
        (Machine.run Threads.step s [.enter 1 (some 2), .enter 2 none]).isSome = true)) = some true := by
    decide +kernel
  obtain ⟨s, ran, seen⟩ := Option.map_eq_some_iff.mp enabled
  obtain ⟨accept, fresh, control, client, goes⟩ := of_decide_eq_true seen
  obtain ⟨final, rest⟩ := Option.isSome_iff_exists.mp goes
  obtain ⟨_, before, strands⟩ := waiters_notified 0 3 twoWaiters [.enter 2 none] 1 (some 2) 7 0 s final ran accept fresh rest
  refine ⟨s, final, ran, rest, (strands ?_).mpr ⟨0, 2, _, _, by decide, control, client⟩, ?_⟩
  · intro other member
    cases List.mem_singleton.mp member
  · intro job waiting
    exact (before 2 job waiting).1 rfl

end ZipLog.Storage
