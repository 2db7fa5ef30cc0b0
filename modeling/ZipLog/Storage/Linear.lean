import ZipLog.Storage.Threads

set_option autoImplicit false

namespace ZipLog.Storage

-- Who has a state: whoever has deleted it, a location or the thread that has just made it.
inductive Holder where
  | deleted
  | location (clientId : Nat)
  | thread (thread : Nat)

def Phase.fresh? : Phase → Option Nat
  | .allocated _ _ fresh => some fresh
  | _ => none

structure Threads.Owned (s : Threads) (holder : Nat → Holder) : Prop where
  deleted : ∀ ref, ref ∈ s.deleted ↔ ref < s.allocations ∧ holder ref = .deleted
  location : ∀ clientId ref, s.location clientId = some ref ↔ ref < s.allocations ∧ holder ref = .location clientId
  thread : ∀ thread ref, (s.phase thread).fresh? = some ref ↔ ref < s.allocations ∧ holder ref = .thread thread
  once : s.deleted.Nodup

theorem init_owned (shardId replicaId : Nat) : (Threads.init shardId replicaId).Owned (fun _ => .deleted) := by
  constructor
  · intro ref
    exact ⟨fun member => (by cases member), fun both => absurd both.1 (Nat.not_lt_zero ref)⟩
  · intro clientId ref
    exact ⟨fun there => (by cases there), fun both => absurd both.1 (Nat.not_lt_zero ref)⟩
  · intro thread ref
    exact ⟨fun there => (by cases there), fun both => absurd both.1 (Nat.not_lt_zero ref)⟩
  · exact List.nodup_nil

-- A step that makes, installs and deletes nothing.
theorem owned_congr (s next : Threads) (holder : Nat → Holder) (owned : s.Owned holder) (deleted : next.deleted = s.deleted)
    (allocations : next.allocations = s.allocations) (location : next.location = s.location)
    (phase : ∀ thread, (next.phase thread).fresh? = (s.phase thread).fresh?) : next.Owned holder := by
  constructor
  · rw [deleted, allocations]
    exact owned.deleted
  · rw [location, allocations]
    exact owned.location
  · intro thread
    rw [phase thread, allocations]
    exact owned.thread thread
  · rw [deleted]
    exact owned.once

theorem set_phase_fresh (s : Threads) (thread other : Nat) (phase : Phase) (same : phase.fresh? = (s.phase thread).fresh?) :
    ((s.setPhase thread phase).phase other).fresh? = (s.phase other).fresh? := by
  rw [Threads.setPhase]
  dsimp only
  by_cases mine : other = thread
  · rw [mine, Function.update_self, same]
  · rw [Function.update_of_ne mine]

theorem wake_frame (s : Threads) (thread : Nat) : s.wake thread = { s with phase := (s.wake thread).phase, waiters := (s.wake thread).waiters } := by
  rw [Threads.wake]
  split <;> rfl

def Phase.woken : Phase → Phase
  | .waiting job clientId ref => .found job clientId (some ref)
  | phase => phase

theorem wake_phase (s : Threads) (thread : Nat) : (s.wake thread).phase = Function.update s.phase thread (s.phase thread).woken := by
  rw [Threads.wake]
  split
  · rename_i phase
    rw [phase]
    rfl
  · rename_i other
    have same : (s.phase thread).woken = s.phase thread := by
      cases phase : s.phase thread with
      | waiting job clientId ref => exact absurd phase (other job clientId ref)
      | _ => rfl
    rw [same, Function.update_eq_self]

theorem wake_fresh (s : Threads) (thread other : Nat) : ((s.wake thread).phase other).fresh? = (s.phase other).fresh? := by
  rw [wake_phase]
  exact set_phase_fresh s thread other _ (by cases s.phase thread <;> rfl)

theorem wake_owned (s : Threads) (holder : Nat → Holder) (owned : s.Owned holder) (thread : Nat) : (s.wake thread).Owned holder := by
  refine owned_congr s _ holder owned ?_ ?_ ?_ (wake_fresh s thread) <;> rw [wake_frame]

-- What one state's holder is to the others.
theorem moved_other (holder : Nat → Holder) (moved ref : Nat) (taker kind : Holder) (before : holder moved ≠ kind) (after : taker ≠ kind) :
    Function.update holder moved taker ref = kind ↔ holder ref = kind := by
  by_cases mine : ref = moved
  · rw [mine, Function.update_self]
    exact ⟨fun same => absurd same after, fun same => absurd same before⟩
  · rw [Function.update_of_ne mine]

theorem moved_from (holder : Nat → Holder) (moved ref : Nat) (taker kind : Holder) (after : taker ≠ kind)
    (alone : holder ref = kind → ref = moved) : Function.update holder moved taker ref ≠ kind := by
  by_cases mine : ref = moved
  · rw [mine, Function.update_self]
    exact after
  · rw [Function.update_of_ne mine]
    exact fun same => mine (alone same)

theorem allocate_owned (s : Threads) (holder : Nat → Holder) (owned : s.Owned holder) (thread : Nat) (job : Job) (clientId : Nat)
    (idle : (s.phase thread).fresh? = none) :
    (s.allocate thread job clientId).Owned (Function.update holder s.allocations (.thread thread)) := by
  have kept : ∀ kind ref, kind ≠ .thread thread →
      (ref < s.allocations + 1 ∧ Function.update holder s.allocations (.thread thread) ref = kind ↔
        ref < s.allocations ∧ holder ref = kind) := by
    intro kind ref different
    by_cases new : ref = s.allocations
    · rw [new, Function.update_self]
      exact ⟨fun both => absurd both.2.symm different, fun both => absurd both.1 (Nat.lt_irrefl _)⟩
    · rw [Function.update_of_ne new, Nat.lt_succ_iff, Nat.le_iff_lt_or_eq, or_iff_left new]
  constructor
  · intro ref
    exact (owned.deleted ref).trans (kept .deleted ref Holder.noConfusion).symm
  · intro other ref
    exact (owned.location other ref).trans (kept (.location other) ref Holder.noConfusion).symm
  · intro other ref
    by_cases mine : other = thread
    · subst mine
      have none : ¬ (ref < s.allocations ∧ holder ref = .thread other) := by
        intro both
        rw [(owned.thread other ref).mpr both] at idle
        cases idle
      simp only [Threads.allocate, Threads.setPhase, Function.update_self, Phase.fresh?, Option.some.injEq]
      constructor
      · rintro rfl
        exact ⟨Nat.lt_succ_self _, Function.update_self _ _ _⟩
      · rintro ⟨inside, holds⟩
        by_contra different
        rw [Function.update_of_ne (Ne.symm different)] at holds
        exact none ⟨by omega, holds⟩
    · simp only [Threads.allocate, Threads.setPhase, Function.update_of_ne mine]
      exact (owned.thread other ref).trans (kept (.thread other) ref (fun same => mine (Holder.thread.inj same))).symm
  · exact owned.once

-- The thread gives its fresh state away.
theorem given_owned (s : Threads) (holder : Nat → Holder) (owned : s.Owned holder) (thread fresh : Nat) (job : Job) (clientId : Nat) (taker : Holder)
    (phase : s.phase thread = .allocated job clientId fresh) (away : ∀ other, taker ≠ .thread other) (found : Phase)
    (none : found.fresh? = none) (other ref : Nat) : ((s.setPhase thread found).phase other).fresh? = some ref ↔
      ref < s.allocations ∧ Function.update holder fresh taker ref = .thread other := by
  have holds := ((owned.thread thread fresh).mp (by rw [phase]; rfl)).2
  by_cases mine : other = thread
  · subst mine
    simp only [Threads.setPhase, Function.update_self, none]
    refine ⟨fun there => (by cases there), ?_⟩
    rintro ⟨inside, held⟩
    refine absurd held (moved_from holder fresh ref taker _ (away other) ?_)
    intro same
    have there := (owned.thread other ref).mpr ⟨inside, same⟩
    rw [phase] at there
    exact (Option.some.inj there).symm
  · simp only [Threads.setPhase, Function.update_of_ne mine]
    refine (owned.thread other ref).trans (and_congr_right (fun _ => (moved_other holder fresh ref taker _ ?_ (away other)).symm))
    rw [holds]
    exact fun same => mine (Holder.thread.inj same).symm

theorem install_owned (s : Threads) (holder : Nat → Holder) (owned : s.Owned holder) (thread : Nat) (job : Job) (clientId fresh : Nat)
    (phase : s.phase thread = .allocated job clientId fresh) (empty : s.location clientId = none) :
    (s.install thread job clientId fresh).Owned (Function.update holder fresh (.location clientId)) := by
  obtain ⟨inside, holds⟩ := (owned.thread thread fresh).mp (by rw [phase]; rfl)
  constructor
  · intro ref
    refine (owned.deleted ref).trans (and_congr_right (fun _ => (moved_other holder fresh ref _ _ ?_ Holder.noConfusion).symm))
    rw [holds]
    exact Holder.noConfusion
  · intro other ref
    by_cases mine : other = clientId
    · subst mine
      simp only [Threads.install, Function.update_self, Option.some.injEq]
      constructor
      · rintro rfl
        exact ⟨inside, Function.update_self _ _ _⟩
      · rintro ⟨less, held⟩
        by_contra different
        rw [Function.update_of_ne (Ne.symm different)] at held
        rw [(owned.location other ref).mpr ⟨less, held⟩] at empty
        cases empty
    · simp only [Threads.install, Function.update_of_ne mine]
      refine (owned.location other ref).trans (and_congr_right (fun _ => (moved_other holder fresh ref _ _ ?_ ?_).symm))
      · rw [holds]
        exact Holder.noConfusion
      · exact fun same => mine (Holder.location.inj same).symm
  · exact given_owned s holder owned thread fresh job clientId _ phase (fun _ => Holder.noConfusion) _ rfl
  · exact owned.once

theorem discard_owned (s : Threads) (holder : Nat → Holder) (owned : s.Owned holder) (thread : Nat) (job : Job) (clientId fresh : Nat)
    (phase : s.phase thread = .allocated job clientId fresh) :
    (s.discard thread job clientId fresh).Owned (Function.update holder fresh .deleted) := by
  obtain ⟨inside, holds⟩ := (owned.thread thread fresh).mp (by rw [phase]; rfl)
  have kept : fresh ∉ s.deleted := by
    intro member
    have deleted := ((owned.deleted fresh).mp member).2
    rw [holds] at deleted
    cases deleted
  constructor
  · intro ref
    simp only [Threads.discard, List.mem_append, List.mem_singleton]
    by_cases mine : ref = fresh
    · rw [mine, Function.update_self]
      exact ⟨fun _ => ⟨inside, rfl⟩, fun _ => Or.inr rfl⟩
    · rw [Function.update_of_ne mine, or_iff_left mine]
      exact owned.deleted ref
  · intro other ref
    refine (owned.location other ref).trans (and_congr_right (fun _ => (moved_other holder fresh ref _ _ ?_ Holder.noConfusion).symm))
    rw [holds]
    exact Holder.noConfusion
  · exact given_owned s holder owned thread fresh job clientId _ phase (fun _ => Holder.noConfusion) _ rfl
  · exact List.nodup_append.mpr ⟨owned.once, List.nodup_singleton fresh, by
      intro ref member other new same
      rw [same, List.mem_singleton.mp new] at member
      exact kept member⟩

-- A reference is to the state at the client's location.
def Phase.Sound (s : Threads) : Phase → Prop
  | .idle => True
  | .allocated job clientId fresh => job.client? = some clientId ∧ clientId < maxClients ∧ s.states fresh = ClientState.init
  | .found job clientId ref => job.client? = some clientId ∧ ∀ there, ref = some there → s.location clientId = some there
  | .waiting job clientId ref => job.client? = some clientId ∧ s.location clientId = some ref

theorem sound_later (s next : Threads) (phase : Phase) (sound : phase.Sound s)
    (location : ∀ clientId ref, s.location clientId = some ref → next.location clientId = some ref)
    (states : ∀ fresh, phase.fresh? = some fresh → next.states fresh = s.states fresh) : phase.Sound next := by
  cases phase with
  | idle => trivial
  | allocated job clientId fresh => exact ⟨sound.1, sound.2.1, (states fresh rfl).trans sound.2.2⟩
  | found job clientId ref => exact ⟨sound.1, fun there same => location clientId there (sound.2 there same)⟩
  | waiting job clientId ref => exact ⟨sound.1, location clientId ref sound.2⟩

def jobsOf (finished : List (Nat × Job)) (thread : Nat) : List Job :=
  (finished.filter (fun done => done.1 = thread)).map Prod.snd

theorem jobs_of_snoc (finished : List (Nat × Job)) (thread other : Nat) (job : Job) :
    jobsOf (finished ++ [(thread, job)]) other = jobsOf finished other ++ if thread = other then [job] else [] := by
  rw [jobsOf, List.filter_append, List.map_append, ← jobsOf]
  by_cases mine : thread = other
  · simp [mine]
  · simp [mine]

-- Which jobs have been finished, in what order, and what came of them. The server
-- that the threads see is the one that has had these jobs one by one.
structure Threads.Inv (shardId replicaId : Nat) (s : Threads) : Prop where
  owned : ∃ holder, s.Owned holder
  sound : ∀ thread, (s.phase thread).Sound s
  valid : ∀ clientId ref, s.location clientId = some ref → clientId < maxClients
  served : Machine.run Served.step (Served.init shardId replicaId) s.finished = some ⟨s.server, s.replies⟩
  order : ∀ thread, s.started thread = jobsOf s.finished thread ++ (s.phase thread).job?.toList

theorem init_threads (shardId replicaId : Nat) : (Threads.init shardId replicaId).Inv shardId replicaId := by
  constructor
  · exact ⟨_, init_owned shardId replicaId⟩
  · intro thread
    trivial
  · intro clientId ref there
    cases there
  · rfl
  · intro thread
    rfl

-- A step of one thread that neither finishes a job nor begins one.
theorem quiet_inv (shardId replicaId : Nat) (s next : Threads) (inv : s.Inv shardId replicaId) (owned : ∃ holder, next.Owned holder)
    (thread : Nat) (phase : Phase) (phases : next.phase = Function.update s.phase thread phase) (job : phase.job? = (s.phase thread).job?)
    (sound : phase.Sound next) (location : ∀ clientId ref, s.location clientId = some ref → next.location clientId = some ref)
    (states : next.states = s.states) (valid : ∀ clientId ref, next.location clientId = some ref → clientId < maxClients)
    (server : next.server = s.server) (replies : next.replies = s.replies) (finished : next.finished = s.finished)
    (started : next.started = s.started) : next.Inv shardId replicaId := by
  refine ⟨owned, ?_, valid, ?_, ?_⟩
  · intro other
    rw [phases]
    by_cases mine : other = thread
    · rw [mine, Function.update_self]
      exact sound
    · rw [Function.update_of_ne mine]
      exact sound_later s next _ (inv.sound other) location (fun fresh _ => by rw [states])
  · rw [finished, server, replies]
    exact inv.served
  · intro other
    rw [started, finished, phases, inv.order other]
    by_cases mine : other = thread
    · rw [mine, Function.update_self, job]
    · rw [Function.update_of_ne mine]

theorem wake_inv (shardId replicaId : Nat) (s : Threads) (inv : s.Inv shardId replicaId) (thread : Nat) :
    (s.wake thread).Inv shardId replicaId := by
  have frame := wake_frame s thread
  obtain ⟨holder, owned⟩ := inv.owned
  have location : (s.wake thread).location = s.location := by rw [frame]
  refine quiet_inv shardId replicaId s _ inv ⟨holder, wake_owned s holder owned thread⟩ thread _ (wake_phase s thread) ?_ ?_
    (fun clientId ref there => by rw [location]; exact there) (by rw [frame]) (by rw [location]; exact inv.valid)
    (by rw [Threads.server, frame]; rfl) (by rw [frame]) (by rw [frame]) (by rw [frame])
  · cases s.phase thread <;> rfl
  · have sound := inv.sound thread
    have later := sound_later s (s.wake thread) _ sound (fun clientId ref there => by rw [location]; exact there)
      (fun fresh _ => by rw [frame])
    cases phase : s.phase thread with
    | waiting job clientId ref =>
        rw [phase] at later
        refine ⟨later.1, fun there same => ?_⟩
        cases same
        exact later.2
    | _ =>
        rw [phase] at later
        exact later

theorem served_snoc (shardId replicaId : Nat) (s : Threads) (inv : s.Inv shardId replicaId) (thread : Nat) (job : Job)
    (result : Server × List Reply) (ready : job.waits s.server = false) (ran : job.run s.server = .ok result) :
    Machine.run Served.step (Served.init shardId replicaId) (s.finished ++ [(thread, job)]) = some ⟨result.1, s.replies ++ result.2⟩ := by
  rw [Machine.run_snoc, inv.served, Option.bind_some, Served.step]
  simp only [ready, Bool.false_eq_true, if_false, ran]

theorem plain_ready (job : Job) (server : Server) (plain : job.client? = none) : job.waits server = false := by
  cases job with
  | addClient clientId => rfl
  | control message beyond =>
      cases message with
      | slots slots => rfl
      | _ => cases plain
  | _ => cases plain

theorem direct_inv (shardId replicaId : Nat) (s : Threads) (inv : s.Inv shardId replicaId) (thread : Nat) (job : Job)
    (result : Server × List Reply) (idle : s.phase thread = .idle) (plain : job.client? = none) (ran : job.run s.server = .ok result) :
    ((s.begin thread job).done thread job result.1.log result.2).Inv shardId replicaId := by
  obtain ⟨holder, owned⟩ := inv.owned
  have fresh : ∀ other, (((s.begin thread job).done thread job result.1.log result.2).phase other).fresh? = (s.phase other).fresh? :=
    fun other => set_phase_fresh s thread other .idle (by rw [idle])
  refine ⟨⟨holder, owned_congr s _ holder owned rfl rfl rfl fresh⟩, ?_, inv.valid, ?_, ?_⟩
  · intro other
    change ((Function.update s.phase thread .idle) other).Sound _
    by_cases mine : other = thread
    · rw [mine, Function.update_self]
      trivial
    · rw [Function.update_of_ne mine]
      exact sound_later s _ _ (inv.sound other) (fun _ _ there => there) (fun _ _ => rfl)
  · have identity := job_identity job s.server result ran
    have states := plain_states job s.server result plain ran
    refine (served_snoc shardId replicaId s inv thread job result (plain_ready job s.server plain) ran).trans ?_
    obtain ⟨⟨shard, replica, log, clientState⟩, replies⟩ := result
    cases identity.1
    cases identity.2
    cases states
    rfl
  · intro other
    change Function.update s.started thread (s.started thread ++ [job]) other = jobsOf (s.finished ++ [(thread, job)]) other ++
      ((Function.update s.phase thread .idle) other).job?.toList
    rw [jobs_of_snoc]
    have order := inv.order other
    by_cases mine : other = thread
    · subst mine
      rw [idle] at order
      simp only [Function.update_self, order, if_true, Phase.job?, Option.toList_none, List.append_nil]
    · rw [Function.update_of_ne mine, Function.update_of_ne mine, if_neg (Ne.symm mine), List.append_nil, order]

-- A thread begins a job that has a client.
theorem begin_order (shardId replicaId : Nat) (s : Threads) (inv : s.Inv shardId replicaId) (thread : Nat) (job : Job) (phase : Phase)
    (idle : s.phase thread = .idle) (same : phase.job? = some job) (other : Nat) :
    Function.update s.started thread (s.started thread ++ [job]) other =
      jobsOf s.finished other ++ ((Function.update s.phase thread phase) other).job?.toList := by
  have order := inv.order other
  by_cases mine : other = thread
  · subst mine
    rw [idle] at order
    rw [Function.update_self, Function.update_self, same, order]
    simp only [Phase.job?, Option.toList_none, Option.toList_some, List.append_nil]
  · rw [Function.update_of_ne mine, Function.update_of_ne mine, order]

theorem hit_inv (shardId replicaId : Nat) (s : Threads) (inv : s.Inv shardId replicaId) (thread : Nat) (job : Job) (clientId ref : Nat)
    (idle : s.phase thread = .idle) (client : job.client? = some clientId) (there : s.location clientId = some ref) :
    ((s.begin thread job).setPhase thread (.found job clientId (some ref))).Inv shardId replicaId := by
  obtain ⟨holder, owned⟩ := inv.owned
  refine ⟨⟨holder, owned_congr s _ holder owned rfl rfl rfl ?_⟩, ?_, inv.valid, inv.served, ?_⟩
  · exact fun other => set_phase_fresh s thread other _ (by rw [idle]; rfl)
  · intro other
    change ((Function.update s.phase thread _) other).Sound _
    by_cases mine : other = thread
    · rw [mine, Function.update_self]
      refine ⟨client, fun found same => ?_⟩
      cases same
      exact there
    · rw [Function.update_of_ne mine]
      exact sound_later s _ _ (inv.sound other) (fun _ _ there => there) (fun _ _ => rfl)
  · exact begin_order shardId replicaId s inv thread job _ idle rfl

theorem miss_inv (shardId replicaId : Nat) (s : Threads) (inv : s.Inv shardId replicaId) (thread : Nat) (job : Job) (clientId : Nat)
    (idle : s.phase thread = .idle) (client : job.client? = some clientId) (valid : clientId < maxClients) :
    ((s.begin thread job).allocate thread job clientId).Inv shardId replicaId := by
  obtain ⟨holder, owned⟩ := inv.owned
  have older : ∀ ref, ref < s.allocations → Function.update s.states s.allocations ClientState.init ref = s.states ref :=
    fun ref less => Function.update_of_ne (Nat.ne_of_lt less) _ _
  have made := allocate_owned (s.begin thread job) holder (owned_congr s _ holder owned rfl rfl rfl (fun _ => rfl)) thread job clientId
    (by change (s.phase thread).fresh? = none; rw [idle]; rfl)
  refine ⟨⟨_, made⟩, ?_, inv.valid, ?_, ?_⟩
  · intro other
    change ((Function.update s.phase thread _) other).Sound _
    by_cases mine : other = thread
    · rw [mine, Function.update_self]
      exact ⟨client, valid, Function.update_self _ _ _⟩
    · rw [Function.update_of_ne mine]
      refine sound_later s _ _ (inv.sound other) (fun _ _ there => there) ?_
      intro fresh held
      exact older fresh ((owned.thread other fresh).mp held).1
  · refine inv.served.trans (congrArg (fun states => some (⟨⟨s.shardId, s.replicaId, s.log, states⟩, s.replies⟩ : Served)) ?_)
    funext other
    change (s.location other).elim ClientState.init s.states = (s.location other).elim ClientState.init _
    cases there : s.location other with
    | none => rfl
    | some ref => exact (older ref ((owned.location other ref).mp there).1).symm
  · exact begin_order shardId replicaId s inv thread job _ idle rfl

theorem install_inv (shardId replicaId : Nat) (s : Threads) (inv : s.Inv shardId replicaId) (thread : Nat) (job : Job) (clientId fresh : Nat)
    (phase : s.phase thread = .allocated job clientId fresh) (empty : s.location clientId = none) :
    (s.install thread job clientId fresh).Inv shardId replicaId := by
  obtain ⟨holder, owned⟩ := inv.owned
  have sound := inv.sound thread
  rw [phase] at sound
  obtain ⟨client, valid, initial⟩ := sound
  have later : ∀ other ref, s.location other = some ref → (s.install thread job clientId fresh).location other = some ref := by
    intro other ref there
    refine (Function.update_of_ne ?_ _ _).trans there
    rintro rfl
    rw [empty] at there
    cases there
  refine quiet_inv shardId replicaId s _ inv ⟨_, install_owned s holder owned thread job clientId fresh phase empty⟩ thread _ rfl
    (by rw [phase]; rfl) ⟨client, ?_⟩ later rfl ?_ ?_ rfl rfl rfl
  · intro there same
    cases same
    exact Function.update_self _ _ _
  · intro other ref there
    by_cases mine : other = clientId
    · rw [mine]
      exact valid
    · exact inv.valid other ref ((Function.update_of_ne mine _ _).symm.trans there)
  · refine congrArg (fun states => (⟨s.shardId, s.replicaId, s.log, states⟩ : Server)) ?_
    funext other
    change (Function.update s.location clientId (some fresh) other).elim ClientState.init s.states = _
    by_cases mine : other = clientId
    · rw [mine, Function.update_self, empty]
      exact initial
    · rw [Function.update_of_ne mine]

theorem discard_inv (shardId replicaId : Nat) (s : Threads) (inv : s.Inv shardId replicaId) (thread : Nat) (job : Job) (clientId fresh : Nat)
    (phase : s.phase thread = .allocated job clientId fresh) : (s.discard thread job clientId fresh).Inv shardId replicaId := by
  obtain ⟨holder, owned⟩ := inv.owned
  have sound := inv.sound thread
  rw [phase] at sound
  exact quiet_inv shardId replicaId s _ inv ⟨_, discard_owned s holder owned thread job clientId fresh phase⟩ thread _ rfl
    (by rw [phase]; rfl) ⟨sound.1, fun _ same => same⟩ (fun _ _ there => there) rfl inv.valid rfl rfl rfl rfl

theorem block_inv (shardId replicaId : Nat) (s : Threads) (inv : s.Inv shardId replicaId) (thread : Nat) (job : Job) (clientId ref : Nat)
    (phase : s.phase thread = .found job clientId (some ref)) : (s.block thread job clientId ref).Inv shardId replicaId := by
  obtain ⟨holder, owned⟩ := inv.owned
  have sound := inv.sound thread
  rw [phase] at sound
  exact quiet_inv shardId replicaId s _ inv ⟨holder, owned_congr s _ holder owned rfl rfl rfl
      (fun other => set_phase_fresh s thread other _ (by rw [phase]; rfl))⟩ thread _ rfl
    (by rw [phase]; rfl) ⟨sound.1, sound.2 ref rfl⟩ (fun _ _ there => there) rfl inv.valid rfl rfl rfl rfl

-- What a thread sees through a reference, among the states of the other clients.
theorem seen_among (s : Threads) (clientId ref : Nat) (there : s.location clientId = some ref) :
    s.server = (s.seen clientId ref).among clientId s.server.clientState := by
  refine congrArg (fun states => (⟨s.shardId, s.replicaId, s.log, states⟩ : Server)) ?_
  funext other
  by_cases mine : other = clientId
  · subst mine
    rw [Function.update_self]
    change (s.location other).elim ClientState.init s.states = Function.update (fun _ => ClientState.init) other (s.states ref) other
    rw [there, Function.update_self, Option.elim_some]
  · rw [Function.update_of_ne mine]
    rfl

theorem complete_inv (shardId replicaId : Nat) (s : Threads) (inv : s.Inv shardId replicaId) (thread : Nat) (job : Job) (clientId ref : Nat)
    (result : Server × List Reply) (phase : s.phase thread = .found job clientId (some ref))
    (ready : job.waits (s.seen clientId ref) = false) (ran : job.run (s.seen clientId ref) = .ok result) :
    (s.complete thread job clientId ref result).Inv shardId replicaId := by
  obtain ⟨holder, owned⟩ := inv.owned
  have sound := inv.sound thread
  rw [phase] at sound
  obtain ⟨client, found⟩ := sound
  have there := found ref rfl
  have held := (owned.location clientId ref).mp there
  refine ⟨⟨holder, owned_congr s _ holder owned rfl rfl rfl
      (fun other => set_phase_fresh s thread other .idle (by rw [phase]; rfl))⟩, ?_, inv.valid, ?_, ?_⟩
  · intro other
    change ((Function.update s.phase thread .idle) other).Sound _
    by_cases mine : other = thread
    · rw [mine, Function.update_self]
      trivial
    · rw [Function.update_of_ne mine]
      refine sound_later s _ _ (inv.sound other) (fun _ _ there => there) ?_
      intro fresh mine
      refine Function.update_of_ne ?_ _ _
      rintro rfl
      have both := ((owned.thread other fresh).mp mine).2
      rw [held.2] at both
      cases both
  · have among := job_among job clientId client (s.seen clientId ref) s.server.clientState
    rw [← seen_among s clientId ref there, ran, ready] at among
    refine (served_snoc shardId replicaId s inv thread job _ among.1 among.2).trans ?_
    have identity := job_identity job _ result ran
    refine congrArg (fun server => some (⟨server, s.replies ++ result.2⟩ : Served)) ?_
    have states : Function.update s.server.clientState clientId (result.1.clientState clientId) =
        (s.complete thread job clientId ref result).server.clientState := by
      funext other
      change _ = (s.location other).elim ClientState.init (Function.update s.states ref (result.1.clientState clientId))
      by_cases mine : other = clientId
      · subst mine
        rw [Function.update_self, there, Option.elim_some, Function.update_self]
      · rw [Function.update_of_ne mine]
        change (s.location other).elim ClientState.init s.states = _
        cases elsewhere : s.location other with
        | none => rfl
        | some apart =>
            rw [Option.elim_some, Option.elim_some, Function.update_of_ne]
            rintro rfl
            have both := ((owned.location other apart).mp elsewhere).2
            rw [held.2] at both
            exact mine (Holder.location.inj both).symm
    obtain ⟨⟨shard, replica, log, clientState⟩, replies⟩ := result
    cases identity.1
    cases identity.2
    exact congrArg (fun states => (⟨s.shardId, s.replicaId, log, states⟩ : Server)) states
  · intro other
    change s.started other = jobsOf (s.finished ++ [(thread, job)]) other ++ ((Function.update s.phase thread .idle) other).job?.toList
    rw [jobs_of_snoc, inv.order other]
    by_cases mine : other = thread
    · subst mine
      rw [Function.update_self, if_pos rfl, phase]
      exact (List.append_nil _).symm
    · rw [Function.update_of_ne mine, if_neg (Ne.symm mine), List.append_nil]

theorem threads_step (shardId replicaId : Nat) (s next : Threads) (label : ThreadStep) (inv : s.Inv shardId replicaId)
    (stepped : s.step label = some next) : next.Inv shardId replicaId := by
  cases step_moves s next label stepped with
  | direct thread job result idle plain ran => exact direct_inv shardId replicaId s inv thread job result idle plain ran
  | hit thread job clientId ref idle client there => exact hit_inv shardId replicaId s inv thread job clientId ref idle client there
  | miss thread job clientId idle client valid => exact miss_inv shardId replicaId s inv thread job clientId idle client valid
  | install thread job clientId fresh phase empty => exact install_inv shardId replicaId s inv thread job clientId fresh phase empty
  | discard thread spurious job clientId fresh phase => exact discard_inv shardId replicaId s inv thread job clientId fresh phase
  | block thread notified job clientId ref phase => exact block_inv shardId replicaId s inv thread job clientId ref phase
  | complete thread notified job clientId ref result phase ready notifies ran =>
      have done := complete_inv shardId replicaId s inv thread job clientId ref result phase ready ran
      cases notified with
      | none => exact done
      | some other => exact wake_inv shardId replicaId _ done other
  | wake thread => exact wake_inv shardId replicaId s inv thread

theorem threads_inv (shardId replicaId : Nat) (steps : List ThreadStep) (s : Threads)
    (ran : Machine.run Threads.step (Threads.init shardId replicaId) steps = some s) : s.Inv shardId replicaId :=
  Machine.run_preserves Threads.step (Threads.Inv shardId replicaId)
    (fun s label next inv stepped => threads_step shardId replicaId s next label inv stepped) _ s (init_threads shardId replicaId) steps ran

-- The calls that a thread has made.
def callsOf (steps : List ThreadStep) (thread : Nat) : List Job :=
  steps.filterMap (fun step => match step with
    | .start caller job => if caller = thread then some job else none
    | _ => none)

def Threads.startedAfter (s : Threads) : ThreadStep → Nat → List Job
  | .start thread job => Function.update s.started thread (s.started thread ++ [job])
  | _ => s.started

theorem moves_started (s next : Threads) (label : ThreadStep) (moves : s.Moves label next) : next.started = s.startedAfter label := by
  cases moves with
  | complete thread notified =>
      cases notified with
      | none => rfl
      | some other =>
          rw [Option.elim_some, wake_frame]
          rfl
  | wake thread =>
      rw [wake_frame]
      rfl
  | _ => rfl

theorem started_calls (shardId replicaId : Nat) (steps : List ThreadStep) (s : Threads)
    (ran : Machine.run Threads.step (Threads.init shardId replicaId) steps = some s) (thread : Nat) : s.started thread = callsOf steps thread := by
  refine Machine.run_invariant Threads.step _ (fun steps s => s.started thread = callsOf steps thread) rfl ?_ steps s ran
  intro steps s label next before stepped
  rw [moves_started s next label (step_moves s next label stepped), callsOf, List.filterMap_append, ← callsOf, ← before]
  cases label with
  | start caller job =>
      simp only [Threads.startedAfter]
      by_cases mine : caller = thread
      · subst mine
        simp only [Function.update_self, List.filterMap_cons, List.filterMap_nil, if_true]
      · simp only [Function.update_of_ne (Ne.symm mine), List.filterMap_cons, List.filterMap_nil, if_neg mine, List.append_nil]
  | _ => exact (List.append_nil _).symm

-- The main result on the handlers. Whatever the threads do in between, the server
-- and its answers are those of the finished jobs done one by one, and of the calls
-- that a thread has made each is finished once and in their order, but the last
-- if the thread is still at it.
theorem handlers_linearize (shardId replicaId : Nat) (steps : List ThreadStep) (s : Threads)
    (ran : Machine.run Threads.step (Threads.init shardId replicaId) steps = some s) :
    Machine.run Served.step (Served.init shardId replicaId) s.finished = some ⟨s.server, s.replies⟩ ∧
    ∀ thread, callsOf steps thread = jobsOf s.finished thread ++ (s.phase thread).job?.toList := by
  have inv := threads_inv shardId replicaId steps s ran
  refine ⟨inv.served, fun thread => ?_⟩
  rw [← started_calls shardId replicaId steps s ran thread]
  exact inv.order thread

-- An insert that comes before its client is connected; both threads make a state.
def earlyInsert : List ThreadStep :=
  [.start 0 (.control (.slots ⟨100, [⟨7, 4⟩]⟩) []), .start 2 (.insert ⟨7, 1, [1, 2, 3]⟩ []), .start 1 (.addClient 7), .exchange 2 false,
    .enter 2 none, .exchange 1 false, .enter 1 (some 2), .enter 2 none]

theorem handlers_linearize_early_insert : ∃ s, Machine.run Threads.step (Threads.init 0 3) earlyInsert = some s ∧
    s.replies = [.client 7 (.insertAck ⟨3, 100⟩)] ∧
    Machine.run Served.step (Served.init 0 3) s.finished = some ⟨s.server, s.replies⟩ ∧ jobsOf s.finished 2 = [.insert ⟨7, 1, [1, 2, 3]⟩ []] := by
  have enabled : (Machine.run Threads.step (Threads.init 0 3) earlyInsert).map (fun s =>
      decide (s.replies = [.client 7 (.insertAck ⟨3, 100⟩)] ∧ s.phase 2 = .idle)) = some true := by
    decide +kernel
  obtain ⟨s, ran, seen⟩ := Option.map_eq_some_iff.mp enabled
  obtain ⟨replies, idle⟩ := of_decide_eq_true seen
  obtain ⟨served, calls⟩ := handlers_linearize 0 3 earlyInsert s ran
  refine ⟨s, ran, replies, served, ?_⟩
  have called := calls 2
  rw [idle] at called
  exact ((List.append_nil _).symm.trans called.symm)

-- What ~storage deletes, behind what was deleted before.
def Threads.destroy (s : Threads) : List Nat := s.deleted ++ (List.range maxClients).filterMap s.location

def Phase.reference? : Phase → Option (Nat × Nat)
  | .found _ clientId (some ref) => some (clientId, ref)
  | .waiting _ clientId ref => some (clientId, ref)
  | _ => none

theorem destroy_once (shardId replicaId : Nat) (s : Threads) (inv : s.Inv shardId replicaId) (stopped : ∀ thread, s.phase thread = .idle) :
    s.destroy.Perm (List.range s.allocations) := by
  obtain ⟨holder, owned⟩ := inv.owned
  have installed : ∀ ref, ref ∈ (List.range maxClients).filterMap s.location ↔ ∃ clientId, s.location clientId = some ref := by
    intro ref
    rw [List.mem_filterMap]
    constructor
    · rintro ⟨clientId, _, there⟩
      exact ⟨clientId, there⟩
    · rintro ⟨clientId, there⟩
      exact ⟨clientId, List.mem_range.mpr (inv.valid clientId ref there), there⟩
  rw [List.perm_ext_iff_of_nodup ?_ List.nodup_range]
  · intro ref
    rw [Threads.destroy, List.mem_append, installed, List.mem_range]
    constructor
    · rintro (member | ⟨clientId, there⟩)
      · exact ((owned.deleted ref).mp member).1
      · exact ((owned.location clientId ref).mp there).1
    · intro made
      cases held : holder ref with
      | deleted => exact Or.inl ((owned.deleted ref).mpr ⟨made, held⟩)
      | location clientId => exact Or.inr ⟨clientId, (owned.location clientId ref).mpr ⟨made, held⟩⟩
      | thread thread =>
          have fresh := (owned.thread thread ref).mpr ⟨made, held⟩
          rw [stopped thread] at fresh
          cases fresh
  · refine List.nodup_append.mpr ⟨owned.once, List.nodup_range.filterMap ?_, ?_⟩
    · intro first second ref there elsewhere
      have held := ((owned.location first ref).mp there).2
      rw [((owned.location second ref).mp elsewhere).2] at held
      exact (Holder.location.inj held).symm
    · rintro ref member other there rfl
      obtain ⟨clientId, there⟩ := (installed ref).mp there
      have held := ((owned.deleted ref).mp member).2
      rw [((owned.location clientId ref).mp there).2] at held
      cases held

-- compare_exchange_weak has failed although the location was empty.
def FailedWeakly (shardId replicaId : Nat) (steps : List ThreadStep) : Prop :=
  ∃ before thread after mid job clientId fresh, steps = before ++ .exchange thread true :: after ∧
    Machine.run Threads.step (Threads.init shardId replicaId) before = some mid ∧
    mid.phase thread = .allocated job clientId fresh ∧ mid.location clientId = none

def Phase.null : Phase → Bool
  | .found _ _ none => true
  | _ => false

theorem woken_null (phase : Phase) : phase.woken.null = phase.null := by
  cases phase <;> rfl

theorem update_null (phases : Nat → Phase) (thread other : Nat) (phase : Phase) (same : phase.null = (phases thread).null) :
    (Function.update phases thread phase other).null = (phases other).null := by
  by_cases mine : other = thread
  · rw [mine, Function.update_self, same]
  · rw [Function.update_of_ne mine]

-- A thread dereferences nullptr exactly if its exchange fails at an empty location,
-- and does not get any further.
theorem moves_null (s next : Threads) (label : ThreadStep) (moves : s.Moves label next) (thread : Nat) :
    (next.phase thread).null = true ↔ (s.phase thread).null = true ∨
      (label = .exchange thread true ∧ ∃ job clientId fresh, s.phase thread = .allocated job clientId fresh ∧ s.location clientId = none) := by
  have quiet : (next.phase thread).null = (s.phase thread).null → label ≠ .exchange thread true → ((next.phase thread).null = true ↔
      (s.phase thread).null = true ∨ (label = .exchange thread true ∧
        ∃ job clientId fresh, s.phase thread = .allocated job clientId fresh ∧ s.location clientId = none)) := by
    intro same other
    rw [same]
    exact ⟨Or.inl, fun either => either.resolve_right (fun new => other new.1)⟩
  have wake : ∀ (s : Threads) (other : Nat), ((s.wake other).phase thread).null = (s.phase thread).null := by
    intro s other
    rw [wake_phase]
    exact update_null s.phase other thread _ (woken_null _)
  cases moves with
  | direct caller job result idle => exact quiet (update_null s.phase caller thread _ (by rw [idle])) ThreadStep.noConfusion
  | hit caller job clientId ref idle => exact quiet (update_null s.phase caller thread _ (by rw [idle]; rfl)) ThreadStep.noConfusion
  | miss caller job clientId idle => exact quiet (update_null s.phase caller thread _ (by rw [idle]; rfl)) ThreadStep.noConfusion
  | install caller job clientId fresh phase =>
      exact quiet (update_null s.phase caller thread _ (by rw [phase]; rfl)) (fun same => (by cases same))
  | discard caller spurious job clientId fresh phase failed =>
      change ((Function.update s.phase caller (.found job clientId (s.location clientId))) thread).null = true ↔ _
      by_cases mine : thread = caller
      · subst mine
        rw [Function.update_self, phase]
        constructor
        · intro null
          have empty : s.location clientId = none := by
            cases there : s.location clientId with
            | none => rfl
            | some ref =>
                rw [there] at null
                cases null
          exact Or.inr ⟨by rw [failed empty], job, clientId, fresh, rfl, empty⟩
        · rintro (old | ⟨_, _, _, _, same, empty⟩)
          · cases old
          · cases same
            rw [empty]
            rfl
      · rw [Function.update_of_ne mine]
        refine ⟨Or.inl, fun either => either.resolve_right ?_⟩
        rintro ⟨same, _⟩
        cases same
        exact mine rfl
  | block caller notified job clientId ref phase => exact quiet (update_null s.phase caller thread _ (by rw [phase]; rfl)) ThreadStep.noConfusion
  | complete caller notified job clientId ref result phase =>
      have done : ((s.complete caller job clientId ref result).phase thread).null = (s.phase thread).null :=
        update_null s.phase caller thread .idle (by rw [phase]; rfl)
      cases notified with
      | none => exact quiet done ThreadStep.noConfusion
      | some other => exact quiet ((wake _ other).trans done) ThreadStep.noConfusion
  | wake caller => exact quiet (wake s caller) ThreadStep.noConfusion

theorem null_exact (shardId replicaId : Nat) (steps : List ThreadStep) (s : Threads)
    (ran : Machine.run Threads.step (Threads.init shardId replicaId) steps = some s) :
    (∃ thread, (s.phase thread).null = true) ↔ FailedWeakly shardId replicaId steps := by
  induction steps using List.reverseRecOn generalizing s with
  | nil =>
      cases ran
      constructor
      · rintro ⟨thread, null⟩
        cases null
      · rintro ⟨before, thread, after, _, _, _, _, split, _⟩
        cases before <;> cases split
  | append_singleton steps label ih =>
      obtain ⟨mid, earlier, stepped⟩ := Machine.run_snoc_some ran
      have moves := step_moves mid s label stepped
      constructor
      · rintro ⟨thread, null⟩
        cases (moves_null mid s label moves thread).mp null with
        | inl old =>
            obtain ⟨before, caller, after, state, job, clientId, fresh, rfl, reached⟩ := (ih mid earlier).mp ⟨thread, old⟩
            exact ⟨before, caller, after ++ [label], state, job, clientId, fresh, List.append_assoc .., reached⟩
        | inr new =>
            obtain ⟨rfl, job, clientId, fresh, phase, empty⟩ := new
            exact ⟨steps, thread, [], mid, job, clientId, fresh, rfl, earlier, phase, empty⟩
      · rintro ⟨before, thread, after, state, job, clientId, fresh, split, reached, phase, empty⟩
        cases after using List.reverseRecOn with
        | nil =>
            obtain ⟨rfl, same⟩ := List.append_inj' split rfl
            cases Option.some.inj (reached.symm.trans earlier)
            exact ⟨thread, (moves_null mid s label moves thread).mpr
              (Or.inr ⟨(List.singleton_inj.mp same), job, clientId, fresh, phase, empty⟩)⟩
        | append_singleton after last =>
            rw [← List.cons_append, ← List.append_assoc] at split
            obtain ⟨rfl, same⟩ := List.append_inj' split rfl
            obtain ⟨caller, null⟩ := (ih mid earlier).mpr ⟨before, thread, after, state, job, clientId, fresh, rfl, reached, phase, empty⟩
            exact ⟨caller, (moves_null mid s label moves caller).mpr (Or.inl null)⟩

-- The main result on the states. A reference that a thread has is to the one state
-- of the client, which is not deleted while threads run; each state that was made is
-- deleted once in the end; and nullptr is dereferenced exactly if an exchange has
-- failed at an empty location.
theorem states_owned (shardId replicaId : Nat) (steps : List ThreadStep) (s : Threads)
    (ran : Machine.run Threads.step (Threads.init shardId replicaId) steps = some s) :
    (∀ thread clientId ref, (s.phase thread).reference? = some (clientId, ref) →
      s.location clientId = some ref ∧ ref ∉ s.deleted ∧ ∀ other, s.location other = some ref → other = clientId) ∧
    ((∀ thread, s.phase thread = .idle) → s.destroy.Perm (List.range s.allocations)) ∧
    ((∃ thread, (s.phase thread).null = true) ↔ FailedWeakly shardId replicaId steps) := by
  have inv := threads_inv shardId replicaId steps s ran
  obtain ⟨holder, owned⟩ := inv.owned
  refine ⟨?_, destroy_once shardId replicaId s inv, null_exact shardId replicaId steps s ran⟩
  intro thread clientId ref refers
  have there : s.location clientId = some ref := by
    have sound := inv.sound thread
    cases phase : s.phase thread with
    | idle =>
        rw [phase] at refers
        cases refers
    | allocated job client fresh =>
        rw [phase] at refers
        cases refers
    | found job client reference =>
        rw [phase] at refers sound
        cases reference with
        | none => cases refers
        | some found =>
            cases refers
            exact sound.2 ref rfl
    | waiting job client reference =>
        rw [phase] at refers sound
        cases refers
        exact sound.2
  have held := ((owned.location clientId ref).mp there).2
  refine ⟨there, ?_, ?_⟩
  · intro member
    have deleted := ((owned.deleted ref).mp member).2
    rw [held] at deleted
    cases deleted
  · intro other elsewhere
    have same := ((owned.location other ref).mp elsewhere).2
    rw [held] at same
    exact (Holder.location.inj same).symm

theorem idle_uncalled (shardId replicaId : Nat) (steps : List ThreadStep) (s : Threads)
    (ran : Machine.run Threads.step (Threads.init shardId replicaId) steps = some s) (thread : Nat) (uncalled : callsOf steps thread = []) :
    s.phase thread = .idle := by
  have order := (threads_inv shardId replicaId steps s ran).order thread
  rw [started_calls shardId replicaId steps s ran thread, uncalled] at order
  have none := (List.append_eq_nil_iff.mp order.symm).2
  cases phase : s.phase thread with
  | idle => rfl
  | _ =>
      rw [phase] at none
      cases none

theorem states_owned_early_insert : ∃ s, Machine.run Threads.step (Threads.init 0 3) earlyInsert = some s ∧
    s.destroy.Perm (List.range 2) ∧ ¬ FailedWeakly 0 3 earlyInsert := by
  have enabled : (Machine.run Threads.step (Threads.init 0 3) earlyInsert).map (fun s =>
      decide (s.allocations = 2 ∧ s.phase 0 = .idle ∧ s.phase 1 = .idle ∧ s.phase 2 = .idle)) = some true := by
    decide +kernel
  obtain ⟨s, ran, seen⟩ := Option.map_eq_some_iff.mp enabled
  obtain ⟨made, control, accept, client⟩ := of_decide_eq_true seen
  have stopped : ∀ thread, s.phase thread = .idle := by
    intro thread
    by_cases called : thread = 0 ∨ thread = 1 ∨ thread = 2
    · rcases called with rfl | rfl | rfl
      · exact control
      · exact accept
      · exact client
    · apply idle_uncalled 0 3 earlyInsert s ran
      push Not at called
      simp [callsOf, earlyInsert, called.1.symm, called.2.1.symm, called.2.2.symm]
  obtain ⟨_, destroyed, null⟩ := states_owned 0 3 earlyInsert s ran
  refine ⟨s, ran, made ▸ destroyed stopped, ?_⟩
  intro failed
  obtain ⟨thread, found⟩ := null.mpr failed
  rw [stopped thread] at found
  cases found

end ZipLog.Storage
