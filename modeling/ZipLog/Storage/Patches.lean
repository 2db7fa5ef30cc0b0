import ZipLog.Storage.Sealed

set_option autoImplicit false

namespace ZipLog.Storage

-- A replica with everything that can change it, and the GSN its next slots start
-- from at the earliest. 2^64 - 1 stands for no GSN, so it is never a slot's.
structure Survivor where
  server : Server
  endGsn : Nat

def Survivor.init (shardId replicaId : Nat) : Survivor := ⟨Server.init shardId replicaId, 0⟩

inductive Arrival where
  | addClient (clientId : Nat)
  | control (message : StorageControl) (beyond : Bytes)
  | insert (req : StorageInsert) (beyond : Bytes)
  | clientFinished (clientId : Nat)
deriving DecidableEq, Repr

def Survivor.fits (replica : Survivor) : StorageControl → Bool
  | .slots slots => replica.endGsn ≤ slots.startGsn && slots.startGsn + (schedule slots.assignments).length ≤ uint64Max
  | .clientPatch patch => patch.gsn ≤ uint64Max
  | _ => true

def Survivor.after (replica : Survivor) : StorageControl → Nat
  | .slots slots => slots.startGsn + (schedule slots.assignments).length
  | _ => replica.endGsn

-- A failed assertion ends the process, so there is no state after it.
def Survivor.step (replica : Survivor) : Arrival → Option Survivor
  | .addClient clientId => some { replica with server := replica.server.addClient clientId }
  | .control message beyond =>
      if replica.fits message ∧ replica.server.waits message = false then
        match replica.server.control message beyond with
        | .error _ => none
        | .ok (server, _) => some ⟨server, replica.after message⟩
      else none
  | .insert req beyond =>
      if (replica.server.clientState req.clientId).connected then
        match replica.server.storageInsert req beyond with
        | .error _ => none
        | .ok (server, _) => some { replica with server := server }
      else none
  | .clientFinished clientId =>
      if (replica.server.clientState clientId).connected then
        some { replica with server := (replica.server.clientFinished clientId).1 }
      else none

-- storage::control on the patches, one after the other.
def Server.patches (server : Server) : List (StorageClientPatch × Bytes) → Except Fault Server
  | [] => .ok server
  | (patch, beyond) :: rest => do
      let (server, _) ← server.control (.clientPatch patch) beyond
      server.patches rest

-- The patches for GSNs above those the replica has; all of them if it has
-- received nothing from the client.
def Server.missing (server : Server) (clientId : Nat) (patches : List (StorageClientPatch × Bytes)) : List StorageClientPatch :=
  let latest := (server.clientState clientId).latestGsn
  (patches.map Prod.fst).filter (fun patch => latest = uint64Max ∨ latest < patch.gsn)

-- What recovery is to leave behind.
structure Server.Patched (server next : Server) (clientId : Nat) (missing : List StorageClientPatch) : Prop where
  entries : next.log.currentEntries = server.log.currentEntries
  filled : ∀ patch ∈ missing, ∀ index seen, next.log.observe index = some seen → seen.clientId = clientId → seen.gsn = patch.gsn →
    seen = ⟨patch.gsn, clientId, patch.data.length, patch.data, true⟩
  closed : ∀ index before, server.log.observe index = some before → before.clientId = clientId → before.set = false →
    (∃ patch ∈ missing, before.gsn < patch.gsn) → (∀ patch ∈ missing, before.gsn ≠ patch.gsn) →
    next.log.observe index = some ⟨before.gsn, clientId, 0, [], true⟩
  kept : ∀ index before, server.log.observe index = some before →
    (before.clientId = clientId → before.set = true ∨ ∀ patch ∈ missing, patch.gsn < before.gsn) → next.log.observe index = some before

-- The client's slot with this GSN is set.
def Log.isSet (log : Log) (clientId gsn : Nat) : Bool :=
  (List.range log.currentEntries).any (fun index =>
    (log.observe index).any (fun seen => seen.clientId == clientId && seen.gsn == gsn && seen.set))

-- The handler takes a GSN for a number of slots. That is the same number only
-- when GSN 0 is the one slot of the client that is set, a single GSN is
-- missing, and all GSNs up to it belong to the client. A replica without any GSN
-- of the client takes no patch, which only a patch without data can bear, for a
-- slot that is closed already.
def Server.Patchable (server : Server) (clientId : Nat) (missing : List StorageClientPatch) : Prop :=
  if (server.clientState clientId).latestGsn = uint64Max then
    ∀ patch ∈ missing, server.log.isSet clientId patch.gsn = true ∧ patch.data = []
  else missing.length ≤ 1 ∧ ∀ patch ∈ missing,
    (∀ gsn ∈ server.log.clientGsns clientId, server.log.isSet clientId gsn = true ↔ gsn = 0) ∧
      (server.log.clientGsns clientId).take (patch.gsn + 1) = List.range (patch.gsn + 1)

instance (server : Server) (clientId : Nat) (missing : List StorageClientPatch) : Decidable (server.Patchable clientId missing) := by
  unfold Server.Patchable
  infer_instance

def Latest (contents : Contents) (client latest : Nat) : Prop :=
  (latest = uint64Max ∧ ∀ data ∈ contents.fills client, data = []) ∨
    ∃ rank, rank < (contents.fills client).length ∧ (gsns contents.slots client)[rank]? = some latest

structure Survivor.Inv (replica : Survivor) (contents : Contents) : Prop where
  tracks : replica.server.Tracks contents
  increasing : Increasing contents.slots
  below : ∀ slot ∈ contents.slots, slot.1 < replica.endGsn
  word : replica.endGsn ≤ uint64Max
  latest : ∀ client, Latest contents client (replica.server.clientState client).latestGsn

theorem latest_extend (contents : Contents) (client latest : Nat) (more : List (Nat × Nat)) (known : Latest contents client latest) :
    Latest (contents.extend more) client latest := by
  cases known with
  | inl nothing => exact .inl nothing
  | inr value =>
      obtain ⟨rank, bound, access⟩ := value
      refine .inr ⟨rank, bound, ?_⟩
      change (gsns (contents.slots ++ more) client)[rank]? = some latest
      rw [gsns_append, List.getElem?_append_left (List.getElem?_eq_some_iff.mp access).1]
      exact access

-- A client that has not sent anything is only ever filled by closing its slots.
theorem latest_push (contents : Contents) (client other latest : Nat) (pushed : List Bytes) (known : Latest contents other latest)
    (closes : other = client → latest = uint64Max → ∀ data ∈ pushed, data = []) : Latest (contents.push client pushed) other latest := by
  by_cases mine : other = client
  · subst mine
    rw [Latest, push_fills_same]
    cases known with
    | inl nothing =>
        refine .inl ⟨nothing.1, ?_⟩
        intro data member
        cases List.mem_append.mp member with
        | inl old => exact nothing.2 data old
        | inr new => exact closes rfl nothing.1 data new
    | inr value =>
        obtain ⟨rank, bound, access⟩ := value
        exact .inr ⟨rank, by rw [List.length_append]; omega, access⟩
  · rw [Latest, push_fills_other _ _ _ _ mine]
    exact known

theorem init_survives (shardId replicaId : Nat) : (Survivor.init shardId replicaId).Inv Contents.empty := by
  refine ⟨init_tracks shardId replicaId, List.Pairwise.nil, ?_, Nat.zero_le _, ?_⟩
  · intro slot member
    cases member
  · intro client
    refine .inl ⟨rfl, ?_⟩
    intro data member
    cases member

-- Connecting and disconnecting leave the positions and the latest GSNs alone.
theorem state_survives (replica : Survivor) (contents : Contents) (client : Nat) (state : ClientState) (inv : replica.Inv contents)
    (position : state.position = (replica.server.clientState client).position)
    (latest : state.latestGsn = (replica.server.clientState client).latestGsn) :
    { replica with server := replica.server.setClientState client state }.Inv contents := by
  refine ⟨set_client_state_tracks replica.server contents client state inv.tracks position, inv.increasing, inv.below, inv.word, ?_⟩
  intro other
  by_cases mine : other = client
  · subst mine
    rw [client_state_same, latest]
    exact inv.latest other
  · rw [client_state_other _ _ _ _ mine]
    exact inv.latest other

theorem slots_survive (replica : Survivor) (contents : Contents) (slots : StorageSlots) (inv : replica.Inv contents)
    (fits : replica.endGsn ≤ slots.startGsn) (word : slots.startGsn + (schedule slots.assignments).length ≤ uint64Max) :
    Survivor.Inv ⟨replica.server.storageSlots slots, slots.startGsn + (schedule slots.assignments).length⟩
      (contents.extend (newSlots slots)) := by
  have small : slots.startGsn + (schedule slots.assignments).length ≤ 2 ^ 64 := Nat.le_trans word (by decide)
  have range := own_slots_range slots.startGsn (schedule slots.assignments) small
  have states : (replica.server.storageSlots slots).clientState = replica.server.clientState := by
    unfold Server.storageSlots
    split <;> rfl
  refine ⟨storage_slots_tracks replica.server contents slots inv.tracks, ?_, ?_, word, ?_⟩
  · refine increasing_append contents.slots (newSlots slots) slots.startGsn inv.increasing
      (own_slots_increasing _ _ small) ?_ (fun slot member => (range slot member).1)
    intro slot member
    exact Nat.lt_of_lt_of_le (inv.below slot member) fits
  · intro slot member
    cases List.mem_append.mp member with
    | inl old => exact Nat.lt_of_lt_of_le (inv.below slot old) (Nat.le_trans fits (Nat.le_add_right _ _))
    | inr new => exact (range slot new).2
  · intro client
    rw [states]
    exact latest_extend contents client _ _ (inv.latest client)

-- The client's position moves on over the slots that are pushed.
theorem pushed_survives (replica : Survivor) (contents : Contents) (client : Nat) (pushed : List Bytes) (log : Log) (state : ClientState)
    (inv : replica.Inv contents) (rep : Represents log (contents.push client pushed))
    (here : state.position = ((contents.push client pushed).cursor client).map ptr)
    (known : Latest (contents.push client pushed) client state.latestGsn) :
    { replica with server := { replica.server with log := log }.setClientState client state }.Inv (contents.push client pushed) := by
  refine ⟨pushed_tracks replica.server contents client pushed log state inv.tracks rep here, inv.increasing, inv.below, inv.word, ?_⟩
  intro other
  by_cases mine : other = client
  · subst mine
    rw [client_state_same]
    exact known
  · rw [client_state_other _ _ _ _ mine]
    exact latest_push contents client other _ pushed (inv.latest other) (fun same => absurd same mine)

theorem latest_real (replica : Survivor) (contents : Contents) (client : Nat) (inv : replica.Inv contents)
    (real : (replica.server.clientState client).latestGsn ≠ uint64Max) :
    ∃ rank, rank < (contents.fills client).length ∧
      (gsns contents.slots client)[rank]? = some (replica.server.clientState client).latestGsn := by
  cases inv.latest client with
  | inl nothing => exact absurd nothing.1 real
  | inr value => exact value

theorem patch_survives (replica : Survivor) (contents : Contents) (patch : StorageClientPatch) (beyond : Bytes) (server : Server)
    (inv : replica.Inv contents) (word : patch.gsn ≤ uint64Max) (ran : replica.server.storageClientPatch patch beyond = .ok server) :
    ∃ contents, { replica with server := server }.Inv contents := by
  simp only [Server.storageClientPatch] at ran
  split at ran
  · rename_i above
    rw [inv.tracks.position] at ran
    cases inserted : replica.server.log.insert patch.clientId ((contents.cursor patch.clientId).map ptr) ⟨patch.data, beyond⟩ patch.gsn with
    | error fault =>
        rw [inserted] at ran
        cases ran
    | ok result =>
        rw [inserted] at ran
        cases ran
        obtain ⟨pushed, rep, current, -, -⟩ := insert_pushes _ contents _ _ _ result inv.tracks.rep inserted
        refine ⟨_, pushed_survives replica contents patch.clientId pushed result.log _ inv rep current ?_⟩
        refine latest_push contents _ _ _ pushed (inv.latest _) ?_
        intro _ none
        have none : (replica.server.clientState patch.clientId).latestGsn = uint64Max := none
        omega
  · cases ran
    exact ⟨contents, inv⟩

theorem finalize_survives (replica : Survivor) (contents : Contents) (client : Nat) (inv : replica.Inv contents) :
    ∃ server, replica.server.storageClientFinalize client = .ok server ∧ { replica with server := server }.Inv (contents.seal client) := by
  obtain ⟨log, position, ran, tracks, -, -⟩ := storage_client_finalize_tracks replica.server contents client inv.tracks
  have here := tracks.position client
  rw [client_state_same] at here
  refine ⟨_, ran, pushed_survives replica contents client _ log _ inv tracks.rep here ?_⟩
  refine latest_push contents client client _ _ (inv.latest client) ?_
  intro _ _ data member
  exact List.eq_of_mem_replicate member

theorem insert_survives (replica : Survivor) (contents : Contents) (req : StorageInsert) (beyond : Bytes) (server : Server)
    (reply : Option ClientInsertAck) (inv : replica.Inv contents) (ran : replica.server.storageInsert req beyond = .ok (server, reply)) :
    ∃ contents, { replica with server := server }.Inv contents := by
  simp only [Server.storageInsert] at ran
  split at ran
  · cases ran
    exact ⟨contents, inv⟩
  · rw [inv.tracks.position] at ran
    cases inserted : replica.server.log.insert req.clientId ((contents.cursor req.clientId).map ptr) ⟨req.data, beyond⟩ req.numSlots with
    | error fault =>
        rw [inserted] at ran
        cases ran
    | ok result =>
        rw [inserted] at ran
        cases ran
        obtain ⟨pushed, rep, current, nonempty, value⟩ := insert_pushes _ contents _ _ _ result inv.tracks.rep inserted
        refine ⟨_, pushed_survives replica contents req.clientId pushed result.log _ inv rep current ?_⟩
        have length := List.length_pos_iff.mpr nonempty
        refine .inr ⟨(contents.fills req.clientId).length + pushed.length - 1, ?_, value⟩
        rw [push_fills_same, List.length_append]
        omega

theorem control_survives (replica : Survivor) (contents : Contents) (message : StorageControl) (beyond : Bytes) (server : Server)
    (reports : List OrderControl) (inv : replica.Inv contents) (fits : replica.fits message = true)
    (ran : replica.server.control message beyond = .ok (server, reports)) :
    ∃ contents, Survivor.Inv ⟨server, replica.after message⟩ contents := by
  cases message with
  | slots slots =>
      cases ran
      simp only [Survivor.fits, Bool.and_eq_true, decide_eq_true_eq] at fits
      exact ⟨_, slots_survive replica contents slots inv fits.1 fits.2⟩
  | clientFreeze clientId =>
      cases ran
      exact ⟨contents, state_survives replica contents clientId _ inv rfl rfl⟩
  | clientCut req =>
      simp only [Server.control] at ran
      cases answered : replica.server.storageClientCut req with
      | error fault =>
          rw [answered] at ran
          cases ran
      | ok data =>
          rw [answered] at ran
          cases ran
          exact ⟨contents, inv⟩
  | clientPatch patch =>
      simp only [Server.control] at ran
      cases patched : replica.server.storageClientPatch patch beyond with
      | error fault =>
          rw [patched] at ran
          cases ran
      | ok result =>
          rw [patched] at ran
          cases ran
          exact patch_survives replica contents patch beyond server inv (of_decide_eq_true fits) patched
  | clientFinalize clientId =>
      simp only [Server.control] at ran
      obtain ⟨after, closed, kept⟩ := finalize_survives replica contents clientId inv
      rw [closed] at ran
      cases ran
      exact ⟨_, kept⟩

theorem step_survives (replica next : Survivor) (contents : Contents) (arrival : Arrival) (inv : replica.Inv contents)
    (stepped : replica.step arrival = some next) : ∃ contents, next.Inv contents := by
  cases arrival with
  | addClient clientId =>
      cases stepped
      simp only [Server.addClient]
      split
      · exact ⟨contents, inv⟩
      · exact ⟨contents, state_survives replica contents clientId _ inv rfl rfl⟩
  | control message beyond =>
      obtain ⟨ready, ran⟩ := Option.ite_none_right_eq_some.mp stepped
      split at ran
      · cases ran
      · rename_i server reports handled
        cases ran
        exact control_survives replica contents message beyond server reports inv ready.1 handled
  | insert req beyond =>
      obtain ⟨-, ran⟩ := Option.ite_none_right_eq_some.mp stepped
      split at ran
      · cases ran
      · rename_i server reply handled
        cases ran
        exact insert_survives replica contents req beyond server reply inv handled
  | clientFinished clientId =>
      obtain ⟨-, ran⟩ := Option.ite_none_right_eq_some.mp stepped
      cases ran
      simp only [Server.clientFinished]
      split
      · exact ⟨contents, inv⟩
      · exact ⟨contents, state_survives replica contents clientId _ inv rfl rfl⟩

theorem run_survives (shardId replicaId : Nat) (events : List Arrival) (replica : Survivor)
    (ran : Machine.run Survivor.step (Survivor.init shardId replicaId) events = some replica) : ∃ contents, replica.Inv contents :=
  Machine.run_preserves Survivor.step (fun replica => ∃ contents, replica.Inv contents)
    (fun replica arrival next inv stepped => inv.elim (fun contents inv => step_survives replica next contents arrival inv stepped))
    _ _ ⟨_, init_survives shardId replicaId⟩ events ran

-- What is seen at an index is the slot at some rank of its client's chain.
theorem observe_rank (log : Log) (contents : Contents) (index : Nat) (seen : Observation) (rep : Represents log contents)
    (observed : log.observe index = some seen) :
    ∃ rank : Nat, (chain contents.slots seen.clientId)[rank]? = some index ∧ (gsns contents.slots seen.clientId)[rank]? = some seen.gsn ∧
      seen = ⟨seen.gsn, seen.clientId, ((contents.fills seen.clientId).getD rank []).length, (contents.fills seen.clientId).getD rank [],
        decide (rank < (contents.fills seen.clientId).length)⟩ := by
  have inside : index < contents.slots.length := by
    rw [Log.observe] at observed
    exact rep.count ▸ (Option.ite_none_right_eq_some.mp observed).1
  obtain ⟨rank, access⟩ := chain_rank_exists contents.slots index _ _ (List.getElem?_eq_getElem inside)
  obtain ⟨gsn, slot, there⟩ := observe_represents log contents rep _ rank index access
  rw [there] at observed
  cases observed
  exact ⟨rank, access, by rw [gsns_access _ _ _ _ access, slot]; rfl, rfl⟩

-- Any rank of a client's chain can be seen.
theorem rank_observed (log : Log) (contents : Contents) (client rank gsn : Nat) (rep : Represents log contents)
    (access : (gsns contents.slots client)[rank]? = some gsn) :
    ∃ index, (chain contents.slots client)[rank]? = some index ∧
      log.observe index = some ⟨gsn, client, ((contents.fills client).getD rank []).length, (contents.fills client).getD rank [],
        decide (rank < (contents.fills client).length)⟩ := by
  have bound := (List.getElem?_eq_some_iff.mp access).1
  rw [← chain_length] at bound
  have there := List.getElem?_eq_getElem bound
  obtain ⟨found, slot, observed⟩ := observe_represents log contents rep client rank _ there
  rw [gsns_access _ _ _ _ there, slot] at access
  cases access
  exact ⟨_, there, observed⟩

theorem is_set_iff (log : Log) (contents : Contents) (client gsn : Nat) (rep : Represents log contents) :
    log.isSet client gsn = true ↔ ∃ rank, rank < (contents.fills client).length ∧ (gsns contents.slots client)[rank]? = some gsn := by
  simp only [Log.isSet, List.any_eq_true, List.mem_range, Option.any_eq_true, Bool.and_eq_true, beq_iff_eq]
  constructor
  · rintro ⟨index, -, seen, observed, ⟨rfl, rfl⟩, taken⟩
    obtain ⟨rank, -, access, value⟩ := observe_rank log contents index seen rep observed
    rw [value] at taken
    exact ⟨rank, of_decide_eq_true taken, access⟩
  · rintro ⟨rank, bound, access⟩
    obtain ⟨index, there, observed⟩ := rank_observed log contents client rank gsn rep access
    exact ⟨index, rep.count ▸ chain_bound _ _ _ _ there, _, observed, ⟨rfl, rfl⟩, decide_eq_true bound⟩

theorem gsns_sorted (slots : List (Nat × Nat)) (client : Nat) (increasing : Increasing slots) : (gsns slots client).Pairwise (· < ·) :=
  List.Pairwise.map _ (fun _ _ less => less) (increasing.filter _)

-- GSNs that grow are at least as far apart as their ranks.
theorem sorted_gap (values : List Nat) (lower upper first second : Nat) (sorted : values.Pairwise (· < ·)) (order : lower ≤ upper)
    (left : values[lower]? = some first) (right : values[upper]? = some second) : first + (upper - lower) ≤ second := by
  induction upper generalizing second with
  | zero =>
      cases Nat.le_zero.mp order
      cases left.symm.trans right
      exact Nat.le_refl _
  | succ upper ih =>
      cases Nat.lt_or_eq_of_le order with
      | inr same =>
          subst same
          cases left.symm.trans right
          omega
      | inl less =>
          obtain ⟨bound, rfl⟩ := List.getElem?_eq_some_iff.mp right
          have before := ih values[upper] (by omega) (List.getElem?_eq_getElem (by omega))
          have step := List.pairwise_iff_getElem.mp sorted upper (upper + 1) (by omega) bound (by omega)
          omega

theorem sorted_rank (values : List Nat) (first second gsn other : Nat) (sorted : values.Pairwise (· < ·))
    (left : values[first]? = some gsn) (right : values[second]? = some other) : first < second ↔ gsn < other := by
  constructor
  · intro less
    have gap := sorted_gap values first second gsn other sorted (Nat.le_of_lt less) left right
    omega
  · intro less
    apply Nat.lt_of_not_le
    intro more
    have gap := sorted_gap values second first other gsn sorted more right left
    omega

theorem sorted_unique (values : List Nat) (first second gsn : Nat) (sorted : values.Pairwise (· < ·))
    (left : values[first]? = some gsn) (right : values[second]? = some gsn) : first = second := by
  have lower := sorted_rank values first second gsn gsn sorted left right
  have upper := sorted_rank values second first gsn gsn sorted right left
  omega

-- The first ranks hold the GSNs from 0 on exactly when the last of them does.
theorem sorted_range (values : List Nat) (gsn : Nat) (sorted : values.Pairwise (· < ·)) :
    values.take (gsn + 1) = List.range (gsn + 1) ↔ values[gsn]? = some gsn := by
  constructor
  · intro same
    have value := congrArg (fun list => list[gsn]?) same
    simpa using value
  · intro access
    have bound := (List.getElem?_eq_some_iff.mp access).1
    apply List.ext_getElem
    · rw [List.length_take, List.length_range]
      omega
    · intro rank here _
      rw [List.length_take] at here
      have inside : rank < values.length := by omega
      have first := List.getElem?_eq_getElem (show 0 < values.length by omega)
      have value := List.getElem?_eq_getElem inside
      have lower := sorted_gap values 0 rank _ _ sorted (Nat.zero_le _) first value
      have upper := sorted_gap values rank gsn _ _ sorted (by omega) value access
      rw [List.getElem_take, List.getElem_range]
      omega

theorem patch_latest (server next : Server) (patch : StorageClientPatch) (beyond : Bytes) (client : Nat)
    (ran : server.storageClientPatch patch beyond = .ok next) :
    (next.clientState client).latestGsn = (server.clientState client).latestGsn := by
  simp only [Server.storageClientPatch] at ran
  split at ran
  · cases inserted : server.log.insert patch.clientId (server.clientState patch.clientId).position ⟨patch.data, beyond⟩ patch.gsn with
    | error fault =>
        rw [inserted] at ran
        cases ran
    | ok result =>
        rw [inserted] at ran
        cases ran
        by_cases mine : client = patch.clientId
        · rw [mine, Server.inserted, client_state_same]
        · rw [Server.inserted, client_state_other _ _ _ _ mine]
  · cases ran
    rfl

theorem patches_cons (server : Server) (item : StorageClientPatch × Bytes) (rest : List (StorageClientPatch × Bytes)) :
    server.patches (item :: rest) = (server.storageClientPatch item.1 item.2 >>= fun next => next.patches rest) := by
  simp only [Server.patches, Server.control]
  cases server.storageClientPatch item.1 item.2 <;> rfl

-- Those the replica has may as well be left out.
theorem patches_filter (server : Server) (client : Nat) (patches : List (StorageClientPatch × Bytes))
    (named : ∀ item ∈ patches, item.1.clientId = client) :
    server.patches patches = server.patches (patches.filter (fun item => (server.clientState client).latestGsn < item.1.gsn)) := by
  induction patches generalizing server with
  | nil => rfl
  | cons item rest ih =>
      have tail (next : Server) := ih next (fun other member => named other (List.mem_cons_of_mem _ member))
      by_cases above : (server.clientState client).latestGsn < item.1.gsn
      · rw [List.filter_cons_of_pos (by simpa using above), patches_cons, patches_cons]
        cases ran : server.storageClientPatch item.1 item.2 with
        | error fault => rfl
        | ok next =>
            have latest := patch_latest server next item.1 item.2 client ran
            change next.patches rest = next.patches _
            rw [tail next, latest]
      · have skip : server.storageClientPatch item.1 item.2 = .ok server := by
          rw [Server.storageClientPatch]
          exact if_neg (by rw [named item List.mem_cons_self]; exact above)
        rw [List.filter_cons_of_neg (by simpa using above), patches_cons, skip]
        exact tail server

-- A patch moves the position on by as many slots as its GSN says.
theorem patch_advances (server next : Server) (contents : Contents) (patch : StorageClientPatch) (beyond : Bytes)
    (tracks : server.Tracks contents) (above : (server.clientState patch.clientId).latestGsn < patch.gsn)
    (ran : server.storageClientPatch patch beyond = .ok next) :
    next.Tracks (contents.push patch.clientId (List.replicate (patch.gsn - 1) [] ++ [patch.data])) := by
  simp only [Server.storageClientPatch, gt_iff_lt, if_pos above, tracks.position] at ran
  cases inserted : server.log.insert patch.clientId ((contents.cursor patch.clientId).map ptr) ⟨patch.data, beyond⟩ patch.gsn with
  | error fault =>
      rw [inserted] at ran
      cases ran
  | ok result =>
      rw [inserted] at ran
      cases ran
      obtain ⟨last, there, current, -, rep, -⟩ :=
        insert_ok server.log contents patch.clientId _ patch.gsn result tracks.rep (by omega) inserted
      refine pushed_tracks server contents patch.clientId _ result.log _ tracks rep ?_
      have nonempty : List.replicate (patch.gsn - 1) ([] : Bytes) ++ [patch.data] ≠ [] := by simp
      have length : (List.replicate (patch.gsn - 1) ([] : Bytes) ++ [patch.data]).length = patch.gsn := by
        rw [List.length_append, List.length_replicate, List.length_singleton]
        omega
      rw [cursor_push _ _ _ nonempty, length, there, current]
      rfl

theorem patches_advance (server next : Server) (contents : Contents) (client : Nat) (patches : List (StorageClientPatch × Bytes))
    (tracks : server.Tracks contents) (named : ∀ item ∈ patches, item.1.clientId = client)
    (above : ∀ item ∈ patches, (server.clientState client).latestGsn < item.1.gsn) (ran : server.patches patches = .ok next) :
    ∃ pushed, next.Tracks (contents.push client pushed) ∧ pushed.length = (patches.map (fun item => item.1.gsn)).sum := by
  induction patches generalizing server contents with
  | nil =>
      cases ran
      exact ⟨[], by rw [push_nil]; exact tracks, rfl⟩
  | cons item rest ih =>
      rw [patches_cons] at ran
      cases patched : server.storageClientPatch item.1 item.2 with
      | error fault =>
          rw [patched] at ran
          cases ran
      | ok middle =>
          rw [patched] at ran
          have own := named item List.mem_cons_self
          have more := above item List.mem_cons_self
          have moved := patch_advances server middle contents item.1 item.2 tracks (by rw [own]; exact more) patched
          rw [own] at moved
          obtain ⟨pushed, after, length⟩ := ih middle _ moved (fun other member => named other (List.mem_cons_of_mem _ member))
            (fun other member => by
              rw [patch_latest server middle item.1 item.2 client patched]
              exact above other (List.mem_cons_of_mem _ member)) ran
          refine ⟨_, push_push contents client _ pushed ▸ after, ?_⟩
          rw [List.length_append, List.length_append, List.length_replicate, List.length_singleton, length, List.map_cons, List.sum_cons]
          omega

-- A replica that has received nothing drops every patch.
theorem nothing_received (replica : Survivor) (contents : Contents) (client : Nat) (patches : List (StorageClientPatch × Bytes))
    (inv : replica.Inv contents) (named : ∀ item ∈ patches, item.1.clientId = client)
    (slots : ∀ item ∈ patches, item.1.gsn ∈ gsns contents.slots client)
    (none : (replica.server.clientState client).latestGsn = uint64Max) :
    (∃ next, replica.server.patches patches = .ok next ∧ replica.server.Patched next client (patches.map Prod.fst)) ↔
      ∀ patch ∈ patches.map Prod.fst, replica.server.log.isSet client patch.gsn = true ∧ patch.data = [] := by
  have rep := inv.tracks.rep
  have sorted := gsns_sorted contents.slots client inv.increasing
  have small : ∀ gsn ∈ gsns contents.slots client, gsn < uint64Max := by
    intro gsn member
    obtain ⟨slot, found, rfl⟩ := List.mem_map.mp member
    exact Nat.lt_of_lt_of_le (inv.below slot (List.mem_filter.mp found).1) inv.word
  have same : replica.server.patches patches = .ok replica.server := by
    rw [patches_filter replica.server client patches named, List.filter_eq_nil_iff.mpr]
    · rfl
    · intro item member
      have bound := small _ (slots item member)
      rw [none, decide_eq_true_iff]
      omega
  have empty (rank : Nat) : (contents.fills client).getD rank [] = [] := by
    cases inv.latest client with
    | inl nothing =>
        rw [List.getD_eq_getElem?_getD]
        cases access : (contents.fills client)[rank]? with
        | none => rfl
        | some data => exact nothing.2 data (List.mem_of_getElem? access)
    | inr value =>
        obtain ⟨rank, -, access⟩ := value
        have bound := small _ (List.mem_of_getElem? access)
        omega
  constructor
  · rintro ⟨next, ran, patched⟩ patch member
    rw [same] at ran
    cases ran
    obtain ⟨item, found, rfl⟩ := List.mem_map.mp member
    obtain ⟨rank, access⟩ := List.mem_iff_getElem?.mp (slots item found)
    obtain ⟨index, -, observed⟩ := rank_observed _ contents client rank item.1.gsn rep access
    have value := patched.filled item.1 member index _ observed rfl rfl
    simp only [Observation.mk.injEq] at value
    refine ⟨(is_set_iff _ contents client _ rep).mpr ⟨rank, of_decide_eq_true value.2.2.2.2, access⟩, ?_⟩
    exact value.2.2.2.1.symm.trans (empty rank)
  · intro bearable
    refine ⟨replica.server, same, ⟨rfl, ?_, ?_, fun _ _ observed _ => observed⟩⟩
    · rintro patch member index seen observed rfl matching
      obtain ⟨closed, nothing⟩ := bearable patch member
      obtain ⟨rank, bound, access⟩ := (is_set_iff _ contents _ _ rep).mp closed
      obtain ⟨place, -, there, value⟩ := observe_rank _ contents index seen rep observed
      have unique := sorted_unique _ place rank _ sorted there (matching ▸ access)
      subst unique
      rw [value, matching, nothing, empty]
      simp only [decide_eq_true bound]
    · rintro index before observed rfl open_ ⟨patch, member, less⟩ apart
      obtain ⟨closed, -⟩ := bearable patch member
      obtain ⟨rank, bound, access⟩ := (is_set_iff _ contents _ _ rep).mp closed
      obtain ⟨place, -, there, value⟩ := observe_rank _ contents index before rep observed
      have order := (sorted_rank _ place rank _ _ sorted there access).mpr less
      rw [value] at open_
      have outside := of_decide_eq_false open_
      omega

theorem sum_single {τ : Type} (values : List τ) (size : τ → Nat) (value : τ) (positive : ∀ other ∈ values, 1 ≤ size other)
    (member : value ∈ values) (all : (values.map size).sum ≤ size value) : values = [value] := by
  have empty (part : List τ) (inside : ∀ other ∈ part, 1 ≤ size other) (sum : (part.map size).sum = 0) : part = [] := by
    cases part with
    | nil => rfl
    | cons head tail =>
        have one := inside head List.mem_cons_self
        rw [List.map_cons, List.sum_cons] at sum
        omega
  obtain ⟨before, after, rfl⟩ := List.append_of_mem member
  rw [List.map_append, List.sum_append, List.map_cons, List.sum_cons] at all
  have left := empty before (fun other inside => positive other (List.mem_append_left _ inside)) (by omega)
  have right := empty after (fun other inside => positive other (List.mem_append_right _ (List.mem_cons_of_mem _ inside))) (by omega)
  rw [left, right, List.nil_append]

-- The position ends as far beyond the slots that were set as the GSNs add up to,
-- but the last slot that may be set has a rank of at most its GSN.
theorem missing_overshoot (replica : Survivor) (next : Server) (contents : Contents) (client : Nat)
    (missing : List (StorageClientPatch × Bytes)) (inv : replica.Inv contents) (named : ∀ item ∈ missing, item.1.clientId = client)
    (above : ∀ item ∈ missing, (replica.server.clientState client).latestGsn < item.1.gsn)
    (real : (replica.server.clientState client).latestGsn ≠ uint64Max) (ran : replica.server.patches missing = .ok next)
    (patched : replica.server.Patched next client (missing.map Prod.fst)) (nonempty : missing ≠ []) :
    ∃ item, missing = [item] ∧ (contents.fills client).length = 1 ∧ (gsns contents.slots client)[item.1.gsn]? = some item.1.gsn := by
  have sorted := gsns_sorted contents.slots client inv.increasing
  obtain ⟨pushed, after, length⟩ := patches_advance replica.server next contents client missing inv.tracks named above ran
  obtain ⟨known, inside, -⟩ := latest_real replica contents client inv real
  obtain ⟨first, rest, rfl⟩ := List.exists_cons_of_ne_nil nonempty
  have one := above first List.mem_cons_self
  rw [List.map_cons, List.sum_cons] at length
  have filled := after.rep.filled client
  rw [push_fills_same, List.length_append, push_slots, chain_length] at filled
  have bound : (contents.fills client).length + pushed.length - 1 < (gsns contents.slots client).length := by omega
  have access := List.getElem?_eq_getElem bound
  obtain ⟨index, here, before⟩ := rank_observed _ contents client _ _ inv.tracks.rep access
  obtain ⟨index', here', reached⟩ := rank_observed _ (contents.push client pushed) client _ _ after.rep access
  cases here.symm.trans here'
  rw [push_fills_same, List.length_append, decide_eq_true (show _ < _ by omega)] at reached
  rw [decide_eq_false (show ¬ _ < _ by omega)] at before
  have target : ∃ item ∈ first :: rest, (gsns contents.slots client)[(contents.fills client).length + pushed.length - 1] ≤ item.1.gsn := by
    by_contra later
    have same := patched.kept index _ before (fun _ => .inr (by
      intro patch member
      obtain ⟨item, found, rfl⟩ := List.mem_map.mp member
      exact Nat.lt_of_not_le (fun most => later ⟨item, found, most⟩)))
    rw [same] at reached
    cases congrArg Observation.set (Option.some.inj reached)
  obtain ⟨item, member, most⟩ := target
  have gap := sorted_gap _ 0 _ _ _ sorted (Nat.zero_le _) (List.getElem?_eq_getElem (Nat.lt_of_le_of_lt (Nat.zero_le _) bound)) access
  have alone := sum_single (first :: rest) (fun item => item.1.gsn) item
    (fun other found => Nat.lt_of_le_of_lt (Nat.zero_le _) (above other found)) member (by
      rw [List.map_cons, List.sum_cons]
      omega)
  obtain ⟨rfl, rfl⟩ := List.cons.inj alone
  rw [List.map_nil, List.sum_nil, Nat.add_zero] at length
  have single : (contents.fills client).length = 1 := by omega
  have place : (contents.fills client).length + pushed.length - 1 = first.1.gsn := by omega
  refine ⟨first, rfl, single, ?_⟩
  rw [← place, access]
  congr 1
  omega

theorem nothing_missing (server : Server) (client : Nat) : server.Patched server client [] := by
  refine ⟨rfl, ?_, ?_, fun _ _ observed _ => observed⟩
  · intro patch member
    cases member
  · intro _ _ _ _ _ between
    obtain ⟨patch, member, -⟩ := between
    cases member

theorem row_payload (fills : List Bytes) (data : Bytes) (gsn rank : Nat) (single : fills.length = 1) (positive : 1 ≤ gsn) :
    (fills ++ (List.replicate (gsn - 1) [] ++ [data])).getD rank [] = if rank = gsn then data else fills.getD rank [] := by
  cases Nat.eq_zero_or_pos rank with
  | inl start => rw [List.getD_append _ _ _ _ (by omega), if_neg (by omega)]
  | inr later =>
      rw [List.getD_append_right _ _ _ _ (by omega), single, List.getD_eq_default fills _ (by omega)]
      by_cases last : rank = gsn
      · rw [if_pos last, List.getD_append_right _ _ _ _ (by rw [List.length_replicate]; omega), List.length_replicate, last, Nat.sub_self]
        rfl
      · rw [if_neg last]
        cases Nat.lt_or_ge (rank - 1) (gsn - 1) with
        | inl less => rw [List.getD_append _ _ _ _ (by rw [List.length_replicate]; exact less), List.getD_replicate _ less]
        | inr beyond => exact List.getD_eq_default _ _ (by rw [List.length_append, List.length_replicate, List.length_singleton]; omega)

-- With GSN 0 set and the GSNs up to the patch in a row, as many slots are closed
-- as lie between.
theorem single_patch (replica : Survivor) (contents : Contents) (client : Nat) (item : StorageClientPatch × Bytes)
    (inv : replica.Inv contents) (named : item.1.clientId = client)
    (above : (replica.server.clientState client).latestGsn < item.1.gsn) (single : (contents.fills client).length = 1)
    (access : (gsns contents.slots client)[item.1.gsn]? = some item.1.gsn) :
    ∃ next, replica.server.patches [item] = .ok next ∧ replica.server.Patched next client [item.1] := by
  have sorted := gsns_sorted contents.slots client inv.increasing
  have row := (sorted_range _ item.1.gsn sorted).mpr access
  obtain ⟨last, there, -⟩ := rank_observed _ contents client _ _ inv.tracks.rep access
  have target : (chain contents.slots client)[(contents.fills client).length + item.1.gsn - 1]? = some last := by
    rw [single, Nat.add_sub_cancel_left]
    exact there
  obtain ⟨log, gsn, ran, -, -, -⟩ :=
    insert_represents replica.server.log contents client last ⟨item.1.data, item.2⟩ item.1.gsn inv.tracks.rep (by omega) target
  have handled : replica.server.storageClientPatch item.1 item.2 = .ok (replica.server.inserted client ⟨log, ptr last, gsn⟩) := by
    subst named
    simp only [Server.storageClientPatch, gt_iff_lt, if_pos above, inv.tracks.position, ran]
    rfl
  have tracks := patch_advances replica.server _ contents item.1 item.2 inv.tracks (named.symm ▸ above) handled
  rw [named] at tracks
  have count : ((contents.push client (List.replicate (item.1.gsn - 1) [] ++ [item.1.data])).fills client).length = item.1.gsn + 1 := by
    rw [push_fills_same, List.length_append, List.length_append, List.length_replicate, List.length_singleton, single]
    omega
  have payload (rank : Nat) : ((contents.push client (List.replicate (item.1.gsn - 1) [] ++ [item.1.data])).fills client).getD rank [] =
      if rank = item.1.gsn then item.1.data else (contents.fills client).getD rank [] := by
    rw [push_fills_same]
    exact row_payload _ _ _ _ single (by omega)
  refine ⟨_, by rw [patches_cons, handled]; rfl, ⟨?_, ?_, ?_, ?_⟩⟩
  · rw [inv.tracks.rep.count, tracks.rep.count]
    rfl
  · rintro patch member index seen observed rfl matching
    obtain ⟨place, -, found, value⟩ := observe_rank _ _ index seen tracks.rep observed
    rw [List.mem_singleton.mp member] at matching ⊢
    have same := sorted_unique _ place _ _ sorted found (matching ▸ access)
    rw [value, same, matching, payload, if_pos rfl, count, decide_eq_true (Nat.lt_succ_self _)]
  · rintro index before observed rfl open_ ⟨patch, member, less⟩ -
    obtain ⟨place, here, found, value⟩ := observe_rank _ _ index before inv.tracks.rep observed
    rw [List.mem_singleton.mp member] at less
    have order := (sorted_rank _ place _ _ _ sorted found access).mpr less
    rw [value] at open_
    have outside := of_decide_eq_false open_
    obtain ⟨index', here', after⟩ := rank_observed _ (contents.push before.clientId _) before.clientId place before.gsn tracks.rep found
    cases here.symm.trans here'
    rw [after, payload, if_neg (by omega), List.getD_eq_default _ _ (by omega), count, decide_eq_true (by omega)]
    rfl
  · intro index before observed kept
    obtain ⟨place, here, found, value⟩ := observe_rank _ _ index before inv.tracks.rep observed
    obtain ⟨index', here', after⟩ := rank_observed _ (contents.push client _) before.clientId place before.gsn tracks.rep found
    cases here.symm.trans here'
    rw [after, value]
    by_cases mine : before.clientId = client
    · rw [mine] at found value
      cases kept mine with
      | inl taken =>
          rw [value] at taken
          have inside := of_decide_eq_true taken
          have start : place = 0 := by omega
          simp only [mine, start, payload, if_neg (show ¬ 0 = item.1.gsn by omega), count, single]
          rfl
      | inr later =>
          have order := (sorted_rank _ item.1.gsn place _ _ sorted access found).mpr (later item.1 List.mem_cons_self)
          simp only [mine, payload, if_neg (show ¬ place = item.1.gsn by omega), count, single,
            decide_eq_false (show ¬ place < item.1.gsn + 1 by omega), decide_eq_false (show ¬ place < 1 by omega)]
    · simp only [push_fills_other _ _ _ _ mine]

-- What recovery needs of the patches holds of the code exactly when they are
-- patchable.
theorem patches_applied_iff (shardId replicaId : Nat) (events : List Arrival) (replica : Survivor)
    (ran : Machine.run Survivor.step (Survivor.init shardId replicaId) events = some replica) (clientId : Nat)
    (patches : List (StorageClientPatch × Bytes)) (named : ∀ item ∈ patches, item.1.clientId = clientId)
    (slots : ∀ item ∈ patches, item.1.gsn ∈ replica.server.log.clientGsns clientId) :
    (∃ next, replica.server.patches patches = .ok next ∧
      replica.server.Patched next clientId (replica.server.missing clientId patches)) ↔
      replica.server.Patchable clientId (replica.server.missing clientId patches) := by
  obtain ⟨contents, inv⟩ := run_survives shardId replicaId events replica ran
  have sorted := gsns_sorted contents.slots clientId inv.increasing
  rw [client_gsns_represents _ contents inv.tracks.rep] at slots
  by_cases none : (replica.server.clientState clientId).latestGsn = uint64Max
  · have all : replica.server.missing clientId patches = patches.map Prod.fst :=
      List.filter_eq_self.mpr (fun patch _ => decide_eq_true (.inl none))
    rw [Server.Patchable, if_pos none, all]
    exact nothing_received replica contents clientId patches inv named slots none
  · rw [Server.Patchable, if_neg none, client_gsns_represents _ contents inv.tracks.rep]
    have above : replica.server.missing clientId patches =
        (patches.filter (fun item => (replica.server.clientState clientId).latestGsn < item.1.gsn)).map Prod.fst := by
      simp only [Server.missing, List.filter_map, none, false_or]
      rfl
    have chosen := patches_filter replica.server clientId patches named
    rw [above, chosen]
    generalize taken : patches.filter (fun item => (replica.server.clientState clientId).latestGsn < item.1.gsn) = missing
    have mine : ∀ item ∈ missing, item.1.clientId = clientId := by
      rw [← taken]
      exact fun item member => named item (List.mem_filter.mp member).1
    have more : ∀ item ∈ missing, (replica.server.clientState clientId).latestGsn < item.1.gsn := by
      rw [← taken]
      exact fun item member => of_decide_eq_true (List.mem_filter.mp member).2
    obtain ⟨known, inside, value⟩ := latest_real replica contents clientId inv none
    have fresh (gsn : Nat) := is_set_iff replica.server.log contents clientId gsn inv.tracks.rep
    constructor
    · rintro ⟨next, done, patched⟩
      by_cases nonempty : missing = []
      · rw [nonempty]
        exact ⟨Nat.zero_le _, fun patch member => by cases member⟩
      · obtain ⟨item, rfl, single, access⟩ := missing_overshoot replica next contents clientId missing inv mine more none done patched nonempty
        have row := (sorted_range _ item.1.gsn sorted).mpr access
        have start : (gsns contents.slots clientId)[0]? = some 0 := by
          have head := congrArg (fun list => list[0]?) row
          simpa using head
        refine ⟨Nat.le_refl _, ?_⟩
        intro patch member
        rw [List.mem_singleton.mp member]
        refine ⟨?_, row⟩
        intro gsn _
        rw [fresh gsn]
        constructor
        · rintro ⟨rank, bound, there⟩
          obtain rfl : rank = 0 := by omega
          exact Option.some.inj (there.symm.trans start)
        · rintro rfl
          exact ⟨0, by omega, start⟩
    · rintro ⟨few, alone⟩
      rcases missing with _ | ⟨item, _ | ⟨_, _⟩⟩
      · exact ⟨replica.server, rfl, nothing_missing replica.server clientId⟩
      · obtain ⟨zero, row⟩ := alone item.1 List.mem_cons_self
        have access := (sorted_range _ item.1.gsn sorted).mp row
        refine single_patch replica contents clientId item inv (mine item List.mem_cons_self) (more item List.mem_cons_self) ?_ access
        have first := (zero _ (List.mem_of_getElem? value)).mp ((fresh _).mpr ⟨known, inside, value⟩)
        apply Nat.le_antisymm _ (Nat.lt_of_le_of_lt (Nat.zero_le _) inside)
        by_contra several
        have filled := inv.tracks.rep.filled clientId
        rw [chain_length] at filled
        have head := List.getElem?_eq_getElem (show 0 < (gsns contents.slots clientId).length by omega)
        have second := List.getElem?_eq_getElem (show 1 < (gsns contents.slots clientId).length by omega)
        have left := (zero _ (List.mem_of_getElem? head)).mp ((fresh _).mpr ⟨0, by omega, head⟩)
        have right := (zero _ (List.mem_of_getElem? second)).mp ((fresh _).mpr ⟨1, by omega, second⟩)
        have order := (sorted_rank _ 0 1 _ _ sorted head second).mp (by omega)
        omega
      · rw [List.map_cons, List.map_cons, List.length_cons, List.length_cons] at few
        omega

-- Client 1 fails with the slots of GSNs 0 to 3 and some of them filled here.
def failedAfter (inserts : List StorageInsert) : List Arrival :=
  [.addClient 1, .control (.slots ⟨0, [⟨1, 4⟩]⟩) []] ++ inserts.map (fun req => .insert req []) ++ [.control (.clientFreeze 1) []]

theorem patches_applied_after_gsn_zero : ∃ replica,
    Machine.run Survivor.step (Survivor.init 0 0) (failedAfter [⟨1, 1, [7]⟩]) = some replica ∧
    ∃ next, replica.server.patches [(⟨1, 2, [9]⟩, [])] = .ok next ∧
      replica.server.Patched next 1 (replica.server.missing 1 [(⟨1, 2, [9]⟩, [])]) := by
  have outcome : (Machine.run Survivor.step (Survivor.init 0 0) (failedAfter [⟨1, 1, [7]⟩])).map (fun replica =>
      decide (2 ∈ replica.server.log.clientGsns 1 ∧ replica.server.Patchable 1 (replica.server.missing 1 [(⟨1, 2, [9]⟩, [])]))) =
      some true := by decide +kernel
  obtain ⟨replica, ran, value⟩ := Option.map_eq_some_iff.mp outcome
  obtain ⟨slot, patchable⟩ := of_decide_eq_true value
  exact ⟨replica, ran, (patches_applied_iff 0 0 _ replica ran 1 [(⟨1, 2, [9]⟩, [])] (fun item member => by cases List.mem_singleton.mp member; rfl)
    (fun item member => by cases List.mem_singleton.mp member; exact slot)).mpr patchable⟩

theorem done_of_some (outcome : Except Fault Server) (next : Server) (done : outcome.toOption = some next) : outcome = .ok next := by
  cases outcome with
  | error fault => cases done
  | ok server =>
      cases done
      rfl

-- With GSNs 0 and 1 here the payload of GSN 2 lands on GSN 3; without any it is
-- dropped.
theorem patches_misapplied :
    (∃ replica next, Machine.run Survivor.step (Survivor.init 0 0) (failedAfter [⟨1, 1, [7]⟩, ⟨1, 1, [8]⟩]) = some replica ∧
      replica.server.patches [(⟨1, 2, [9]⟩, [])] = .ok next ∧ next.log.observe 2 = some ⟨2, 1, 0, [], true⟩ ∧
      next.log.observe 3 = some ⟨3, 1, 1, [9], true⟩ ∧
      ¬ replica.server.Patched next 1 (replica.server.missing 1 [(⟨1, 2, [9]⟩, [])])) ∧
    (∃ replica next, Machine.run Survivor.step (Survivor.init 0 0) (failedAfter []) = some replica ∧
      replica.server.patches [(⟨1, 2, [9]⟩, [])] = .ok next ∧ next.log.observe 2 = some ⟨2, 1, 0, [], false⟩ ∧
      ¬ replica.server.Patched next 1 (replica.server.missing 1 [(⟨1, 2, [9]⟩, [])])) := by
  constructor
  · have outcome : (Machine.run Survivor.step (Survivor.init 0 0) (failedAfter [⟨1, 1, [7]⟩, ⟨1, 1, [8]⟩])).bind (fun replica =>
        (replica.server.patches [(⟨1, 2, [9]⟩, [])]).toOption.map (fun next =>
          (replica.server.missing 1 [(⟨1, 2, [9]⟩, [])], next.log.observe 2, next.log.observe 3))) =
        some ([⟨1, 2, [9]⟩], some ⟨2, 1, 0, [], true⟩, some ⟨3, 1, 1, [9], true⟩) := by decide +kernel
    obtain ⟨replica, ran, value⟩ := Option.bind_eq_some_iff.mp outcome
    obtain ⟨next, done, value⟩ := Option.map_eq_some_iff.mp value
    simp only [Prod.mk.injEq] at value
    obtain ⟨missing, second, third⟩ := value
    refine ⟨replica, next, ran, done_of_some _ _ done, second, third, ?_⟩
    intro patched
    have filled := patched.filled ⟨1, 2, [9]⟩ (missing ▸ List.mem_cons_self) 2 _ second rfl rfl
    cases congrArg Observation.dataLength filled
  · have outcome : (Machine.run Survivor.step (Survivor.init 0 0) (failedAfter [])).bind (fun replica =>
        (replica.server.patches [(⟨1, 2, [9]⟩, [])]).toOption.map (fun next =>
          (replica.server.missing 1 [(⟨1, 2, [9]⟩, [])], next.log.observe 2))) =
        some ([⟨1, 2, [9]⟩], some ⟨2, 1, 0, [], false⟩) := by decide +kernel
    obtain ⟨replica, ran, value⟩ := Option.bind_eq_some_iff.mp outcome
    obtain ⟨next, done, value⟩ := Option.map_eq_some_iff.mp value
    simp only [Prod.mk.injEq] at value
    obtain ⟨missing, second⟩ := value
    refine ⟨replica, next, ran, done_of_some _ _ done, second, ?_⟩
    intro patched
    have filled := patched.filled ⟨1, 2, [9]⟩ (missing ▸ List.mem_cons_self) 2 _ second rfl rfl
    cases congrArg Observation.dataLength filled

end ZipLog.Storage
