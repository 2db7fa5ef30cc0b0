import ZipLog.Storage.Linear

set_option autoImplicit false

namespace ZipLog.Storage

-- The entries of all blocks in the order of ~log, and those whose data it frees.
def Log.entries (log : Log) : List Entry := log.blocks.flatMap (fun block => (List.range numEntriesPerBlock).map block)

def Log.freed (log : Log) : List Entry := log.entries.filter (fun entry => 8 < entry.dataLength)

-- What alloc_copy allocates, with the client whose entry it is for.
def copied (clientId : Nat) (data : Bytes) : List (Nat × Bytes) := if 8 < data.length then [(clientId, data)] else []

def Job.copies (server : Server) : Job → List (Nat × Bytes)
  | .insert req _ => if (server.clientState req.clientId).disconnected then [] else copied req.clientId req.data
  | .control (.clientPatch data) _ =>
      if data.gsn > (server.clientState data.clientId).latestGsn then copied data.clientId data.data else []
  | _ => []

def Served.copies (s : Served) : List (Nat × Job) → List (Nat × Bytes)
  | [] => []
  | job :: jobs => job.2.copies s.server ++ (s.step job).elim [] (fun next => next.copies jobs)

def copiesOf (copies : List (Nat × Bytes)) (client : Nat) : List Bytes :=
  (copies.filter (fun copy => copy.1 = client)).map Prod.snd

def long (data : Bytes) : Bool := 8 < data.length

theorem copies_of_append (first second : List (Nat × Bytes)) (client : Nat) :
    copiesOf (first ++ second) client = copiesOf first client ++ copiesOf second client := by
  rw [copiesOf, List.filter_append, List.map_append]
  rfl

theorem copied_long (clientId client : Nat) (data : Bytes) :
    copiesOf (copied clientId data) client = if client = clientId then [data].filter long else [] := by
  unfold copied long
  by_cases large : 8 < data.length
  · by_cases mine : client = clientId
    · simp [copiesOf, large, mine]
    · simp [copiesOf, large, mine, Ne.symm mine]
  · simp [copiesOf, large]

theorem copies_snoc (s final next : Served) (jobs : List (Nat × Job)) (job : Nat × Job) (ran : Machine.run Served.step s jobs = some final)
    (stepped : final.step job = some next) : s.copies (jobs ++ [job]) = s.copies jobs ++ job.2.copies final.server := by
  induction jobs generalizing s with
  | nil =>
      cases ran
      simp [Served.copies, stepped]
  | cons first jobs ih =>
      rw [← List.singleton_append] at ran
      obtain ⟨mid, once, rest⟩ := Machine.run_append_some ran
      have taken : s.step first = some mid := by simpa [Machine.run] using once
      rw [List.cons_append, Served.copies, Served.copies, taken, Option.elim_some, Option.elim_some, ih mid rest, List.append_assoc]

-- Going through the blocks is going through the log indices.
theorem blocks_range (blocks : List Block) (size : Nat) (positive : 0 < size) :
    blocks.flatMap (fun block => (List.range size).map block) =
      (List.range (blocks.length * size)).map (fun index => (blocks[index / size]?.map (fun block => block (index % size))).getD Entry.zero) := by
  induction blocks using List.reverseRecOn with
  | nil => simp
  | append_singleton blocks last ih =>
      rw [List.flatMap_append, ih, List.length_append, List.length_singleton, Nat.add_mul, Nat.one_mul, List.range_add, List.map_append,
        List.map_map]
      congr 1
      · apply List.map_congr_left
        intro index member
        have inside := Nat.div_lt_of_lt_mul (Nat.mul_comm blocks.length size ▸ List.mem_range.mp member)
        rw [List.getElem?_append_left inside]
      · rw [List.flatMap_singleton]
        apply List.map_congr_left
        intro slot member
        have small := List.mem_range.mp member
        simp [Nat.mul_comm blocks.length size, Nat.mul_add_div positive, Nat.div_eq_of_lt small, Nat.mod_eq_of_lt small]

def Log.at (log : Log) (index : Nat) : Entry := (log.read (ptr index)).getD Entry.zero

theorem entries_range (log : Log) : log.entries = (List.range (log.blocks.length * numEntriesPerBlock)).map log.at :=
  blocks_range log.blocks numEntriesPerBlock entries_per_block_pos

-- What lies behind the slots holds nothing.
theorem freed_range (log : Log) (contents : Contents) (rep : Represents log contents) :
    log.freed = ((List.range contents.slots.length).map log.at).filter (fun entry => 8 < entry.dataLength) := by
  have bound : contents.slots.length + (numEntriesPerBlock - log.entry) = log.blocks.length * numEntriesPerBlock := by
    rw [rep.size, rep.blocks, Nat.add_mul, Nat.one_mul, Nat.add_assoc, Nat.add_sub_cancel' rep.entry]
  have spare : ((List.range (numEntriesPerBlock - log.entry)).map (fun more => log.at (contents.slots.length + more))).filter
      (fun entry => 8 < entry.dataLength) = [] := by
    rw [List.filter_eq_nil_iff]
    intro entry member
    obtain ⟨more, small, rfl⟩ := List.mem_map.mp member
    have inside := List.mem_range.mp small
    have here : ptr (contents.slots.length + more) = ⟨log.block, log.entry + more⟩ := by
      rw [rep.size, Nat.add_assoc]
      exact ptr_mul_add log.block (log.entry + more) (by omega)
    rw [Log.at, here, rep.spare (log.entry + more) (by omega) (by omega)]
    decide
  rw [Log.freed, entries_range, ← bound, List.range_add, List.map_append, List.map_map, List.filter_append]
  exact (congrArg (_ ++ ·) spare).trans (List.append_nil _)

theorem slot_entry (log : Log) (contents : Contents) (rep : Represents log contents) (index gsn client : Nat)
    (slot : contents.slots[index]? = some (gsn, client)) :
    ∃ rank, (chain contents.slots client)[rank]? = some index ∧ Cell contents client rank index (log.at index) := by
  obtain ⟨rank, access⟩ := chain_rank_exists contents.slots index gsn client slot
  obtain ⟨entry, there, cell⟩ := rep.cells client rank index access
  refine ⟨rank, access, ?_⟩
  rw [Log.at, there]
  exact cell

-- A client's entries one after the other hold what it has filled its slots with.
theorem chain_payloads (log : Log) (contents : Contents) (rep : Represents log contents) (client : Nat) :
    (chain contents.slots client).map (fun index => (log.at index).payload) = contents.fills client ++
      List.replicate ((chain contents.slots client).length - (contents.fills client).length) [] := by
  have filled := rep.filled client
  apply List.ext_getElem
  · simp only [List.length_map, List.length_append, List.length_replicate]
    omega
  · intro rank inside _
    rw [List.length_map] at inside
    obtain ⟨entry, there, cell⟩ := rep.cells client rank _ (List.getElem?_eq_getElem inside)
    rw [List.getElem_map, Log.at, there, Option.getD_some, cell.payload, List.getElem_append]
    split
    · rename_i less
      exact List.getD_eq_getElem _ _ less
    · rename_i more
      rw [List.getElem_replicate, List.getD_eq_default _ _ (Nat.le_of_not_lt more)]

-- Closed slots hold nothing.
theorem closed_long (count : Nat) : (List.replicate count ([] : Bytes)).filter long = [] := by
  rw [List.filter_eq_nil_iff]
  intro data member
  rw [List.eq_of_mem_replicate member]
  decide

theorem freed_client (log : Log) (contents : Contents) (rep : Represents log contents) (client : Nat) :
    (log.freed.filter (fun entry => entry.clientId = client)).map Entry.payload = (contents.fills client).filter long := by
  have payloads := congrArg (List.filter long) (chain_payloads log contents rep client)
  rw [List.filter_append, closed_long, List.append_nil, List.filter_map, chain_filter] at payloads
  rw [← payloads, freed_range log contents rep, List.filter_map, List.filter_map, List.map_map, List.filter_filter, List.filter_filter]
  congr 1
  apply List.filter_congr
  intro index member
  obtain ⟨⟨gsn, owner⟩, slot⟩ : ∃ slot, contents.slots[index]? = some slot := ⟨_, List.getElem?_eq_getElem (List.mem_range.mp member)⟩
  obtain ⟨rank, _, cell⟩ := slot_entry log contents rep index gsn owner slot
  have size : (log.at index).dataLength = (log.at index).payload.length := by rw [cell.length, cell.payload]
  simp only [Function.comp_apply, cell.owner, slot, size, long, Option.map_some, beq_eq_decide, Option.some.injEq, Bool.and_comm]

-- What is freed is a copy, not a word of inline data.
theorem freed_pointer (log : Log) (contents : Contents) (rep : Represents log contents) (entry : Entry) (member : entry ∈ log.freed) :
    ∃ bytes, entry.data = .pointer bytes := by
  rw [freed_range log contents rep] at member
  obtain ⟨there, large⟩ := List.mem_filter.mp member
  obtain ⟨index, inside, rfl⟩ := List.mem_map.mp there
  obtain ⟨⟨gsn, owner⟩, slot⟩ : ∃ slot, contents.slots[index]? = some slot := ⟨_, List.getElem?_eq_getElem (List.mem_range.mp inside)⟩
  obtain ⟨rank, _, cell⟩ := slot_entry log contents rep index gsn owner slot
  have size : (log.at index).dataLength = (log.at index).payload.length := by rw [cell.length, cell.payload]
  have large := of_decide_eq_true large
  rw [Entry.payload] at size
  cases data : (log.at index).data with
  | pointer bytes => exact ⟨bytes, rfl⟩
  | inline bytes =>
      rw [data] at size
      dsimp only at size
      rw [if_pos large] at size
      rw [size] at large
      cases large

-- A log that is inserted into moves on by one payload and the slots it closes. A
-- number of slots of zero wraps.
theorem insert_pushes_payload (log : Log) (contents : Contents) (client : Nat) (buffer : Buffer) (close : Nat) (result : Inserted)
    (rep : Represents log contents) (ran : log.insert client ((contents.cursor client).map ptr) buffer close = .ok result) :
    ∃ count, Represents result.log (contents.push client (List.replicate count [] ++ [buffer.data])) ∧
      some result.current = ((contents.push client (List.replicate count [] ++ [buffer.data])).cursor client).map ptr ∧
      ∃ index : Nat, contents.slots[index]? = some (result.gsn, client) := by
  obtain ⟨slots, positive, same⟩ : ∃ slots, 1 ≤ slots ∧ log.insert client ((contents.cursor client).map ptr) buffer slots = .ok result := by
    by_cases zero : close = 0
    · refine ⟨2 ^ 64, by decide, ?_⟩
      rw [← ran, zero]
      rfl
    · exact ⟨close, Nat.pos_of_ne_zero zero, ran⟩
  obtain ⟨last, there, current, slot, pushed, _⟩ := insert_ok log contents client buffer slots result rep positive same
  refine ⟨slots - 1, pushed, ?_, last, slot⟩
  rw [cursor_push _ _ _ (List.concat_ne_nil _ _), List.length_append, List.length_replicate, List.length_singleton, Nat.sub_add_cancel positive,
    there, current]
  rfl

theorem push_long (contents : Contents) (client other count : Nat) (data : Bytes) :
    ((contents.push client (List.replicate count [] ++ [data])).fills other).filter long =
      (contents.fills other).filter long ++ copiesOf (copied client data) other := by
  rw [copied_long]
  by_cases mine : other = client
  · subst mine
    rw [if_pos rfl, push_fills_same, List.filter_append, List.filter_append, closed_long, List.nil_append]
  · rw [if_neg mine, push_fills_other _ _ _ _ mine, List.append_nil]

theorem seal_long (contents : Contents) (client other : Nat) :
    ((contents.seal client).fills other).filter long = (contents.fills other).filter long := by
  rw [Contents.seal]
  by_cases mine : other = client
  · rw [mine, push_fills_same, List.filter_append, closed_long, List.append_nil]
  · rw [push_fills_other _ _ _ _ mine]

-- One job allocates the copies that its entries keep.
theorem job_long (job : Job) (server : Server) (contents : Contents) (tracks : server.Tracks contents) (result : Server × List Reply)
    (ran : job.run server = .ok result) : ∃ later, result.1.Tracks later ∧
      ∀ client, (later.fills client).filter long = (contents.fills client).filter long ++ copiesOf (job.copies server) client := by
  have same : ∀ next : Server, next.Tracks contents → job.copies server = [] → ∃ later, next.Tracks later ∧
      ∀ client, (later.fills client).filter long = (contents.fills client).filter long ++ copiesOf (job.copies server) client := by
    intro next still none
    rw [none]
    exact ⟨contents, still, fun client => (List.append_nil _).symm⟩
  cases job with
  | addClient clientId =>
      cases ran
      exact same _ (add_client_tracks server contents clientId tracks) rfl
  | suspected clientId =>
      cases ran
      exact same _ (disconnect_tracks server contents clientId tracks) rfl
  | control message beyond =>
      obtain ⟨handled, control, rfl⟩ := except_map_ok ran
      cases message with
      | slots slots =>
          cases control
          exact ⟨_, storage_slots_tracks server contents slots tracks, fun client => (List.append_nil _).symm⟩
      | clientFreeze clientId =>
          cases control
          exact same _ (disconnect_tracks server contents clientId tracks) rfl
      | clientCut req =>
          obtain ⟨data, _, done⟩ := except_bind_ok control
          cases done
          exact same _ tracks rfl
      | clientPatch data =>
          obtain ⟨next, patched, done⟩ := except_bind_ok control
          cases done
          unfold Server.storageClientPatch at patched
          dsimp only at patched
          by_cases fresh : data.gsn > (server.clientState data.clientId).latestGsn
          · rw [if_pos fresh, tracks.position] at patched
            obtain ⟨inserted, insert, done⟩ := except_bind_ok patched
            cases done
            obtain ⟨count, rep, here, _⟩ := insert_pushes_payload server.log contents data.clientId ⟨data.data, beyond⟩ data.gsn inserted tracks.rep insert
            refine ⟨_, pushed_tracks server contents data.clientId _ inserted.log _ tracks rep here, fun client => ?_⟩
            rw [Job.copies, if_pos fresh]
            exact push_long contents data.clientId client count data.data
          · rw [if_neg fresh] at patched
            cases patched
            exact same _ tracks (if_neg fresh)
      | clientFinalize clientId =>
          obtain ⟨next, finalized, done⟩ := except_bind_ok control
          cases done
          obtain ⟨log, position, closed, sealed, _⟩ := storage_client_finalize_tracks server contents clientId tracks
          rw [closed] at finalized
          cases finalized
          exact ⟨_, sealed, fun client => (seal_long contents clientId client).trans (List.append_nil _).symm⟩
  | insert req beyond =>
      obtain ⟨inserted, insert, rfl⟩ := except_map_ok ran
      unfold Server.storageInsert at insert
      dsimp only at insert
      cases gone : (server.clientState req.clientId).disconnected with
      | true =>
          rw [gone, if_pos rfl] at insert
          cases insert
          exact same _ tracks (if_pos gone)
      | false =>
          rw [gone, if_neg Bool.false_ne_true, tracks.position] at insert
          obtain ⟨moved, stored, done⟩ := except_bind_ok insert
          cases done
          obtain ⟨count, rep, here, _⟩ := insert_pushes_payload server.log contents req.clientId ⟨req.data, beyond⟩ req.numSlots moved tracks.rep stored
          refine ⟨_, pushed_tracks server contents req.clientId _ moved.log _ tracks rep here, fun client => ?_⟩
          rw [Job.copies, gone, if_neg Bool.false_ne_true]
          exact push_long contents req.clientId client count req.data
  | clientFinished clientId =>
      cases ran
      simp only [Server.clientFinished]
      split
      · exact same _ tracks rfl
      · exact same _ (disconnect_tracks server contents clientId tracks) rfl

theorem served_long (shardId replicaId : Nat) (jobs : List (Nat × Job)) (final : Served)
    (ran : Machine.run Served.step (Served.init shardId replicaId) jobs = some final) : ∃ contents, final.server.Tracks contents ∧
      ∀ client, (contents.fills client).filter long = copiesOf ((Served.init shardId replicaId).copies jobs) client := by
  induction jobs using List.reverseRecOn generalizing final with
  | nil =>
      cases ran
      exact ⟨Contents.empty, init_tracks shardId replicaId, fun client => rfl⟩
  | append_singleton jobs job ih =>
      obtain ⟨s, earlier, stepped⟩ := Machine.run_snoc_some ran
      obtain ⟨contents, tracks, fills⟩ := ih s earlier
      rw [copies_snoc _ s final jobs job earlier stepped]
      obtain ⟨_, stepped⟩ := Option.ite_none_left_eq_some.mp stepped
      split at stepped
      · cases stepped
      · rename_i server replies done
        cases stepped
        obtain ⟨later, still, grown⟩ := job_long job.2 s.server contents tracks (server, replies) done
        refine ⟨later, still, fun client => ?_⟩
        rw [grown, fills, copies_of_append]

theorem perm_by_client (first second : List (Nat × Bytes)) (same : ∀ client, copiesOf first client = copiesOf second client) :
    first.Perm second := by
  have count : ∀ (copies : List (Nat × Bytes)) (client : Nat) (data : Bytes), copies.count (client, data) = (copiesOf copies client).count data := by
    intro copies client data
    induction copies with
    | nil => rfl
    | cons copy copies ih =>
        obtain ⟨owner, bytes⟩ := copy
        rw [List.count_cons, ih, copiesOf]
        by_cases mine : owner = client
        · simp [mine, copiesOf, List.count_cons]
        · simp [mine, copiesOf]
  rw [List.perm_iff_count]
  rintro ⟨client, data⟩
  rw [count, count, same client]

-- The main result on the payloads. Whatever the threads have done, ~log frees the
-- copies that alloc_copy has made, each once, and nothing else.
theorem payloads_freed (shardId replicaId : Nat) (steps : List ThreadStep) (s : Threads)
    (ran : Machine.run Threads.step (Threads.init shardId replicaId) steps = some s) :
    (∀ entry ∈ s.log.freed, ∃ bytes, entry.data = .pointer bytes) ∧
    (s.log.freed.map (fun entry => (entry.clientId, entry.payload))).Perm ((Served.init shardId replicaId).copies s.finished) ∧
    ∀ client, (s.log.freed.filter (fun entry => entry.clientId = client)).map Entry.payload =
      copiesOf ((Served.init shardId replicaId).copies s.finished) client := by
  have served := (threads_inv shardId replicaId steps s ran).served
  obtain ⟨contents, tracks, fills⟩ := served_long shardId replicaId s.finished _ served
  have clients : ∀ client, (s.log.freed.filter (fun entry => entry.clientId = client)).map Entry.payload =
      copiesOf ((Served.init shardId replicaId).copies s.finished) client := by
    intro client
    rw [← fills client]
    exact freed_client s.log contents tracks.rep client
  refine ⟨freed_pointer s.log contents tracks.rep, perm_by_client _ _ ?_, clients⟩
  intro client
  rw [← clients client, copiesOf, List.filter_map, List.map_map]
  rfl

-- One payload of nine bytes and one that the entry holds itself.
def twoInserts : List ThreadStep :=
  [.start 0 (.control (.slots ⟨100, [⟨7, 4⟩]⟩) []), .start 1 (.addClient 7), .exchange 1 false, .enter 1 none,
    .start 2 (.insert ⟨7, 2, [1, 2, 3, 4, 5, 6, 7, 8, 9]⟩ []), .enter 2 none, .start 2 (.insert ⟨7, 1, [1, 2, 3]⟩ []), .enter 2 none]

theorem payloads_freed_two_inserts : ∃ s, Machine.run Threads.step (Threads.init 0 3) twoInserts = some s ∧
    s.log.freed.map (fun entry => (entry.clientId, entry.payload)) = [(7, [1, 2, 3, 4, 5, 6, 7, 8, 9])] := by
  have enabled : (Machine.run Threads.step (Threads.init 0 3) twoInserts).map (fun s =>
      decide ((Served.init 0 3).copies s.finished = [(7, [1, 2, 3, 4, 5, 6, 7, 8, 9])])) = some true := by
    decide +kernel
  obtain ⟨s, ran, seen⟩ := Option.map_eq_some_iff.mp enabled
  obtain ⟨_, freed, _⟩ := payloads_freed 0 3 twoInserts s ran
  rw [of_decide_eq_true seen, List.perm_singleton] at freed
  exact ⟨s, ran, freed⟩

end ZipLog.Storage
