import Mathlib.Data.List.Chain
import ZipLog.Storage.Delivery

set_option autoImplicit false

namespace ZipLog.Storage

-- The entries that the loops of insert, patch and close go to, in this order.
def Log.slotsVisited : Nat → Log → Ptr → List Ptr
  | 0, _, current => [current]
  | count + 1, log, current =>
      let log := log.modify current Entry.close
      match log.follow current with
      | none => [current]
      | some next => current :: Log.slotsVisited count log next

def Log.belowVisited (gsn : Nat) : Nat → Log → Ptr → List Ptr
  | 0, _, current => [current]
  | fuel + 1, log, current =>
      match log.read current with
      | none => [current]
      | some entry =>
          if entry.gsn < gsn then
            let log := log.modify current Entry.close
            match log.follow current with
            | none => [current]
            | some next => current :: Log.belowVisited gsn fuel log next
          else [current]

def Log.restVisited : Nat → Log → Ptr → List Ptr
  | 0, _, _ => []
  | fuel + 1, log, current =>
      match log.follow current with
      | none => []
      | some next => next :: Log.restVisited fuel (log.modify next Entry.close) next

def Log.insertVisits (log : Log) (clientId : Nat) (current : Option Ptr) (close : Nat) : List Ptr :=
  match log.seek clientId current with
  | none => []
  | some first => log.slotsVisited (decrement close) first

def Log.patchVisits (log : Log) (clientId : Nat) (current : Option Ptr) (gsn : Nat) : List Ptr :=
  match log.seek clientId current with
  | none => []
  | some first => Log.belowVisited gsn log.currentEntries log first

def Log.closeVisits (log : Log) (clientId : Nat) (current : Option Ptr) : List Ptr :=
  match current, log.firstEntry clientId with
  | some here, _ => log.restVisited log.currentEntries here
  | none, some first => first :: (log.modify first Entry.close).restVisited log.currentEntries first
  | none, none => []

def pairs (visited : List Ptr) : List (Ptr × Ptr) := visited.zip visited.tail

-- The log in memory that holds anything. marked are the entries that insert, patch and
-- close have set, links the next pointers that add_entries has written, followed those
-- that the positions have gone along, returned the results of next_entry. A failed
-- assertion or a bad access ends the process.
structure Traced where
  log : Log
  positions : Nat → Option Ptr
  adding : Option (List Assignment × Nat)
  iterators : Nat → Iterator
  marked : List Ptr
  links : List (Ptr × Ptr)
  followed : List (Ptr × Ptr)
  returned : List Ptr
  ended : Bool

def Traced.init (memory : Memory) (threads : Nat) : Traced :=
  ⟨Log.init memory, fun _ => none, none, fun index => Iterator.init index threads, [], [], [], [], false⟩

def Traced.visit (s : Traced) (clientId : Nat) (visited : List Ptr) : Traced :=
  { s with followed := s.followed ++ pairs ((s.positions clientId).toList ++ visited) }

def Traced.arrive (s : Traced) (clientId : Nat) (log : Log) (current : Option Ptr) (visited : List Ptr) : Traced :=
  { s with log := log, positions := Function.update s.positions clientId current, marked := s.marked ++ visited }

def newLink (memory : Memory) (log : Log) (clientId : Nat) : List (Ptr × Ptr) :=
  if clientId = uint64Max then []
  else (log.lastEntry clientId).toList.map (fun last => (last, ⟨(log.grow memory).block, (log.grow memory).entry⟩))

def Traced.call (memory : Memory) (s : Traced) : Call → Option Traced
  | .beginEntries slots =>
      if s.adding = none then some { s with adding := some (schedule slots.assignments, slots.startGsn) } else none
  | .yield =>
      match s.adding with
      | some (assignment :: order, gsn) =>
          let result := yieldSlot memory assignment (s.log, gsn)
          some { s with log := result.1, adding := some (order, result.2), links := s.links ++ newLink memory s.log assignment.clientId }
      | _ => none
  | .publish =>
      match s.adding with
      | some ([], _) => some { s with log := { s.log with numEntries := s.log.currentEntries }, adding := none }
      | _ => none
  | .insert clientId buffer close =>
      let visited := s.log.insertVisits clientId (s.positions clientId) close
      match s.log.insert clientId (s.positions clientId) buffer close with
      | .error _ => some { s.visit clientId visited with ended := true }
      | .ok inserted => some ((s.visit clientId visited).arrive clientId inserted.log (some inserted.current) visited)
  | .patch clientId buffer gsn =>
      let visited := s.log.patchVisits clientId (s.positions clientId) gsn
      match s.log.patch clientId (s.positions clientId) buffer gsn with
      | .error _ => some { s.visit clientId visited with ended := true }
      | .ok inserted => some ((s.visit clientId visited).arrive clientId inserted.log (some inserted.current) visited)
  | .close clientId =>
      let visited := s.log.closeVisits clientId (s.positions clientId)
      match s.log.close clientId (s.positions clientId) with
      | .error _ => some { s.visit clientId visited with ended := true }
      | .ok (log, current) => some ((s.visit clientId visited).arrive clientId log current visited)
  | .nextEntry index =>
      match (s.iterators index).nextEntry s.log with
      | .error _ => some { s with ended := true }
      | .ok (moved, found) => some { s with
          iterators := Function.update s.iterators index moved
          returned := s.returned ++ (found.bind (fun _ => (s.iterators index).considered s.log)).toList }

def Traced.step (memory : Memory) (s : Traced) (call : Call) : Option Traced :=
  if s.ended = true then none else s.call memory call

structure Traced.Backed (s : Traced) : Prop where
  set : ∀ here ∈ s.returned, here ∈ s.marked
  linked : ∀ link ∈ s.followed, link ∈ s.links

-- What the log reads of a page before it writes to it.
def Blank (block : Block) : Prop := ∀ slot, slot < numEntriesPerBlock → (block slot).set = false ∧ (block slot).next = none

-- What a walk of a position has written.
structure Marks (log next : Log) (visited : List Ptr) : Prop where
  reads : ∀ here entry, next.read here = some entry → ∃ before, log.read here = some before ∧ entry.next = before.next ∧
    (entry.set = true → before.set = true ∨ here ∈ visited)
  first : next.firstEntry = log.firstEntry
  last : next.lastEntry = log.lastEntry

theorem marks_refl (log : Log) (visited : List Ptr) : Marks log log visited :=
  ⟨fun _ entry read => ⟨entry, read, rfl, Or.inl⟩, rfl, rfl⟩

theorem marks_modify (log : Log) (here : Ptr) (change : Entry → Entry) (kept : ∀ e, (change e).next = e.next) :
    Marks log (log.modify here change) [here] := by
  refine ⟨?_, rfl, rfl⟩
  intro other entry read
  by_cases same : here = other
  · subst same
    rw [read_modify_same] at read
    obtain ⟨before, found, rfl⟩ := Option.map_eq_some_iff.mp read
    exact ⟨before, found, kept before, fun _ => Or.inr List.mem_cons_self⟩
  · rw [read_modify_other log here other change same] at read
    exact ⟨entry, read, rfl, Or.inl⟩

theorem marks_trans (first second third : Log) (left right all : List Ptr) (before : Marks first second left)
    (after : Marks second third right) (inLeft : ∀ here ∈ left, here ∈ all) (inRight : ∀ here ∈ right, here ∈ all) :
    Marks first third all := by
  refine ⟨?_, after.first.trans before.first, after.last.trans before.last⟩
  intro here entry read
  obtain ⟨middle, readMiddle, nextMiddle, setMiddle⟩ := after.reads here entry read
  obtain ⟨start, readStart, nextStart, setStart⟩ := before.reads here middle readMiddle
  refine ⟨start, readStart, nextMiddle.trans nextStart, ?_⟩
  intro set
  obtain old | new := setMiddle set
  · exact (setStart old).imp_right (inLeft here)
  · exact Or.inr (inRight here new)

theorem follow_close (log : Log) (here other : Ptr) : (log.modify here Entry.close).follow other = log.follow other := by
  unfold Log.follow
  rw [read_modify]
  split
  · cases log.read other with
    | none => rfl
    | some entry => rfl
  · rfl

theorem follow_congr (first second : Log) (same : ∀ other, first.follow other = second.follow other) :
    (fun here other => first.follow here = some other) = (fun here other => second.follow here = some other) := by
  funext here other
  rw [same]

theorem chain_visit (log : Log) (current after : Ptr) (visited : List Ptr) (followed : log.follow current = some after)
    (head : visited.head? = some after) (chain : visited.IsChain (fun here other => log.follow here = some other)) :
    (current :: visited).IsChain (fun here other => log.follow here = some other) := by
  rw [List.isChain_cons]
  refine ⟨?_, chain⟩
  intro other first
  rw [head] at first
  rw [followed, Option.mem_some_iff.mp first]

theorem marks_close (log next : Log) (current : Ptr) (visited : List Ptr) (marks : Marks (log.modify current Entry.close) next visited) :
    Marks log next (current :: visited) :=
  marks_trans log _ next [current] visited _ (marks_modify log current Entry.close (fun _ => rfl)) marks
    (fun _ only => List.mem_singleton.mp only ▸ List.mem_cons_self) (fun _ later => List.mem_cons_of_mem _ later)

-- insert: the entries are linked, and the last one is where it stores the request.
theorem slots_visited (count : Nat) (log : Log) (current : Ptr) :
    (log.slotsVisited count current).IsChain (fun here other => log.follow here = some other) ∧
      (log.slotsVisited count current).head? = some current ∧
      ∀ next last, log.closeSlots count current = .ok (next, last) →
        last ∈ log.slotsVisited count current ∧ Marks log next (log.slotsVisited count current) := by
  induction count generalizing log current with
  | zero =>
      refine ⟨List.isChain_singleton _, rfl, ?_⟩
      intro next last ran
      cases ran
      exact ⟨List.mem_cons_self, marks_refl log _⟩
  | succ count ih =>
      unfold Log.slotsVisited Log.closeSlots
      dsimp only
      cases followed : (log.modify current Entry.close).follow current with
      | none => exact ⟨List.isChain_singleton _, rfl, fun next last ran => by cases ran⟩
      | some after =>
          obtain ⟨chain, head, spec⟩ := ih (log.modify current Entry.close) after
          rw [follow_congr _ log (follow_close log current)] at chain
          rw [follow_close] at followed
          refine ⟨?_, rfl, ?_⟩
          · exact chain_visit log current after _ followed head chain
          · intro next last ran
            obtain ⟨member, marks⟩ := spec next last ran
            exact ⟨List.mem_cons_of_mem _ member, marks_close log next current _ marks⟩

-- patch: the same, for the entries below the GSN.
theorem below_visited (gsn fuel : Nat) (log : Log) (current : Ptr) :
    (Log.belowVisited gsn fuel log current).IsChain (fun here other => log.follow here = some other) ∧
      (Log.belowVisited gsn fuel log current).head? = some current ∧
      ∀ next last, Log.closeBelow gsn fuel log current = .ok (next, last) →
        last ∈ Log.belowVisited gsn fuel log current ∧ Marks log next (Log.belowVisited gsn fuel log current) := by
  induction fuel generalizing log current with
  | zero => exact ⟨List.isChain_singleton _, rfl, fun next last ran => by cases ran⟩
  | succ fuel ih =>
      unfold Log.belowVisited Log.closeBelow
      dsimp only
      cases log.read current with
      | none => exact ⟨List.isChain_singleton _, rfl, fun next last ran => by cases ran⟩
      | some entry =>
          dsimp only
          by_cases below : entry.gsn < gsn
          · rw [if_pos below, if_pos below]
            cases followed : (log.modify current Entry.close).follow current with
            | none => exact ⟨List.isChain_singleton _, rfl, fun next last ran => by cases ran⟩
            | some after =>
                obtain ⟨chain, head, spec⟩ := ih (log.modify current Entry.close) after
                rw [follow_congr _ log (follow_close log current)] at chain
                rw [follow_close] at followed
                refine ⟨chain_visit log current after _ followed head chain, rfl, ?_⟩
                intro next last ran
                obtain ⟨member, marks⟩ := spec next last ran
                exact ⟨List.mem_cons_of_mem _ member, marks_close log next current _ marks⟩
          · rw [if_neg below, if_neg below]
            refine ⟨List.isChain_singleton _, rfl, ?_⟩
            intro next last ran
            cases ran
            exact ⟨List.mem_cons_self, marks_refl log _⟩

-- close: the same, for the entries after the current one.
theorem rest_visited (fuel : Nat) (log : Log) (current : Ptr) :
    (current :: log.restVisited fuel current).IsChain (fun here other => log.follow here = some other) ∧
      ∀ next last, log.closeRest fuel current = .ok (next, last) →
        last ∈ current :: log.restVisited fuel current ∧ Marks log next (log.restVisited fuel current) := by
  induction fuel generalizing log current with
  | zero => exact ⟨List.isChain_singleton _, fun next last ran => by cases ran⟩
  | succ fuel ih =>
      unfold Log.restVisited Log.closeRest
      cases followed : log.follow current with
      | none =>
          refine ⟨List.isChain_singleton _, ?_⟩
          intro next last ran
          cases ran
          exact ⟨List.mem_cons_self, marks_refl log _⟩
      | some after =>
          obtain ⟨chain, spec⟩ := ih (log.modify after Entry.close) after
          rw [follow_congr _ log (follow_close log after)] at chain
          refine ⟨chain_visit log current after _ followed rfl chain, ?_⟩
          intro next last ran
          obtain ⟨member, marks⟩ := spec next last ran
          exact ⟨List.mem_cons_of_mem _ member, marks_close log next after _ marks⟩

theorem store_marks (log : Log) (current : Ptr) (buffer : Buffer) (inserted : Inserted) (ran : log.store current buffer = .ok inserted) :
    inserted.current = current ∧ Marks log inserted.log [current] := by
  unfold Log.store at ran
  split at ran
  · cases ran
  · cases ran
    exact ⟨rfl, marks_modify log current _ (fun _ => rfl)⟩

-- The entries that a call goes to are linked, from the current entry on or else from
-- the first of the client, and the call sets no other entry.
structure Visits (log : Log) (clientId : Nat) (current : Option Ptr) (visited : List Ptr) : Prop where
  chain : (current.toList ++ visited).IsChain (fun here other => log.follow here = some other)
  start : current = none → ∀ first ∈ visited.head?, log.firstEntry clientId = some first

theorem seek_visits (log : Log) (clientId : Nat) (current : Option Ptr) (first : Ptr) (visited : List Ptr)
    (sought : log.seek clientId current = some first) (head : visited.head? = some first)
    (chain : visited.IsChain (fun here other => log.follow here = some other)) : Visits log clientId current visited := by
  cases current with
  | none =>
      refine ⟨chain, fun _ other member => ?_⟩
      rw [head] at member
      exact sought.trans (congrArg some (Option.mem_some_iff.mp member))
  | some here => exact ⟨chain_visit log here first visited sought head chain, fun none_ => absurd none_ (Option.some_ne_none here)⟩

theorem no_visits (log : Log) (clientId : Nat) (current : Option Ptr) : Visits log clientId current [] := by
  refine ⟨?_, fun _ _ member => absurd member (Option.not_mem_none _)⟩
  cases current with
  | none => exact List.isChain_nil
  | some here => exact List.isChain_singleton here

theorem insert_visits (log : Log) (clientId : Nat) (current : Option Ptr) (buffer : Buffer) (close : Nat) :
    Visits log clientId current (log.insertVisits clientId current close) ∧
      ∀ inserted, log.insert clientId current buffer close = .ok inserted →
        inserted.current ∈ log.insertVisits clientId current close ∧
          Marks log inserted.log (log.insertVisits clientId current close) := by
  unfold Log.insertVisits Log.insert
  cases sought : log.seek clientId current with
  | none => exact ⟨no_visits log clientId current, fun inserted ran => by cases ran⟩
  | some first =>
      obtain ⟨chain, head, spec⟩ := slots_visited (decrement close) log first
      refine ⟨seek_visits log clientId current first _ sought head chain, ?_⟩
      intro inserted ran
      dsimp only at ran
      cases closed : log.closeSlots (decrement close) first with
      | error fault =>
          rw [closed] at ran
          cases ran
      | ok result =>
          obtain ⟨middle, last⟩ := result
          rw [closed] at ran
          obtain ⟨member, marks⟩ := spec middle last closed
          obtain ⟨same, stored⟩ := store_marks middle last buffer inserted ran
          rw [same]
          exact ⟨member, marks_trans log middle inserted.log _ [last] _ marks stored (fun _ inside => inside)
            (fun here only => List.mem_singleton.mp only ▸ member)⟩

theorem patch_visits (log : Log) (clientId : Nat) (current : Option Ptr) (buffer : Buffer) (gsn : Nat) :
    Visits log clientId current (log.patchVisits clientId current gsn) ∧
      ∀ inserted, log.patch clientId current buffer gsn = .ok inserted →
        inserted.current ∈ log.patchVisits clientId current gsn ∧ Marks log inserted.log (log.patchVisits clientId current gsn) := by
  unfold Log.patchVisits Log.patch
  cases sought : log.seek clientId current with
  | none => exact ⟨no_visits log clientId current, fun inserted ran => by cases ran⟩
  | some first =>
      obtain ⟨chain, head, spec⟩ := below_visited gsn log.currentEntries log first
      refine ⟨seek_visits log clientId current first _ sought head chain, ?_⟩
      intro inserted ran
      dsimp only at ran
      cases closed : log.closeBelow gsn log.currentEntries first with
      | error fault =>
          rw [closed] at ran
          cases ran
      | ok result =>
          obtain ⟨middle, last⟩ := result
          rw [closed] at ran
          change (if (middle.read last).map Entry.gsn = some gsn then middle.store last buffer else .error .assertEq) = _ at ran
          split at ran
          · obtain ⟨member, marks⟩ := spec middle last closed
            obtain ⟨same, stored⟩ := store_marks middle last buffer inserted ran
            rw [same]
            exact ⟨member, marks_trans log middle inserted.log _ [last] _ marks stored (fun _ inside => inside)
              (fun here only => List.mem_singleton.mp only ▸ member)⟩
          · cases ran

theorem close_visits (log : Log) (clientId : Nat) (current : Option Ptr) :
    Visits log clientId current (log.closeVisits clientId current) ∧ ∀ next last, log.close clientId current = .ok (next, last) →
      (∀ here, last = some here → here ∈ current.toList ++ log.closeVisits clientId current) ∧
        Marks log next (log.closeVisits clientId current) := by
  constructor
  · unfold Log.closeVisits
    cases current with
    | some here => exact ⟨(rest_visited log.currentEntries log here).1, fun none_ => absurd none_ (Option.some_ne_none here)⟩
    | none =>
        cases first : log.firstEntry clientId with
        | none => exact no_visits log clientId none
        | some start =>
            have chain := (rest_visited log.currentEntries (log.modify start Entry.close) start).1
            rw [follow_congr _ log (follow_close log start)] at chain
            exact ⟨chain, fun _ other same => first.trans same⟩
  · intro next last ran
    obtain ⟨rfl, first, rfl, rfl⟩ | ⟨start, here, final, closed, rfl, started⟩ := close_cases log next clientId current last ran
    · exact ⟨fun here none_ => absurd none_ (Option.some_ne_none here).symm, marks_refl _ _⟩
    · obtain ⟨rfl, rfl⟩ | ⟨rfl, first, rfl⟩ := started
      · obtain ⟨member, marks⟩ := (rest_visited start.currentEntries start here).2 next final closed
        refine ⟨fun other same => ?_, marks⟩
        rw [← Option.some.inj same]
        exact member
      · obtain ⟨member, marks⟩ := (rest_visited log.currentEntries (log.modify here Entry.close) here).2 next final closed
        unfold Log.closeVisits
        rw [first]
        refine ⟨fun other same => ?_, ?_⟩
        · rw [← Option.some.inj same]
          exact member
        · exact marks_close log next here _ marks

theorem grow_reads (memory : Memory) (log : Log) (here : Ptr) (entry : Entry) (read : (log.grow memory).read here = some entry) :
    log.read here = some entry ∨ (log.grow memory).blocks.length = log.blocks.length + 1 ∧ here.block = log.blocks.length ∧
      entry = memory here.block here.slot := by
  unfold Log.grow at read ⊢
  split at read
  · rename_i full
    rw [if_pos full]
    unfold Log.read at read ⊢
    dsimp only at read ⊢
    obtain old | new := Nat.lt_or_ge here.block log.blocks.length
    · rw [List.getElem?_append_left old] at read
      exact Or.inl read
    · right
      rw [List.getElem?_append_right new] at read
      obtain ⟨block, found, rfl⟩ := Option.map_eq_some_iff.mp read
      obtain ⟨bound, value⟩ := List.getElem?_eq_some_iff.mp found
      rw [List.length_singleton] at bound
      have last : here.block = log.blocks.length := by omega
      refine ⟨List.length_append, last, ?_⟩
      rw [List.getElem_singleton] at value
      rw [← value, last]
  · exact Or.inl read

theorem modify_reads (log : Log) (place here : Ptr) (change : Entry → Entry) (entry : Entry)
    (read : (log.modify place change).read here = some entry) :
    ∃ before, log.read here = some before ∧ (entry = before ∨ place = here ∧ entry = change before) := by
  rw [read_modify] at read
  split at read
  · rename_i same
    obtain ⟨before, found, rfl⟩ := Option.map_eq_some_iff.mp read
    exact ⟨before, found, Or.inr ⟨same, rfl⟩⟩
  · exact ⟨entry, read, Or.inl rfl⟩

-- The only next pointer that changes is that of the client's last entry.
theorem append_reads (log : Log) (gsn clientId : Nat) (here : Ptr) (entry : Entry) (read : (log.append gsn clientId).read here = some entry) :
    ∃ before, log.read here = some before ∧ entry.set = before.set ∧
      (entry.next = before.next ∨ log.lastEntry clientId = some here ∧ entry.next = some ⟨log.block, log.entry⟩) := by
  have named : ∀ middle, (log.modify ⟨log.block, log.entry⟩ (fun e => { e with gsn := gsn, clientId := clientId })).read here = some middle →
      ∃ before, log.read here = some before ∧ middle.set = before.set ∧ middle.next = before.next := by
    intro middle found
    obtain ⟨before, there, rfl | ⟨-, rfl⟩⟩ := modify_reads log _ here _ middle found
    · exact ⟨middle, there, rfl, rfl⟩
    · exact ⟨before, there, rfl, rfl⟩
  cases lastEq : log.lastEntry clientId with
  | none =>
      have blocks : (log.append gsn clientId).blocks =
          (log.modify ⟨log.block, log.entry⟩ (fun e => { e with gsn := gsn, clientId := clientId })).blocks := by
        simp [Log.append, Log.modify, lastEq]
      rw [read_congr _ _ blocks] at read
      obtain ⟨before, there, set, next⟩ := named entry read
      exact ⟨before, there, set, Or.inl next⟩
  | some last =>
      have blocks : (log.append gsn clientId).blocks =
          (((log.modify ⟨log.block, log.entry⟩ (fun e => { e with gsn := gsn, clientId := clientId })).modify
            ⟨log.block, log.entry⟩ (fun e => { e with prev := some last })).modify
            last (fun e => { e with next := some ⟨log.block, log.entry⟩ })).blocks := by
        simp [Log.append, Log.modify, lastEq]
      rw [read_congr _ _ blocks] at read
      obtain ⟨linked, readLinked, outer⟩ := modify_reads _ last here _ entry read
      obtain ⟨middle, readMiddle, inner⟩ := modify_reads _ _ here _ linked readLinked
      obtain ⟨before, there, set, next⟩ := named middle readMiddle
      have same : linked.set = before.set ∧ linked.next = before.next := by
        obtain rfl | ⟨-, rfl⟩ := inner
        · exact ⟨set, next⟩
        · exact ⟨set, next⟩
      refine ⟨before, there, ?_⟩
      obtain rfl | ⟨rfl, rfl⟩ := outer
      · exact ⟨same.1, Or.inl same.2⟩
      · exact ⟨same.1, Or.inr ⟨rfl, rfl⟩⟩

theorem next_entry_found (log : Log) (it moved : Iterator) (found : Option Entry) (ran : it.nextEntry log = .ok (moved, found)) :
    (∀ entry, found = some entry → ∃ here, it.considered log = some here ∧ log.read here = some entry ∧ entry.set = true) ∧
      ∀ here, moved.entry = some here → it.considered log = some here := by
  unfold Iterator.nextEntry at ran
  unfold Iterator.considered
  generalize (if it.entry = none then it.pick log else it) = chosen at ran ⊢
  dsimp only at ran
  cases entryEq : chosen.entry with
  | none =>
      rw [entryEq] at ran
      cases ran
      exact ⟨fun entry none_ => absurd none_ (Option.some_ne_none entry).symm, fun here same => by rw [entryEq] at same; exact same⟩
  | some here =>
      rw [entryEq] at ran
      dsimp only at ran
      cases readEq : log.read here with
      | none =>
          rw [readEq] at ran
          cases ran
      | some entry =>
          rw [readEq] at ran
          dsimp only at ran
          by_cases set : entry.set = true
          · rw [if_pos set] at ran
            cases ran
            exact ⟨fun other same => ⟨here, rfl, readEq.trans same, Option.some.inj same ▸ set⟩,
              fun other none_ => absurd none_ (Option.some_ne_none other).symm⟩
          · rw [if_neg set] at ran
            cases ran
            exact ⟨fun other none_ => absurd none_ (Option.some_ne_none other).symm, fun other same => by rw [entryEq] at same; exact same⟩

theorem considered_slot (log : Log) (it : Iterator) (inside : ∀ here, it.entry = some here → here.slot < numEntriesPerBlock) (here : Ptr)
    (considered : it.considered log = some here) : here.slot < numEntriesPerBlock := by
  unfold Iterator.considered at considered
  split at considered
  · rename_i free
    unfold Iterator.pick at considered
    split at considered
    · exact inside here considered
    · rw [← Option.some.inj considered]
      exact Nat.mod_lt _ entries_per_block_pos
  · exact inside here considered

-- Whatever stands in memory below the slots of a page, the log has written.
structure Traced.Inv (s : Traced) : Prop where
  entry : s.log.entry ≤ numEntriesPerBlock
  flags : ∀ here entry, here.slot < numEntriesPerBlock → s.log.read here = some entry → entry.set = true → here ∈ s.marked
  nexts : ∀ here other, here.slot < numEntriesPerBlock → s.log.follow here = some other → (here, other) ∈ s.links
  targets : ∀ link ∈ s.links, link.2.slot < numEntriesPerBlock
  firsts : ∀ clientId here, s.log.firstEntry clientId = some here → here.slot < numEntriesPerBlock
  lasts : ∀ clientId here, s.log.lastEntry clientId = some here → here.slot < numEntriesPerBlock
  placed : ∀ clientId here, s.positions clientId = some here → here.slot < numEntriesPerBlock
  waiting : ∀ index here, (s.iterators index).entry = some here → here.slot < numEntriesPerBlock
  backed : s.Backed

theorem traced_init (memory : Memory) (threads : Nat) (blank : Blank (memory 0)) : (Traced.init memory threads).Inv := by
  have read : ∀ here entry, here.slot < numEntriesPerBlock → (Log.init memory).read here = some entry → entry.set = false ∧ entry.next = none := by
    intro here entry inside found
    obtain ⟨block, there, rfl⟩ := Option.map_eq_some_iff.mp found
    have first : block ∈ [memory 0] := List.mem_of_getElem? there
    rw [List.mem_singleton.mp first]
    exact blank here.slot inside
  refine ⟨Nat.zero_le _, ?_, ?_, fun _ member => absurd member List.not_mem_nil, ?_, ?_, ?_, ?_, ⟨?_, ?_⟩⟩
  · intro here entry inside found set
    rw [(read here entry inside found).1] at set
    cases set
  · intro here other inside followed
    obtain ⟨entry, found, next⟩ := Option.bind_eq_some_iff.mp followed
    rw [(read here entry inside found).2] at next
    cases next
  · exact fun _ here none_ => absurd none_ (Option.some_ne_none here).symm
  · exact fun _ here none_ => absurd none_ (Option.some_ne_none here).symm
  · exact fun _ here none_ => absurd none_ (Option.some_ne_none here).symm
  · exact fun _ here none_ => absurd none_ (Option.some_ne_none here).symm
  · exact fun _ member => absurd member List.not_mem_nil
  · exact fun _ member => absurd member List.not_mem_nil

theorem trail_links (s : Traced) (inv : s.Inv) (trail : List Ptr) (chain : trail.IsChain (fun here other => s.log.follow here = some other))
    (head : ∀ first ∈ trail.head?, first.slot < numEntriesPerBlock) :
    (∀ here ∈ trail, here.slot < numEntriesPerBlock) ∧ ∀ link ∈ pairs trail, link ∈ s.links := by
  induction trail with
  | nil => exact ⟨fun _ member => absurd member List.not_mem_nil, fun _ member => absurd member List.not_mem_nil⟩
  | cons here rest ih =>
      have inside := head here rfl
      cases rest with
      | nil =>
          refine ⟨fun other member => ?_, fun _ member => absurd member List.not_mem_nil⟩
          rw [List.mem_singleton.mp member]
          exact inside
      | cons other rest =>
          obtain ⟨followed, later⟩ := List.isChain_cons_cons.mp chain
          have link := inv.nexts here other inside followed
          obtain ⟨insideRest, linked⟩ := ih later (fun first same => Option.some.inj same ▸ inv.targets _ link)
          refine ⟨fun third member => ?_, fun pair member => ?_⟩
          · obtain rfl | tail := List.mem_cons.mp member
            · exact inside
            · exact insideRest third tail
          · obtain rfl | tail := List.mem_cons.mp member
            · exact link
            · exact linked pair tail

theorem visit_inv (s : Traced) (inv : s.Inv) (clientId : Nat) (visited : List Ptr)
    (visits : Visits s.log clientId (s.positions clientId) visited) : (s.visit clientId visited).Inv ∧
      ∀ here ∈ (s.positions clientId).toList ++ visited, here.slot < numEntriesPerBlock := by
  have head : ∀ first ∈ ((s.positions clientId).toList ++ visited).head?, first.slot < numEntriesPerBlock := by
    intro first member
    cases current : s.positions clientId with
    | none =>
        rw [current] at member
        exact inv.firsts clientId first (visits.start current first member)
    | some here =>
        rw [current] at member
        exact inv.placed clientId first (current.trans member)
  obtain ⟨inside, linked⟩ := trail_links s inv _ visits.chain head
  refine ⟨⟨inv.entry, inv.flags, inv.nexts, inv.targets, inv.firsts, inv.lasts, inv.placed, inv.waiting, inv.backed.set, ?_⟩, inside⟩
  intro link member
  obtain old | new := List.mem_append.mp member
  · exact inv.backed.linked link old
  · exact linked link new

theorem arrive_inv (s : Traced) (inv : s.Inv) (clientId : Nat) (log : Log) (current : Option Ptr) (visited : List Ptr)
    (kept : Kept s.log log) (marks : Marks s.log log visited) (inside : ∀ here, current = some here → here.slot < numEntriesPerBlock) :
    (s.arrive clientId log current visited).Inv := by
  refine ⟨?_, ?_, ?_, inv.targets, ?_, ?_, ?_, inv.waiting, ?_, inv.backed.linked⟩
  · exact Nat.le_trans (Nat.le_of_eq kept.entry) inv.entry
  · intro here entry slot read set
    obtain ⟨before, found, -, origin⟩ := marks.reads here entry read
    obtain old | new := origin set
    · exact List.mem_append_left _ (inv.flags here before slot found old)
    · exact List.mem_append_right _ new
  · intro here other slot followed
    obtain ⟨entry, read, next⟩ := Option.bind_eq_some_iff.mp followed
    obtain ⟨before, found, same, -⟩ := marks.reads here entry read
    exact inv.nexts here other slot (Option.bind_eq_some_iff.mpr ⟨before, found, same.symm.trans next⟩)
  · intro other here first
    exact inv.firsts other here ((congrFun marks.first other).symm.trans first)
  · intro other here last
    exact inv.lasts other here ((congrFun marks.last other).symm.trans last)
  · intro other here place
    change Function.update s.positions clientId current other = some here at place
    by_cases mine : other = clientId
    · rw [mine, Function.update_self] at place
      exact inside here place
    · rw [Function.update_of_ne mine] at place
      exact inv.placed other here place
  · exact fun here member => List.mem_append_left _ (inv.backed.set here member)

-- What writes no entry keeps it.
theorem frame_traced (s : Traced) (inv : s.Inv) (numEntries : Nat) (adding : Option (List Assignment × Nat)) (ended : Bool) :
    Traced.Inv { s with log := { s.log with numEntries := numEntries }, adding := adding, ended := ended } :=
  ⟨inv.entry, inv.flags, inv.nexts, inv.targets, inv.firsts, inv.lasts, inv.placed, inv.waiting, inv.backed.set, inv.backed.linked⟩

-- A call of insert, patch or close, which fails or arrives at an entry it has gone to.
theorem walk_traced (s : Traced) (inv : s.Inv) (clientId : Nat) (visited : List Ptr)
    (visits : Visits s.log clientId (s.positions clientId) visited) :
    Traced.Inv { s.visit clientId visited with ended := true } ∧
      ∀ log current, Kept s.log log → Marks s.log log visited →
        (∀ here, current = some here → here ∈ (s.positions clientId).toList ++ visited) →
          ((s.visit clientId visited).arrive clientId log current visited).Inv := by
  obtain ⟨walked, inside⟩ := visit_inv s inv clientId visited visits
  refine ⟨frame_traced _ walked s.log.numEntries s.adding true, ?_⟩
  intro log current kept marks arrived
  exact arrive_inv _ walked clientId log current visited kept marks (fun here same => inside here (arrived here same))

-- A new page has nothing that the log would go by.
theorem grow_traced (memory : Memory) (s : Traced) (inv : s.Inv)
    (blank : ∀ block, block < (s.log.grow memory).blocks.length → Blank (memory block)) :
    Traced.Inv { s with log := s.log.grow memory } ∧ (s.log.grow memory).entry < numEntriesPerBlock := by
  have frame : (s.log.grow memory).firstEntry = s.log.firstEntry ∧ (s.log.grow memory).lastEntry = s.log.lastEntry ∧
      (s.log.grow memory).entry < numEntriesPerBlock := by
    unfold Log.grow
    split
    · exact ⟨rfl, rfl, entries_per_block_pos⟩
    · rename_i room
      exact ⟨rfl, rfl, Nat.lt_of_le_of_ne inv.entry room⟩
  obtain ⟨firsts, lasts, room⟩ := frame
  have before : ∀ here entry, here.slot < numEntriesPerBlock → (s.log.grow memory).read here = some entry →
      s.log.read here = some entry ∨ entry.set = false ∧ entry.next = none := by
    intro here entry inside read
    obtain old | ⟨longer, last, rfl⟩ := grow_reads memory s.log here entry read
    · exact Or.inl old
    · have page := blank s.log.blocks.length (by omega)
      rw [← last] at page
      exact Or.inr (page here.slot inside)
  refine ⟨⟨Nat.le_of_lt room, ?_, ?_, inv.targets, ?_, ?_, inv.placed, inv.waiting, inv.backed.set, inv.backed.linked⟩, room⟩
  · intro here entry inside read set
    obtain old | ⟨unset, -⟩ := before here entry inside read
    · exact inv.flags here entry inside old set
    · rw [unset] at set
      cases set
  · intro here target inside followed
    obtain ⟨entry, read, next⟩ := Option.bind_eq_some_iff.mp followed
    obtain old | ⟨-, unlinked⟩ := before here entry inside read
    · exact inv.nexts here target inside (Option.bind_eq_some_iff.mpr ⟨entry, old, next⟩)
    · rw [unlinked] at next
      cases next
  · exact fun owner here first => inv.firsts owner here ((congrFun firsts owner).symm.trans first)
  · exact fun owner here last => inv.lasts owner here ((congrFun lasts owner).symm.trans last)

theorem append_traced (s : Traced) (inv : s.Inv) (room : s.log.entry < numEntriesPerBlock) (gsn clientId : Nat) :
    Traced.Inv { s with
      log := s.log.append gsn clientId
      links := s.links ++ (s.log.lastEntry clientId).toList.map (fun last => (last, ⟨s.log.block, s.log.entry⟩)) } := by
  obtain ⟨-, -, entry, -, lastEntry, firstEntry⟩ := append_shape s.log gsn clientId
  have placed : ∀ (pointers : Nat → Option Ptr) (owner : Nat) (here : Ptr),
      (∀ other place, pointers other = some place → place.slot < numEntriesPerBlock) →
        Function.update pointers clientId (some ⟨s.log.block, s.log.entry⟩) owner = some here → here.slot < numEntriesPerBlock := by
    intro pointers owner here inside there
    by_cases mine : owner = clientId
    · rw [mine, Function.update_self] at there
      rw [← Option.some.inj there]
      exact room
    · rw [Function.update_of_ne mine] at there
      exact inside owner here there
  refine ⟨?_, ?_, ?_, ?_, ?_, ?_, inv.placed, inv.waiting, inv.backed.set, fun link member => List.mem_append_left _ (inv.backed.linked link member)⟩
  · exact Nat.le_trans (Nat.le_of_eq entry) room
  · intro here entry inside read set
    obtain ⟨before, found, same, -⟩ := append_reads s.log gsn clientId here entry read
    exact inv.flags here before inside found (same.symm.trans set)
  · intro here target inside followed
    obtain ⟨entry, read, next⟩ := Option.bind_eq_some_iff.mp followed
    obtain ⟨before, found, -, same | ⟨isLast, linked⟩⟩ := append_reads s.log gsn clientId here entry read
    · exact List.mem_append_left _ (inv.nexts here target inside (Option.bind_eq_some_iff.mpr ⟨before, found, same.symm.trans next⟩))
    · rw [linked] at next
      refine List.mem_append_right _ ?_
      rw [isLast, ← Option.some.inj next]
      exact List.mem_cons_self
  · intro link member
    obtain old | new := List.mem_append.mp member
    · exact inv.targets link old
    · obtain ⟨last, -, rfl⟩ := List.mem_map.mp new
      exact room
  · intro owner here first
    rw [firstEntry] at first
    split at first
    · exact placed s.log.firstEntry owner here inv.firsts first
    · exact inv.firsts owner here first
  · intro owner here last
    rw [lastEntry] at last
    exact placed s.log.lastEntry owner here inv.lasts last

theorem yield_traced (memory : Memory) (s : Traced) (inv : s.Inv) (assignment : Assignment) (gsn : Nat) (adding : Option (List Assignment × Nat))
    (blank : ∀ block, block < (yieldSlot memory assignment (s.log, gsn)).1.blocks.length → Blank (memory block)) :
    Traced.Inv { s with
      log := (yieldSlot memory assignment (s.log, gsn)).1
      adding := adding
      links := s.links ++ newLink memory s.log assignment.clientId } := by
  unfold yieldSlot newLink at *
  dsimp only at *
  by_cases other : assignment.clientId = uint64Max
  · rw [if_pos other] at blank ⊢
    rw [if_pos other, List.append_nil]
    exact frame_traced s inv s.log.numEntries adding s.ended
  · rw [if_neg other] at blank ⊢
    rw [if_neg other]
    unfold Log.yield at blank ⊢
    rw [(append_shape (s.log.grow memory) gsn assignment.clientId).1] at blank
    obtain ⟨grown, room⟩ := grow_traced memory s inv blank
    have kept : (s.log.grow memory).lastEntry = s.log.lastEntry := by
      unfold Log.grow
      split
      · rfl
      · rfl
    have appended := append_traced _ grown room gsn assignment.clientId
    dsimp only at appended
    rw [kept] at appended
    exact frame_traced _ appended _ adding s.ended

theorem yield_blocks (memory : Memory) (assignment : Assignment) (log : Log) (gsn : Nat) :
    log.blocks.length ≤ (yieldSlot memory assignment (log, gsn)).1.blocks.length := by
  unfold yieldSlot
  dsimp only
  split
  · exact Nat.le_refl _
  · rw [Log.yield, (append_shape (log.grow memory) gsn assignment.clientId).1]
    unfold Log.grow
    split
    · exact List.length_append.symm ▸ Nat.le_add_right _ _
    · exact Nat.le_refl _

-- The pages of a run are those of its last state.
theorem call_blocks (memory : Memory) (s next : Traced) (call : Call) (taken : s.call memory call = some next) :
    s.log.blocks.length ≤ next.log.blocks.length := by
  unfold Traced.call at taken
  split at taken
  · rw [← Option.some.inj (Option.ite_none_right_eq_some.mp taken).2]
  · split at taken
    · rw [← Option.some.inj taken]
      exact yield_blocks memory _ s.log _
    · cases taken
  · split at taken
    · rw [← Option.some.inj taken]
    · cases taken
  · dsimp only at taken
    split at taken
    · rw [← Option.some.inj taken]
      exact Nat.le_refl _
    · rename_i inserted ran
      rw [← Option.some.inj taken]
      exact Nat.le_of_eq (insert_kept _ _ _ _ _ inserted ran).length.symm
  · dsimp only at taken
    split at taken
    · rw [← Option.some.inj taken]
      exact Nat.le_refl _
    · rename_i inserted ran
      rw [← Option.some.inj taken]
      exact Nat.le_of_eq (patch_kept _ _ _ _ _ inserted ran).length.symm
  · dsimp only at taken
    split at taken
    · rw [← Option.some.inj taken]
      exact Nat.le_refl _
    · rename_i log current ran
      rw [← Option.some.inj taken]
      exact Nat.le_of_eq (close_kept _ log _ _ current ran).length.symm
  · split at taken
    · rw [← Option.some.inj taken]
    · rw [← Option.some.inj taken]

theorem next_entry_traced (s : Traced) (inv : s.Inv) (index : Nat) (moved : Iterator) (found : Option Entry)
    (ran : (s.iterators index).nextEntry s.log = .ok (moved, found)) : Traced.Inv { s with
      iterators := Function.update s.iterators index moved
      returned := s.returned ++ (found.bind (fun _ => (s.iterators index).considered s.log)).toList } := by
  obtain ⟨returns, waits⟩ := next_entry_found s.log (s.iterators index) moved found ran
  refine ⟨inv.entry, inv.flags, inv.nexts, inv.targets, inv.firsts, inv.lasts, inv.placed, ?_, ?_, inv.backed.linked⟩
  · intro other here there
    dsimp only at there
    by_cases mine : other = index
    · rw [mine, Function.update_self] at there
      exact considered_slot s.log _ (inv.waiting index) here (waits here there)
    · rw [Function.update_of_ne mine] at there
      exact inv.waiting other here there
  · intro here member
    obtain old | new := List.mem_append.mp member
    · exact inv.backed.set here old
    · cases found with
      | none => exact absurd new List.not_mem_nil
      | some entry =>
          obtain ⟨place, considered, read, set⟩ := returns entry rfl
          rw [Option.bind_some, considered] at new
          rw [List.mem_singleton.mp new]
          exact inv.flags place entry (considered_slot s.log _ (inv.waiting index) place considered) read set

theorem call_inv (memory : Memory) (s next : Traced) (call : Call) (inv : s.Inv) (taken : s.call memory call = some next)
    (blank : ∀ block, block < next.log.blocks.length → Blank (memory block)) : next.Inv := by
  cases call with
  | beginEntries slots =>
      rw [← Option.some.inj (Option.ite_none_right_eq_some.mp taken).2]
      exact frame_traced s inv s.log.numEntries _ s.ended
  | yield =>
      unfold Traced.call at taken
      dsimp only at taken
      split at taken
      · rw [← Option.some.inj taken] at blank ⊢
        exact yield_traced memory s inv _ _ _ blank
      · cases taken
  | publish =>
      unfold Traced.call at taken
      dsimp only at taken
      split at taken
      · rw [← Option.some.inj taken]
        exact frame_traced s inv s.log.currentEntries none s.ended
      · cases taken
  | insert clientId buffer close =>
      obtain ⟨visits, spec⟩ := insert_visits s.log clientId (s.positions clientId) buffer close
      obtain ⟨failed, arrived⟩ := walk_traced s inv clientId _ visits
      unfold Traced.call at taken
      dsimp only at taken
      split at taken
      · rw [← Option.some.inj taken]
        exact failed
      · rename_i inserted ran
        obtain ⟨member, marks⟩ := spec inserted ran
        rw [← Option.some.inj taken]
        exact arrived _ _ (insert_kept _ _ _ _ _ inserted ran) marks (fun here same => Option.some.inj same ▸ List.mem_append_right _ member)
  | patch clientId buffer gsn =>
      obtain ⟨visits, spec⟩ := patch_visits s.log clientId (s.positions clientId) buffer gsn
      obtain ⟨failed, arrived⟩ := walk_traced s inv clientId _ visits
      unfold Traced.call at taken
      dsimp only at taken
      split at taken
      · rw [← Option.some.inj taken]
        exact failed
      · rename_i inserted ran
        obtain ⟨member, marks⟩ := spec inserted ran
        rw [← Option.some.inj taken]
        exact arrived _ _ (patch_kept _ _ _ _ _ inserted ran) marks (fun here same => Option.some.inj same ▸ List.mem_append_right _ member)
  | close clientId =>
      obtain ⟨visits, spec⟩ := close_visits s.log clientId (s.positions clientId)
      obtain ⟨failed, arrived⟩ := walk_traced s inv clientId _ visits
      unfold Traced.call at taken
      dsimp only at taken
      split at taken
      · rw [← Option.some.inj taken]
        exact failed
      · rename_i log current ran
        obtain ⟨member, marks⟩ := spec log current ran
        rw [← Option.some.inj taken]
        exact arrived _ _ (close_kept _ log _ _ current ran) marks member
  | nextEntry index =>
      unfold Traced.call at taken
      dsimp only at taken
      split at taken
      · rw [← Option.some.inj taken]
        exact frame_traced s inv s.log.numEntries s.adding true
      · rename_i moved found ran
        rw [← Option.some.inj taken]
        exact next_entry_traced s inv index moved found ran

theorem traced_run (memory : Memory) (threads : Nat) (calls : List Call) (s : Traced)
    (ran : Machine.run (Traced.step memory) (Traced.init memory threads) calls = some s)
    (blank : ∀ block, block < s.log.blocks.length → Blank (memory block)) : s.Inv := by
  refine (Machine.run_invariant (Traced.step memory) (Traced.init memory threads)
    (fun _ s => 0 < s.log.blocks.length ∧ ((∀ block, block < s.log.blocks.length → Blank (memory block)) → s.Inv)) ?_ ?_ calls s ran).2 blank
  · exact ⟨Nat.one_pos, fun blank => traced_init memory threads (blank 0 Nat.one_pos)⟩
  · intro before s call next earlier taken
    have called : s.call memory call = some next := (Option.ite_none_left_eq_some.mp taken).2
    have grown := call_blocks memory s next call called
    refine ⟨Nat.lt_of_lt_of_le earlier.1 grown, fun blank => ?_⟩
    exact call_inv memory s next call (earlier.2 (fun block less => blank block (Nat.lt_of_lt_of_le less grown))) called blank

end ZipLog.Storage
