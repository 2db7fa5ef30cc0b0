import Mathlib.Data.List.Basic
import ZipLog.Api
import ZipLog.Lib.Holders
import ZipLog.Lib.Run

set_option autoImplicit false

namespace ZipLog.Network

-- A huge page with the local key of its memory region.
structure Page where
  address : Nat
  localKey : Nat

-- A buffer object. manager_ is the one manager of the pool, or null.
structure Buffer where
  address : Nat
  localKey : Nat
  managed : Bool

abbrev Chunk := Nat × Nat

def Buffer.make (chunk : Chunk) : Buffer := ⟨chunk.1, chunk.2, true⟩

-- The default members. local_key_ has no initialiser.
def Buffer.default (localKey : Nat) : Buffer := ⟨0, localKey, false⟩

def Buffer.chunk (buffer : Buffer) : Option Chunk := if buffer.managed then some (buffer.address, buffer.localKey) else none

def pageChunks (page : Page) : List Chunk :=
  (List.range (hugePageSize / sendBufferSize)).map (fun j => (page.address + j * sendBufferSize, page.localKey))

-- What of the manager the send buffers use, with the buffer objects that are alive.
structure Pool where
  freeList : List Chunk := []
  pageList : List Page := []
  live : List Nat := []
  objects : Nat → Buffer := fun _ => Buffer.default 0

def Pool.owned (pool : Pool) : List Chunk := Holders.held pool.live (fun id => (pool.objects id).chunk)

-- The pages come from allocate_huge_page and ibv_reg_mr, in this order.
def Pool.addPage (pool : Pool) (pages : Nat → Page) : Pool :=
  let page := pages pool.pageList.length
  { pool with pageList := pool.pageList ++ [page], freeList := pool.freeList ++ pageChunks page }

def Pool.refill (pages : Nat → Page) (numBuffers : Nat) : Nat → Pool → Pool
  | 0, pool => pool
  | fuel + 1, pool => if pool.freeList.length < numBuffers then (pool.addPage pages).refill pages numBuffers fuel else pool

-- A turn of the loop adds at least one buffer, so that as many turns as buffers are enough.
def Pool.getBuffers (pool : Pool) (pages : Nat → Page) (numBuffers : Nat) : List Buffer × Pool :=
  let filled := pool.refill pages numBuffers numBuffers
  ((filled.freeList.take numBuffers).map Buffer.make, { filled with freeList := filled.freeList.drop numBuffers })

def Pool.putBuffer (pool : Pool) (address localKey : Nat) : Pool := { pool with freeList := pool.freeList ++ [(address, localKey)] }

def Pool.emplace (pool : Pool) (id : Nat) (buffer : Buffer) : Pool :=
  { pool with live := pool.live ++ [id], objects := Function.update pool.objects id buffer }

-- std::swap of the three members.
def Pool.swap (pool : Pool) (id other : Nat) : Pool := { pool with objects := Holders.swap pool.objects id other }

def Pool.destroy (pool : Pool) (id : Nat) : Pool :=
  let buffer := pool.objects id
  let gone := { pool with live := pool.live.erase id }
  if buffer.managed then gone.putBuffer buffer.address buffer.localKey else gone

-- Each object has a name of its own. The key of a default construction is whatever the
-- memory held.
inductive PoolCall where
  | getBuffers (ids : List Nat)
  | construct (id localKey : Nat)
  | moveConstruct (id localKey other : Nat)
  | moveAssign (id other : Nat)
  | destroy (id : Nat)

def Pool.step (pages : Nat → Page) (pool : Pool) : PoolCall → Option Pool
  | .getBuffers ids =>
      if (pool.live ++ ids).Nodup then
        let (buffers, filled) := pool.getBuffers pages ids.length
        some ((ids.zip buffers).foldl (fun pool given => pool.emplace given.1 given.2) filled)
      else none
  | .construct id localKey => if id ∉ pool.live then some (pool.emplace id (Buffer.default localKey)) else none
  | .moveConstruct id localKey other =>
      if id ∉ pool.live ∧ other ∈ pool.live then some ((pool.emplace id (Buffer.default localKey)).swap id other) else none
  | .moveAssign id other =>
      if id ∈ pool.live ∧ other ∈ pool.live then
        some (if id ≠ other then pool.swap id other else pool)
      else none
  | .destroy id => if id ∈ pool.live then some (pool.destroy id) else none

def Pool.registered (pool : Pool) : List Chunk := pool.pageList.flatMap pageChunks

-- The pages are those of the environment, and the chunks of the objects and of the
-- free list are the chunks of the pages.
structure Pool.Conserved (pages : Nat → Page) (pool : Pool) : Prop where
  unique : pool.live.Nodup
  allocated : pool.pageList = (List.range pool.pageList.length).map pages
  whole : (pool.owned ++ pool.freeList).Perm pool.registered

def Chunk.Apart (first second : Chunk) : Prop := first.1 + sendBufferSize ≤ second.1 ∨ second.1 + sendBufferSize ≤ first.1

def Page.Apart (first second : Page) : Prop := first.address + hugePageSize ≤ second.address ∨ second.address + hugePageSize ≤ first.address

@[simp]
theorem emplace_live (pool : Pool) (id : Nat) (buffer : Buffer) : (pool.emplace id buffer).live = pool.live ++ [id] := rfl

theorem emplace_owned (pool : Pool) (id : Nat) (buffer : Buffer) (fresh : id ∉ pool.live) :
    (pool.emplace id buffer).owned = pool.owned ++ buffer.chunk.toList := by
  have chunks : (fun name => ((pool.emplace id buffer).objects name).chunk) =
      Function.update (fun name => (pool.objects name).chunk) id buffer.chunk :=
    Function.comp_update Buffer.chunk pool.objects id buffer
  unfold Pool.owned
  rw [chunks]
  exact Holders.held_add pool.live _ id buffer.chunk fresh

theorem swap_owned (pool : Pool) (id other : Nat) (unique : pool.live.Nodup) (left : id ∈ pool.live) (right : other ∈ pool.live) :
    (pool.swap id other).owned.Perm pool.owned := by
  have chunks : (fun name => ((pool.swap id other).objects name).chunk) = Holders.swap (fun name => (pool.objects name).chunk) id other := by
    funext name
    rw [Holders.swap_apply]
    exact congrArg Buffer.chunk (Holders.swap_apply pool.objects id other name)
  unfold Pool.owned
  rw [chunks]
  exact Holders.held_swap pool.live _ id other unique left right

theorem emplaced (pool : Pool) (given : List (Nat × Buffer)) (unique : (pool.live ++ given.map Prod.fst).Nodup) :
    let later := given.foldl (fun pool given => pool.emplace given.1 given.2) pool
    later.owned = pool.owned ++ given.filterMap (fun given => given.2.chunk) ∧ later.freeList = pool.freeList ∧
      later.pageList = pool.pageList ∧ later.live = pool.live ++ given.map Prod.fst := by
  induction given generalizing pool with
  | nil => simp
  | cons first rest ih =>
      have fresh : first.1 ∉ pool.live := by
        intro inside
        exact (List.nodup_append.mp unique).2.2 _ inside _ List.mem_cons_self rfl
      have next := ih (pool.emplace first.1 first.2) (by simpa using unique)
      refine ⟨?_, next.2.1, next.2.2.1, ?_⟩
      · rw [List.foldl_cons, next.1, emplace_owned pool _ _ fresh, List.append_assoc, List.filterMap_cons]
        cases first.2.chunk <;> rfl
      · rw [List.foldl_cons, next.2.2.2, emplace_live, List.append_assoc]
        rfl

theorem page_chunks_length (page : Page) : (pageChunks page).length = 1024 := by
  unfold pageChunks
  rw [List.length_map, List.length_range]
  rfl

theorem add_page_registered (pool : Pool) (pages : Nat → Page) :
    (pool.addPage pages).registered = pool.registered ++ pageChunks (pages pool.pageList.length) := by
  unfold Pool.registered Pool.addPage
  rw [List.flatMap_append, List.flatMap_singleton]

theorem add_page_conserved (pool : Pool) (pages : Nat → Page) (conserved : pool.Conserved pages) : (pool.addPage pages).Conserved pages := by
  refine ⟨conserved.unique, ?_, ?_⟩
  · change pool.pageList ++ [pages pool.pageList.length] = _
    rw [show (pool.addPage pages).pageList.length = pool.pageList.length + 1 from List.length_append, List.range_succ, List.map_append,
      ← conserved.allocated, List.map_singleton]
  · rw [add_page_registered]
    have appended := conserved.whole.append_right (pageChunks (pages pool.pageList.length))
    rwa [List.append_assoc] at appended

theorem refill_conserved (pages : Nat → Page) (numBuffers fuel : Nat) (pool : Pool) (conserved : pool.Conserved pages) :
    (pool.refill pages numBuffers fuel).Conserved pages := by
  induction fuel generalizing pool with
  | zero => exact conserved
  | succ fuel ih =>
      unfold Pool.refill
      split
      · exact ih _ (add_page_conserved pool pages conserved)
      · exact conserved

theorem refill_live (pages : Nat → Page) (numBuffers fuel : Nat) (pool : Pool) : (pool.refill pages numBuffers fuel).live = pool.live := by
  induction fuel generalizing pool with
  | zero => rfl
  | succ fuel ih =>
      unfold Pool.refill
      split
      · exact ih (pool.addPage pages)
      · rfl

theorem refill_enough (pages : Nat → Page) (numBuffers fuel : Nat) (pool : Pool) (turns : numBuffers ≤ pool.freeList.length + fuel) :
    numBuffers ≤ (pool.refill pages numBuffers fuel).freeList.length := by
  induction fuel generalizing pool with
  | zero => exact turns
  | succ fuel ih =>
      unfold Pool.refill
      split
      · apply ih
        have longer : (pool.addPage pages).freeList.length = pool.freeList.length + 1024 :=
          List.length_append.trans (congrArg _ (page_chunks_length _))
        omega
      · omega

theorem get_buffers_length (pool : Pool) (pages : Nat → Page) (numBuffers : Nat) :
    (pool.getBuffers pages numBuffers).1.length = numBuffers := by
  have enough := refill_enough pages numBuffers numBuffers pool (Nat.le_add_left _ _)
  unfold Pool.getBuffers
  rw [List.length_map, List.length_take, Nat.min_eq_left enough]

theorem made_chunks (chunks : List Chunk) : (chunks.map Buffer.make).filterMap Buffer.chunk = chunks := by
  rw [List.filterMap_map]
  exact List.filterMap_some

theorem get_buffers_conserved (pool : Pool) (pages : Nat → Page) (ids : List Nat) (conserved : pool.Conserved pages)
    (unique : (pool.live ++ ids).Nodup) :
    ((ids.zip (pool.getBuffers pages ids.length).1).foldl (fun pool given => pool.emplace given.1 given.2)
      (pool.getBuffers pages ids.length).2).Conserved pages := by
  have count := get_buffers_length pool pages ids.length
  have filled := refill_conserved pages ids.length ids.length pool conserved
  have live := refill_live pages ids.length ids.length pool
  have named := List.map_fst_zip (Nat.le_of_eq count.symm)
  have given := List.map_snd_zip (Nat.le_of_eq count)
  obtain ⟨owned, free, same, names⟩ := emplaced (pool.getBuffers pages ids.length).2 (ids.zip (pool.getBuffers pages ids.length).1)
    (by rw [named]; exact live ▸ unique)
  have chunks : (ids.zip (pool.getBuffers pages ids.length).1).filterMap (fun given => given.2.chunk) =
      (pool.refill pages ids.length ids.length).freeList.take ids.length := by
    rw [← made_chunks ((pool.refill pages ids.length ids.length).freeList.take ids.length)]
    exact (List.filterMap_map (f := Prod.snd) (g := Buffer.chunk)).symm.trans (congrArg (List.filterMap Buffer.chunk) given)
  refine ⟨?_, ?_, ?_⟩
  · rw [names, named]
    exact live ▸ unique
  · rw [same]
    exact filled.allocated
  · rw [owned, free, chunks, List.append_assoc]
    unfold Pool.registered
    rw [same]
    refine List.Perm.trans (List.Perm.of_eq ?_) filled.whole
    exact congrArg (fun taken => (pool.refill pages ids.length ids.length).owned ++ taken) (List.take_append_drop ids.length _)

theorem emplace_conserved (pool : Pool) (pages : Nat → Page) (id localKey : Nat) (conserved : pool.Conserved pages)
    (fresh : id ∉ pool.live) : (pool.emplace id (Buffer.default localKey)).Conserved pages := by
  refine ⟨?_, conserved.allocated, ?_⟩
  · exact List.nodup_append.mpr ⟨conserved.unique, List.nodup_singleton id, fun other inside same last => by
      rw [List.mem_singleton] at last
      exact fun equal => fresh (by rw [← last, ← equal]; exact inside)⟩
  · rw [emplace_owned pool id _ fresh]
    exact (List.append_nil pool.owned).symm ▸ conserved.whole

theorem swap_conserved (pool : Pool) (pages : Nat → Page) (id other : Nat) (conserved : pool.Conserved pages) (left : id ∈ pool.live)
    (right : other ∈ pool.live) : (pool.swap id other).Conserved pages :=
  ⟨conserved.unique, conserved.allocated, ((swap_owned pool id other conserved.unique left right).append_right pool.freeList).trans conserved.whole⟩

theorem destroy_conserved (pool : Pool) (pages : Nat → Page) (id : Nat) (conserved : pool.Conserved pages) (inside : id ∈ pool.live) :
    (pool.destroy id).Conserved pages := by
  have split := Holders.held_remove pool.live (fun name => (pool.objects name).chunk) id inside
  unfold Pool.destroy
  by_cases managed : (pool.objects id).managed = true
  · rw [if_pos managed]
    refine ⟨conserved.unique.erase id, conserved.allocated, List.Perm.trans ?_ conserved.whole⟩
    have chunk : (pool.objects id).chunk.toList = [((pool.objects id).address, (pool.objects id).localKey)] := by
      unfold Buffer.chunk
      rw [if_pos managed]
      rfl
    rw [chunk] at split
    change (Holders.held (pool.live.erase id) (fun name => (pool.objects name).chunk) ++ (pool.freeList ++ [_])).Perm _
    rw [← List.append_assoc]
    refine List.perm_append_comm.trans ?_
    rw [← List.append_assoc]
    exact split.symm.append_right pool.freeList
  · rw [if_neg managed]
    refine ⟨conserved.unique.erase id, conserved.allocated, List.Perm.trans ?_ conserved.whole⟩
    have chunk : (pool.objects id).chunk.toList = [] := by
      unfold Buffer.chunk
      rw [if_neg managed]
      rfl
    rw [chunk] at split
    exact split.symm.append_right pool.freeList

theorem pool_step_conserved (pages : Nat → Page) (pool : Pool) (call : PoolCall) (next : Pool) (conserved : pool.Conserved pages)
    (taken : pool.step pages call = some next) : next.Conserved pages := by
  cases call with
  | getBuffers ids =>
      obtain ⟨unique, same⟩ := Option.ite_none_right_eq_some.mp taken
      rw [← Option.some.inj same]
      exact get_buffers_conserved pool pages ids conserved unique
  | construct id localKey =>
      obtain ⟨fresh, same⟩ := Option.ite_none_right_eq_some.mp taken
      rw [← Option.some.inj same]
      exact emplace_conserved pool pages id localKey conserved fresh
  | moveConstruct id localKey other =>
      obtain ⟨there, same⟩ := Option.ite_none_right_eq_some.mp taken
      rw [← Option.some.inj same]
      exact swap_conserved _ pages id other (emplace_conserved pool pages id localKey conserved there.1)
        (List.mem_append_right _ List.mem_cons_self) (List.mem_append_left _ there.2)
  | moveAssign id other =>
      obtain ⟨there, same⟩ := Option.ite_none_right_eq_some.mp taken
      rw [← Option.some.inj same]
      by_cases different : id ≠ other
      · rw [if_pos different]
        exact swap_conserved pool pages id other conserved there.1 there.2
      · rw [if_neg different]
        exact conserved
  | destroy id =>
      obtain ⟨inside, same⟩ := Option.ite_none_right_eq_some.mp taken
      rw [← Option.some.inj same]
      exact destroy_conserved pool pages id conserved inside

theorem chunk_of_page (page : Page) (chunk : Chunk) (member : chunk ∈ pageChunks page) :
    chunk.2 = page.localKey ∧ page.address ≤ chunk.1 ∧ chunk.1 + sendBufferSize ≤ page.address + hugePageSize := by
  obtain ⟨j, below, rfl⟩ := List.mem_map.mp member
  have bound : j < 1024 := List.mem_range.mp below
  refine ⟨rfl, Nat.le_add_right _ _, ?_⟩
  unfold sendBufferSize hugePageSize
  dsimp only
  omega

theorem page_chunks_apart (page : Page) : (pageChunks page).Pairwise Chunk.Apart := by
  refine List.Pairwise.map _ ?_ List.pairwise_lt_range
  intro first second below
  left
  unfold sendBufferSize
  dsimp only
  omega

theorem registered_apart (pages : Nat → Page) (apart : ∀ first second, first ≠ second → (pages first).Apart (pages second)) (pool : Pool)
    (conserved : pool.Conserved pages) : pool.registered.Pairwise Chunk.Apart := by
  unfold Pool.registered
  rw [conserved.allocated, List.pairwise_flatMap]
  refine ⟨fun page _ => page_chunks_apart page, List.Pairwise.map _ ?_ List.pairwise_lt_range⟩
  intro first second below left inFirst right inSecond
  obtain ⟨-, fromFirst, toFirst⟩ := chunk_of_page _ _ inFirst
  obtain ⟨-, fromSecond, toSecond⟩ := chunk_of_page _ _ inSecond
  obtain before | after := apart first second (Nat.ne_of_lt below)
  · left
    omega
  · right
    omega

-- The chunks are those of the pages, no two of them share memory, get_buffers returns
-- as many buffers as it is asked for, and a buffer has the key of the page it is in.
theorem send_buffers_conserved (pages : Nat → Page) (apart : ∀ first second, first ≠ second → (pages first).Apart (pages second))
    (calls : List PoolCall) (pool : Pool) (ran : Machine.run (Pool.step pages) {} calls = some pool) :
    (pool.owned ++ pool.freeList).Perm pool.registered ∧ (pool.owned ++ pool.freeList).Pairwise Chunk.Apart ∧
      (∀ numBuffers, (pool.getBuffers pages numBuffers).1.length = numBuffers) ∧
      ∀ chunk ∈ pool.owned ++ pool.freeList, ∃ page ∈ pool.pageList,
        chunk.2 = page.localKey ∧ page.address ≤ chunk.1 ∧ chunk.1 + sendBufferSize ≤ page.address + hugePageSize := by
  have conserved : pool.Conserved pages :=
    Machine.run_preserves (Pool.step pages) (Pool.Conserved pages) (pool_step_conserved pages) {} pool ⟨List.nodup_nil, rfl, List.Perm.nil⟩
      calls ran
  have symmetric : ∀ {first second : Chunk}, Chunk.Apart first second → Chunk.Apart second first := fun apart => apart.symm
  refine ⟨conserved.whole, (conserved.whole.pairwise_iff symmetric).mpr (registered_apart pages apart pool conserved), ?_, ?_⟩
  · exact get_buffers_length pool pages
  · intro chunk member
    obtain ⟨page, there, inside⟩ := List.mem_flatMap.mp (conserved.whole.mem_iff.mp member)
    exact ⟨page, there, chunk_of_page page chunk inside⟩

def pagesInARow (page : Nat) : Page := ⟨(page + 1) * hugePageSize, page⟩

-- Two buffers, a move out of one of them, a move onto the other, the end of the object
-- that holds nothing and of one that holds a buffer, and one more buffer.
def movesOfBuffers : List PoolCall :=
  [.getBuffers [0, 1], .construct 2 7, .moveConstruct 3 7 0, .moveAssign 3 1, .moveAssign 1 1, .moveAssign 2 3, .destroy 0, .destroy 1,
    .getBuffers [4]]

theorem send_buffers_conserved_moves : ∃ pool, Machine.run (Pool.step pagesInARow) {} movesOfBuffers = some pool ∧
    (pool.owned ++ pool.freeList).Perm pool.registered ∧ (pool.owned ++ pool.freeList).Pairwise Chunk.Apart ∧
      (∀ numBuffers, (pool.getBuffers pagesInARow numBuffers).1.length = numBuffers) ∧
      ∀ chunk ∈ pool.owned ++ pool.freeList, ∃ page ∈ pool.pageList,
        chunk.2 = page.localKey ∧ page.address ≤ chunk.1 ∧ chunk.1 + sendBufferSize ≤ page.address + hugePageSize := by
  have apart : ∀ first second, first ≠ second → (pagesInARow first).Apart (pagesInARow second) := by
    intro first second different
    unfold Page.Apart pagesInARow hugePageSize
    dsimp only
    omega
  have answered : (Machine.run (Pool.step pagesInARow) {} movesOfBuffers).isSome = true := by decide +kernel
  obtain ⟨pool, ran⟩ := Option.isSome_iff_exists.mp answered
  exact ⟨pool, ran, send_buffers_conserved pagesInARow apart movesOfBuffers pool ran⟩

end ZipLog.Network
