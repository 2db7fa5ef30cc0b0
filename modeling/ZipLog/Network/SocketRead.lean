import ZipLog.Api

set_option autoImplicit false

namespace ZipLog.Network

-- What comes after the bytes of the peer: ::recv returns -1 and sets errno, or the
-- peer has closed the connection and ::recv returns 0.
inductive Ending where
  | error (errno : Nat) (failed : errno ≠ 0)
  | closed

-- A connected socket. The bytes that the peer has sent are there in pieces.
structure Socket where
  chunks : List Bytes
  ending : Ending
  nonempty : ∀ chunk ∈ chunks, chunk ≠ []

def Socket.bytes (socket : Socket) : Bytes := socket.chunks.flatten

-- ::recv for at least one byte. A piece that is longer than the space stays with the
-- rest of it.
def Socket.recv (socket : Socket) (space : Nat) : Except Nat Bytes × Socket :=
  match same : socket.chunks with
  | [] =>
      match socket.ending with
      | .error errno _ => (.error errno, socket)
      | .closed => (.ok [], socket)
  | chunk :: rest =>
      if short : chunk.length ≤ space then
        (.ok chunk, ⟨rest, socket.ending, fun other member => socket.nonempty other (by rw [same]; exact List.mem_cons_of_mem _ member)⟩)
      else
        (.ok (chunk.take space), ⟨chunk.drop space :: rest, socket.ending, by
          intro other member
          obtain rfl | later := List.mem_cons.mp member
          · exact fun empty => short (List.drop_eq_nil_iff.mp empty)
          · exact socket.nonempty other (by rw [same]; exact List.mem_cons_of_mem _ later)⟩)

-- detail::recv from the offset that data has reached. The fuel bounds the turns of
-- the loop; the result is the returned value with what has been written to data.
def Socket.readLoop (length : Nat) : Nat → Socket → Bytes → Option (Nat × Bytes)
  | 0, _, _ => none
  | fuel + 1, socket, data =>
      if data.length < length then
        match socket.recv (length - data.length) with
        | (.error errno, _) => some (errno, data)
        | (.ok received, later) => later.readLoop length fuel (data ++ received)
      else some (0, data)

def Socket.read (fuel : Nat) (socket : Socket) (length : Nat) : Option (Nat × Bytes) := socket.readLoop length fuel []

-- The loop ends, with 0 exactly if enough bytes came, and these are then in data.
def ReadEnds (socket : Socket) (length : Nat) : Prop :=
  ∃ fuel status data, socket.read fuel length = some (status, data) ∧ (status = 0 ↔ length ≤ socket.bytes.length) ∧
    (status = 0 → data = socket.bytes.take length)

theorem recv_some (socket : Socket) (space : Nat) (positive : 0 < space) (some_ : socket.bytes ≠ []) :
    ∃ received later, socket.recv space = (.ok received, later) ∧ 0 < received.length ∧ received.length ≤ space ∧
      socket.bytes = received ++ later.bytes ∧ later.ending = socket.ending := by
  obtain ⟨chunks, ending, nonempty⟩ := socket
  cases chunks with
  | nil => exact absurd rfl some_
  | cons chunk rest =>
      have filled := List.length_pos_iff.mpr (nonempty chunk List.mem_cons_self)
      unfold Socket.recv
      dsimp only
      by_cases short : chunk.length ≤ space
      · rw [dif_pos short]
        exact ⟨chunk, _, rfl, filled, short, rfl, rfl⟩
      · rw [dif_neg short]
        refine ⟨chunk.take space, _, rfl, ?_, ?_, ?_, rfl⟩
        · rw [List.length_take]
          omega
        · rw [List.length_take]
          omega
        · change (chunk :: rest).flatten = chunk.take space ++ (chunk.drop space :: rest).flatten
          rw [List.flatten_cons, List.flatten_cons, ← List.append_assoc, List.take_append_drop]

theorem recv_none (socket : Socket) (space : Nat) (none_ : socket.bytes = []) :
    socket.recv space = match socket.ending with
      | .error errno _ => (.error errno, socket)
      | .closed => (.ok [], socket) := by
  obtain ⟨chunks, ending, nonempty⟩ := socket
  cases chunks with
  | nil => cases ending <;> rfl
  | cons chunk rest =>
      have empty : chunk ++ rest.flatten = [] := none_
      exact absurd (List.append_eq_nil_iff.mp empty).1 (nonempty chunk List.mem_cons_self)

theorem read_loop_step (length fuel : Nat) (socket later : Socket) (data received : Bytes) (wanted : data.length < length)
    (got : socket.recv (length - data.length) = (.ok received, later)) :
    socket.readLoop length (fuel + 1) data = later.readLoop length fuel (data ++ received) := by
  rw [Socket.readLoop, if_pos wanted, got]

-- While there are bytes each turn takes some of them.
theorem read_loop_bytes (length count : Nat) (socket : Socket) (data : Bytes) (left : length - data.length ≤ count)
    (fits : data.length ≤ length) (enough : length ≤ data.length + socket.bytes.length) :
    ∃ fuel, socket.readLoop length fuel data = some (0, data ++ socket.bytes.take (length - data.length)) := by
  induction count generalizing socket data with
  | zero =>
      refine ⟨1, ?_⟩
      rw [Socket.readLoop, if_neg (by omega), Nat.le_zero.mp left, List.take_zero, List.append_nil]
  | succ count ih =>
      by_cases wanted : data.length < length
      · have some_ : socket.bytes ≠ [] := by
          intro empty
          rw [empty, List.length_nil] at enough
          omega
        obtain ⟨received, later, got, positive, short, split, -⟩ := recv_some socket (length - data.length) (by omega) some_
        have grown : (data ++ received).length = data.length + received.length := List.length_append
        have total : socket.bytes.length = received.length + later.bytes.length := by rw [split, List.length_append]
        obtain ⟨fuel, rest⟩ := ih later (data ++ received) (by omega) (by omega) (by omega)
        refine ⟨fuel + 1, ?_⟩
        rw [read_loop_step length fuel socket later data received wanted got, rest, grown, split, List.append_assoc,
          List.take_append, List.take_of_length_le short, Nat.sub_sub]
      · refine ⟨1, ?_⟩
        rw [Socket.readLoop, if_neg wanted, Nat.sub_eq_zero_of_le (Nat.le_of_not_lt wanted), List.take_zero, List.append_nil]

theorem read_loop_error (length errno count : Nat) (failed : errno ≠ 0) (socket : Socket) (data : Bytes)
    (ending : socket.ending = .error errno failed) (left : socket.bytes.length ≤ count) (short : data.length + socket.bytes.length < length) :
    ∃ fuel rest, socket.readLoop length fuel data = some (errno, rest) := by
  induction count generalizing socket data with
  | zero =>
      have none_ : socket.bytes = [] := List.length_eq_zero_iff.mp (Nat.le_zero.mp left)
      refine ⟨1, data, ?_⟩
      rw [Socket.readLoop, if_pos (by omega), recv_none socket _ none_, ending]
  | succ count ih =>
      by_cases none_ : socket.bytes = []
      · refine ⟨1, data, ?_⟩
        rw [Socket.readLoop, if_pos (by omega), recv_none socket _ none_, ending]
      · obtain ⟨received, later, got, positive, -, split, same⟩ := recv_some socket (length - data.length) (by omega) none_
        have grown : (data ++ received).length = data.length + received.length := List.length_append
        have total : socket.bytes.length = received.length + later.bytes.length := by rw [split, List.length_append]
        obtain ⟨fuel, rest, done⟩ := ih later (data ++ received) (same.trans ending) (by omega) (by omega)
        exact ⟨fuel + 1, rest, by rw [read_loop_step length fuel socket later data received (by omega) got, done]⟩

-- A closed connection returns no bytes, and the loop asks again.
theorem read_loop_closed (length fuel : Nat) (socket : Socket) (data : Bytes) (ending : socket.ending = .closed)
    (short : data.length + socket.bytes.length < length) : socket.readLoop length fuel data = none := by
  induction fuel generalizing socket data with
  | zero => rfl
  | succ fuel ih =>
      by_cases none_ : socket.bytes = []
      · have got : socket.recv (length - data.length) = (.ok [], socket) := by rw [recv_none socket _ none_, ending]
        rw [read_loop_step length fuel socket socket data [] (by omega) got, List.append_nil]
        exact ih socket data ending short
      · obtain ⟨received, later, got, -, -, split, same⟩ := recv_some socket (length - data.length) (by omega) none_
        have grown : (data ++ received).length = data.length + received.length := List.length_append
        have total : socket.bytes.length = received.length + later.bytes.length := by rw [split, List.length_append]
        rw [read_loop_step length fuel socket later data received (by omega) got]
        exact ih later (data ++ received) (same.trans ending) (by omega)

-- The main result. The loop does what is asked of it unless the peer closes the
-- connection before it has sent the bytes.
theorem read_ends_iff (socket : Socket) (length : Nat) :
    ReadEnds socket length ↔ (socket.ending = .closed → length ≤ socket.bytes.length) := by
  constructor
  · rintro ⟨fuel, status, data, returned, -, -⟩ closed
    by_contra short
    rw [Socket.read, read_loop_closed length fuel socket [] closed (by rw [List.length_nil]; omega)] at returned
    cases returned
  · intro condition
    by_cases enough : length ≤ socket.bytes.length
    · obtain ⟨fuel, returned⟩ := read_loop_bytes length length socket [] (Nat.le_refl _) (Nat.zero_le _)
        (by rw [List.length_nil]; omega)
      exact ⟨fuel, 0, _, returned, ⟨fun _ => enough, fun _ => rfl⟩, fun _ => rfl⟩
    · cases ending : socket.ending with
      | closed => exact absurd (condition ending) enough
      | error errno failed =>
          obtain ⟨fuel, data, returned⟩ := read_loop_error length errno _ failed socket [] ending (Nat.le_refl _)
            (by rw [List.length_nil]; omega)
          exact ⟨fuel, errno, data, returned, ⟨fun zero => absurd zero failed, fun short => absurd short enough⟩,
            fun zero => absurd zero failed⟩

-- The peer closes the connection without having sent the number of queues.
theorem read_of_closed_spins : ¬ ReadEnds ⟨[], .closed, fun _ member => absurd member List.not_mem_nil⟩ 8 ∧
    ∀ fuel, Socket.read fuel ⟨[], .closed, fun _ member => absurd member List.not_mem_nil⟩ 8 = none := by
  have spins : ∀ fuel, Socket.read fuel ⟨[], .closed, fun _ member => absurd member List.not_mem_nil⟩ 8 = none :=
    fun fuel => read_loop_closed 8 fuel _ [] rfl (by decide)
  refine ⟨?_, spins⟩
  rintro ⟨fuel, status, data, returned, -, -⟩
  rw [spins fuel] at returned
  cases returned

end ZipLog.Network
