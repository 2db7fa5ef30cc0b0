import ZipLog.Lib.Run

set_option autoImplicit false

namespace Exchange

variable {β α γ : Type}

-- A program that talks to one peer over two streams. The continuation of send is
-- told whether it failed, that of recv gets what was received unless it failed.
inductive Program (β α : Type) where
  | done (result : α)
  | send (data : List β) (next : Bool → Program β α)
  | recv (count : Nat) (next : Option (List β) → Program β α)

-- A call whose failure ends the program.
def sendOr (data : List β) (failure : α) (next : Program β α) : Program β α :=
  .send data (fun failed => if failed then .done failure else next)

def recvOr (count : Nat) (failure : α) (next : List β → Program β α) : Program β α :=
  .recv count (fun received => match received with
    | none => .done failure
    | some data => next data)

-- How a call of a program ends, without the peer.
inductive Answer (β : Type) where
  | sent
  | received (data : List β)
  | failed
deriving DecidableEq, Repr

-- The result if these are all the calls.
def Program.answer (program : Program β α) : List (Answer β) → Option α
  | [] =>
      match program with
      | .done result => some result
      | _ => none
  | call :: calls =>
      match program, call with
      | .send _ next, .sent => (next false).answer calls
      | .send _ next, .failed => (next true).answer calls
      | .recv count next, .received data => if data.length = count then (next (some data)).answer calls else none
      | .recv _ next, .failed => (next none).answer calls
      | _, _ => none

-- Once a call has failed there is only one result.
def EndsIn (failure : α) (program : Program β α) : Prop :=
  ∀ calls result, program.answer calls = some result → .failed ∈ calls → result = failure

-- Two programs with what is under way between them.
structure Pair (β α γ : Type) where
  left : Program β α
  right : Program β γ
  toRight : List β
  toLeft : List β

inductive Side where
  | left
  | right
deriving DecidableEq, Repr

-- A call of send or recv moves some of the bytes, and the loop around it ends
-- when none are left.
inductive Event where
  | move (side : Side) (count : Nat)
  | finish (side : Side)
deriving DecidableEq, Repr

-- One program with the stream to it and the stream from it.
def moveBytes (program : Program β α) (incoming outgoing : List β) (count : Nat) : Option (Program β α × List β × List β) :=
  match program with
  | .done _ => none
  | .send data next =>
      if 0 < count ∧ count ≤ data.length then some (.send (data.drop count) next, incoming, outgoing ++ data.take count) else none
  | .recv wanted next =>
      if 0 < count ∧ count ≤ wanted ∧ count ≤ incoming.length then
        some (.recv (wanted - count) (fun rest => next (rest.map (incoming.take count ++ ·))), incoming.drop count, outgoing)
      else none

def finishLoop : Program β α → Option (Program β α)
  | .done _ => none
  | .send data next => if data = [] then some (next false) else none
  | .recv wanted next => if wanted = 0 then some (next (some [])) else none

def Pair.step (s : Pair β α γ) : Event → Option (Pair β α γ)
  | .move .left count =>
      (moveBytes s.left s.toLeft s.toRight count).map (fun moved => ⟨moved.1, s.right, moved.2.2, moved.2.1⟩)
  | .move .right count =>
      (moveBytes s.right s.toRight s.toLeft count).map (fun moved => ⟨s.left, moved.1, moved.2.1, moved.2.2⟩)
  | .finish .left => (finishLoop s.left).map (fun program => { s with left := program })
  | .finish .right => (finishLoop s.right).map (fun program => { s with right := program })

-- Two programs fit: with the bytes under way they come to the results a and b
-- in the given number of steps, one for each byte and one for each call.
inductive Agree (a : α) (b : γ) : Program β α → Program β γ → List β → List β → Nat → Prop
  | done : Agree a b (.done a) (.done b) [] [] 0
  | sendLeft (data : List β) (next : Bool → Program β α) (right : Program β γ) (toRight toLeft : List β) (cost : Nat) :
      Agree a b (next false) right (toRight ++ data) toLeft cost →
      Agree a b (.send data next) right toRight toLeft (cost + data.length + 1)
  | sendRight (data : List β) (next : Bool → Program β γ) (left : Program β α) (toRight toLeft : List β) (cost : Nat) :
      Agree a b left (next false) toRight (toLeft ++ data) cost →
      Agree a b left (.send data next) toRight toLeft (cost + data.length + 1)
  | recvLeft (data : List β) (next : Option (List β) → Program β α) (right : Program β γ) (toRight toLeft : List β) (cost : Nat) :
      Agree a b (next (some data)) right toRight toLeft cost →
      Agree a b (.recv data.length next) right toRight (data ++ toLeft) (cost + data.length + 1)
  | recvRight (data : List β) (next : Option (List β) → Program β γ) (left : Program β α) (toRight toLeft : List β) (cost : Nat) :
      Agree a b left (next (some data)) toRight toLeft cost →
      Agree a b left (.recv data.length next) (data ++ toRight) toLeft (cost + data.length + 1)

theorem agree_flip (a : α) (b : γ) (left : Program β α) (right : Program β γ) (toRight toLeft : List β) (cost : Nat)
    (agree : Agree a b left right toRight toLeft cost) : Agree b a right left toLeft toRight cost := by
  induction agree with
  | done => exact .done
  | sendLeft data next right toRight toLeft cost _ ih => exact .sendRight data next right toLeft toRight cost ih
  | sendRight data next left toRight toLeft cost _ ih => exact .sendLeft data next left toLeft toRight cost ih
  | recvLeft data next right toRight toLeft cost _ ih => exact .recvRight data next right toLeft toRight cost ih
  | recvRight data next left toRight toLeft cost _ ih => exact .recvLeft data next left toLeft toRight cost ih

-- One program sends what the other one receives.
theorem agree_pass_right (a failed : α) (b failed' : γ) (data : List β) (count : Nat) (sized : data.length = count) (next : Program β α)
    (next' : List β → Program β γ) (agree : ∃ cost, Agree a b next (next' data) [] [] cost) :
    ∃ cost, Agree a b (sendOr data failed next) (recvOr count failed' next') [] [] cost := by
  obtain ⟨cost, agree⟩ := agree
  subst sized
  have received : Agree a b next (recvOr data.length failed' next') (data ++ []) [] (cost + data.length + 1) :=
    Agree.recvRight data (fun received => match received with
      | none => .done failed'
      | some data => next' data) next [] [] cost agree
  rw [List.append_nil] at received
  exact ⟨_, .sendLeft data _ _ [] [] _ received⟩

theorem agree_pass_left (a failed : α) (b failed' : γ) (data : List β) (count : Nat) (sized : data.length = count)
    (next : List β → Program β α) (next' : Program β γ) (agree : ∃ cost, Agree a b (next data) next' [] [] cost) :
    ∃ cost, Agree a b (recvOr count failed next) (sendOr data failed' next') [] [] cost := by
  obtain ⟨cost, agree⟩ := agree
  obtain ⟨total, flipped⟩ := agree_pass_right b failed' a failed data count sized next' next ⟨cost, agree_flip _ _ _ _ _ _ _ agree⟩
  exact ⟨total, agree_flip _ _ _ _ _ _ _ flipped⟩

theorem agree_done (a result : α) (b : γ) (right : Program β γ) (toRight toLeft : List β) (cost : Nat)
    (agree : Agree a b (.done result) right toRight toLeft cost) : result = a := by
  generalize program : Program.done result = left at agree
  induction agree with
  | done => exact Program.done.inj program
  | sendLeft => cases program
  | sendRight _ _ _ _ _ _ _ ih => exact ih program
  | recvLeft => cases program
  | recvRight _ _ _ _ _ _ _ ih => exact ih program

theorem agree_send (a : α) (b : γ) (data : List β) (next : Bool → Program β α) (right : Program β γ) (toRight toLeft : List β)
    (cost count : Nat) (enough : count ≤ data.length) (agree : Agree a b (.send data next) right toRight toLeft cost) :
    ∃ rest, cost = rest + count ∧ Agree a b (.send (data.drop count) next) right (toRight ++ data.take count) toLeft rest := by
  generalize program : Program.send data next = left at agree
  induction agree with
  | done => cases program
  | sendLeft data' next' right toRight toLeft cost agree _ =>
      cases program
      refine ⟨cost + (data.drop count).length + 1, by rw [List.length_drop]; omega, .sendLeft _ _ _ _ _ _ ?_⟩
      rwa [List.append_assoc, List.take_append_drop]
  | sendRight data' next' left toRight toLeft cost _ ih =>
      subst program
      obtain ⟨rest, total, agree⟩ := ih rfl
      exact ⟨rest + data'.length + 1, by omega, .sendRight _ _ _ _ _ _ agree⟩
  | recvLeft => cases program
  | recvRight data' next' left toRight toLeft cost _ ih =>
      subst program
      obtain ⟨rest, total, agree⟩ := ih rfl
      refine ⟨rest + data'.length + 1, by omega, ?_⟩
      rw [List.append_assoc]
      exact .recvRight _ _ _ _ _ _ agree

theorem agree_recv (a : α) (b : γ) (wanted : Nat) (next : Option (List β) → Program β α) (right : Program β γ) (toRight toLeft : List β)
    (cost count : Nat) (enough : count ≤ wanted) (arrived : count ≤ toLeft.length)
    (agree : Agree a b (.recv wanted next) right toRight toLeft cost) :
    ∃ rest, cost = rest + count ∧
      Agree a b (.recv (wanted - count) (fun later => next (later.map (toLeft.take count ++ ·)))) right toRight (toLeft.drop count) rest := by
  generalize program : Program.recv wanted next = left at agree
  induction agree with
  | done => cases program
  | sendLeft => cases program
  | sendRight data' next' left toRight toLeft cost _ ih =>
      subst program
      obtain ⟨rest, total, agree⟩ := ih (by rw [List.length_append]; omega) rfl
      rw [List.take_append_of_le_length arrived, List.drop_append_of_le_length arrived] at agree
      exact ⟨rest + data'.length + 1, by omega, .sendRight _ _ _ _ _ _ agree⟩
  | recvLeft data' next' right toRight toLeft cost agree _ =>
      cases program
      refine ⟨cost + (data'.drop count).length + 1, by rw [List.length_drop]; omega, ?_⟩
      rw [List.take_append_of_le_length enough, List.drop_append_of_le_length enough, ← List.length_drop]
      apply Agree.recvLeft
      rwa [Option.map_some, List.take_append_drop]
  | recvRight data' next' left toRight toLeft cost _ ih =>
      subst program
      obtain ⟨rest, total, agree⟩ := ih arrived rfl
      exact ⟨rest + data'.length + 1, by omega, .recvRight _ _ _ _ _ _ agree⟩

theorem agree_finish (a : α) (b : γ) (left next : Program β α) (right : Program β γ) (toRight toLeft : List β) (cost : Nat)
    (finished : finishLoop left = some next) (agree : Agree a b left right toRight toLeft cost) :
    ∃ rest, cost = rest + 1 ∧ Agree a b next right toRight toLeft rest := by
  induction agree with
  | done => cases finished
  | sendLeft data next' right toRight toLeft cost agree _ =>
      rw [finishLoop, Option.ite_none_right_eq_some] at finished
      obtain ⟨rfl, same⟩ := finished
      cases same
      rw [List.append_nil] at agree
      exact ⟨cost, rfl, agree⟩
  | sendRight data next' left toRight toLeft cost _ ih =>
      obtain ⟨rest, total, agree⟩ := ih finished
      exact ⟨rest + data.length + 1, by omega, .sendRight _ _ _ _ _ _ agree⟩
  | recvLeft data next' right toRight toLeft cost agree _ =>
      rw [finishLoop, Option.ite_none_right_eq_some, List.length_eq_zero_iff] at finished
      obtain ⟨rfl, same⟩ := finished
      cases same
      exact ⟨cost, rfl, agree⟩
  | recvRight data next' left toRight toLeft cost _ ih =>
      obtain ⟨rest, total, agree⟩ := ih finished
      exact ⟨rest + data.length + 1, by omega, .recvRight _ _ _ _ _ _ agree⟩

theorem agree_move (a : α) (b : γ) (left next : Program β α) (right : Program β γ) (toRight toLeft incoming outgoing : List β)
    (cost count : Nat) (moved : moveBytes left toLeft toRight count = some (next, incoming, outgoing))
    (agree : Agree a b left right toRight toLeft cost) :
    ∃ rest, rest < cost ∧ Agree a b next right outgoing incoming rest := by
  cases left with
  | done => cases moved
  | send data after =>
      rw [moveBytes, Option.ite_none_right_eq_some] at moved
      obtain ⟨⟨positive, enough⟩, same⟩ := moved
      cases same
      obtain ⟨rest, total, agree⟩ := agree_send a b data after right toRight toLeft cost count enough agree
      exact ⟨rest, by omega, agree⟩
  | recv wanted after =>
      rw [moveBytes, Option.ite_none_right_eq_some] at moved
      obtain ⟨⟨positive, enough, arrived⟩, same⟩ := moved
      cases same
      obtain ⟨rest, total, agree⟩ := agree_recv a b wanted after right toRight toLeft cost count enough arrived agree
      exact ⟨rest, by omega, agree⟩

theorem step_agree (a : α) (b : γ) (s next : Pair β α γ) (event : Event) (cost : Nat) (stepped : s.step event = some next)
    (agree : Agree a b s.left s.right s.toRight s.toLeft cost) :
    ∃ rest, rest < cost ∧ Agree a b next.left next.right next.toRight next.toLeft rest := by
  cases event with
  | move side count =>
      cases side with
      | left =>
          obtain ⟨⟨program, incoming, outgoing⟩, moved, rfl⟩ := Option.map_eq_some_iff.mp stepped
          exact agree_move a b s.left program s.right _ _ incoming outgoing cost count moved agree
      | right =>
          obtain ⟨⟨program, incoming, outgoing⟩, moved, rfl⟩ := Option.map_eq_some_iff.mp stepped
          obtain ⟨rest, less, agree⟩ :=
            agree_move b a s.right program s.left _ _ incoming outgoing cost count moved (agree_flip _ _ _ _ _ _ _ agree)
          exact ⟨rest, less, agree_flip _ _ _ _ _ _ _ agree⟩
  | finish side =>
      cases side with
      | left =>
          obtain ⟨program, finished, rfl⟩ := Option.map_eq_some_iff.mp stepped
          obtain ⟨rest, total, agree⟩ := agree_finish a b s.left program s.right _ _ cost finished agree
          exact ⟨rest, by omega, agree⟩
      | right =>
          obtain ⟨program, finished, rfl⟩ := Option.map_eq_some_iff.mp stepped
          obtain ⟨rest, total, agree⟩ := agree_finish b a s.right program s.left _ _ cost finished (agree_flip _ _ _ _ _ _ _ agree)
          exact ⟨rest, by omega, agree_flip _ _ _ _ _ _ _ agree⟩

theorem send_moves (data incoming outgoing : List β) (next : Bool → Program β α) (finished : finishLoop (.send data next) = none)
    (moved : moveBytes (.send data next) incoming outgoing data.length = none) : False := by
  cases data with
  | nil => cases finished
  | cons head rest => simp [moveBytes] at moved

theorem recv_moves (data incoming outgoing : List β) (next : Option (List β) → Program β α)
    (finished : finishLoop (.recv data.length next) = none)
    (moved : moveBytes (.recv data.length next) (data ++ incoming) outgoing data.length = none) : False := by
  cases data with
  | nil => cases finished
  | cons head rest => simp [moveBytes] at moved

theorem agree_stuck (a : α) (b : γ) (left : Program β α) (right : Program β γ) (toRight toLeft : List β) (cost : Nat)
    (agree : Agree a b left right toRight toLeft cost) (stuck : ∀ event, (Pair.mk left right toRight toLeft).step event = none) :
    left = .done a ∧ right = .done b ∧ toRight = [] ∧ toLeft = [] := by
  cases agree with
  | done => exact ⟨rfl, rfl, rfl, rfl⟩
  | sendLeft data next _ _ _ cost _ =>
      exact (send_moves data toLeft toRight next (Option.map_eq_none_iff.mp (stuck (.finish .left)))
        (Option.map_eq_none_iff.mp (stuck (.move .left data.length)))).elim
  | sendRight data next _ _ _ cost _ =>
      exact (send_moves data toRight toLeft next (Option.map_eq_none_iff.mp (stuck (.finish .right)))
        (Option.map_eq_none_iff.mp (stuck (.move .right data.length)))).elim
  | recvLeft data next _ _ toLeft cost _ =>
      exact (recv_moves data toLeft toRight next (Option.map_eq_none_iff.mp (stuck (.finish .left)))
        (Option.map_eq_none_iff.mp (stuck (.move .left data.length)))).elim
  | recvRight data next _ toRight _ cost _ =>
      exact (recv_moves data toRight toLeft next (Option.map_eq_none_iff.mp (stuck (.finish .right)))
        (Option.map_eq_none_iff.mp (stuck (.move .right data.length)))).elim

-- However the bytes are cut up, a run is not longer than the cost, a program
-- that is done has its result, and a run that cannot go on is done on both sides.
theorem run_agree (a : α) (b : γ) (start final : Pair β α γ) (cost : Nat) (events : List Event)
    (agree : Agree a b start.left start.right start.toRight start.toLeft cost) (ran : Machine.run Pair.step start events = some final) :
    events.length ≤ cost ∧ (∀ result, final.left = .done result → result = a) ∧ (∀ result, final.right = .done result → result = b) ∧
      ((∀ event, final.step event = none) →
        final.left = .done a ∧ final.right = .done b ∧ final.toRight = [] ∧ final.toLeft = []) := by
  have kept := Machine.run_invariant Pair.step start
    (fun events s => ∃ rest, events.length + rest ≤ cost ∧ Agree a b s.left s.right s.toRight s.toLeft rest)
    ⟨cost, by rw [List.length_nil]; omega, agree⟩
    (fun events s event next before stepped => by
      obtain ⟨rest, bound, agree⟩ := before
      obtain ⟨later, less, agree⟩ := step_agree a b s next event rest stepped agree
      exact ⟨later, by rw [List.length_append, List.length_singleton]; omega, agree⟩)
    events final ran
  obtain ⟨rest, bound, agree⟩ := kept
  refine ⟨by omega, ?_, ?_, agree_stuck a b _ _ _ _ rest agree⟩
  · intro result finished
    rw [finished] at agree
    exact agree_done a result b _ _ _ rest agree
  · intro result finished
    rw [finished] at agree
    exact agree_done b result a _ _ _ rest (agree_flip _ _ _ _ _ _ _ agree)

theorem answer_done (result other : α) (calls : List (Answer β)) (answered : (Program.done result).answer calls = some other) :
    calls = [] ∧ other = result := by
  cases calls with
  | nil => exact ⟨rfl, (Option.some.inj answered).symm⟩
  | cons call calls => cases call <;> cases answered

theorem ends_done (failure result : α) : EndsIn failure (.done result : Program β α) := by
  intro calls other answered member
  obtain ⟨rfl, -⟩ := answer_done result other calls answered
  cases member

theorem ends_send (failure : α) (data : List β) (next : Program β α) (ends : EndsIn failure next) :
    EndsIn failure (sendOr data failure next) := by
  intro calls result answered member
  cases calls with
  | nil => cases member
  | cons call calls =>
      cases call with
      | sent =>
          cases member with
          | tail _ member => exact ends calls result answered member
      | received other => cases answered
      | failed => exact (answer_done failure result calls answered).2

theorem ends_recv (failure : α) (count : Nat) (next : List β → Program β α) (ends : ∀ data, EndsIn failure (next data)) :
    EndsIn failure (recvOr count failure next) := by
  intro calls result answered member
  cases calls with
  | nil => cases member
  | cons call calls =>
      cases call with
      | sent => cases answered
      | received data =>
          cases member with
          | tail _ member =>
              obtain ⟨-, later⟩ := Option.ite_none_right_eq_some.mp answered
              exact ends data calls result later member
      | failed => exact (answer_done failure result calls answered).2

end Exchange
