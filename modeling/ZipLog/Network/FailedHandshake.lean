import ZipLog.Network.Handshake
import Mathlib.Data.Finset.Card

set_option autoImplicit false

namespace ZipLog.Network

open Exchange

-- The bits of free_receive_buffers_ that are set.
def Manager.freeIndices (manager : Manager) : Finset Nat :=
  (Finset.range maxQueuePairs).filter (fun index => manager.freeReceiveBuffers index = true)

-- A call of accept or connect: its arguments, the queue number of the peer, and how
-- the socket calls after the exchange of the queue numbers end.
structure Attempt where
  accepting : Bool
  device : Device
  message : Bytes
  mine : UInt64
  other : Bytes
  answers : List (Answer UInt8)

def Node.attempt (node : Node) (attempt : Attempt) : Option Outcome :=
  if attempt.accepting then (node.accept attempt.device attempt.message attempt.mine).answer (.received attempt.other :: .sent :: attempt.answers)
  else (node.connect attempt.device attempt.message attempt.mine).answer (.sent :: .received attempt.other :: attempt.answers)

def Attempt.numQueues (attempt : Attempt) : Nat := Network.numQueues attempt.mine.toNat (Word.decode attempt.other)

-- The call returns empty and the manager is as it was.
def Outcome.Restores (outcome : Outcome) (node : Node) : Prop :=
  ∃ after, outcome = .empty after ∧ after.manager.freeIndices = node.manager.freeIndices ∧ after.handshakes = node.handshakes

-- A manager over handshakes that fail.
def Node.failStep (node : Node) (attempt : Attempt) : Option Node :=
  match node.attempt attempt with
  | some (.empty after) => if .failed ∈ attempt.answers then some after else none
  | _ => none

theorem num_queues_pos (mine other : Nat) : 0 < numQueues mine other := by
  unfold numQueues
  by_cases left : mine = 0 <;> by_cases right : other = 0 <;> simp [left, right] <;> omega

-- What follows the allocation of the queues in accept and in connect can only
-- end in empty once a call has failed.
theorem attempt_fails (node : Node) (attempt : Attempt) (outcome : Outcome) (fails : .failed ∈ attempt.answers)
    (returned : node.attempt attempt = some outcome) :
    ∃ after buffers, node.setupQueues attempt.device attempt.numQueues = some (after, buffers) ∧ outcome = .empty after := by
  rw [Node.attempt] at returned
  unfold Attempt.numQueues
  by_cases accepting : attempt.accepting = true
  · rw [if_pos accepting] at returned
    obtain ⟨-, answered⟩ := Option.ite_none_right_eq_some.mp returned
    dsimp only at answered
    cases created : node.setupQueues attempt.device (Network.numQueues attempt.mine.toNat (Word.decode attempt.other)) with
    | none =>
        rw [created] at answered
        obtain ⟨nothing, -⟩ := answer_done _ _ _ answered
        rw [nothing] at fails
        cases fails
    | some pair =>
        obtain ⟨after, buffers⟩ := pair
        rw [created] at answered
        refine ⟨after, buffers, rfl, ?_⟩
        refine ends_recv _ _ _ ?_ attempt.answers outcome answered fails
        intro size
        exact ends_send _ _ _ (ends_recv _ _ _ (fun _ => ends_send _ _ _ (ends_done _ _)))
  · rw [if_neg accepting] at returned
    obtain ⟨-, answered⟩ := Option.ite_none_right_eq_some.mp returned
    dsimp only at answered
    cases created : node.setupQueues attempt.device (Network.numQueues attempt.mine.toNat (Word.decode attempt.other)) with
    | none =>
        rw [created] at answered
        obtain ⟨nothing, -⟩ := answer_done _ _ _ answered
        rw [nothing] at fails
        cases fails
    | some pair =>
        obtain ⟨after, buffers⟩ := pair
        rw [created] at answered
        refine ⟨after, buffers, rfl, ?_⟩
        refine ends_send _ _ _ (ends_recv _ _ _ ?_) attempt.answers outcome answered fails
        intro size
        exact ends_send _ _ _ (ends_recv _ _ _ (fun _ => ends_done _ _))

theorem setup_queues_taken (node after : Node) (device : Device) (count : Nat) (buffers : List ReceiveBuffer)
    (created : node.setupQueues device count = some (after, buffers)) :
    after.manager.freeIndices ⊆ node.manager.freeIndices ∧
      after.manager.freeIndices.card + count = node.manager.freeIndices.card := by
  have indices := setup_queues_indices device count node after buffers created
  obtain ⟨length, nodup, wereFree, marks⟩ := create_receive_buffers_fresh count _ _ _ indices
  have small := (setup_queues_buffers device count node after buffers created).2
  have taken : after.manager.freeIndices = node.manager.freeIndices \ (buffers.map ReceiveBuffer.index).toFinset := by
    ext index
    rw [Finset.mem_sdiff, List.mem_toFinset, Manager.freeIndices, Manager.freeIndices, Finset.mem_filter, Finset.mem_filter, marks index]
    by_cases listed : index ∈ buffers.map ReceiveBuffer.index
    · rw [if_pos listed]
      simp only [listed, Bool.false_eq_true, and_false, not_true_eq_false]
    · rw [if_neg listed]
      simp only [listed, not_false_eq_true, and_true]
  have inside : (buffers.map ReceiveBuffer.index).toFinset ⊆ node.manager.freeIndices := by
    intro index member
    rw [List.mem_toFinset] at member
    obtain ⟨buffer, listed, rfl⟩ := List.mem_map.mp member
    exact Finset.mem_filter.mpr ⟨Finset.mem_range.mpr (small buffer listed), wereFree _ member⟩
  refine ⟨by rw [taken]; exact Finset.sdiff_subset, ?_⟩
  calc after.manager.freeIndices.card + count
      = (node.manager.freeIndices \ (buffers.map ReceiveBuffer.index).toFinset).card + (buffers.map ReceiveBuffer.index).toFinset.card := by
        rw [taken, List.toFinset_card_of_nodup nodup, length]
    _ = node.manager.freeIndices.card := Finset.card_sdiff_add_card_eq_card inside

theorem fail_step_taken (node after : Node) (attempt : Attempt) (stepped : node.failStep attempt = some after) :
    after.manager.freeIndices.card + attempt.numQueues = node.manager.freeIndices.card := by
  unfold Node.failStep at stepped
  cases returned : node.attempt attempt with
  | none =>
      rw [returned] at stepped
      cases stepped
  | some outcome =>
      rw [returned] at stepped
      cases outcome with
      | empty left =>
          obtain ⟨fails, same⟩ := Option.ite_none_right_eq_some.mp stepped
          cases same
          obtain ⟨created, buffers, allocated, same⟩ := attempt_fails node attempt _ fails returned
          cases same
          exact (setup_queues_taken node after attempt.device _ buffers allocated).2
      | aborted => cases stepped
      | overrun => cases stepped
      | established left session => cases stepped

-- Handshakes that fail take the receive buffers one after the other.
theorem failures_bounded (node final : Node) (attempts : List Attempt) (ran : Machine.run Node.failStep node attempts = some final) :
    attempts.length + final.manager.freeIndices.card ≤ node.manager.freeIndices.card :=
  Machine.run_invariant Node.failStep node (fun attempts s => attempts.length + s.manager.freeIndices.card ≤ node.manager.freeIndices.card)
    (by rw [List.length_nil]; omega)
    (fun attempts s attempt next before stepped => by
      have taken := fail_step_taken s next attempt stepped
      have positive := num_queues_pos attempt.mine.toNat (Word.decode attempt.other)
      rw [Attempt.numQueues] at taken
      rw [List.length_append, List.length_singleton]
      omega)
    attempts final ran

-- The main result. The receive buffers of a failed handshake stay taken, whatever
-- the state, the queue numbers and the call that fails.
theorem failed_handshake_leaks (node : Node) (attempt : Attempt) (outcome : Outcome) (fails : .failed ∈ attempt.answers)
    (returned : node.attempt attempt = some outcome) :
    ¬ outcome.Restores node ∧
    (∃ after, outcome = .empty after ∧ after.handshakes = node.handshakes ∧ after.manager.freeIndices ⊆ node.manager.freeIndices ∧
      after.manager.freeIndices.card + attempt.numQueues = node.manager.freeIndices.card) ∧
    ∀ attempts final, Machine.run Node.failStep node attempts = some final →
      attempts.length + final.manager.freeIndices.card ≤ node.manager.freeIndices.card := by
  obtain ⟨after, buffers, created, rfl⟩ := attempt_fails node attempt outcome fails returned
  obtain ⟨subset, taken⟩ := setup_queues_taken node after attempt.device _ buffers created
  have handshakes := (setup_queues_keeps attempt.device _ node after buffers created).2.2.2
  have positive := num_queues_pos attempt.mine.toNat (Word.decode attempt.other)
  refine ⟨?_, ⟨after, rfl, handshakes, subset, taken⟩, fun attempts final ran => failures_bounded node final attempts ran⟩
  intro restores
  obtain ⟨same, empty, free, -⟩ := restores
  cases empty
  rw [free, Attempt.numQueues] at taken
  omega

-- A new manager connects, agrees on one queue, and the send of its buffer size fails.
def lostAttempt : Attempt := ⟨false, Device.plain, [1, 2], 1, Word.encode 8 1, [.failed]⟩

theorem lost_attempt_fails : .failed ∈ lostAttempt.answers := List.mem_cons_self

theorem failed_handshake_leaks_connect : ∃ outcome, Node.idle.attempt lostAttempt = some outcome ∧ ¬ outcome.Restores Node.idle ∧
    ∃ after, outcome = .empty after ∧ after.manager.freeIndices.card + 1 = Node.idle.manager.freeIndices.card := by
  have returns : (Node.idle.attempt lostAttempt).isSome = true := by decide +kernel
  obtain ⟨outcome, returned⟩ := Option.isSome_iff_exists.mp returns
  obtain ⟨leaks, ⟨after, empty, -, -, taken⟩, -⟩ := failed_handshake_leaks Node.idle lostAttempt outcome lost_attempt_fails returned
  have single : lostAttempt.numQueues = 1 := by decide
  exact ⟨outcome, returned, leaks, after, empty, single ▸ taken⟩

-- The buffer that was free before the call is not after it.
theorem failed_handshake_keeps_buffer : ∃ outcome, Node.idle.attempt lostAttempt = some outcome ∧ ¬ outcome.Restores Node.idle := by
  have before : 0 ∈ Node.idle.manager.freeIndices := Finset.mem_filter.mpr ⟨Finset.mem_range.mpr (by decide), rfl⟩
  have returns : (Node.idle.attempt lostAttempt).map (fun outcome => match outcome with
      | .empty after => after.manager.freeReceiveBuffers 0
      | _ => true) = some false := by decide +kernel
  obtain ⟨outcome, returned, lost⟩ := Option.map_eq_some_iff.mp returns
  refine ⟨outcome, returned, ?_⟩
  intro restores
  obtain ⟨after, rfl, free, -⟩ := restores
  rw [← free] at before
  exact absurd ((Finset.mem_filter.mp before).2.symm.trans lost) (by decide)

end ZipLog.Network
