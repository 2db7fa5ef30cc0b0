import ZipLog.Client.Loop
import Mathlib.Algebra.BigOperators.Group.List.Basic
import Mathlib.Algebra.Ring.Nat

set_option autoImplicit false

namespace ZipLog.Client

-- Where a client stands in the slots it was given: granted lists the num_slots of
-- the epochs it was told of, the number of epochs it has switched to comes last,
-- and total is what its inserts have taken. The counters of the loop are words
-- that may wrap; the account is kept in numbers that do not.
def Standing (current : Epoch) (granted : List Nat) (clock total : Nat) : Nat → Prop
  | 0 => current = firstEpoch ∧ total = 0
  | index + 1 => ∃ numSlots micros, granted[index]? = some numSlots ∧ current.first = uint64 (granted.take index).sum ∧
      current.last = uint64 ((granted.take index).sum + numSlots) ∧ 0 ≤ current.beginning ∧ micros ≤ epochDurationNs / 1000 ∧
      current.beginning + 1000 * (micros : Nat) ≤ clock ∧
      total ≤ (granted.take index).sum + numSlots * micros / (epochDurationNs / 1000)

structure Loop.Paced (client : Loop) (granted : List Nat) (entered clock total : Nat) : Prop where
  small : ∀ numSlots ∈ granted, numSlots * 5000 < 2 ^ 64
  assigned : client.assigned = uint64 granted.sum
  consumed : client.consumed = uint64 total
  waiting : entered + client.epochs.length = granted.length
  epochs : ∀ (index : Nat) epoch, client.epochs[index]? = some epoch → ∃ numSlots, granted[entered + index]? = some numSlots ∧
    0 ≤ epoch.beginning ∧ epoch.first = uint64 (granted.take (entered + index)).sum ∧
    epoch.last = uint64 ((granted.take (entered + index)).sum + numSlots)
  standing : Standing client.current granted clock total entered

theorem init_paced (clientId shardId failures : Nat) : (Loop.init clientId shardId failures).Paced [] 0 0 0 := by
  constructor
  · intro numSlots member
    cases member
  · rfl
  · rfl
  · rfl
  · intro index epoch access
    cases access
  · exact ⟨rfl, rfl⟩

theorem take_sum_succ (granted : List Nat) (index numSlots : Nat) (access : granted[index]? = some numSlots) :
    (granted.take (index + 1)).sum = (granted.take index).sum + numSlots := by
  rw [List.take_add_one, access, Option.toList_some, List.sum_append, List.sum_singleton]

theorem part_le (numSlots micros : Nat) (early : micros ≤ epochDurationNs / 1000) :
    numSlots * micros / (epochDurationNs / 1000) ≤ numSlots := by
  have positive : 0 < epochDurationNs / 1000 := by decide
  calc numSlots * micros / (epochDurationNs / 1000)
      ≤ numSlots * (epochDurationNs / 1000) / (epochDurationNs / 1000) := Nat.div_le_div_right (Nat.mul_le_mul_left _ early)
    _ = numSlots := Nat.mul_div_cancel _ positive

section

variable (client : Loop) (granted : List Nat) (entered clock total : Nat) (paced : client.Paced granted entered clock total)

include paced

-- The inserts have taken no more than the epochs that the client has entered.
theorem paced_total : total ≤ (granted.take entered).sum := by
  have standing := paced.standing
  cases entered with
  | zero => exact Nat.le_of_eq standing.2
  | succ index =>
      obtain ⟨numSlots, micros, access, _, _, _, early, _, bound⟩ := standing
      rw [take_sum_succ granted index numSlots access]
      exact Nat.le_trans bound (Nat.add_le_add_left (part_le numSlots micros early) _)

theorem paced_entered : entered ≤ granted.length := by
  have waiting := paced.waiting
  omega

theorem paced_later (now : Nat) (later : clock ≤ now) : client.Paced granted entered now total := by
  refine ⟨paced.small, paced.assigned, paced.consumed, paced.waiting, paced.epochs, ?_⟩
  have standing := paced.standing
  cases entered with
  | zero => exact standing
  | succ index =>
      obtain ⟨numSlots, micros, access, first, last, started, early, passed, bound⟩ := standing
      exact ⟨numSlots, micros, access, first, last, started, early, Int.le_trans passed (Int.ofNat_le.mpr later), bound⟩

-- The steps that neither send nor look at the epochs.
theorem paced_congr (other : Loop) (assigned : other.assigned = client.assigned) (consumed : other.consumed = client.consumed)
    (epochs : other.epochs = client.epochs) (current : other.current = client.current) : other.Paced granted entered clock total := by
  constructor
  · exact paced.small
  · exact assigned.trans paced.assigned
  · exact consumed.trans paced.consumed
  · rw [epochs]
    exact paced.waiting
  · rw [epochs]
    exact paced.epochs
  · rw [current]
    exact paced.standing

theorem new_epoch_paced (beginning numSlots : Nat) (small : numSlots * 5000 < 2 ^ 64) :
    (client.clientNewEpoch beginning numSlots).Paced (granted ++ [numSlots]) entered clock total := by
  have waiting := paced.waiting
  have sum : client.assigned = uint64 granted.sum := paced.assigned
  have kept : ∀ index, index ≤ granted.length → (granted ++ [numSlots]).take index = granted.take index :=
    fun index inside => List.take_append_of_le_length inside
  have added : uint64 (client.assigned + numSlots) = uint64 (granted.sum + numSlots) := by
    rw [sum]
    unfold uint64
    omega
  constructor
  · intro other member
    cases List.mem_append.mp member with
    | inl old => exact paced.small other old
    | inr new =>
        rw [List.mem_singleton.mp new]
        exact small
  · rw [List.sum_append, List.sum_singleton]
    exact added
  · exact paced.consumed
  · simp only [Loop.clientNewEpoch, List.length_append, List.length_singleton]
    omega
  · intro index epoch access
    simp only [Loop.clientNewEpoch] at access
    rcases Nat.lt_or_ge index client.epochs.length with old | new
    · rw [List.getElem?_append_left old] at access
      obtain ⟨slots, there, rest⟩ := paced.epochs index epoch access
      refine ⟨slots, ?_, ?_⟩
      · rw [List.getElem?_append_left (List.getElem?_eq_some_iff.mp there).1]
        exact there
      · rw [kept _ (by omega)]
        exact rest
    · rw [List.getElem?_append_right new] at access
      obtain ⟨bound, same⟩ := List.getElem?_eq_some_iff.mp access
      have last : entered + index = granted.length := by
        rw [List.length_singleton] at bound
        omega
      rw [List.getElem_singleton] at same
      refine ⟨numSlots, by rw [last]; simp, ?_⟩
      rw [last, kept _ (Nat.le_refl _), List.take_length, ← same]
      exact ⟨Int.natCast_nonneg _, sum, added⟩
  · have standing := paced.standing
    cases entered with
    | zero => exact standing
    | succ index =>
        obtain ⟨slots, micros, access, rest⟩ := standing
        refine ⟨slots, micros, ?_, ?_⟩
        · rw [List.getElem?_append_left (List.getElem?_eq_some_iff.mp access).1]
          exact access
        · rw [kept _ (by omega)]
          exact rest

end

-- Whether the loop switches to the next epoch at this reading of the clock.
def Loop.switches (client : Loop) (now : Nat) : Bool :=
  match client.epochs with
  | [] => false
  | epoch :: _ => epoch.beginning ≤ now

theorem switch_epoch_paced (client : Loop) (granted : List Nat) (entered clock total now : Nat)
    (paced : client.Paced granted entered clock total) (later : clock ≤ now) :
    (client.switchEpoch now).Paced granted (if client.switches now then entered + 1 else entered) now total := by
  have bound := paced_total client granted entered clock total paced
  have after := paced_later client granted entered clock total paced now later
  have waiting := paced.waiting
  have listed := paced.epochs
  unfold Loop.switchEpoch Loop.switches
  cases queue : client.epochs with
  | nil => exact after
  | cons epoch epochs =>
      rw [queue] at waiting listed
      by_cases due : epoch.beginning ≤ now
      · simp only [due, decide_true, if_true]
        obtain ⟨numSlots, access, started, first, last⟩ := listed 0 epoch rfl
        refine ⟨paced.small, paced.assigned, paced.consumed, ?_, ?_, ?_⟩
        · rw [List.length_cons] at waiting
          simp only
          omega
        · intro index other there
          have next := listed (index + 1) other there
          rw [show entered + (index + 1) = entered + 1 + index by omega] at next
          exact next
        · exact ⟨numSlots, 0, access, first, last, started, Nat.zero_le _, by simpa using due, by simpa using bound⟩
      · simp only [due, decide_false, Bool.false_eq_true, if_false]
        exact after

theorem width_exact (base numSlots : Nat) (small : numSlots < 2 ^ 64) :
    unsigned ((uint64 (base + numSlots) : Nat) - (uint64 base : Nat)) = numSlots := by
  unfold unsigned uint64
  omega

-- The schedule of the current epoch as the loop computes it, while the epoch
-- lasts.
theorem ideal_exact (client : Loop) (base numSlots now : Nat) (small : numSlots * 5000 < 2 ^ 64)
    (first : client.current.first = uint64 base) (last : client.current.last = uint64 (base + numSlots))
    (started : 0 ≤ client.current.beginning) (passed : client.current.beginning ≤ now) (word : now < 2 ^ 63)
    (during : client.elapsed now ≤ epochDurationNs) :
    ∃ micros, micros ≤ epochDurationNs / 1000 ∧ client.current.beginning + 1000 * (micros : Nat) ≤ now ∧
      (now : Int) < client.current.beginning + 1000 * (micros : Nat) + 1000 ∧
      client.ideal now = uint64 (base + numSlots * micros / (epochDurationNs / 1000)) := by
  have elapsed : client.elapsed now = now - client.current.beginning := long_long_exact _ (by omega) (by omega)
  have duration : epochDurationNs = 5000000 := rfl
  have limit : epochDurationNs / 1000 = 5000 := rfl
  rw [elapsed, duration] at during
  refine ⟨(now - client.current.beginning).toNat / 1000, by omega, by omega, by omega, ?_⟩
  have micros : unsigned ((client.elapsed now).tdiv 1000) = (now - client.current.beginning).toNat / 1000 := by
    rw [elapsed, Int.tdiv_eq_ediv_of_nonneg (by omega)]
    unfold unsigned
    omega
  have early : (now - client.current.beginning).toNat / 1000 ≤ 5000 := by omega
  unfold Loop.ideal
  simp only [micros, first, last, width_exact base numSlots (by omega), limit]
  generalize (now - client.current.beginning).toNat / 1000 = micros at early ⊢
  have product : numSlots * micros < 2 ^ 64 := Nat.lt_of_le_of_lt (Nat.mul_le_mul_left _ early) small
  rw [uint64_of_lt product]
  generalize numSlots * micros / 5000 = part
  unfold uint64
  omega

-- The inserts so far lie behind the schedule, so the distance in words is at
-- most the distance in slots.
theorem advance_bound (total target : Nat) (behind : total ≤ target) (less : uint64 total < uint64 target) :
    total + (uint64 target - uint64 total) ≤ target ∧ uint64 (uint64 total + (uint64 target - uint64 total)) =
      uint64 (total + (uint64 target - uint64 total)) := by
  unfold uint64 at *
  omega

-- The counters that a turn of the send branch moves.
theorem send_counters (client : Loop) (now : Nat) : client.send now = (client, none) ∨ ∃ other message,
    client.send now = (other, some message) ∧ client.consumed < client.ideal now ∧ client.elapsed now ≤ epochDurationNs ∧
    message.numSlots = client.ideal now - client.consumed ∧ other.consumed = uint64 (client.consumed + message.numSlots) ∧
    other.assigned = client.assigned ∧ other.epochs = client.epochs ∧ other.current = client.current := by
  unfold Loop.send
  split
  · rename_i allowed
    dsimp only
    split
    · exact Or.inr ⟨_, _, rfl, allowed.2.1, allowed.2.2.2.2, rfl, rfl, rfl, rfl, rfl⟩
    · split
      · exact Or.inr ⟨_, _, rfl, allowed.2.1, allowed.2.2.2.2, rfl, rfl, rfl, rfl, rfl⟩
      · exact Or.inl rfl
  · exact Or.inl rfl

theorem send_paced (client : Loop) (granted : List Nat) (entered clock total now : Nat)
    (paced : client.Paced granted entered clock total) (later : clock ≤ now) (word : now < 2 ^ 63) :
    client.send now = (client, none) ∨ ∃ other message, client.send now = (other, some message) ∧
      other.Paced granted entered now (total + message.numSlots) := by
  obtain nothing | ⟨other, message, sent, behind, during, advanced, consumed, assigned, epochs, current⟩ := send_counters client now
  · exact Or.inl nothing
  · refine Or.inr ⟨other, message, sent, ?_⟩
    have standing := paced.standing
    cases entered with
    | zero =>
        -- The first epoch is empty and nothing has been sent in it.
        obtain ⟨start, none⟩ := standing
        have idle : client.ideal now = 0 := by
          unfold Loop.ideal
          rw [start]
          simp [firstEpoch, unsigned, uint64]
        rw [idle] at behind
        exact absurd behind (Nat.not_lt_zero _)
    | succ index =>
        obtain ⟨numSlots, micros, access, first, last, started, early, passed, bound⟩ := standing
        have inside : numSlots * 5000 < 2 ^ 64 := paced.small numSlots (List.mem_of_getElem? access)
        obtain ⟨reached, most, before, next, ideal⟩ :=
          ideal_exact client (granted.take index).sum numSlots now inside first last started (by omega) word during
        have grown : (granted.take index).sum + numSlots * micros / (epochDurationNs / 1000) ≤
            (granted.take index).sum + numSlots * reached / (epochDurationNs / 1000) :=
          Nat.add_le_add_left (Nat.div_le_div_right (Nat.mul_le_mul_left _ (by omega))) _
        rw [paced.consumed, ideal] at behind
        obtain ⟨reach, word⟩ := advance_bound _ _ (Nat.le_trans bound grown) behind
        rw [paced.consumed, ideal] at advanced
        refine ⟨paced.small, assigned.trans paced.assigned, ?_, ?_, ?_, ?_⟩
        · rw [consumed, paced.consumed, advanced]
          exact word
        · rw [epochs]
          exact paced.waiting
        · rw [epochs]
          exact paced.epochs
        · rw [current]
          exact ⟨numSlots, reached, access, first, last, started, most, before, advanced ▸ reach⟩

end ZipLog.Client
