import ZipLog.Storage.Slots

set_option autoImplicit false

namespace ZipLog.Storage

-- add_entries' loops by the indices that the code uses: the errors of the
-- secondary clients and the clients that a slot was yielded to so far.
structure Rounds where
  errors : List Int
  order : List Nat
deriving DecidableEq, Repr

def share (assignments : List Assignment) (client : Nat) : Nat := (assignments[client]?.map Assignment.numSlots).getD 0

def initialError (assignments : List Assignment) : Nat := share assignments 0 / assignments.length

-- errors[j - 1] is a long long and num_slots an unsigned 64-bit integer, so the
-- arithmetic is done modulo 2^64 and read as signed.
def innerStep (assignments : List Assignment) (s : Rounds) (j : Nat) : Rounds :=
  let error := longLong (s.errors.getD (j - 1) 0 - share assignments j)
  if error < 0 then ⟨s.errors.set (j - 1) (longLong (error + share assignments 0)), s.order ++ [j]⟩
  else ⟨s.errors.set (j - 1) error, s.order⟩

-- A round up to and with its first secondary clients.
def innerSteps (assignments : List Assignment) (s : Rounds) (count : Nat) : Rounds :=
  (List.range' 1 count).foldl (innerStep assignments) ⟨s.errors, s.order ++ [0]⟩

def rounds (assignments : List Assignment) : Nat → Rounds
  | 0 => ⟨List.replicate (assignments.length - 1) (longLong (initialError assignments)), []⟩
  | i + 1 => innerSteps assignments (rounds assignments i) (assignments.length - 1)

-- These are the loops that yield the schedule.
theorem inner_steps_loop (primary : Assignment) (secondary : List Assignment) (done : List Assignment) (before errors : List Int)
    (order : List Nat) (state : List Assignment) (aligned : errors.length = secondary.length) (start : before.length = done.length)
    (same : state = order.filterMap (fun j => (primary :: (done ++ secondary))[j]?)) :
    let s := (List.range' (done.length + 1) secondary.length).foldl (innerStep (primary :: (done ++ secondary))) ⟨before ++ errors, order⟩
    let result := secondaryLoop (fun a order => order ++ [a]) primary.numSlots secondary errors state
    s.errors = before ++ result.1 ∧ result.2 = s.order.filterMap (fun j => (primary :: (done ++ secondary))[j]?) := by
  induction secondary generalizing done before errors order state with
  | nil =>
      obtain rfl := List.length_eq_zero_iff.mp aligned
      exact ⟨rfl, same⟩
  | cons assignment secondary ih =>
      cases errors with
      | nil => cases aligned
      | cons error errors =>
          have rest : errors.length = secondary.length := Nat.succ.inj aligned
          have place : (primary :: (done ++ assignment :: secondary))[done.length + 1]? = some assignment := by
            rw [List.getElem?_cons_succ, List.getElem?_append_right (Nat.le_refl _), Nat.sub_self]
            rfl
          have shares : share (primary :: (done ++ assignment :: secondary)) (done.length + 1) = assignment.numSlots := by
            rw [share, place]
            rfl
          have current : (before ++ error :: errors).getD (done.length + 1 - 1) 0 = error := by
            rw [Nat.add_sub_cancel, ← start, List.getD_append_right _ _ _ _ (Nat.le_refl _), Nat.sub_self]
            rfl
          have replaced (value : Int) : (before ++ error :: errors).set (done.length + 1 - 1) value = (before ++ [value]) ++ errors := by
            rw [Nat.add_sub_cancel, ← start, List.set_append_right _ _ (Nat.le_refl _), Nat.sub_self, List.append_assoc]
            rfl
          have regroup : done ++ assignment :: secondary = (done ++ [assignment]) ++ secondary := by
            rw [List.append_assoc, List.singleton_append]
          have next (value : Int) (orderNext : List Nat) (stateNext : List Assignment)
              (sameNext : stateNext = orderNext.filterMap (fun j => (primary :: (done ++ assignment :: secondary))[j]?)) :=
            ih (done ++ [assignment]) (before ++ [value]) errors orderNext stateNext rest (by simp [start]) (regroup ▸ sameNext)
          simp only [List.length_append, List.length_singleton, ← regroup] at next
          simp only [List.length_cons, List.range'_succ, List.foldl_cons, innerStep, current, shares, replaced, secondaryLoop,
            show share (primary :: (done ++ assignment :: secondary)) 0 = primary.numSlots from rfl]
          by_cases negative : longLong (error - assignment.numSlots) < 0
          · simp only [if_pos negative]
            obtain ⟨left, right⟩ := next (longLong (longLong (error - assignment.numSlots) + primary.numSlots))
              (order ++ [done.length + 1]) (state ++ [assignment]) (by
                rw [List.filterMap_append, ← same, List.filterMap_cons, place]
                rfl)
            exact ⟨by rw [left, List.append_assoc]; rfl, right⟩
          · simp only [if_neg negative]
            obtain ⟨left, right⟩ := next (longLong (error - assignment.numSlots)) order state same
            exact ⟨by rw [left, List.append_assoc]; rfl, right⟩

theorem secondary_loop_length {τ : Type} (yield : Assignment → τ → τ) (primary : Nat) (assignments : List Assignment)
    (errors : List Int) (state : τ) (aligned : errors.length = assignments.length) :
    (secondaryLoop yield primary assignments errors state).1.length = assignments.length := by
  induction assignments generalizing errors state with
  | nil => rfl
  | cons assignment assignments ih =>
      cases errors with
      | nil => cases aligned
      | cons error errors =>
          rw [secondaryLoop]
          dsimp only
          split
          · exact congrArg (· + 1) (ih errors _ (Nat.succ.inj aligned))
          · exact congrArg (· + 1) (ih errors _ (Nat.succ.inj aligned))

theorem slot_loop_rounds (primary : Assignment) (secondary : List Assignment) (i more : Nat) :
    (rounds (primary :: secondary) i).errors.length = secondary.length ∧
    slotLoop (fun a order => order ++ [a]) primary secondary (i + more)
        (List.replicate secondary.length (longLong (initialError (primary :: secondary)))) [] =
      slotLoop (fun a order => order ++ [a]) primary secondary more (rounds (primary :: secondary) i).errors
        ((rounds (primary :: secondary) i).order.filterMap (fun j => (primary :: secondary)[j]?)) := by
  induction i generalizing more with
  | zero => exact ⟨List.length_replicate, by rw [Nat.zero_add]; rfl⟩
  | succ i ih =>
      obtain ⟨aligned, -⟩ := ih 0
      have step := inner_steps_loop primary secondary [] [] (rounds (primary :: secondary) i).errors
        ((rounds (primary :: secondary) i).order ++ [0]) _ aligned rfl rfl
      obtain ⟨errors, order⟩ := step
      rw [List.filterMap_append] at errors order
      refine ⟨(congrArg List.length errors).trans (secondary_loop_length _ _ secondary _ _ aligned), ?_⟩
      rw [Nat.add_assoc, Nat.add_comm 1 more, (ih (more + 1)).2, slotLoop]
      exact congrArg₂ (slotLoop _ primary secondary more) errors.symm order

theorem schedule_rounds (assignments : List Assignment) :
    schedule assignments = (rounds assignments (share assignments 0)).order.filterMap (fun j => assignments[j]?) := by
  cases assignments with
  | nil => rfl
  | cons primary secondary => exact (slot_loop_rounds primary secondary primary.numSlots 0).2

-- What is left of a client's error after it has had its turn that often.
structure Balanced (assignments : List Assignment) (turns : Nat → Nat) (s : Rounds) : Prop where
  length : s.errors.length = assignments.length - 1
  value : ∀ j, 1 ≤ j → j < assignments.length → ∃ error, s.errors[j - 1]? = some error ∧
    error = initialError assignments - turns j * share assignments j + s.order.count j * share assignments 0 ∧
    Spread.Within (share assignments 0) error

def Signed (value : Int) : Prop := -2 ^ 63 ≤ value ∧ value < 2 ^ 63

structure Sizes (assignments : List Assignment) : Prop where
  largest : ∀ j, share assignments j ≤ share assignments 0
  positive : 0 < share assignments 0
  small : share assignments 0 < 2 ^ 63

theorem signed_exact (value : Int) (signed : Signed value) : longLong value = value := long_long_exact value signed.1 signed.2

theorem step_signed (assignments : List Assignment) (sizes : Sizes assignments) (error : Int) (j : Nat)
    (within : Spread.Within (share assignments 0) error) :
    Signed (error - share assignments j) ∧
      (error - share assignments j < 0 → Signed (error - share assignments j + share assignments 0)) := by
  have least := sizes.largest j
  have small := sizes.small
  obtain ⟨lower, upper⟩ := within
  refine ⟨⟨by omega, by omega⟩, fun negative => ⟨by omega, by omega⟩⟩

theorem inner_step_balanced (assignments : List Assignment) (sizes : Sizes assignments) (turns : Nat → Nat) (s : Rounds) (j : Nat)
    (first : 1 ≤ j) (inside : j < assignments.length) (balanced : Balanced assignments turns s) :
    Balanced assignments (Function.update turns j (turns j + 1)) (innerStep assignments s j) := by
  obtain ⟨error, there, equal, within⟩ := balanced.value j first inside
  obtain ⟨signed, again⟩ := step_signed assignments sizes error j within
  have current : s.errors.getD (j - 1) 0 = error := by
    rw [List.getD_eq_getElem?_getD, there]
    rfl
  have bound : j - 1 < s.errors.length := (List.getElem?_eq_some_iff.mp there).1
  rw [innerStep, current, signed_exact _ signed]
  split
  · rename_i negative
    rw [signed_exact _ (again negative)]
    refine ⟨(List.length_set ..).trans balanced.length, ?_⟩
    intro other start limit
    by_cases mine : other = j
    · subst mine
      refine ⟨_, List.getElem?_set_self bound, ?_, Spread.within_served _ _ error within (sizes.largest other) negative⟩
      rw [Function.update_self, equal, List.count_append, List.count_singleton_self]
      push_cast
      ring
    · obtain ⟨value, here, same, range⟩ := balanced.value other start limit
      refine ⟨value, ?_, ?_, range⟩
      · rw [List.getElem?_set_ne (by omega)]
        exact here
      · rw [Function.update_of_ne mine, List.count_append,
          show List.count other [j] = 0 from List.count_eq_zero.mpr (by simpa using mine)]
        exact same
  · rename_i enough
    refine ⟨(List.length_set ..).trans balanced.length, ?_⟩
    intro other start limit
    by_cases mine : other = j
    · subst mine
      refine ⟨_, List.getElem?_set_self bound, ?_, Spread.within_skipped _ _ error within enough⟩
      rw [Function.update_self, equal]
      push_cast
      ring
    · obtain ⟨value, here, same, range⟩ := balanced.value other start limit
      refine ⟨value, ?_, ?_, range⟩
      · rw [List.getElem?_set_ne (by omega)]
        exact here
      · rw [Function.update_of_ne mine]
        exact same

theorem inner_steps_balanced (assignments : List Assignment) (sizes : Sizes assignments) (i count : Nat) (s : Rounds)
    (inside : count ≤ assignments.length - 1) (balanced : Balanced assignments (fun _ => i) s) :
    Balanced assignments (fun j => if j ≤ count then i + 1 else i) (innerSteps assignments s count) := by
  induction count with
  | zero =>
      refine ⟨balanced.length, ?_⟩
      intro j first limit
      obtain ⟨error, there, equal, within⟩ := balanced.value j first limit
      refine ⟨error, there, ?_, within⟩
      rw [if_neg (by omega)]
      change error = _ - _ + ((s.order ++ [0]).count j : Nat) * _
      rw [List.count_append, show List.count j [0] = 0 from List.count_eq_zero.mpr (by simpa using Nat.ne_of_gt first)]
      exact equal
  | succ count ih =>
      have step := inner_step_balanced assignments sizes _ _ (count + 1) (by omega) (by omega) (ih (by omega))
      have next : innerSteps assignments s (count + 1) = innerStep assignments (innerSteps assignments s count) (count + 1) := by
        rw [innerSteps, List.range'_concat, List.foldl_append, Nat.one_mul, Nat.add_comm]
        rfl
      rw [next]
      convert step using 1
      funext j
      by_cases last : j = count + 1
      · rw [last, Function.update_self, if_pos (Nat.le_refl _), if_neg (by omega)]
      · rw [Function.update_of_ne last]
        exact if_congr (by omega) rfl rfl

theorem rounds_balanced (assignments : List Assignment) (sizes : Sizes assignments) (i : Nat) :
    Balanced assignments (fun _ => i) (rounds assignments i) := by
  induction i with
  | zero =>
      refine ⟨List.length_replicate, ?_⟩
      intro j first limit
      have less : initialError assignments < share assignments 0 := Nat.div_lt_self sizes.positive (Nat.lt_of_le_of_lt first limit)
      have small := sizes.small
      have exact_ : longLong (initialError assignments) = initialError assignments := signed_exact _ ⟨by omega, by omega⟩
      refine ⟨longLong (initialError assignments), List.getElem?_replicate_of_lt (by omega), ?_, ?_⟩
      · rw [exact_]
        simp [rounds]
      · rw [exact_]
        exact ⟨by omega, by omega⟩
  | succ i ih =>
      have step := inner_steps_balanced assignments sizes i _ _ (Nat.le_refl _) ih
      refine ⟨step.length, ?_⟩
      intro j first limit
      obtain ⟨error, there, equal, within⟩ := step.value j first limit
      rw [if_pos (by omega)] at equal
      exact ⟨error, there, equal, within⟩

-- Every prefix of the rounds gives each secondary client its share, rounded.
theorem slots_spread_evenly (assignments : List Assignment) (largest : ∀ j, share assignments j ≤ share assignments 0)
    (positive : 0 < share assignments 0) (small : share assignments 0 < 2 ^ 63) :
    schedule assignments = (rounds assignments (share assignments 0)).order.filterMap (fun j => assignments[j]?) ∧
    Signed (initialError assignments) ∧
    ∀ client, 1 ≤ client → client < assignments.length →
      (∀ i, i ≤ share assignments 0 →
        (rounds assignments i).order.count client =
          ⌈((i * share assignments client : ℚ) - initialError assignments) / share assignments 0⌉₊ ∧
        |((rounds assignments i).order.count client : ℚ) - i * share assignments client / share assignments 0| < 1) ∧
      ∀ i, i < share assignments 0 →
        (∀ count, count ≤ assignments.length - 1 → ∃ error,
          (innerSteps assignments (rounds assignments i) count).errors[client - 1]? = some error ∧
          0 ≤ error ∧ error < share assignments 0) ∧
        ∃ error, (innerSteps assignments (rounds assignments i) (client - 1)).errors[client - 1]? = some error ∧
          Signed (error - share assignments client) ∧
          (error - share assignments client < 0 → Signed (error - share assignments client + share assignments 0)) := by
  have sizes : Sizes assignments := ⟨largest, positive, small⟩
  have bounded : initialError assignments ≤ share assignments 0 := Nat.div_le_self _ _
  refine ⟨schedule_rounds assignments, ⟨by omega, by omega⟩, ?_⟩
  intro client first limit
  have less : initialError assignments < share assignments 0 := Nat.div_lt_self positive (Nat.lt_of_le_of_lt first limit)
  constructor
  · intro i _
    obtain ⟨error, -, equal, within⟩ := (rounds_balanced assignments sizes i).value client first limit
    rw [equal] at within
    exact ⟨Spread.served_ceil _ _ _ _ _ positive within, Spread.served_near _ _ _ _ _ less within⟩
  · intro i _
    have steps (count : Nat) (inside : count ≤ assignments.length - 1) :=
      inner_steps_balanced assignments sizes i count _ inside (rounds_balanced assignments sizes i)
    constructor
    · intro count inside
      obtain ⟨error, there, -, within⟩ := (steps count inside).value client first limit
      exact ⟨error, there, within⟩
    · obtain ⟨error, there, -, within⟩ := (steps (client - 1) (by omega)).value client first limit
      exact ⟨error, there, step_signed assignments sizes error client within⟩

theorem slots_spread_evenly_three_clients :
    (rounds [⟨1, 5⟩, ⟨2, 3⟩, ⟨3, 2⟩] 3).order.count 1 = ⌈((3 * 3 : ℚ) - 1) / 5⌉₊ := by
  have sizes : ∀ j, share [⟨1, 5⟩, ⟨2, 3⟩, ⟨3, 2⟩] j ≤ share [⟨1, 5⟩, ⟨2, 3⟩, ⟨3, 2⟩] 0 := by
    intro j
    match j with
    | 0 | 1 | 2 => decide
    | _ + 3 => exact Nat.zero_le _
  have spread := slots_spread_evenly [⟨1, 5⟩, ⟨2, 3⟩, ⟨3, 2⟩] sizes (by decide) (by decide)
  exact ((spread.2.2 1 (by decide) (by decide)).1 3 (by decide)).1

end ZipLog.Storage
