import Mathlib.Algebra.BigOperators.Group.List.Basic
import Mathlib.Algebra.Order.Ring.Int
import Mathlib.Data.Rat.Floor
import Mathlib.Tactic.FieldSimp
import Mathlib.Tactic.Linarith
import Mathlib.Tactic.Positivity
import Mathlib.Tactic.Ring

set_option autoImplicit false

namespace Spread

-- Error accumulation: in each of limit rounds a party with a share of at most
-- limit loses share from its error term, and is served once, for limit, when
-- the term turns negative. This counts how often it is served.
def served (limit share : Nat) : Nat → Int → Nat
  | 0, _ => 0
  | rounds + 1, error =>
      if error - share < 0 then served limit share rounds (error - share + limit) + 1
      else served limit share rounds (error - share)

def Within (limit : Nat) (error : Int) : Prop := 0 ≤ error ∧ error < limit

theorem within_served (limit share : Nat) (error : Int) (within : Within limit error) (fits : share ≤ limit)
    (negative : error - share < 0) : Within limit (error - share + limit) := by
  obtain ⟨lower, upper⟩ := within
  constructor <;> omega

theorem within_skipped (limit share : Nat) (error : Int) (within : Within limit error)
    (enough : ¬ error - share < 0) : Within limit (error - share) := by
  obtain ⟨lower, upper⟩ := within
  constructor <;> omega

-- The invariant of the error term: what was lost and what was served balance.
theorem served_balance (limit share rounds : Nat) (error : Int) (within : Within limit error) (fits : share ≤ limit) :
    Within limit (error - rounds * share + served limit share rounds error * limit) := by
  induction rounds generalizing error with
  | zero => simpa [served] using within
  | succ rounds ih =>
      by_cases negative : error - share < 0
      · have rest := ih (error - share + limit) (within_served limit share error within fits negative)
        rw [served, if_pos negative]
        push_cast
        convert rest using 1
        ring
      · have rest := ih (error - share) (within_skipped limit share error within negative)
        rw [served, if_neg negative]
        push_cast
        convert rest using 1
        ring

-- After a full turn every party has been served exactly its share.
theorem served_full (limit share : Nat) (error : Int) (within : Within limit error) (fits : share ≤ limit) :
    served limit share limit error = share := by
  obtain ⟨lower, upper⟩ := served_balance limit share limit error within fits
  obtain ⟨errorLower, errorUpper⟩ := within
  have positive : (0 : Int) < limit := lt_of_le_of_lt errorLower errorUpper
  have below : ((served limit share limit error : Int) - share) * limit < 1 * limit := by linarith
  have above : (-1) * (limit : Int) < ((served limit share limit error : Int) - share) * limit := by linarith
  have less := lt_of_mul_lt_mul_right below positive.le
  have more := lt_of_mul_lt_mul_right above positive.le
  omega

-- The number of services is the ceiling of what the share is owed.
theorem served_ceil (limit share rounds served error : Nat) (positive : 0 < limit)
    (balance : Within limit (error - rounds * share + served * limit)) :
    served = ⌈((rounds * share : ℚ) - error) / limit⌉₊ := by
  obtain ⟨lower, upper⟩ := balance
  have limitPositive : (0 : ℚ) < limit := by exact_mod_cast positive
  have least : (rounds * share : ℚ) - error ≤ served * limit := by
    have cast : (rounds * share : ℤ) ≤ served * limit + error := by linarith
    have rational : (rounds * share : ℚ) ≤ served * limit + error := by exact_mod_cast cast
    linarith
  have most : (served * limit : ℚ) < rounds * share - error + limit := by
    have cast : (served * limit + error : ℤ) < rounds * share + limit := by linarith
    have rational : (served * limit + error : ℚ) < rounds * share + limit := by exact_mod_cast cast
    linarith
  symm
  rcases Nat.eq_zero_or_pos served with none | some
  · rw [none, Nat.ceil_eq_zero]
    apply div_nonpos_of_nonpos_of_nonneg _ limitPositive.le
    rw [none] at least
    simpa using least
  · rw [Nat.ceil_eq_iff some.ne']
    constructor
    · rw [lt_div_iff₀ limitPositive, Nat.cast_sub some]
      push_cast
      linarith
    · rwa [div_le_iff₀ limitPositive]

theorem served_near (limit share rounds served error : Nat) (below : error < limit)
    (balance : Within limit (error - rounds * share + served * limit)) :
    |(served : ℚ) - rounds * share / limit| < 1 := by
  obtain ⟨lower, upper⟩ := balance
  have limitPositive : (0 : ℚ) < limit := by exact_mod_cast Nat.lt_of_le_of_lt (Nat.zero_le _) below
  have least : (rounds * share : ℚ) < served * limit + limit := by
    have cast : (rounds * share : ℤ) < served * limit + limit := by linarith [show (error : ℤ) < limit by exact_mod_cast below]
    exact_mod_cast cast
  have most : (served * limit : ℚ) < rounds * share + limit := by
    have cast : (served * limit : ℤ) < rounds * share + limit := by linarith [show (0 : ℤ) ≤ error by positivity]
    exact_mod_cast cast
  rw [abs_lt]
  constructor
  · rw [neg_lt_sub_iff_lt_add, div_lt_iff₀ limitPositive]
    linarith
  · rw [sub_lt_iff_lt_add, ← sub_lt_iff_lt_add', lt_div_iff₀ limitPositive]
    linarith
end Spread
