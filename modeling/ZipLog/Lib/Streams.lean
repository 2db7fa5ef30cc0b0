import Mathlib.Data.List.Infix
import Mathlib.Data.List.Range
import ZipLog.Lib.Run

set_option autoImplicit false

namespace Streams

variable {α β σ : Type*}

-- Two readers of one log: one of them may be behind the other.
def Comparable (left right : List β) : Prop := left <+: right ∨ right <+: left

theorem prefix_of_agree (left right : List β) (shorter : left.length ≤ right.length)
    (agree : ∀ (n : Nat) a b, left[n]? = some a → right[n]? = some b → a = b) : left <+: right := by
  rw [List.prefix_iff_eq_take]
  apply List.ext_getElem?
  intro n
  rw [List.getElem?_take]
  split
  · rename_i inside
    have there : n < right.length := Nat.lt_of_lt_of_le inside shorter
    rw [List.getElem?_eq_getElem inside, List.getElem?_eq_getElem there]
    exact congrArg some (agree n _ _ (List.getElem?_eq_getElem inside) (List.getElem?_eq_getElem there))
  · rename_i outside
    exact List.getElem?_eq_none (Nat.le_of_not_lt outside)

theorem comparable_of_agree (left right : List β)
    (agree : ∀ (n : Nat) a b, left[n]? = some a → right[n]? = some b → a = b) : Comparable left right := by
  rcases Nat.le_total left.length right.length with shorter | longer
  · exact Or.inl (prefix_of_agree left right shorter agree)
  · exact Or.inr (prefix_of_agree right left longer (fun n a b here there => (agree n b a there here).symm))

theorem comparable_filter (p : β → Bool) (left right : List β) (comparable : Comparable left right) :
    Comparable (left.filter p) (right.filter p) := by
  cases comparable with
  | inl shorter => exact Or.inl (shorter.filter p)
  | inr longer => exact Or.inr (longer.filter p)

-- Replicated state machines: what has taken fewer elements of comparable
-- streams is where the other one was, seen through what both keep alike.
theorem comparable_run {ν : Type*} (step : σ → β → Option σ) (view : σ → ν)
    (same : ∀ s t item, view s = view t → (step s item).map view = (step t item).map view) (s t : σ) (equal : view s = view t)
    (left right : List β) (comparable : Comparable left right) (behind : left.length ≤ right.length) :
    ∃ more, right = left ++ more ∧
      (Machine.run step t right).map view = ((Machine.run step s left).bind (fun now => Machine.run step now more)).map view := by
  have before : left <+: right := by
    cases comparable with
    | inl before => exact before
    | inr after => rw [after.eq_of_length (Nat.le_antisymm after.length_le behind)]
  obtain ⟨more, rfl⟩ := before
  refine ⟨more, rfl, ?_⟩
  rw [← Machine.run_append]
  exact Machine.run_view step view same t s equal.symm _

-- A stream whose elements are numbered by where they stand in it.
def Numbered (index : α → Nat) (items : List α) : Prop := items.map index = List.range items.length

theorem numbered_nil (index : α → Nat) : Numbered index [] := rfl

theorem numbered_snoc (index : α → Nat) (items : List α) (item : α) (numbered : Numbered index items)
    (last : index item = items.length) : Numbered index (items ++ [item]) := by
  unfold Numbered at *
  rw [List.map_append, numbered, List.length_append, List.length_singleton, List.range_succ, ← last]
  rfl

theorem numbered_access (index : α → Nat) (items : List α) (numbered : Numbered index items) (n : Nat) (item : α)
    (access : items[n]? = some item) : index item = n := by
  have inside := (List.getElem?_eq_some_iff.mp access).1
  have mapped : (items.map index)[n]? = some (index item) := by rw [List.getElem?_map, access, Option.map_some]
  rw [numbered, List.getElem?_range inside] at mapped
  exact (Option.some.inj mapped).symm

theorem numbered_comparable (index : α → Nat) (f : α → β) (left right : List α) (first : Numbered index left) (second : Numbered index right)
    (agree : ∀ a ∈ left, ∀ b ∈ right, index a = index b → f a = f b) : Comparable (left.map f) (right.map f) := by
  apply comparable_of_agree
  intro n x y here there
  rw [List.getElem?_map] at here there
  obtain ⟨a, at_a, rfl⟩ := Option.map_eq_some_iff.mp here
  obtain ⟨b, at_b, rfl⟩ := Option.map_eq_some_iff.mp there
  refine agree a (List.mem_of_getElem? at_a) b (List.mem_of_getElem? at_b) ?_
  rw [numbered_access index left first n a at_a, numbered_access index right second n b at_b]

-- What an increasing list has below a limit is its beginning.
theorem below_prefix (limit : Nat) (items : List Nat) (increasing : items.Pairwise (· < ·)) :
    items.filter (fun item => item < limit) <+: items := by
  induction items with
  | nil => exact List.prefix_rfl
  | cons first rest ih =>
      obtain ⟨least, increasing⟩ := List.pairwise_cons.mp increasing
      by_cases below : first < limit
      · rw [List.filter_cons_of_pos (by simpa using below)]
        exact (List.prefix_cons_inj first).mpr (ih increasing)
      · have nothing : (first :: rest).filter (fun item => item < limit) = [] := by
          refine List.filter_eq_nil_iff.mpr (fun item member inside => ?_)
          have small := of_decide_eq_true inside
          cases List.mem_cons.mp member with
          | inl same => exact below (same ▸ small)
          | inr later => exact below (Nat.lt_trans (least item later) small)
        rw [nothing]
        exact List.nil_prefix

end Streams
