import Mathlib.Data.List.Count
import Mathlib.Data.List.Nodup
import Mathlib.Data.List.Perm.Basic
import Mathlib.Data.Nat.Init
import Mathlib.Logic.Function.Basic

set_option autoImplicit false

namespace Quorum

variable {ι : Type}

-- Each member goes through the items 0, 1, 2, ... in order; progress is how many
-- it has been through. count is how many members have been through an item.
def count (members : List ι) (progress : ι → Nat) (item : Nat) : Nat := members.countP (fun m => decide (item < progress m))

theorem count_none (members : List ι) (item : Nat) : count members (fun _ => 0) item = 0 := by
  simp [count]

theorem count_antitone (members : List ι) (progress : ι → Nat) (first second : Nat) (least : first ≤ second) :
    count members progress second ≤ count members progress first := by
  apply List.countP_mono_left
  intro m _ beyond
  simp only [decide_eq_true_eq] at beyond ⊢
  omega

theorem count_pos (members : List ι) (progress : ι → Nat) (item : Nat) (member : ι) (inside : member ∈ members)
    (beyond : item < progress member) : 0 < count members progress item :=
  List.countP_pos_iff.mpr ⟨member, inside, decide_eq_true beyond⟩

theorem count_member (members : List ι) (progress : ι → Nat) (item : Nat) (some_count : 0 < count members progress item) :
    ∃ member ∈ members, item < progress member := by
  obtain ⟨member, inside, ahead⟩ := List.countP_pos_iff.mp some_count
  exact ⟨member, inside, of_decide_eq_true ahead⟩

-- More members than can be lost: one that is left has got as far.
theorem count_survivor (members lost : List ι) (progress : ι → Nat) (item : Nat) (nodup : members.Nodup)
    (more : lost.length < count members progress item) : ∃ member ∈ members, member ∉ lost ∧ item < progress member := by
  by_contra none
  have inside : (members.filter (fun m => decide (item < progress m))) ⊆ lost := by
    intro member found
    obtain ⟨there, ahead⟩ := List.mem_filter.mp found
    by_contra left
    exact none ⟨member, there, left, of_decide_eq_true ahead⟩
  have few := (List.subperm_of_subset (nodup.filter _) inside).length_le
  rw [← List.countP_eq_length_filter] at few
  exact absurd more (Nat.not_lt_of_le few)

theorem count_zero (members : List ι) (progress : ι → Nat) (item : Nat) (none : ∀ m ∈ members, progress m ≤ item) :
    count members progress item = 0 := by
  apply List.countP_eq_zero.mpr
  intro m inside
  have := none m inside
  simp only [decide_eq_true_eq]
  omega

theorem count_congr (members : List ι) (progress other : ι → Nat) (item : Nat) (same : ∀ m ∈ members, progress m = other m) :
    count members progress item = count members other item := by
  apply List.countP_congr
  intro m inside
  rw [same m inside]

def advance [DecidableEq ι] (progress : ι → Nat) (member : ι) : ι → Nat :=
  Function.update progress member (progress member + 1)

theorem count_advance_absent [DecidableEq ι] (members : List ι) (progress : ι → Nat) (member : ι) (item : Nat) (outside : member ∉ members) :
    count members (advance progress member) item = count members progress item := by
  apply count_congr
  intro m inside
  have different : m ≠ member := fun same => outside (same ▸ inside)
  exact Function.update_of_ne different _ _

-- A step of one member is seen by the item it goes through and by no other.
theorem count_advance [DecidableEq ι] (members : List ι) (progress : ι → Nat) (member : ι) (item : Nat) (nodup : members.Nodup)
    (inside : member ∈ members) :
    count members (advance progress member) item = count members progress item + if item = progress member then 1 else 0 := by
  induction members with
  | nil => cases inside
  | cons head tail ih =>
      have fresh := (List.nodup_cons.mp nodup).1
      have rest := (List.nodup_cons.mp nodup).2
      simp only [count, List.countP_cons] at ih ⊢
      by_cases here : member = head
      · subst here
        have others := count_advance_absent tail progress member item fresh
        simp only [count] at others
        rw [others]
        simp only [advance, Function.update_self, decide_eq_true_eq]
        by_cases same : item = progress member
        · simp [same]
        · have either : item < progress member + 1 ↔ item < progress member := by omega
          simp only [either, if_neg same]
          omega
      · have there : member ∈ tail := (List.mem_cons.mp inside).resolve_left here
        rw [ih rest there]
        have kept : advance progress member head = progress head := Function.update_of_ne (Ne.symm here) _ _
        rw [kept]
        omega

-- Several steps at once.
theorem count_raise [DecidableEq ι] (members : List ι) (progress : ι → Nat) (member : ι) (value item : Nat) (nodup : members.Nodup)
    (inside : member ∈ members) (more : progress member ≤ value) : count members (Function.update progress member value) item =
      count members progress item + if progress member ≤ item ∧ item < value then 1 else 0 := by
  induction value, more using Nat.le_induction with
  | base =>
      rw [Function.update_eq_self, if_neg (by omega)]
      rfl
  | succ value least ih =>
      have step : Function.update progress member (value + 1) = advance (Function.update progress member value) member := by
        rw [advance, Function.update_idem, Function.update_self]
      rw [step, count_advance members _ member item nodup inside, ih, Function.update_self]
      by_cases here : item = value
      · rw [if_pos here, if_neg (by omega), if_pos (by omega)]
      · rw [if_neg here]
        by_cases between : progress member ≤ item ∧ item < value
        · rw [if_pos between, if_pos (by omega)]
        · rw [if_neg between, if_neg (by omega)]

theorem count_all (members : List ι) (progress : ι → Nat) (item : Nat) (everyone : count members progress item = members.length) :
    ∀ member ∈ members, item < progress member := by
  intro member inside
  exact of_decide_eq_true (List.countP_eq_length.mp everyone member inside)

-- A member that has been through the first item but not through the second
-- makes the counts differ.
theorem count_strict (members : List ι) (progress : ι → Nat) (member : ι) (first second : Nat) (nodup : members.Nodup)
    (inside : member ∈ members) (passed : first < progress member) (stopped : progress member = second) :
    count members progress second < count members progress first := by
  induction members with
  | nil => cases inside
  | cons head tail ih =>
      simp only [count, List.countP_cons] at ih ⊢
      have rest := count_antitone tail progress first second (by omega)
      simp only [count] at rest
      by_cases here : member = head
      · subst here
        rw [if_pos (decide_eq_true passed), if_neg (by simp [stopped])]
        omega
      · have more := ih (List.nodup_cons.mp nodup).2 ((List.mem_cons.mp inside).resolve_left here)
        have order : (if decide (second < progress head) = true then 1 else 0) ≤
            if decide (first < progress head) = true then 1 else 0 := by
          simp only [decide_eq_true_eq]
          split <;> split <;> omega
        omega

-- The items that more than limit members have been through are a prefix. When a
-- step of one member completes an item, that item is the next of the prefix.
theorem threshold_oldest (members : List ι) (progress : ι → Nat) (member : ι) (limit reached : Nat) (nodup : members.Nodup)
    (inside : member ∈ members) (quorum : ∀ k, k < reached ↔ limit < count members progress k)
    (completes : count members progress (progress member) = limit) : reached = progress member := by
  rcases Nat.lt_trichotomy reached (progress member) with less | same | more
  · have strict := count_strict members progress member reached (progress member) nodup inside less rfl
    have := (quorum reached).mpr (by omega)
    omega
  · exact same
  · have := (quorum (progress member)).mp more
    omega

theorem threshold_step [DecidableEq ι] (members : List ι) (progress : ι → Nat) (member : ι) (limit reached : Nat)
    (nodup : members.Nodup) (inside : member ∈ members) (quorum : ∀ k, k < reached ↔ limit < count members progress k) (k : Nat) :
    k < reached + (if count members progress (progress member) = limit then 1 else 0) ↔
      limit < count members (advance progress member) k := by
  have old := quorum k
  rw [count_advance members progress member k nodup inside]
  by_cases completes : count members progress (progress member) = limit
  · have oldest := threshold_oldest members progress member limit reached nodup inside quorum completes
    rw [if_pos completes, oldest]
    by_cases here : k = progress member
    · subst here
      rw [if_pos rfl]
      omega
    · rw [if_neg here]
      omega
  · rw [if_neg completes]
    by_cases here : k = progress member
    · subst here
      rw [if_pos rfl]
      omega
    · rw [if_neg here]
      omega

theorem threshold_unique (first second : Nat) (enough : Nat → Prop) (left : ∀ k, k < first ↔ enough k)
    (right : ∀ k, k < second ↔ enough k) : first = second := by
  have one := (left first).trans (right first).symm
  have two := (left second).trans (right second).symm
  omega

end Quorum
