import Mathlib.Data.List.Nodup
import Mathlib.Data.List.Perm.Basic
import Mathlib.Logic.Equiv.Basic

set_option autoImplicit false

namespace Holders

variable {ι α : Type*} [DecidableEq ι]

-- What the members of a list hold. A member holds one thing or nothing.
def held (live : List ι) (holds : ι → Option α) : List α := live.filterMap holds

def swap (holds : ι → α) (first second : ι) : ι → α :=
  Function.update (Function.update holds first (holds second)) second (holds first)

theorem swap_apply (holds : ι → α) (first second other : ι) : swap holds first second other = holds (Equiv.swap first second other) := by
  unfold swap
  by_cases isSecond : other = second
  · rw [isSecond, Function.update_self, Equiv.swap_apply_right]
  · rw [Function.update_of_ne isSecond]
    by_cases isFirst : other = first
    · rw [isFirst, Function.update_self, Equiv.swap_apply_left]
    · rw [Function.update_of_ne isFirst, Equiv.swap_apply_of_ne_of_ne isFirst isSecond]

-- A swap of what two members hold changes nothing of the whole.
theorem held_swap (live : List ι) (holds : ι → Option α) (first second : ι) (unique : live.Nodup) (left : first ∈ live)
    (right : second ∈ live) : (held live (swap holds first second)).Perm (held live holds) := by
  have renamed : held live (swap holds first second) = held (live.map (Equiv.swap first second)) holds := by
    unfold held
    rw [List.filterMap_map]
    exact congrArg (fun f => live.filterMap f) (funext (swap_apply holds first second))
  have same : (live.map (Equiv.swap first second)).Perm live := by
    rw [List.perm_ext_iff_of_nodup (unique.map (Equiv.injective _)) unique]
    have inside : ∀ other ∈ live, Equiv.swap first second other ∈ live := by
      intro other member
      by_cases isFirst : other = first
      · rw [isFirst, Equiv.swap_apply_left]
        exact right
      · by_cases isSecond : other = second
        · rw [isSecond, Equiv.swap_apply_right]
          exact left
        · rw [Equiv.swap_apply_of_ne_of_ne isFirst isSecond]
          exact member
    intro other
    constructor
    · intro member
      obtain ⟨source, there, rfl⟩ := List.mem_map.mp member
      exact inside source there
    · intro member
      exact List.mem_map.mpr ⟨_, inside other member, Equiv.swap_apply_self first second other⟩
  rw [renamed]
  exact same.filterMap holds

theorem held_add (live : List ι) (holds : ι → Option α) (member : ι) (value : Option α) (fresh : member ∉ live) :
    held (live ++ [member]) (Function.update holds member value) = held live holds ++ value.toList := by
  have others : live.filterMap (Function.update holds member value) = live.filterMap holds := by
    apply List.filterMap_congr
    intro other inside
    refine Function.update_of_ne (fun same => fresh ?_) _ _
    rw [← same]
    exact inside
  unfold held
  rw [List.filterMap_append, others, List.filterMap_cons, Function.update_self]
  cases value <;> rfl

theorem held_remove (live : List ι) (holds : ι → Option α) (member : ι) (inside : member ∈ live) :
    (held live holds).Perm ((holds member).toList ++ held (live.erase member) holds) := by
  have first := (List.perm_cons_erase inside).filterMap holds
  refine first.trans (List.Perm.of_eq ?_)
  unfold held
  rw [List.filterMap_cons]
  cases holds member <;> rfl

end Holders
