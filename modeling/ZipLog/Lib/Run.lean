import Mathlib.Data.List.Induction

set_option autoImplicit false

namespace Machine

variable {σ α : Type*}

-- A machine takes a labelled step or refuses it. A run is a list of labels, so
-- that every interleaving of several parties is one list and a property of the
-- run may speak about its history.
def run (step : σ → α → Option σ) (start : σ) (labels : List α) : Option σ :=
  labels.foldlM step start

theorem run_append (step : σ → α → Option σ) (start : σ) (before after : List α) :
    run step start (before ++ after) = (run step start before).bind (fun s => run step s after) := by
  simp [run, List.foldlM_append]

theorem run_snoc (step : σ → α → Option σ) (start : σ) (labels : List α) (label : α) :
    run step start (labels ++ [label]) = (run step start labels).bind (fun s => step s label) := by
  rw [run_append]
  congr 1
  funext s
  simp [run]

theorem run_snoc_some {step : σ → α → Option σ} {start final : σ} {labels : List α} {label : α}
    (ran : run step start (labels ++ [label]) = some final) :
    ∃ s, run step start labels = some s ∧ step s label = some final := by
  rw [run_snoc] at ran
  exact Option.bind_eq_some_iff.mp ran

theorem run_append_some {step : σ → α → Option σ} {start final : σ} {before after : List α}
    (ran : run step start (before ++ after) = some final) :
    ∃ s, run step start before = some s ∧ run step s after = some final := by
  rw [run_append] at ran
  exact Option.bind_eq_some_iff.mp ran

-- The rule every safety result is proved by: a property of the history and the
-- state that holds at the start and that each step keeps holds after every run.
theorem run_invariant (step : σ → α → Option σ) (start : σ) (inv : List α → σ → Prop) (initial : inv [] start)
    (preserved : ∀ labels s label next, inv labels s → step s label = some next → inv (labels ++ [label]) next)
    (labels : List α) (final : σ) (ran : run step start labels = some final) : inv labels final := by
  induction labels using List.reverseRecOn generalizing final with
  | nil =>
      have same : start = final := Option.some.inj ran
      exact same ▸ initial
  | append_singleton labels label ih =>
      obtain ⟨s, earlier, last⟩ := run_snoc_some ran
      exact preserved labels s label final (ih s earlier) last

-- The same rule from any state that already satisfies the property.
theorem run_preserves (step : σ → α → Option σ) (inv : σ → Prop)
    (preserved : ∀ s label next, inv s → step s label = some next → inv next)
    (start final : σ) (holds : inv start) (labels : List α) (ran : run step start labels = some final) : inv final :=
  run_invariant step start (fun _ s => inv s) holds (fun _ s label next before step => preserved s label next before step)
    labels final ran

-- A view of the state that each step computes from the view alone.
theorem run_view {ν : Type*} (step : σ → α → Option σ) (view : σ → ν)
    (same : ∀ s t label, view s = view t → (step s label).map view = (step t label).map view) (s t : σ) (equal : view s = view t)
    (labels : List α) : (run step s labels).map view = (run step t labels).map view := by
  induction labels generalizing s t with
  | nil => exact congrArg some equal
  | cons label labels ih =>
      have once := same s t label equal
      simp only [run, List.foldlM_cons, Option.bind_eq_bind]
      cases left : step s label with
      | none =>
          rw [left] at once
          cases right : step t label with
          | none => rfl
          | some moved =>
              rw [right] at once
              cases once
      | some next =>
          rw [left] at once
          cases right : step t label with
          | none =>
              rw [right] at once
              cases once
          | some moved =>
              rw [right] at once
              exact ih next moved (Option.some.inj once)

-- The runs in which every step meets a condition on the state before it.
def guarded (step : σ → α → Option σ) (allowed : σ → α → Prop) [∀ s label, Decidable (allowed s label)] (s : σ) (label : α) : Option σ :=
  if allowed s label then step s label else none

theorem guarded_some {step : σ → α → Option σ} {allowed : σ → α → Prop} [∀ s label, Decidable (allowed s label)] {s next : σ} {label : α}
    (taken : guarded step allowed s label = some next) : allowed s label ∧ step s label = some next :=
  Option.ite_none_right_eq_some.mp taken

end Machine
