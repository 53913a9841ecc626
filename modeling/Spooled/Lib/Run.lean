import Mathlib

/-!
# Machines and their runs

A `Machine` is a state space with labelled, partial, deterministic steps: all
nondeterminism (who acts next, what a request carries, what the environment
answers) is in the label. `M.Run s h` says that `s` is reached by a run whose
steps are `h`, newest first, each recorded with the state it was taken in, so
that a property of the whole history is a property of the list `h`.
-/

namespace Spooled

structure Machine where
  State : Type
  Label : Type
  Init : State → Prop
  /-- `none`: the step is not enabled. -/
  next : State → Label → Option State

namespace Machine

variable {M : Machine}

/-- The state `s` is reached by the steps `h`, newest first. -/
inductive Run (M : Machine) : M.State → List (M.State × M.Label) → Prop
  | init {s : M.State} : M.Init s → M.Run s []
  | step {s s' : M.State} {h : List (M.State × M.Label)} {a : M.Label} :
      M.Run s h → M.next s a = some s' → M.Run s' ((s, a) :: h)

/-- Every step of the history meets the condition `C` in the state it was taken in. -/
def Steps (M : Machine) (C : M.State → M.Label → Prop) (h : List (M.State × M.Label)) : Prop :=
  ∀ x ∈ h, C x.1 x.2

variable {C : M.State → M.Label → Prop} {h : List (M.State × M.Label)} {s : M.State}

@[simp] theorem steps_cons {a : M.Label} : M.Steps C ((s, a) :: h) ↔ C s a ∧ M.Steps C h := by
  simp [Steps]

/-- **Run induction.** What holds initially and is kept by every step that
meets `C` holds along every run whose steps all meet `C`. -/
theorem Run.invariant {I : M.State → List (M.State × M.Label) → Prop}
    (hinit : ∀ s, M.Init s → I s [])
    (hstep : ∀ s h a s', M.Run s h → M.Steps C h → I s h → C s a → M.next s a = some s' →
      I s' ((s, a) :: h)) (hr : M.Run s h) (hc : M.Steps C h) : I s h := by
  induction hr with
  | init hi => exact hinit _ hi
  | step hr hn ih =>
    obtain ⟨hC, hc⟩ := steps_cons.1 hc
    exact hstep _ _ _ _ hr hc (ih hc) hC hn

theorem Run.state_invariant {I : M.State → Prop} (hinit : ∀ s, M.Init s → I s)
    (hstep : ∀ s a s', I s → M.next s a = some s' → I s') (hr : M.Run s h) : I s := by
  induction hr with
  | init hi => exact hinit _ hi
  | step _ hn ih => exact hstep _ _ _ ih hn

theorem Run.of_append {h₁ h₂ : List (M.State × M.Label)} {t : M.State} {a : M.Label}
    (hr : M.Run s (h₁ ++ (t, a) :: h₂)) : M.Run t h₂ := by
  induction h₁ generalizing s with
  | nil => cases hr with | step hr _ => exact hr
  | cons x h₁ ih => cases hr with | step hr _ => exact ih hr

/-- The state in which a run that has reached `s` by the steps `h` began. -/
def origin : M.State → List (M.State × M.Label) → M.State
  | s, [] => s
  | _, (s, _) :: h => origin s h

/-! ## Executing a schedule -/

/-- Run a schedule (oldest step first), recording the history. -/
def exec (M : Machine) : List M.Label → M.State × List (M.State × M.Label) →
    Option (M.State × List (M.State × M.Label))
  | [], x => some x
  | a :: as, (s, h) => (M.next s a).bind fun s' => M.exec as (s', (s, a) :: h)

theorem Run.exec {as : List M.Label} {s' : M.State} {h' : List (M.State × M.Label)}
    (hr : M.Run s h) (he : M.exec as (s, h) = some (s', h')) : M.Run s' h' := by
  induction as generalizing s h with
  | nil =>
    obtain ⟨rfl, rfl⟩ : s = s' ∧ h = h' := by simpa [Machine.exec] using he
    exact hr
  | cons a as ih =>
    obtain ⟨t, ht, he⟩ := Option.bind_eq_some_iff.1 he
    exact ih (hr.step ht) he

theorem Run.of_exec (M : Machine) (as : List M.Label) (s₀ : M.State)
    (P : M.State × List (M.State × M.Label) → Bool) (hi : M.Init s₀)
    (he : (M.exec as (s₀, [])).any P = true) : ∃ s h, M.Run s h ∧ P (s, h) = true := by
  obtain ⟨⟨s, h⟩, hx, hp⟩ := Option.any_eq_true _ _ |>.1 he
  exact ⟨s, h, (Run.init hi).exec hx, hp⟩

end Machine

end Spooled
