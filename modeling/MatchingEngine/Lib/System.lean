import Mathlib.Data.Option.Basic

/-!
# System: the interleavings of some actors

One step function for all the actors, `none` where an action cannot be taken.
A run is any sequence of actions; what holds at the start and is kept by every
step that meets a condition holds in every state such a run reaches
(`Runs.invariant`). `exec` takes a given sequence, so that one run evaluates.
-/

namespace SystemModel

variable {σ α : Type} {step : σ → α → Option σ} {C : σ → α → Prop} {s₀ s s' : σ}

/-- The states reached from `s₀` by runs whose steps all meet `C`. -/
inductive Runs (step : σ → α → Option σ) (C : σ → α → Prop) (s₀ : σ) : σ → Prop where
  | start : Runs step C s₀ s₀
  | next {s s' : σ} {a : α} (before : Runs step C s₀ s) (meets : C s a)
      (taken : step s a = some s') : Runs step C s₀ s'

namespace Runs

/-- **The invariant rule**. -/
theorem invariant {motive : σ → Prop} (init : motive s₀)
    (kept : ∀ s a s', motive s → C s a → step s a = some s' → motive s')
    (h : Runs step C s₀ s) : motive s := by
  induction h with
  | start => exact init
  | next _ meets taken ih => exact kept _ _ _ ih meets taken

/-- A run under a condition is one under a weaker condition. -/
theorem mono {D : σ → α → Prop} (hweaker : ∀ s a, C s a → D s a) (h : Runs step C s₀ s) :
    Runs step D s₀ s := by
  induction h with
  | start => exact .start
  | next _ meets taken ih => exact .next ih (hweaker _ _ meets) taken

theorem trans (h : Runs step C s₀ s) (h' : Runs step C s s') : Runs step C s₀ s' := by
  induction h' with
  | start => exact h
  | next _ meets taken ih => exact .next ih meets taken

end Runs

/-- Take some actions in order, as long as every step meets `c`. -/
def exec (step : σ → α → Option σ) (c : σ → α → Bool) : σ → List α → Option σ
  | s, [] => some s
  | s, a :: as => if c s a then (step s a).bind fun s => exec step c s as else none

theorem runs_of_exec {c : σ → α → Bool} (hc : ∀ s a, c s a = true → C s a) {as : List α} :
    ∀ {s₀ : σ}, exec step c s₀ as = some s → Runs step C s₀ s := by
  induction as with
  | nil =>
      intro s₀ h
      cases h
      exact .start
  | cons a as ih =>
      intro s₀ h
      rw [exec] at h
      split at h
      · rename_i hmeets
        obtain ⟨s₁, htaken, hrest⟩ := Option.bind_eq_some_iff.mp h
        exact (Runs.next .start (hc s₀ a hmeets) htaken).trans (ih hrest)
      · cases h

/-- A run that evaluates, and what it evaluates to. -/
theorem exists_run {c : σ → α → Bool} (hc : ∀ s a, c s a = true → C s a) {p : σ → Bool}
    {as : List α} (h : (exec step c s₀ as).any p = true) : ∃ s, Runs step C s₀ s ∧ p s = true := by
  cases hexec : exec step c s₀ as with
  | none => rw [hexec] at h; cases h
  | some s =>
      rw [hexec] at h
      exact ⟨s, runs_of_exec hc hexec, h⟩

end SystemModel
