import Mathlib.Data.List.Induction
import MatchingEngine.Lib.Arith

/-!
# Run: a deterministic machine fed by a log

`run step s is` feeds the inputs `is` to a step function that may panic,
one after the other, and collects the outputs. What a run keeps is proved
once, from what a step keeps (`run_invariant`).
-/

namespace RustArith

variable {σ ι ω : Type} {step : σ → ι → Exec (σ × ω)}

/-- The state and the outputs after feeding every input in order. -/
def run (step : σ → ι → Exec (σ × ω)) : σ → List ι → Exec (σ × List ω)
  | s, [] => .ok (s, [])
  | s, i :: is =>
      match step s i with
      | .error e => .error e
      | .ok (s', w) =>
          match run step s' is with
          | .error e => .error e
          | .ok (s'', ws) => .ok (s'', w :: ws)

@[simp] theorem run_nil (s : σ) : run step s [] = .ok (s, []) := rfl

theorem run_cons {s s'' : σ} {i : ι} {is : List ι} {ws : List ω} :
    run step s (i :: is) = .ok (s'', ws) ↔
      ∃ s' w ws', step s i = .ok (s', w) ∧ run step s' is = .ok (s'', ws') ∧
        ws = w :: ws' := by
  simp only [run]
  constructor
  · intro h
    split at h
    · cases h
    · rename_i s' w hs
      split at h
      · cases h
      · rename_i s₂ ws' hr
        cases h
        exact ⟨s', w, ws', hs, hr, rfl⟩
  · rintro ⟨s', w, ws', hs, hr, rfl⟩
    simp only [hs, hr]

theorem run_append {s s'' : σ} {is js : List ι} {ws : List ω} :
    run step s (is ++ js) = .ok (s'', ws) ↔
      ∃ s' us vs, run step s is = .ok (s', us) ∧ run step s' js = .ok (s'', vs) ∧
        ws = us ++ vs := by
  induction is generalizing s ws with
  | nil => simp
  | cons i is ih =>
      simp only [List.cons_append, run_cons, ih]
      constructor
      · rintro ⟨s₁, w, _, hs, ⟨s', us, vs, hu, hv, rfl⟩, rfl⟩
        exact ⟨s', w :: us, vs, ⟨s₁, w, us, hs, hu, rfl⟩, hv, rfl⟩
      · rintro ⟨s', _, vs, ⟨s₁, w, us, hs, hu, rfl⟩, hv, rfl⟩
        exact ⟨s₁, w, us ++ vs, hs, ⟨s', us, vs, hu, hv, rfl⟩, rfl⟩

/-- The last step of a run. -/
theorem run_snoc {s s'' : σ} {is : List ι} {i : ι} {ws : List ω} :
    run step s (is ++ [i]) = .ok (s'', ws) ↔
      ∃ s' us w, run step s is = .ok (s', us) ∧ step s' i = .ok (s'', w) ∧
        ws = us ++ [w] := by
  rw [run_append]
  constructor
  · rintro ⟨s', us, vs, hu, hv, rfl⟩
    obtain ⟨s₂, w, _, hs, hr, rfl⟩ := run_cons.mp hv
    cases hr
    exact ⟨s', us, w, hu, hs, rfl⟩
  · rintro ⟨s', us, w, hu, hs, rfl⟩
    exact ⟨s', us, [w], hu, run_cons.mpr ⟨s'', w, [], hs, rfl, rfl⟩, rfl⟩

theorem run_length {s s' : σ} {is : List ι} {ws : List ω}
    (h : run step s is = .ok (s', ws)) : ws.length = is.length := by
  induction is generalizing s ws with
  | nil => cases h; rfl
  | cons i is ih =>
      obtain ⟨_, _, ws', _, hr, rfl⟩ := run_cons.mp h
      simp [ih hr]

/-- Every step of a run is taken from a state and with an input that meet
`C`. -/
def Along (step : σ → ι → Exec (σ × ω)) (s₀ : σ) (is : List ι) (C : σ → ι → Prop) : Prop :=
  ∀ pre i, pre ++ [i] <+: is → ∀ s ws, run step s₀ pre = .ok (s, ws) → C s i

theorem Along.of_prefix {s₀ : σ} {is js : List ι} {C : σ → ι → Prop}
    (h : Along step s₀ is C) (hp : js <+: is) : Along step s₀ js C :=
  fun pre i hpre => h pre i (hpre.trans hp)

/-- Whether the run returns and every step of it meets `c`. -/
def alongCheck (step : σ → ι → Exec (σ × ω)) (c : σ → ι → Bool) : σ → List ι → Bool
  | _, [] => true
  | s, i :: is => c s i && okWith (step s i) fun r => alongCheck step c r.1 is

theorem along_of_check {c : σ → ι → Bool} {C : σ → ι → Prop} (hc : ∀ s i, c s i = true → C s i)
    {is : List ι} : ∀ {s₀ : σ}, alongCheck step c s₀ is = true → Along step s₀ is C := by
  induction is with
  | nil =>
      intro s₀ _ pre i hpre
      exact absurd (List.prefix_nil.mp hpre) (List.append_ne_nil_of_right_ne_nil _ (by simp))
  | cons j is ih =>
      intro s₀ h pre i hpre s ws hrun
      rw [alongCheck, Bool.and_eq_true] at h
      obtain ⟨hj, hrest⟩ := h
      cases pre with
      | nil =>
          obtain ⟨rfl, _⟩ := List.cons_prefix_cons.mp hpre
          cases hrun
          exact hc _ _ hj
      | cons k pre =>
          obtain ⟨rfl, htail⟩ := List.cons_prefix_cons.mp hpre
          obtain ⟨s', w, ws', hstep, hrest', rfl⟩ := run_cons.mp hrun
          obtain ⟨r, hstep', hr⟩ := okWith_iff.mp hrest
          rw [hstep] at hstep'
          cases hstep'
          exact ih hr pre i htail s ws' hrest'

/-- **The invariant rule**, for runs along a condition: what holds at the
start with no output, and is kept by every step that meets the condition,
holds after every such run. -/
theorem run_invariant_along {motive : List ω → σ → Prop} {C : σ → ι → Prop} {s₀ : σ}
    (init : motive [] s₀)
    (kept : ∀ ws s i s' w, motive ws s → C s i → step s i = .ok (s', w) →
      motive (ws ++ [w]) s') :
    ∀ {is : List ι} {s : σ} {ws : List ω}, Along step s₀ is C →
      run step s₀ is = .ok (s, ws) → motive ws s := by
  intro is
  induction is using List.reverseRecOn with
  | nil => intro s ws _ h; cases h; exact init
  | append_singleton is i ih =>
      intro s ws halong h
      obtain ⟨s', us, w, hu, hs, rfl⟩ := run_snoc.mp h
      have hprev := ih (halong.of_prefix (List.prefix_append _ _)) hu
      exact kept us s' i s w hprev (halong is i (List.prefix_refl _) s' us hu) hs

/-- The invariant rule. -/
theorem run_invariant {motive : List ω → σ → Prop} {s₀ : σ}
    (init : motive [] s₀)
    (kept : ∀ ws s i s' w, motive ws s → step s i = .ok (s', w) →
      motive (ws ++ [w]) s') {is : List ι} {s : σ} {ws : List ω}
    (h : run step s₀ is = .ok (s, ws)) : motive ws s :=
  run_invariant_along (C := fun _ _ => True) init
    (fun ws s i s' w hm _ => kept ws s i s' w hm) (fun _ _ _ _ _ _ => trivial) h

/-- The first steps of a run. -/
theorem run_take {s s'' : σ} {is : List ι} {ws : List ω} (h : run step s is = .ok (s'', ws))
    (n : ℕ) : ∃ s', run step s (is.take n) = .ok (s', ws.take n) := by
  have hlen := run_length h
  rw [← List.take_append_drop n is, run_append] at h
  obtain ⟨s', us, vs, hu, hv, rfl⟩ := h
  have hus := run_length hu
  refine ⟨s', ?_⟩
  rw [hu]
  by_cases hn : n ≤ is.length
  · have hl : us.length = n := by rw [hus, List.length_take]; omega
    rw [← hl, List.take_left]
  · have hnil : is.drop n = [] := List.drop_eq_nil_of_le (by omega)
    rw [hnil] at hv
    cases hv
    rw [List.append_nil, List.take_of_length_le]
    rw [hus, List.length_take]
    omega

end RustArith
