import Mathlib.Logic.Function.Basic
import Mathlib.Data.List.Basic

/-!
# Writes: set-style updates of keyed contents

The contents of a store are a function of the key. A write sets one key, to
`none` when it removes it, so the last write to a key decides and an earlier
one is only visible where nothing was written since. A concrete store takes
part through `read_foldl`, from what one of its own writes does.
-/

namespace Writes

variable {κ β : Type} [DecidableEq κ]

/-- The contents after one write. -/
def set (m : κ → Option β) (w : κ × Option β) : κ → Option β := Function.update m w.1 w.2

/-- The contents after some writes, in order. -/
def sets (m : κ → Option β) (ws : List (κ × Option β)) : κ → Option β := ws.foldl set m

@[simp] theorem sets_nil (m : κ → Option β) : sets m [] = m := rfl

@[simp] theorem sets_cons (m : κ → Option β) (w : κ × Option β) (ws : List (κ × Option β)) :
    sets m (w :: ws) = sets (set m w) ws := rfl

theorem set_self (m : κ → Option β) (w : κ × Option β) : set m w w.1 = w.2 :=
  Function.update_self ..

theorem set_of_ne {m : κ → Option β} {w : κ × Option β} {k : κ} (h : k ≠ w.1) :
    set m w k = m k := Function.update_of_ne h ..

variable {m m' : κ → Option β} {ws : List (κ × Option β)} {k : κ}

/-- A key nobody wrote keeps its value. -/
theorem sets_of_notMem (h : k ∉ ws.map Prod.fst) : sets m ws k = m k := by
  induction ws generalizing m with
  | nil => rfl
  | cons w ws ih =>
      rw [List.map_cons, List.mem_cons, not_or] at h
      rw [sets_cons, ih h.2, set_of_ne h.1]

/-- A key somebody wrote does not remember what it was before. -/
theorem sets_of_mem (h : k ∈ ws.map Prod.fst) : sets m ws k = sets m' ws k := by
  induction ws generalizing m m' with
  | nil => cases h
  | cons w ws ih =>
      rw [sets_cons, sets_cons]
      by_cases hk : k ∈ ws.map Prod.fst
      · exact ih hk
      · have heq : k = w.1 := (List.mem_cons.mp h).resolve_right hk
        rw [sets_of_notMem hk, sets_of_notMem hk, heq, set_self, set_self]

/-- **The same writes again** change nothing. -/
theorem sets_sets : sets (sets m ws) ws = sets m ws := by
  funext k
  by_cases hk : k ∈ ws.map Prod.fst
  · exact sets_of_mem hk
  · exact sets_of_notMem hk

/-- **Last write wins**: a key that is always written with one value ends at
that value. -/
theorem sets_eq {v : Option β} (hset : ∀ v', (k, v') ∈ ws → v' = v)
    (hstay : k ∉ ws.map Prod.fst → m k = v) : sets m ws k = v := by
  induction ws generalizing m with
  | nil => exact hstay (by simp)
  | cons w ws ih =>
      refine ih (fun v' hin => hset v' (List.mem_cons_of_mem _ hin)) fun hno => ?_
      by_cases hk : k = w.1
      · rw [hk, set_self]
        exact hset w.2 (by rw [hk]; exact List.mem_cons_self)
      · rw [set_of_ne hk]
        exact hstay (by simp [hk, hno])

/-- **Two stores under the same writes** agree when every key they differ in is
written. -/
theorem sets_eq_iff : sets m ws = sets m' ws ↔ ∀ k, m k ≠ m' k → k ∈ ws.map Prod.fst := by
  constructor
  · intro h k hne
    by_contra hno
    have hk := congrFun h k
    rw [sets_of_notMem hno, sets_of_notMem hno] at hk
    exact hne hk
  · intro h
    funext k
    by_cases hk : k ∈ ws.map Prod.fst
    · exact sets_of_mem hk
    · rw [sets_of_notMem hk, sets_of_notMem hk]
      by_contra hne
      exact hk (h k hne)

/-- **Refinement**: a store whose own writes are writes of its contents. -/
theorem read_foldl {σ α : Type} {read : σ → κ → Option β} {write : σ → α → σ}
    {f : α → κ × Option β} (h : ∀ s a, read (write s a) = set (read s) (f a)) (s : σ)
    (as : List α) : read (as.foldl write s) = sets (read s) (as.map f) := by
  induction as generalizing s with
  | nil => rfl
  | cons a as ih => rw [List.foldl_cons, ih, h, List.map_cons, sets_cons]

end Writes
