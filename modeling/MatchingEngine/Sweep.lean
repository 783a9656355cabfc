import MatchingEngine.Placement
import Mathlib.Data.List.TakeWhile

/-!
# Sweep: what a taker leaves of the opposite side

`sweep` walks levels, `Greedy.rest` walks orders. The two agree on the orders
left (`sweep_orders`); every level left is an old one, possibly shortened from
the front (`mem_sweep`); and a taker that wants all it can reach takes every
level it crosses (`sweep_of_total_le`).
-/

namespace MatchingEngine

open RustArith HashModel

/-- The orders of some levels, level by level, front to back. -/
def levelOrders (levels : List (UInt64 × List Order)) : List Order :=
  levels.flatMap Prod.snd

@[simp] theorem levelOrders_nil : levelOrders [] = [] := rfl

@[simp] theorem levelOrders_cons (l : UInt64 × List Order)
    (levels : List (UInt64 × List Order)) :
    levelOrders (l :: levels) = l.2 ++ levelOrders levels := rfl

theorem mem_levelOrders {levels : List (UInt64 × List Order)} {m : Order} :
    m ∈ levelOrders levels ↔ ∃ l ∈ levels, m ∈ l.2 := List.mem_flatMap

/-- The orders out of reach. -/
def beyond (crosses : UInt64 → Bool) (levels : List (UInt64 × List Order)) :
    List (UInt64 × List Order) :=
  levels.dropWhile fun l => crosses l.1

theorem beyond_cons (crosses : UInt64 → Bool) (p : UInt64) (queue : List Order)
    (levels : List (UInt64 × List Order)) :
    beyond crosses ((p, queue) :: levels)
      = if crosses p then beyond crosses levels else (p, queue) :: levels := by
  by_cases hc : crosses p <;> simp [beyond, hc]

/-- Reachable orders and the others make up the side. -/
theorem reach_append_beyond (crosses : UInt64 → Bool)
    (levels : List (UInt64 × List Order)) :
    reach crosses levels ++ levelOrders (beyond crosses levels) = levelOrders levels := by
  rw [reach, levelOrders, beyond, ← List.flatMap_append, List.takeWhile_append_dropWhile]
  rfl

theorem mem_reach {crosses : UInt64 → Bool} {levels : List (UInt64 × List Order)}
    {m : Order} (h : m ∈ reach crosses levels) :
    ∃ l ∈ levels, crosses l.1 = true ∧ m ∈ l.2 := by
  obtain ⟨l, hl, hm⟩ := List.mem_flatMap.mp h
  exact ⟨l, List.takeWhile_subset _ hl,
    List.mem_takeWhile_imp (p := fun l : UInt64 × List Order => crosses l.1) hl, hm⟩

/-- **The orders left** are the rest of the reachable ones and all the
others. -/
theorem sweep_orders (crosses : UInt64 → Bool) (levels : List (UInt64 × List Order)) :
    ∀ r, levelOrders (sweep crosses r levels)
      = Greedy.rest Order.units Order.shrink r (reach crosses levels)
        ++ levelOrders (beyond crosses levels) := by
  induction levels with
  | nil => intro r; simp [sweep, reach, beyond]
  | cons l levels ih =>
      obtain ⟨p, queue⟩ := l
      intro r
      by_cases hr : r = 0
      · rw [hr, sweep_zero, Greedy.rest_zero, reach_append_beyond]
      · by_cases hc : crosses p = true
        · rw [reach_cons, if_pos hc, beyond_cons, if_pos hc, Greedy.rest_append, sweep,
            if_neg (by simp [hr, hc])]
          cases hrest : Greedy.rest Order.units Order.shrink r queue with
          | nil => simp [ih]
          | cons m ms =>
              have hle := Greedy.le_total_of_rest Order.units Order.shrink
                (hrest ▸ List.cons_ne_nil m ms)
              have h0 : r - Greedy.total Order.units queue = 0 := by omega
              simp [h0, reach_append_beyond]
        · rw [reach_cons, if_neg hc, beyond_cons, if_neg hc, sweep,
            if_pos (.inr (by simpa using hc))]
          simp

/-- **A level left** is an old one whose queue lost its front, the order after
that possibly reduced. -/
theorem mem_sweep {crosses : UInt64 → Bool} {levels : List (UInt64 × List Order)}
    {r : ℕ} {p : UInt64} {queue : List Order} (h : (p, queue) ∈ sweep crosses r levels) :
    (p, queue) ∈ levels ∨ ∃ old r', (p, old) ∈ levels ∧ queue ≠ [] ∧
      crosses p = true ∧ 0 < r' ∧ queue = Greedy.rest Order.units Order.shrink r' old := by
  induction levels generalizing r with
  | nil => cases h
  | cons l levels ih =>
      obtain ⟨p', queue'⟩ := l
      rw [sweep] at h
      split at h
      · exact .inl h
      · rename_i hstop
        rw [not_or] at hstop
        cases hrest : Greedy.rest Order.units Order.shrink r queue' with
        | nil =>
            simp only [hrest] at h
            rcases ih h with hl | ⟨old, r', hold, hne, hc, hr', hq⟩
            · exact .inl (List.mem_cons_of_mem _ hl)
            · exact .inr ⟨old, r', List.mem_cons_of_mem _ hold, hne, hc, hr', hq⟩
        | cons m ms =>
            simp only [hrest] at h
            rcases List.mem_cons.mp h with heq | hl
            · cases heq
              exact .inr ⟨queue', r, List.mem_cons_self, List.cons_ne_nil _ _,
                by simpa using hstop.2, Nat.pos_of_ne_zero hstop.1, hrest.symm⟩
            · exact .inl (List.mem_cons_of_mem _ hl)

/-- **A taker that takes all it can reach** has swept everything it crosses. -/
theorem sweep_of_total_le {crosses : UInt64 → Bool} {levels : List (UInt64 × List Order)}
    (hpos : ∀ l ∈ levels, ∀ m ∈ l.2, 0 < m.units) (hne : ∀ l ∈ levels, l.2 ≠ []) : ∀ {r : ℕ},
    Greedy.total Order.units (reach crosses levels) ≤ r →
      sweep crosses r levels = beyond crosses levels := by
  induction levels with
  | nil => intro r _; rfl
  | cons l levels ih =>
      obtain ⟨p, queue⟩ := l
      intro r h
      by_cases hc : crosses p = true
      · rw [reach_cons, if_pos hc, Greedy.total_append] at h
        have hqueue : ∀ m ∈ queue, 0 < m.units := hpos _ List.mem_cons_self
        have hsome : 0 < Greedy.total Order.units queue := by
          obtain ⟨m, ms, rfl⟩ := List.exists_cons_of_ne_nil (hne _ List.mem_cons_self)
          have hm := hqueue m List.mem_cons_self
          rw [Greedy.total_cons]
          omega
        have hused : Greedy.rest Order.units Order.shrink r queue = [] :=
          (Greedy.rest_eq_nil Order.units Order.shrink hqueue).mpr (by omega)
        rw [sweep, if_neg (by simp [hc]; omega), hused, beyond_cons, if_pos hc]
        exact ih (fun l hl => hpos l (List.mem_cons_of_mem _ hl))
          (fun l hl => hne l (List.mem_cons_of_mem _ hl)) (by omega)
      · rw [beyond_cons, if_neg hc, sweep, if_pos (.inr (by simpa using hc))]

/-! ## The order of a side -/

/-- A taker of side `s` meets price `p` before price `p'`. -/
def Side.Before (s : Side) (p p' : UInt64) : Prop :=
  match s with
  | .bid => p < p'
  | .ask => p' < p

theorem bestFirst_pairwise (s : Side) (levels : Levels) :
    (bestFirst s levels).Pairwise fun x y => s.Before x.1 y.1 := by
  cases s with
  | bid => exact levels.sorted
  | ask => exact List.pairwise_reverse.mpr levels.sorted

/-- An order that trades at a price trades at every better one. -/
theorem Order.crosses_of_before (o : Order) (p p' : UInt64) (h : o.side.Before p p')
    (hc : o.crosses p' = true) : o.crosses p = true := by
  unfold Order.crosses at *
  cases ht : o.orderType with
  | market => rfl
  | limit =>
      cases hs : o.side with
      | bid =>
          simp only [ht, hs, Side.Before, decide_eq_true_eq] at *
          exact h.le.trans hc
      | ask =>
          simp only [ht, hs, Side.Before, decide_eq_true_eq] at *
          exact hc.trans h.le

/-- The levels beyond a taker's reach are those it does not cross. -/
theorem not_crosses_of_beyond {o : Order} {levels : Levels} {l : UInt64 × List Order}
    (h : l ∈ beyond o.crosses (bestFirst o.side levels)) : o.crosses l.1 = false :=
  SortedMap.of_mem_dropWhile (p := fun l : UInt64 × List Order => o.crosses l.1)
    (fun x y => o.crosses_of_before x.1 y.1) (bestFirst_pairwise o.side levels) h

/-- A reachable order stands at a price the taker crosses, and conversely. -/
theorem reach_eq_filter (o : Order) (levels : Levels) :
    reach o.crosses (bestFirst o.side levels)
      = levelOrders ((bestFirst o.side levels).filter fun l => o.crosses l.1) := by
  rw [reach, SortedMap.takeWhile_eq_filter (p := fun l : UInt64 × List Order => o.crosses l.1)
    (fun x y => o.crosses_of_before x.1 y.1) (bestFirst_pairwise o.side levels)]
  rfl

end MatchingEngine
