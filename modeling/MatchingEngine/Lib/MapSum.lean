import Mathlib.Algebra.BigOperators.Group.Finset.Basic
import MatchingEngine.Lib.HashMap

/-!
# MapSum: sums over the entries of a hash map

`sumRows` adds up what each entry is worth. Entries worth nothing do not count,
so the sum can be taken over any set of keys that has the others
(`sumRows_eq`).
-/

namespace HashModel

variable {κ V : Type} [DecidableEq κ]

/-- What one key is worth. -/
def rowValue (m : HashMap κ V) (g : κ → V → ℕ) (k : κ) : ℕ := ((m.lookup k).map (g k)).getD 0

/-- What all entries are worth. -/
def sumRows (m : HashMap κ V) (g : κ → V → ℕ) : ℕ := ∑ k ∈ m.keys, rowValue m g k

theorem rowValue_some {m : HashMap κ V} {k : κ} {v : V} (h : m.lookup k = some v)
    (g : κ → V → ℕ) : rowValue m g k = g k v := by rw [rowValue, h]; rfl

theorem rowValue_none {m : HashMap κ V} {k : κ} (h : m.lookup k = none) (g : κ → V → ℕ) :
    rowValue m g k = 0 := by rw [rowValue, h]; rfl

/-- Any set that has every key worth something will do. -/
theorem sumRows_eq {m : HashMap κ V} {g : κ → V → ℕ} {s : Finset κ}
    (h : ∀ k v, m.lookup k = some v → g k v ≠ 0 → k ∈ s) :
    sumRows m g = ∑ k ∈ s, rowValue m g k := by
  have hkeys : sumRows m g = ∑ k ∈ m.keys ∪ s, rowValue m g k := by
    refine Finset.sum_subset Finset.subset_union_left fun k _ hk => ?_
    refine rowValue_none ?_ g
    rw [Finmap.lookup_eq_none]
    exact fun hin => hk (Finmap.mem_keys.mpr hin)
  have hset : ∑ k ∈ s, rowValue m g k = ∑ k ∈ m.keys ∪ s, rowValue m g k := by
    refine Finset.sum_subset Finset.subset_union_right fun k _ hk => ?_
    cases hlookup : m.lookup k with
    | none => exact rowValue_none hlookup g
    | some v =>
        rw [rowValue_some hlookup]
        by_contra hne
        exact hk (h k v hlookup hne)
  rw [hkeys, hset]

end HashModel
