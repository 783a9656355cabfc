import Mathlib.Data.Finset.Card
import MatchingEngine.Lib.MapSum

/-!
# Prune: rows deleted in batches

`deleteSome` deletes so many of the rows that meet a condition, whichever are found
first, and `prune` repeats it until a batch is not full or there were enough. The
number deleted is exact (`prune_total`). `Pruned` compares a table with what it would be
had nothing been deleted: what is missing has to be `gone`.
-/

namespace HashModel

variable {κ V : Type} [DecidableEq κ]

/-! ## Batches -/

/-- The keys of the rows that meet a condition. -/
def eligible (p : κ → V → Bool) (m : HashMap κ V) : Finset κ :=
  m.keys.filter fun k => (m.lookup k).any (p k) = true

/-- Delete `limit` rows that meet the condition, or all of them, and count. -/
def deleteSome (scan : DrainOrder κ) (p : κ → V → Bool) (limit : ℕ) (m : HashMap κ V) :
    HashMap κ V × ℕ :=
  let picked := (scan.toList (eligible p m)).take limit
  (picked.foldl (fun m k => m.erase k) m, picked.length)

/-- At most `rounds` batches, until one is not full. -/
def prune (scans : ℕ → DrainOrder κ) (p : κ → V → Bool) (limit : ℕ) :
    ℕ → HashMap κ V → HashMap κ V × ℕ
  | 0, m => (m, 0)
  | rounds + 1, m =>
      let (m, deleted) := deleteSome (scans rounds) p limit m
      if deleted < limit then (m, deleted)
      else
        let (m, total) := prune scans p limit rounds m
        (m, deleted + total)

theorem mem_eligible {p : κ → V → Bool} {m : HashMap κ V} {k : κ} :
    k ∈ eligible p m ↔ ∃ v, m.lookup k = some v ∧ p k v = true := by
  rw [eligible, Finset.mem_filter, Finmap.mem_keys, ← Finmap.lookup_isSome]
  cases m.lookup k with
  | none => simp
  | some v => simp

/-- A table some of whose rows were deleted, all of which met the condition. -/
structure Deleted (p : κ → V → Bool) (m m' : HashMap κ V) : Prop where
  lookup : ∀ k, m'.lookup k = m.lookup k ∨ (m'.lookup k = none ∧ k ∈ eligible p m)

namespace Deleted

variable {p : κ → V → Bool} {m m' m'' : HashMap κ V}

theorem refl (p : κ → V → Bool) (m : HashMap κ V) : Deleted p m m where
  lookup _ := .inl rfl

theorem kept (h : Deleted p m m') {k : κ} {v : V} (hk : m'.lookup k = some v) :
    m.lookup k = some v := by
  rcases h.lookup k with hsame | ⟨hnone, _⟩
  · rw [← hsame, hk]
  · rw [hnone] at hk
    cases hk

theorem trans (h : Deleted p m m') (h' : Deleted p m' m'') : Deleted p m m'' where
  lookup k := by
    rcases h'.lookup k with hsame | ⟨hnone, hin⟩
    · rw [hsame]
      exact h.lookup k
    · obtain ⟨v, hv, hp⟩ := mem_eligible.mp hin
      exact .inr ⟨hnone, mem_eligible.mpr ⟨v, h.kept hv, hp⟩⟩

end Deleted

/-- What one batch leaves: the rows that were not picked. -/
theorem lookup_deleteSome (scan : DrainOrder κ) (p : κ → V → Bool) (limit : ℕ)
    (m : HashMap κ V) (k : κ) : (deleteSome scan p limit m).1.lookup k
      = if k ∈ (scan.toList (eligible p m)).take limit then none else m.lookup k :=
  lookup_foldl_erase _ m k

theorem deleteSome_deleted (scan : DrainOrder κ) (p : κ → V → Bool) (limit : ℕ)
    (m : HashMap κ V) : Deleted p m (deleteSome scan p limit m).1 where
  lookup k := by
    rw [lookup_deleteSome]
    split
    · rename_i hin
      exact .inr ⟨rfl, (scan.mem_toList _ k).mp (List.mem_of_mem_take hin)⟩
    · exact .inl rfl

theorem deleteSome_count (scan : DrainOrder κ) (p : κ → V → Bool) (limit : ℕ)
    (m : HashMap κ V) : (deleteSome scan p limit m).2 = min limit (eligible p m).card := by
  have hcard : (scan.toList (eligible p m)).length = (eligible p m).card := by
    rw [← List.toFinset_card_of_nodup (scan.nodup _)]
    congr 1
    ext k
    rw [List.mem_toFinset, scan.mem_toList]
  rw [deleteSome, List.length_take, hcard]

theorem eligible_deleteSome (scan : DrainOrder κ) (p : κ → V → Bool) (limit : ℕ)
    (m : HashMap κ V) : eligible p (deleteSome scan p limit m).1
      = eligible p m \ ((scan.toList (eligible p m)).take limit).toFinset := by
  ext k
  rw [Finset.mem_sdiff, List.mem_toFinset, mem_eligible, mem_eligible, lookup_deleteSome]
  split
  · rename_i hin
    simp [hin]
  · rename_i hout
    simp [hout]

theorem deleteSome_left (scan : DrainOrder κ) (p : κ → V → Bool) (limit : ℕ)
    (m : HashMap κ V) : (eligible p (deleteSome scan p limit m).1).card
      = (eligible p m).card - (deleteSome scan p limit m).2 := by
  have hsub : ((scan.toList (eligible p m)).take limit).toFinset ⊆ eligible p m := by
    intro k hk
    exact (scan.mem_toList _ k).mp (List.mem_of_mem_take (List.mem_toFinset.mp hk))
  rw [eligible_deleteSome, Finset.card_sdiff_of_subset hsub, List.toFinset_card_of_nodup]
  · rfl
  · exact (scan.nodup _).sublist (List.take_sublist limit _)

/-! ## The loop -/

section Loop

variable (scans : ℕ → DrainOrder κ) (p : κ → V → Bool) (limit : ℕ)

/-- **Only rows that meet the condition** are deleted. -/
theorem prune_deleted (rounds : ℕ) : ∀ m : HashMap κ V,
    Deleted p m (prune scans p limit rounds m).1 := by
  induction rounds with
  | zero => exact fun m => .refl p m
  | succ rounds ih =>
      intro m
      have hfirst := deleteSome_deleted (scans rounds) p limit m
      rw [prune]
      dsimp only
      split
      · exact hfirst
      · exact hfirst.trans (ih _)

/-- **As many as there are**, up to the number of full batches. -/
theorem prune_total (rounds : ℕ) : ∀ m : HashMap κ V,
    (prune scans p limit rounds m).2 = min (rounds * limit) (eligible p m).card ∧
      (eligible p (prune scans p limit rounds m).1).card
        = (eligible p m).card - (prune scans p limit rounds m).2 := by
  induction rounds with
  | zero =>
      intro m
      simp [prune]
  | succ rounds ih =>
      intro m
      have hcount := deleteSome_count (scans rounds) p limit m
      have hleft := deleteSome_left (scans rounds) p limit m
      obtain ⟨htotal, hrest⟩ := ih (deleteSome (scans rounds) p limit m).1
      rw [prune]
      dsimp only
      rw [Nat.succ_mul]
      split
      · -- the batch was not full, so that was all
        rename_i hshort
        refine ⟨?_, hleft⟩
        have hless : (eligible p m).card < limit := by omega
        have hzero : 0 ≤ rounds * limit := Nat.zero_le _
        omega
      · rename_i hfull
        dsimp only
        have hall : limit ≤ (eligible p m).card := by omega
        constructor <;> omega

end Loop

/-! ## A table that is pruned, and one that is not -/

/-- The rows of `full`, but for some that are `gone`. -/
structure Pruned (gone : κ → V → Prop) (full m : HashMap κ V) : Prop where
  lookup : ∀ k, m.lookup k = full.lookup k ∨
    (m.lookup k = none ∧ ∃ v, full.lookup k = some v ∧ gone k v)

namespace Pruned

variable {gone gone' : κ → V → Prop} {full m m' : HashMap κ V}

theorem refl (gone : κ → V → Prop) (m : HashMap κ V) : Pruned gone m m where
  lookup _ := .inl rfl

theorem mono (h : Pruned gone full m)
    (hgone : ∀ k v, full.lookup k = some v → gone k v → gone' k v) : Pruned gone' full m where
  lookup k := (h.lookup k).imp id fun ⟨hnone, v, hv, hk⟩ => ⟨hnone, v, hv, hgone k v hv hk⟩

/-- Rows that are there are the rows of the other table. -/
theorem kept (h : Pruned gone full m) {k : κ} {v : V} (hk : m.lookup k = some v) :
    full.lookup k = some v := by
  rcases h.lookup k with hsame | ⟨hnone, _⟩
  · rw [← hsame, hk]
  · rw [hnone] at hk
    cases hk

/-- A row that may not be gone is there. -/
theorem same (h : Pruned gone full m) {k : κ} (hk : ∀ v, full.lookup k = some v → ¬ gone k v) :
    m.lookup k = full.lookup k := by
  rcases h.lookup k with hsame | ⟨_, v, hv, hgone⟩
  · exact hsame
  · exact absurd hgone (hk v hv)

/-- Rows that are worth nothing may be gone. -/
theorem sumRows_eq (h : Pruned gone full m) {g : κ → V → ℕ}
    (hg : ∀ k v, full.lookup k = some v → gone k v → g k v = 0) :
    sumRows m g = sumRows full g := by
  have hkeys : ∀ k v, m.lookup k = some v → g k v ≠ 0 → k ∈ full.keys := by
    intro k v hk _
    exact Finmap.mem_keys.mpr (Finmap.mem_of_lookup_eq_some (h.kept hk))
  rw [HashModel.sumRows_eq hkeys, sumRows]
  refine Finset.sum_congr rfl fun k _ => ?_
  rcases h.lookup k with hsame | ⟨hnone, v, hv, hgone⟩
  · rw [rowValue, rowValue, hsame]
  · rw [rowValue_none hnone, rowValue_some hv, hg k v hv hgone]

/-- Writing a row to both. -/
theorem insert (h : Pruned gone full m) (k : κ) (v : V) :
    Pruned gone (full.insert k v) (m.insert k v) where
  lookup k' := by
    rw [lookup_insert_ite, lookup_insert_ite]
    split
    · exact .inl rfl
    · exact h.lookup k'

/-- Deleting rows that are gone. -/
theorem deleted (h : Pruned gone full m) {p : κ → V → Bool}
    (hp : ∀ k v, full.lookup k = some v → p k v = true → gone k v) (hdeleted : Deleted p m m') :
    Pruned gone full m' where
  lookup k := by
    rcases hdeleted.lookup k with hsame | ⟨hnone, hin⟩
    · rw [hsame]
      exact h.lookup k
    · obtain ⟨v, hv, hk⟩ := mem_eligible.mp hin
      exact .inr ⟨hnone, v, h.kept hv, hp k v (h.kept hv) hk⟩

end Pruned

end HashModel
