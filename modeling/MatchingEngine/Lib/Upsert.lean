import Mathlib.Algebra.BigOperators.Group.Finset.Piecewise
import MatchingEngine.Lib.HashMap

/-!
# Upsert: rows that collect

The first item under a key inserts a row, the later ones are merged into it. A
merge may fail, and then the whole run of items does. What a row holds depends
on the items under its own key, in their order (`lookup_upserts`), and so does
whether the run fails (`upserts_return`).
-/

namespace HashModel

section Upsert

variable {κ α β : Type} [DecidableEq κ] (insert : α → β) (merge : β → α → Option β)

/-- An item under its key. -/
def upsert (rows : HashMap κ β) (w : κ × α) : Option (HashMap κ β) :=
  match rows.lookup w.1 with
  | none => some (rows.insert w.1 (insert w.2))
  | some row => (merge row w.2).map fun row => rows.insert w.1 row

/-- The row of one key, if there is one, under an item of that key. -/
def collect (row : Option β) (x : α) : Option (Option β) :=
  match row with
  | none => some (some (insert x))
  | some row => (merge row x).map some

/-- The items of one key. -/
def atKey (k : κ) (ws : List (κ × α)) : List α := (ws.filter (·.1 = k)).map Prod.snd

@[simp] theorem atKey_nil (k : κ) : atKey k ([] : List (κ × α)) = [] := rfl

@[simp] theorem atKey_cons (k : κ) (w : κ × α) (ws : List (κ × α)) :
    atKey k (w :: ws) = if w.1 = k then w.2 :: atKey k ws else atKey k ws := by
  unfold atKey
  split
  · rename_i h
    simp [h]
  · rename_i h
    simp [h]

theorem atKey_append (k : κ) (ws ws' : List (κ × α)) :
    atKey k (ws ++ ws') = atKey k ws ++ atKey k ws' := by simp [atKey]

variable {insert : α → β} {merge : β → α → Option β}

/-- A row that is there collects by merging. -/
theorem collect_some (row : β) (xs : List α) :
    xs.foldlM (collect insert merge) (some row) = (xs.foldlM merge row).map some := by
  induction xs generalizing row with
  | nil => rfl
  | cons x xs ih =>
      rw [List.foldlM_cons, List.foldlM_cons]
      cases h : merge row x with
      | none => simp [collect, h]
      | some row' =>
          simp only [collect, h, Option.map_some, Option.bind_eq_bind, Option.bind_some]
          exact ih row'

/-- The first item makes the row. -/
theorem collect_none (x : α) (xs : List α) :
    (x :: xs).foldlM (collect insert merge) none = (xs.foldlM merge (insert x)).map some := by
  rw [List.foldlM_cons]
  exact collect_some (insert x) xs

variable {rows rows' : HashMap κ β} {w : κ × α} {ws : List (κ × α)}

/-- **One item** is collected by the row of its key. -/
theorem upsert_ok (h : upsert insert merge rows w = some rows') :
    collect insert merge (rows.lookup w.1) w.2 = some (rows'.lookup w.1) ∧
      ∀ k, k ≠ w.1 → rows'.lookup k = rows.lookup k := by
  unfold upsert at h
  cases hrow : rows.lookup w.1 with
  | none =>
      rw [hrow] at h
      cases h
      exact ⟨by simp [collect], fun k hk => Finmap.lookup_insert_of_ne _ hk⟩
  | some row =>
      rw [hrow] at h
      obtain ⟨row', hmerge, rfl⟩ := Option.map_eq_some_iff.mp h
      exact ⟨by simp [collect, hmerge], fun k hk => Finmap.lookup_insert_of_ne _ hk⟩

/-- Only its own row can refuse it. -/
theorem upsert_returns {row : Option β}
    (h : collect insert merge (rows.lookup w.1) w.2 = some row) :
    ∃ rows', upsert insert merge rows w = some rows' := by
  unfold upsert
  cases hrow : rows.lookup w.1 with
  | none => exact ⟨_, rfl⟩
  | some row' =>
      rw [hrow] at h
      obtain ⟨merged, hmerge, _⟩ := Option.map_eq_some_iff.mp h
      exact ⟨_, Option.map_eq_some_iff.mpr ⟨merged, hmerge, rfl⟩⟩

/-- **Each row collects the items of its key**, in their order. -/
theorem lookup_upserts (h : ws.foldlM (upsert insert merge) rows = some rows') (k : κ) :
    (atKey k ws).foldlM (collect insert merge) (rows.lookup k) = some (rows'.lookup k) := by
  induction ws generalizing rows with
  | nil => cases h; rfl
  | cons w ws ih =>
      rw [List.foldlM_cons] at h
      obtain ⟨rows₁, hfirst, hrest⟩ := Option.bind_eq_some_iff.mp h
      obtain ⟨hself, hother⟩ := upsert_ok hfirst
      rw [atKey_cons]
      split
      · rename_i hk
        subst hk
        rw [List.foldlM_cons]
        exact Option.bind_eq_some_iff.mpr ⟨_, hself, ih hrest⟩
      · rename_i hk
        rw [← hother k (Ne.symm hk)]
        exact ih hrest

/-- **The run goes through** when every row can collect its items. -/
theorem upserts_return
    (h : ∀ k, ∃ row, (atKey k ws).foldlM (collect insert merge) (rows.lookup k) = some row) :
    ∃ rows', ws.foldlM (upsert insert merge) rows = some rows' := by
  induction ws generalizing rows with
  | nil => exact ⟨rows, rfl⟩
  | cons w ws ih =>
      have hw := h w.1
      rw [atKey_cons, if_pos rfl, List.foldlM_cons] at hw
      obtain ⟨_, hw⟩ := hw
      obtain ⟨first, hfirst, _⟩ := Option.bind_eq_some_iff.mp hw
      obtain ⟨rows₁, hrows₁⟩ := upsert_returns hfirst
      obtain ⟨hself, hother⟩ := upsert_ok hrows₁
      have hrest : ∀ k, ∃ row,
          (atKey k ws).foldlM (collect insert merge) (rows₁.lookup k) = some row := by
        intro k
        obtain ⟨row, hk⟩ := h k
        rw [atKey_cons] at hk
        split at hk
        · rename_i heq
          subst heq
          rw [List.foldlM_cons] at hk
          obtain ⟨next, hnext, hk⟩ := Option.bind_eq_some_iff.mp hk
          rw [hself] at hnext
          exact ⟨row, Option.some.inj hnext ▸ hk⟩
        · rename_i hne
          rw [hother k (Ne.symm hne)]
          exact ⟨row, hk⟩
      obtain ⟨rows', hrows'⟩ := ih hrest
      exact ⟨rows', by rw [List.foldlM_cons, hrows₁]; exact hrows'⟩

end Upsert

/-- **A sum by keys**: what a list adds up to is what the items of each key add
up to, over all keys that occur. -/
theorem sum_fibers {κ α M : Type} [DecidableEq κ] [AddCommMonoid M] (key : α → κ) (f : α → M)
    {S : Finset κ} {xs : List α} (h : ∀ x ∈ xs, key x ∈ S) :
    (xs.map f).sum = S.sum fun k => ((xs.filter (key · = k)).map f).sum := by
  induction xs with
  | nil => simp
  | cons x xs ih =>
      have hsplit : ∀ k, (((x :: xs).filter (key · = k)).map f).sum
          = (if key x = k then f x else 0) + ((xs.filter (key · = k)).map f).sum := by
        intro k
        by_cases hk : key x = k
        · simp [hk]
        · simp [hk]
      have hx : (S.sum fun k => if key x = k then f x else 0) = f x := by
        rw [Finset.sum_ite_eq, if_pos (h x List.mem_cons_self)]
      rw [List.map_cons, List.sum_cons, ih fun x' hx' => h x' (List.mem_cons_of_mem _ hx'),
        Finset.sum_congr rfl fun k _ => hsplit k, Finset.sum_add_distrib, hx]

end HashModel
