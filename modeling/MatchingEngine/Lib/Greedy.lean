import Mathlib.Algebra.BigOperators.Group.List.Basic
import Mathlib.Algebra.Order.Group.Nat
import Mathlib.Algebra.Ring.Nat

/-!
# Greedy: filling a demand from a list of suppliers in order

A demand of `r` units walks down a list whose members each supply `cap`
units: every member gives what it has until the demand is met. `walk` lists
what was taken from whom, `rest` what the list looks like afterwards, with
the last member touched shrunk in place.

The facts are the ones a matching engine needs: both functions split at an
append, the quantities taken add up to what was available, and any amount
weighted by units is conserved between the list before, the fills and the
list after.
-/

namespace Greedy

variable {α : Type} (cap : α → ℕ) (shrink : α → ℕ → α)

/-- The units a list supplies. -/
def total (l : List α) : ℕ := (l.map cap).sum

/-- Who gives how much to a demand of `r`. -/
def walk : ℕ → List α → List (α × ℕ)
  | _, [] => []
  | r, m :: ms => if r = 0 then [] else (m, min r (cap m)) :: walk (r - cap m) ms

/-- The list after a demand of `r` was served. -/
def rest : ℕ → List α → List α
  | _, [] => []
  | r, m :: ms =>
      if r = 0 then m :: ms
      else if cap m ≤ r then rest (r - cap m) ms
      else shrink m r :: ms

@[simp] theorem total_nil : total cap [] = 0 := rfl

@[simp] theorem total_cons (m : α) (ms : List α) :
    total cap (m :: ms) = cap m + total cap ms := by simp [total]

@[simp] theorem total_append (l₁ l₂ : List α) :
    total cap (l₁ ++ l₂) = total cap l₁ + total cap l₂ := by simp [total]

@[simp] theorem walk_nil (r : ℕ) : walk cap r [] = [] := by cases r <;> rfl

@[simp] theorem walk_zero (l : List α) : walk cap 0 l = [] := by
  cases l <;> simp [walk]

@[simp] theorem rest_nil (r : ℕ) : rest cap shrink r [] = [] := by
  cases r <;> rfl

@[simp] theorem rest_zero (l : List α) : rest cap shrink 0 l = l := by
  cases l <;> simp [rest]

/-! ## Splitting at an append -/

theorem walk_append (r : ℕ) (l₁ l₂ : List α) :
    walk cap r (l₁ ++ l₂) = walk cap r l₁ ++ walk cap (r - total cap l₁) l₂ := by
  induction l₁ generalizing r with
  | nil => simp
  | cons m ms ih =>
      by_cases hr : r = 0
      · simp [hr]
      · simp only [List.cons_append, walk, hr, if_false, ih, total_cons]
        rw [Nat.sub_sub]

theorem rest_append (r : ℕ) (l₁ l₂ : List α) :
    rest cap shrink r (l₁ ++ l₂)
      = rest cap shrink r l₁ ++ rest cap shrink (r - total cap l₁) l₂ := by
  induction l₁ generalizing r with
  | nil => simp
  | cons m ms ih =>
      by_cases hr : r = 0
      · simp [hr]
      · simp only [List.cons_append, rest, hr, if_false, ih, total_cons]
        by_cases hm : cap m ≤ r
        · simp only [hm, if_true]
          rw [Nat.sub_sub]
        · have h0 : r - (cap m + total cap ms) = 0 := by omega
          simp [hm, h0]

/-! ## What is taken -/

theorem sum_walk (r : ℕ) (l : List α) :
    ((walk cap r l).map Prod.snd).sum = min r (total cap l) := by
  induction l generalizing r with
  | nil => simp
  | cons m ms ih =>
      by_cases hr : r = 0
      · simp [hr]
      · simp only [walk, hr, if_false, List.map_cons, List.sum_cons, ih, total_cons]
        omega

/-- A demand that nobody can meet takes everything, however large it is. -/
theorem walk_of_total_le {r : ℕ} {l : List α} (hpos : ∀ m ∈ l, 0 < cap m)
    (h : total cap l ≤ r) : walk cap r l = l.map fun m => (m, cap m) := by
  induction l generalizing r with
  | nil => rw [walk_nil]; rfl
  | cons m ms ih =>
      have hm := hpos m List.mem_cons_self
      rw [total_cons] at h
      rw [walk, if_neg (by omega), min_eq_right (by omega),
        ih (fun m' hm' => hpos m' (List.mem_cons_of_mem _ hm')) (by omega), List.map_cons]

theorem mem_walk {r : ℕ} {l : List α} {m : α} {q : ℕ}
    (h : (m, q) ∈ walk cap r l) : m ∈ l ∧ q ≤ cap m ∧ q ≤ r := by
  induction l generalizing r with
  | nil => simp at h
  | cons x xs ih =>
      by_cases hr : r = 0
      · simp [hr] at h
      · simp only [walk, hr, if_false, List.mem_cons, Prod.mk.injEq] at h
        rcases h with ⟨rfl, rfl⟩ | h
        · exact ⟨List.mem_cons_self, by omega, by omega⟩
        · have ⟨hm, hq, hqr⟩ := ih h
          exact ⟨List.mem_cons_of_mem _ hm, hq, by omega⟩

/-- Positive suppliers give positive amounts. -/
theorem walk_pos {r : ℕ} {l : List α} (hpos : ∀ m ∈ l, 0 < cap m) {m : α} {q : ℕ}
    (h : (m, q) ∈ walk cap r l) : 0 < q := by
  induction l generalizing r with
  | nil => simp at h
  | cons x xs ih =>
      by_cases hr : r = 0
      · simp [hr] at h
      · simp only [walk, hr, if_false, List.mem_cons, Prod.mk.injEq] at h
        rcases h with ⟨rfl, rfl⟩ | h
        · have := hpos m List.mem_cons_self
          omega
        · exact ih (fun y hy => hpos y (List.mem_cons_of_mem _ hy)) h

/-- Whom a walk reaches: a front part of the list. -/
theorem walk_prefix (r : ℕ) (l : List α) : (walk cap r l).map Prod.fst <+: l := by
  induction l generalizing r with
  | nil => simp
  | cons m ms ih =>
      rw [walk]
      split
      · exact List.nil_prefix
      · rw [List.map_cons, List.prefix_cons_inj]
        exact ih _

/-! ## What is left -/

/-- Positive suppliers are used up exactly by a demand that reaches their
total. -/
theorem rest_eq_nil {r : ℕ} {l : List α} (hpos : ∀ m ∈ l, 0 < cap m) :
    rest cap shrink r l = [] ↔ total cap l ≤ r := by
  induction l generalizing r with
  | nil => simp
  | cons m ms ih =>
      have hm := hpos m List.mem_cons_self
      have ih' := fun {r} => ih (r := r) fun y hy => hpos y (List.mem_cons_of_mem _ hy)
      simp only [rest, total_cons]
      split
      · simp only [reduceCtorEq, false_iff]; omega
      · split
        · rw [ih']; omega
        · simp only [reduceCtorEq, false_iff]; omega

/-- Whoever is left over was left over by a demand that was met. -/
theorem le_total_of_rest {r : ℕ} {l : List α} (h : rest cap shrink r l ≠ []) :
    r ≤ total cap l := by
  induction l generalizing r with
  | nil => simp at h
  | cons m ms ih =>
      simp only [rest] at h
      rw [total_cons]
      split at h
      · omega
      · split at h
        · have := ih h
          omega
        · omega

/-- **The shape of a walk**: a front part is used up, at most one member after
it gives some but not all, and everything behind is untouched. -/
theorem walk_rest_shape {r : ℕ} {l : List α} (hpos : ∀ m ∈ l, 0 < cap m) :
    ∃ used left, l = used ++ left ∧
      ((walk cap r l = used.map (fun m => (m, cap m)) ∧ rest cap shrink r l = left) ∨
        ∃ m ms q, left = m :: ms ∧ 0 < q ∧ q < cap m ∧
          walk cap r l = used.map (fun m => (m, cap m)) ++ [(m, q)] ∧
          rest cap shrink r l = shrink m q :: ms) := by
  induction l generalizing r with
  | nil => exact ⟨[], [], rfl, .inl (by simp)⟩
  | cons m ms ih =>
      by_cases hr : r = 0
      · exact ⟨[], m :: ms, rfl, .inl (by simp [hr])⟩
      by_cases hm : cap m ≤ r
      · obtain ⟨used, left, hl, hshape⟩ := ih (r := r - cap m)
          fun y hy => hpos y (List.mem_cons_of_mem _ hy)
        refine ⟨m :: used, left, by rw [hl]; rfl, ?_⟩
        simp only [walk, rest, hr, if_false, hm, if_true, min_eq_right hm]
        rcases hshape with ⟨hw, hrest⟩ | ⟨m', ms', q, hleft, hq, hq', hw, hrest⟩
        · exact .inl ⟨by rw [hw]; rfl, hrest⟩
        · exact .inr ⟨m', ms', q, hleft, hq, hq', by rw [hw]; rfl, hrest⟩
      · have h0 : r - cap m = 0 := by omega
        refine ⟨[], m :: ms, rfl, .inr ⟨m, ms, r, rfl, by omega, by omega, ?_, ?_⟩⟩
        · simp [walk, hr, h0, min_eq_left (by omega : r ≤ cap m)]
        · simp [rest, hr, hm]

/-- Every member of the list afterwards is a member from before, untouched
or shrunk by less than it supplied. -/
theorem mem_rest {r : ℕ} {l : List α} {x : α} (h : x ∈ rest cap shrink r l) :
    x ∈ l ∨ ∃ m ∈ l, ∃ q, 0 < q ∧ q < cap m ∧ x = shrink m q := by
  induction l generalizing r with
  | nil => simp at h
  | cons m ms ih =>
      simp only [rest] at h
      split at h
      · exact .inl h
      · split at h
        · rcases ih h with hx | ⟨y, hy, q, hq⟩
          · exact .inl (List.mem_cons_of_mem _ hx)
          · exact .inr ⟨y, List.mem_cons_of_mem _ hy, q, hq⟩
        · rcases List.mem_cons.mp h with rfl | hx
          · exact .inr ⟨m, List.mem_cons_self, r, by omega, by omega, rfl⟩
          · exact .inl (List.mem_cons_of_mem _ hx)

/-- **Conservation**: an amount of `g m` per unit of `m` splits between the
fills and the list afterwards, when shrinking takes units and keeps the
weight. -/
theorem sum_walk_add_rest (g : α → ℕ) {r : ℕ} {l : List α}
    (hcap : ∀ m ∈ l, ∀ q < cap m, cap (shrink m q) = cap m - q)
    (hg : ∀ m ∈ l, ∀ q < cap m, g (shrink m q) = g m) :
    ((walk cap r l).map fun f => g f.1 * f.2).sum
        + ((rest cap shrink r l).map fun m => g m * cap m).sum
      = (l.map fun m => g m * cap m).sum := by
  induction l generalizing r with
  | nil => simp
  | cons m ms ih =>
      have ih' := fun {r} => ih (r := r)
        (fun y hy => hcap y (List.mem_cons_of_mem _ hy))
        (fun y hy => hg y (List.mem_cons_of_mem _ hy))
      by_cases hr : r = 0
      · simp [hr]
      · simp only [walk, rest, hr, if_false, List.map_cons, List.sum_cons]
        by_cases hm : cap m ≤ r
        · rw [if_pos hm, min_eq_right hm, ← ih' (r := r - cap m)]
          omega
        · have hlt : r < cap m := by omega
          have h0 : r - cap m = 0 := by omega
          rw [if_neg hm, min_eq_left hlt.le, h0, walk_zero, List.map_cons, List.sum_cons,
            hg m List.mem_cons_self r hlt, hcap m List.mem_cons_self r hlt]
          have hsplit : g m * r + g m * (cap m - r) = g m * cap m := by
            rw [← Nat.mul_add, Nat.add_sub_cancel' hlt.le]
          simp only [List.map_nil, List.sum_nil]
          omega

/-- What shrinking keeps, the list afterwards has from the list before, a
front part missing. -/
theorem rest_map_suffix {β : Type} (g : α → β) (hg : ∀ m q, g (shrink m q) = g m) (r : ℕ)
    (l : List α) : ((rest cap shrink r l).map g) <:+ l.map g := by
  induction l generalizing r with
  | nil => exact List.suffix_refl _
  | cons m ms ih =>
      simp only [rest]
      split
      · exact List.suffix_refl _
      · split
        · exact (ih _).trans (List.suffix_cons _ _)
        · rw [List.map_cons, hg]
          exact List.suffix_refl _

/-! ## The list afterwards, member by member

Where members are told apart by a key, each member's fate can be read off the
fills alone. -/

section Keyed

variable {κ : Type} [DecidableEq κ] (key : α → κ)

/-- What some fills took from a member. -/
def taken (fs : List (α × ℕ)) (m : α) : ℕ :=
  ((fs.filter fun f => key f.1 = key m).map Prod.snd).sum

/-- What some fills left of a member. -/
def after (fs : List (α × ℕ)) (m : α) : Option α :=
  if taken key fs m = cap m then none else some (shrink m (taken key fs m))

theorem taken_eq_zero {fs : List (α × ℕ)} {m : α} (h : ∀ f ∈ fs, key f.1 ≠ key m) :
    taken key fs m = 0 := by
  rw [taken, List.filter_eq_nil_iff.mpr fun f hf => by simpa using h f hf]
  rfl

theorem taken_cons (f : α × ℕ) (fs : List (α × ℕ)) (m : α) :
    taken key (f :: fs) m = (if key f.1 = key m then f.2 else 0) + taken key fs m := by
  unfold taken
  by_cases h : key f.1 = key m
  · simp [h]
  · simp [h]

/-- Where keys are different, a member is found by its key. -/
theorem filter_key_eq {β : Type} {k : β → κ} {l : List β} (hkeys : (l.map k).Nodup) {x : β}
    (hx : x ∈ l) : (l.filter fun y => k y = k x) = [x] := by
  induction l with
  | nil => cases hx
  | cons y l ih =>
      obtain ⟨hy, hkeys⟩ := List.nodup_cons.mp hkeys
      rw [List.filter_cons]
      rcases List.mem_cons.mp hx with rfl | hx
      · have hrest : l.filter (fun y => k y = k x) = [] :=
          List.filter_eq_nil_iff.mpr fun z hz heq =>
            hy (List.mem_map.mpr ⟨z, hz, of_decide_eq_true heq⟩)
        rw [if_pos (decide_eq_true rfl), hrest]
      · have hne : ¬ k y = k x := fun heq => hy (heq ▸ List.mem_map.mpr ⟨x, hx, rfl⟩)
        rw [if_neg (by simpa using hne), ih hkeys hx]

/-- What the fills took from the maker of one of them is that fill. -/
theorem taken_of_mem {fs : List (α × ℕ)} (hkeys : (fs.map fun f => key f.1).Nodup)
    {f : α × ℕ} (hf : f ∈ fs) : taken key fs f.1 = f.2 := by
  have hfilter := filter_key_eq (k := fun f : α × ℕ => key f.1) hkeys hf
  rw [taken, hfilter, List.map_singleton, List.sum_singleton]

variable (hzero : ∀ m, shrink m 0 = m)

include hzero

/-- A member no fill names is left as it is. -/
theorem after_of_not_filled {fs : List (α × ℕ)} {m : α} (hpos : 0 < cap m)
    (h : ∀ f ∈ fs, key f.1 ≠ key m) : after cap shrink key fs m = some m := by
  rw [after, taken_eq_zero key h, if_neg hpos.ne, hzero]

theorem filterMap_after_of_not_filled {fs : List (α × ℕ)} {l : List α}
    (hpos : ∀ m ∈ l, 0 < cap m) (h : ∀ f ∈ fs, ∀ m ∈ l, key f.1 ≠ key m) :
    l.filterMap (after cap shrink key fs) = l := by
  have hsome : l.filterMap (after cap shrink key fs) = l.filterMap some :=
    List.filterMap_congr fun m hm =>
      after_of_not_filled cap shrink key hzero (hpos m hm) fun f hf => h f hf m hm
  rw [hsome, List.filterMap_some]

/-- **Member by member**: the list afterwards is the list before, each member
less what the fills took of it. -/
theorem rest_eq_filterMap {r : ℕ} {l : List α} (hpos : ∀ m ∈ l, 0 < cap m)
    (hkeys : (l.map key).Nodup) :
    rest cap shrink r l = l.filterMap (after cap shrink key (walk cap r l)) := by
  induction l generalizing r with
  | nil => rw [rest_nil]; rfl
  | cons m ms ih =>
      obtain ⟨hm, hms⟩ := List.nodup_cons.mp hkeys
      have hpos' : ∀ y ∈ ms, 0 < cap y := fun y hy => hpos y (List.mem_cons_of_mem _ hy)
      have hne : ∀ y ∈ ms, key m ≠ key y := fun y hy heq =>
        hm (heq ▸ List.mem_map.mpr ⟨y, hy, rfl⟩)
      by_cases hr : r = 0
      · rw [hr, rest_zero, walk_zero]
        exact (filterMap_after_of_not_filled cap shrink key hzero hpos
          fun f hf => absurd hf List.not_mem_nil).symm
      · have hwalk : walk cap r (m :: ms) = (m, min r (cap m)) :: walk cap (r - cap m) ms := by
          rw [walk, if_neg hr]
        have htail : ∀ f ∈ walk cap (r - cap m) ms, key f.1 ≠ key m := fun f hf heq =>
          hne f.1 (mem_walk cap hf).1 heq.symm
        have hhead : taken key (walk cap r (m :: ms)) m = min r (cap m) := by
          rw [hwalk, taken_cons, if_pos rfl, taken_eq_zero key htail, Nat.add_zero]
        have hrest : ms.filterMap (after cap shrink key (walk cap r (m :: ms)))
            = ms.filterMap (after cap shrink key (walk cap (r - cap m) ms)) := by
          refine List.filterMap_congr fun y hy => ?_
          unfold after
          rw [hwalk, taken_cons, if_neg (hne y hy), Nat.zero_add]
        rw [rest, if_neg hr]
        by_cases hcap : cap m ≤ r
        · have hnone : after cap shrink key (walk cap r (m :: ms)) m = none := by
            rw [after, hhead, min_eq_right hcap, if_pos rfl]
          rw [if_pos hcap, List.filterMap_cons_none hnone, hrest, ih hpos' hms]
        · -- the demand is met: the members behind are untouched
          have hlt : r < cap m := by omega
          have hsome : after cap shrink key (walk cap r (m :: ms)) m = some (shrink m r) := by
            rw [after, hhead, min_eq_left hlt.le, if_neg hlt.ne]
          have h0 : r - cap m = 0 := by omega
          rw [if_neg hcap, List.filterMap_cons_some hsome, hrest, h0, walk_zero,
            filterMap_after_of_not_filled cap shrink key hzero hpos' fun f hf =>
              absurd hf List.not_mem_nil]

end Keyed

end Greedy
