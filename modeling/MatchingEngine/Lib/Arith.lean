import Mathlib.Algebra.Ring.Nat
import Mathlib.Data.List.Forall2
import Mathlib.Order.Defs.LinearOrder

/-!
# Arith: 64-bit arithmetic that may panic

Rust's `+`, `-` and `*` on `u64` mean two things. A build with overflow
checks (`debug`) panics where the exact result does not fit; a build
without (`release`) keeps the result modulo `2 ^ 64`. The operators here
take the build as a parameter and return in `Exec`, so a computation
written once can be read under both.

Every operator has two kinds of lemma. The `_toNat` lemmas speak of a
computation that returned: its value is exact when the build checks it or
the bound holds anyway (`Build.Checks`). The `_eq` lemmas speak of one
that must return: the bound holds, so either build gives the exact value.
-/

namespace RustArith

/-- How the program was compiled: with overflow checks or without. -/
inductive Build where
  | debug
  | release
deriving DecidableEq, Repr

/-- The ways a computation can stop the process. -/
inductive Panic where
  /-- a checked `+`, `-` or `*` whose exact result does not fit -/
  | overflow
  /-- `Option::expect` on `None` -/
  | expect (msg : String)
  /-- `map[&key]` at a key the map does not hold -/
  | missingKey
deriving DecidableEq, Repr

/-- A computation that returns or panics. -/
abbrev Exec := Except Panic

theorem bind_ok {ε α β : Type} {x : Except ε α} {f : α → Except ε β} {r : β} :
    (x >>= f) = .ok r ↔ ∃ a, x = .ok a ∧ f a = .ok r := by
  cases x with
  | error e => simp [Bind.bind, Except.bind]
  | ok a => simp [Bind.bind, Except.bind]

@[simp] theorem ok_bind {α β : Type} (a : α) (f : α → Exec β) :
    ((.ok a : Exec α) >>= f) = f a := rfl

@[simp] theorem pure_ok {α : Type} {a r : α} :
    (pure a : Exec α) = .ok r ↔ a = r := by
  simp [pure, Except.pure]

theorem pure_eq_ok {α : Type} (a : α) : (pure a : Exec α) = .ok a := rfl

/-- Whether a computation returned, with a result that passes `p`. -/
def okWith {α : Type} (x : Exec α) (p : α → Bool) : Bool :=
  match x with
  | .ok a => p a
  | .error _ => false

theorem okWith_iff {α : Type} {x : Exec α} {p : α → Bool} :
    okWith x p = true ↔ ∃ a, x = .ok a ∧ p a = true := by
  cases x with
  | error e => simp [okWith]
  | ok a => simp [okWith]

/-- A traversal that returned, member by member. -/
theorem mapM_ok {α β : Type} {f : α → Exec β} {xs : List α} {ys : List β} :
    xs.mapM f = .ok ys ↔ List.Forall₂ (fun x y => f x = .ok y) xs ys := by
  induction xs generalizing ys with
  | nil => simp [pure_eq_ok, eq_comm]
  | cons x xs ih =>
      rw [List.mapM_cons, bind_ok, List.forall₂_cons_left_iff]
      constructor
      · rintro ⟨y, hy, h⟩
        obtain ⟨ys', hys, h⟩ := bind_ok.mp h
        cases h
        exact ⟨y, ys', hy, ih.mp hys, rfl⟩
      · rintro ⟨y, ys', hy, hys, rfl⟩
        exact ⟨y, hy, bind_ok.mpr ⟨ys', ih.mpr hys, rfl⟩⟩

/-- Every member of the right list has a partner in the left one. -/
theorem forall₂_mem_right {α β : Type} {R : α → β → Prop} {xs : List α} {ys : List β}
    (h : List.Forall₂ R xs ys) {y : β} (hy : y ∈ ys) : ∃ x ∈ xs, R x y := by
  induction h with
  | nil => cases hy
  | cons hx _ ih =>
      rcases List.mem_cons.mp hy with rfl | hy
      · exact ⟨_, List.mem_cons_self, hx⟩
      · obtain ⟨x, hx, hr⟩ := ih hy
        exact ⟨x, List.mem_cons_of_mem _ hx, hr⟩

/-- Every member of the left list has a partner in the right one. -/
theorem forall₂_mem_left {α β : Type} {R : α → β → Prop} {xs : List α} {ys : List β}
    (h : List.Forall₂ R xs ys) {x : α} (hx : x ∈ xs) : ∃ y ∈ ys, R x y :=
  forall₂_mem_right h.flip hx

/-- Every result of a traversal comes from one of its members. -/
theorem mapM_mem {α β : Type} {f : α → Exec β} {xs : List α} {ys : List β}
    (h : xs.mapM f = .ok ys) {y : β} (hy : y ∈ ys) : ∃ x ∈ xs, f x = .ok y :=
  forall₂_mem_right (mapM_ok.mp h) hy

theorem mapM_returns {α β : Type} {f : α → Exec β} {xs : List α}
    (h : ∀ x ∈ xs, ∃ y, f x = .ok y) : ∃ ys, xs.mapM f = .ok ys := by
  induction xs with
  | nil => exact ⟨[], rfl⟩
  | cons x xs ih =>
      obtain ⟨y, hy⟩ := h x List.mem_cons_self
      obtain ⟨ys, hys⟩ := ih fun x' hx' => h x' (List.mem_cons_of_mem _ hx')
      exact ⟨y :: ys, by rw [List.mapM_cons, hy, ok_bind, hys, ok_bind]; rfl⟩

/-- A traversal whose every step returns, returns. -/
theorem mapM_eq {α β : Type} {f : α → Exec β} {g : α → β} {xs : List α}
    (h : ∀ x ∈ xs, f x = .ok (g x)) : xs.mapM f = .ok (xs.map g) := by
  rw [mapM_ok, List.forall₂_map_right_iff, List.forall₂_same]
  exact h

/-! ## The operators -/

/-- Return `z`, unless the build checks overflow and `fits` is false. -/
def Build.check (b : Build) (fits : Bool) (z : UInt64) : Exec UInt64 :=
  match b, fits with
  | .debug, false => .error .overflow
  | _, _ => .ok z

/-- Rust's `x + y`. -/
def Build.add (b : Build) (x y : UInt64) : Exec UInt64 :=
  b.check (x.toNat + y.toNat < 2 ^ 64) (x + y)

/-- Rust's `x - y`. -/
def Build.sub (b : Build) (x y : UInt64) : Exec UInt64 :=
  b.check (y ≤ x) (x - y)

/-- Rust's `x * y`. -/
def Build.mul (b : Build) (x y : UInt64) : Exec UInt64 :=
  b.check (x.toNat * y.toNat < 2 ^ 64) (x * y)

/-- Rust's `iter().sum::<u64>()`, which inherits the overflow checks of the
crate that calls it. -/
def Build.sum (b : Build) (xs : List UInt64) : Exec UInt64 :=
  xs.foldlM b.add 0

/-- Rust's `x.checked_add(y)`. -/
def checkedAdd (x y : UInt64) : Option UInt64 :=
  if x.toNat + y.toNat < 2 ^ 64 then some (x + y) else none

/-- Rust's `x.checked_mul(y)`. -/
def checkedMul (x y : UInt64) : Option UInt64 :=
  if x.toNat * y.toNat < 2 ^ 64 then some (x * y) else none

/-- Rust's `x.saturating_sub(y)`. -/
def saturatingSub (x y : UInt64) : UInt64 :=
  if y ≤ x then x - y else 0

/-- Rust's `x.saturating_add(y)`. -/
def saturatingAdd (x y : UInt64) : UInt64 :=
  (checkedAdd x y).getD (UInt64.ofNat (2 ^ 64 - 1))

/-- Rust's `x.saturating_mul(y)`. -/
def saturatingMul (x y : UInt64) : UInt64 :=
  (checkedMul x y).getD (UInt64.ofNat (2 ^ 64 - 1))

/-- Either the build checks `fits`, so a result is only returned when it
holds, or it holds anyway. -/
def Build.Checks (b : Build) (fits : Prop) : Prop := b = .debug ∨ fits

theorem Build.Checks.imp {b : Build} {p q : Prop} (h : b.Checks p)
    (hpq : p → q) : b.Checks q := Or.imp_right hpq h

/-- Either the build never checks, so a result is always returned, or the
bound holds. -/
def Build.Room (b : Build) (fits : Prop) : Prop := b = .release ∨ fits

theorem Build.Room.imp {b : Build} {p q : Prop} (h : b.Room p)
    (hpq : p → q) : b.Room q := Or.imp_right hpq h

/-! ## Exact values of the wrapping operators -/

theorem toNat_add_of_lt {x y : UInt64} (h : x.toNat + y.toNat < 2 ^ 64) :
    (x + y).toNat = x.toNat + y.toNat := by
  rw [UInt64.toNat_add, Nat.mod_eq_of_lt h]

theorem toNat_mul_of_lt {x y : UInt64} (h : x.toNat * y.toNat < 2 ^ 64) :
    (x * y).toNat = x.toNat * y.toNat := by
  rw [UInt64.toNat_mul, Nat.mod_eq_of_lt h]

theorem toNat_sub_of_le {x y : UInt64} (h : y ≤ x) :
    (x - y).toNat = x.toNat - y.toNat := UInt64.toNat_sub_of_le _ _ h

theorem toNat_lt (x : UInt64) : x.toNat < 2 ^ 64 := UInt64.toNat_lt x

/-- Words are ordered by value: the key order of a map over `u64`. -/
instance linearOrderUInt64 : LinearOrder UInt64 where
  le_refl _ := UInt64.le_refl _
  le_trans _ _ _ := UInt64.le_trans
  lt_iff_le_not_ge a b := by
    rw [UInt64.lt_iff_toNat_lt, UInt64.le_iff_toNat_le, UInt64.le_iff_toNat_le]
    omega
  le_antisymm _ _ := UInt64.le_antisymm
  le_total := UInt64.le_total
  toDecidableLE := inferInstance
  toDecidableLT := inferInstance
  toDecidableEq := inferInstance
  toOrd := inferInstance

/-! ## Results that were returned -/

theorem Build.check_ok {b : Build} {p : Prop} [Decidable p] {z r : UInt64}
    (h : b.check (decide p) z = .ok r) : r = z ∧ (b = .debug → p) := by
  cases b with
  | release => simpa [Build.check, eq_comm] using h
  | debug =>
      by_cases hp : p
      · simpa [Build.check, hp, eq_comm] using h
      · simp [Build.check, hp] at h

theorem Build.add_ok {b : Build} {x y z : UInt64} (h : b.add x y = .ok z) :
    z = x + y := (Build.check_ok h).1

theorem Build.add_toNat {b : Build} {x y z : UInt64} (h : b.add x y = .ok z)
    (hb : b.Checks (x.toNat + y.toNat < 2 ^ 64)) :
    z.toNat = x.toNat + y.toNat := by
  have ⟨hz, hd⟩ := Build.check_ok h
  rw [hz, toNat_add_of_lt (hb.elim hd id)]

theorem Build.sub_toNat {b : Build} {x y z : UInt64} (h : b.sub x y = .ok z)
    (hb : b.Checks (y ≤ x)) : y ≤ x ∧ z.toNat = x.toNat - y.toNat := by
  have ⟨hz, hd⟩ := Build.check_ok h
  have hle : y ≤ x := hb.elim hd id
  exact ⟨hle, by rw [hz, toNat_sub_of_le hle]⟩

theorem Build.mul_toNat {b : Build} {x y z : UInt64} (h : b.mul x y = .ok z)
    (hb : b.Checks (x.toNat * y.toNat < 2 ^ 64)) :
    z.toNat = x.toNat * y.toNat := by
  have ⟨hz, hd⟩ := Build.check_ok h
  rw [hz, toNat_mul_of_lt (hb.elim hd id)]

/-! ## Results that must be returned -/

theorem Build.check_eq {b : Build} {p : Prop} [Decidable p] {z : UInt64}
    (hp : p) : b.check (decide p) z = .ok z := by
  cases b <;> simp [Build.check, hp]

theorem Build.add_eq {b : Build} {x y : UInt64}
    (h : x.toNat + y.toNat < 2 ^ 64) : b.add x y = .ok (x + y) :=
  Build.check_eq h

theorem Build.sub_eq {b : Build} {x y : UInt64} (h : y ≤ x) :
    b.sub x y = .ok (x - y) := Build.check_eq h

theorem Build.mul_eq {b : Build} {x y : UInt64}
    (h : x.toNat * y.toNat < 2 ^ 64) : b.mul x y = .ok (x * y) :=
  Build.check_eq h

theorem Build.check_returns {b : Build} {p : Prop} [Decidable p] (z : UInt64)
    (h : b.Room p) : b.check (decide p) z = .ok z := by
  rcases h with rfl | hp
  · cases decide p <;> rfl
  · exact Build.check_eq hp

theorem Build.add_returns {b : Build} {x y : UInt64}
    (h : b.Room (x.toNat + y.toNat < 2 ^ 64)) : b.add x y = .ok (x + y) :=
  Build.check_returns _ h

theorem Build.sub_returns {b : Build} {x y : UInt64} (h : b.Room (y ≤ x)) :
    b.sub x y = .ok (x - y) := Build.check_returns _ h

theorem Build.mul_returns {b : Build} {x y : UInt64}
    (h : b.Room (x.toNat * y.toNat < 2 ^ 64)) : b.mul x y = .ok (x * y) :=
  Build.check_returns _ h

/-! ## Sums -/

/-- The exact sum of a list of words. -/
def exactSum (xs : List UInt64) : Nat := (xs.map UInt64.toNat).sum

@[simp] theorem exactSum_nil : exactSum [] = 0 := rfl

@[simp] theorem exactSum_cons (x : UInt64) (xs : List UInt64) :
    exactSum (x :: xs) = x.toNat + exactSum xs := by simp [exactSum]

theorem Build.foldlM_add_toNat {b : Build} {xs : List UInt64} :
    ∀ {acc z : UInt64}, xs.foldlM b.add acc = .ok z →
      b.Checks (acc.toNat + exactSum xs < 2 ^ 64) →
      z.toNat = acc.toNat + exactSum xs := by
  induction xs with
  | nil =>
      intro acc z h _
      rw [List.foldlM_nil, pure_ok] at h
      simp [h]
  | cons x xs ih =>
      intro acc z h hb
      rw [List.foldlM_cons, bind_ok] at h
      obtain ⟨acc', hadd, hrest⟩ := h
      rw [exactSum_cons] at hb ⊢
      have hacc := Build.add_toNat hadd (hb.imp (by omega))
      have hz := ih hrest (hb.imp (by omega))
      omega

theorem Build.foldlM_add_eq {b : Build} {xs : List UInt64} :
    ∀ acc : UInt64, acc.toNat + exactSum xs < 2 ^ 64 →
      ∃ z, xs.foldlM b.add acc = .ok z := by
  induction xs with
  | nil => intro acc _; exact ⟨acc, rfl⟩
  | cons x xs ih =>
      intro acc h
      rw [exactSum_cons] at h
      have hlt : acc.toNat + x.toNat < 2 ^ 64 := by omega
      obtain ⟨z, hz⟩ := ih (acc + x) (by rw [toNat_add_of_lt hlt]; omega)
      exact ⟨z, by rw [List.foldlM_cons, Build.add_eq hlt, ok_bind, hz]⟩

theorem Build.sum_toNat {b : Build} {xs : List UInt64} {z : UInt64}
    (h : b.sum xs = .ok z) (hb : b.Checks (exactSum xs < 2 ^ 64)) :
    z.toNat = exactSum xs := by
  simpa using Build.foldlM_add_toNat h (hb.imp (by simp))

/-- A sum that fits is returned, by either build. -/
theorem Build.sum_eq {b : Build} {xs : List UInt64}
    (h : exactSum xs < 2 ^ 64) : ∃ z, b.sum xs = .ok z ∧ z.toNat = exactSum xs := by
  obtain ⟨z, hz⟩ := Build.foldlM_add_eq (b := b) 0 (by simpa using h)
  exact ⟨z, hz, Build.sum_toNat hz (.inr h)⟩

theorem Build.foldlM_add_release (xs : List UInt64) :
    ∀ acc : UInt64, ∃ z, xs.foldlM Build.release.add acc = .ok z := by
  induction xs with
  | nil => intro acc; exact ⟨acc, rfl⟩
  | cons x xs ih =>
      intro acc
      obtain ⟨z, hz⟩ := ih (acc + x)
      exact ⟨z, by rw [List.foldlM_cons, Build.add_returns (.inl rfl), ok_bind, hz]⟩

theorem Build.sum_returns {b : Build} {xs : List UInt64}
    (h : b.Room (exactSum xs < 2 ^ 64)) : ∃ z, b.sum xs = .ok z := by
  rcases h with rfl | h
  · exact Build.foldlM_add_release xs 0
  · obtain ⟨z, hz, _⟩ := Build.sum_eq (b := b) h
    exact ⟨z, hz⟩

/-! ## Checked operators -/

theorem checkedAdd_some {x y z : UInt64} (h : checkedAdd x y = some z) :
    z.toNat = x.toNat + y.toNat := by
  unfold checkedAdd at h
  split at h
  · rename_i hlt
    cases h
    exact toNat_add_of_lt hlt
  · cases h

theorem checkedMul_some {x y z : UInt64} (h : checkedMul x y = some z) :
    z.toNat = x.toNat * y.toNat := by
  unfold checkedMul at h
  split at h
  · rename_i hlt
    cases h
    exact toNat_mul_of_lt hlt
  · cases h

theorem checkedMul_eq {x y : UInt64} (h : x.toNat * y.toNat < 2 ^ 64) :
    checkedMul x y = some (x * y) := if_pos h

theorem checkedAdd_none {x y : UInt64} (h : checkedAdd x y = none) :
    2 ^ 64 ≤ x.toNat + y.toNat := by
  by_contra hlt
  rw [checkedAdd, if_pos (Nat.lt_of_not_le hlt)] at h
  cases h

theorem checkedMul_none {x y : UInt64} (h : checkedMul x y = none) :
    2 ^ 64 ≤ x.toNat * y.toNat := by
  by_contra hlt
  rw [checkedMul, if_pos (Nat.lt_of_not_le hlt)] at h
  cases h

/-! ## Saturating operators

Each is the exact result, clamped to a word. -/

theorem saturatingSub_toNat (x y : UInt64) : (saturatingSub x y).toNat = x.toNat - y.toNat := by
  unfold saturatingSub
  split
  · rename_i h
    rw [toNat_sub_of_le h]
  · rename_i h
    have hlt := UInt64.lt_iff_toNat_lt.mp (lt_of_not_ge h)
    rw [Nat.sub_eq_zero_of_le (Nat.le_of_lt hlt)]
    rfl

theorem saturatingAdd_toNat (x y : UInt64) :
    (saturatingAdd x y).toNat = min (x.toNat + y.toNat) (2 ^ 64 - 1) := by
  unfold saturatingAdd checkedAdd
  split
  · rename_i h
    rw [Option.getD_some, toNat_add_of_lt h]
    omega
  · rename_i h
    rw [Option.getD_none, UInt64.toNat_ofNat_of_lt' (by decide)]
    omega

theorem saturatingMul_toNat (x y : UInt64) :
    (saturatingMul x y).toNat = min (x.toNat * y.toNat) (2 ^ 64 - 1) := by
  unfold saturatingMul checkedMul
  split
  · rename_i h
    rw [Option.getD_some, toNat_mul_of_lt h]
    omega
  · rename_i h
    rw [Option.getD_none, UInt64.toNat_ofNat_of_lt' (by decide)]
    omega

end RustArith
