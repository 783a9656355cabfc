import Mathlib.Algebra.BigOperators.Group.Finset.Piecewise
import Mathlib.Algebra.Order.BigOperators.Group.Finset
import Mathlib.Algebra.Ring.Nat

/-!
# Bank: accounts with an available and a reserved part

An abstract bank: every account holds, of every currency, an available and a
reserved amount, both exact. The operations move amounts between the two
parts, in and out, and from the reserved part of one account to the available
part of another (`Transfer`).

Two facts carry verification work: operations within the reserves keep every
currency's total (`total_transferAll`), and a list of transfers is within the
reserves as soon as, per account and currency, its debits are
(`resv_transferAll`).
-/

namespace Bank

/-- What every account has available and reserved, in exact numbers. -/
structure Accounts (α κ : Type) where
  avail : α → κ → ℕ
  resv : α → κ → ℕ

variable {α κ : Type}

theorem Accounts.ext {b b' : Accounts α κ} (ha : ∀ a c, b.avail a c = b'.avail a c)
    (hr : ∀ a c, b.resv a c = b'.resv a c) : b = b' := by
  cases b; cases b'
  congr
  · exact funext fun a => funext fun c => ha a c
  · exact funext fun a => funext fun c => hr a c

variable [DecidableEq α] [DecidableEq κ]

/-- `f` with one entry replaced. -/
def upd (f : α → κ → ℕ) (a : α) (c : κ) (x : ℕ) : α → κ → ℕ :=
  fun a' c' => if a' = a ∧ c' = c then x else f a' c'

@[simp] theorem upd_self (f : α → κ → ℕ) (a : α) (c : κ) (x : ℕ) : upd f a c x a c = x := by
  simp [upd]

namespace Accounts

/-- Into the available part, from outside. -/
def credit (b : Accounts α κ) (a : α) (c : κ) (x : ℕ) : Accounts α κ :=
  { b with avail := upd b.avail a c (b.avail a c + x) }

/-- Out of the available part. -/
def withdraw (b : Accounts α κ) (a : α) (c : κ) (x : ℕ) : Accounts α κ :=
  { b with avail := upd b.avail a c (b.avail a c - x) }

/-- Out of the reserved part. -/
def spend (b : Accounts α κ) (a : α) (c : κ) (x : ℕ) : Accounts α κ :=
  { b with resv := upd b.resv a c (b.resv a c - x) }

/-- Available to reserved. -/
def reserve (b : Accounts α κ) (a : α) (c : κ) (x : ℕ) : Accounts α κ :=
  { avail := upd b.avail a c (b.avail a c - x), resv := upd b.resv a c (b.resv a c + x) }

/-- Reserved to available. -/
def release (b : Accounts α κ) (a : α) (c : κ) (x : ℕ) : Accounts α κ :=
  { avail := upd b.avail a c (b.avail a c + x), resv := upd b.resv a c (b.resv a c - x) }

/-! ## Pointwise -/

theorem avail_credit (b : Accounts α κ) (a a' : α) (c c' : κ) (x : ℕ) :
    (b.credit a c x).avail a' c' = b.avail a' c' + if a' = a ∧ c' = c then x else 0 := by
  unfold credit upd
  by_cases h : a' = a ∧ c' = c
  · obtain ⟨rfl, rfl⟩ := h
    simp
  · simp [h]

theorem resv_spend (b : Accounts α κ) (a a' : α) (c c' : κ) (x : ℕ) :
    (b.spend a c x).resv a' c' = b.resv a' c' - if a' = a ∧ c' = c then x else 0 := by
  unfold spend upd
  by_cases h : a' = a ∧ c' = c
  · obtain ⟨rfl, rfl⟩ := h
    simp
  · simp [h]

theorem avail_withdraw (b : Accounts α κ) (a a' : α) (c c' : κ) (x : ℕ) :
    (b.withdraw a c x).avail a' c' = b.avail a' c' - if a' = a ∧ c' = c then x else 0 :=
  resv_spend ⟨b.resv, b.avail⟩ a a' c c' x

theorem avail_reserve (b : Accounts α κ) (a a' : α) (c c' : κ) (x : ℕ) :
    (b.reserve a c x).avail a' c' = b.avail a' c' - if a' = a ∧ c' = c then x else 0 :=
  avail_withdraw b a a' c c' x

theorem resv_reserve (b : Accounts α κ) (a a' : α) (c c' : κ) (x : ℕ) :
    (b.reserve a c x).resv a' c' = b.resv a' c' + if a' = a ∧ c' = c then x else 0 :=
  avail_credit ⟨b.resv, b.avail⟩ a a' c c' x

theorem avail_release (b : Accounts α κ) (a a' : α) (c c' : κ) (x : ℕ) :
    (b.release a c x).avail a' c' = b.avail a' c' + if a' = a ∧ c' = c then x else 0 :=
  avail_credit b a a' c c' x

theorem resv_release (b : Accounts α κ) (a a' : α) (c c' : κ) (x : ℕ) :
    (b.release a c x).resv a' c' = b.resv a' c' - if a' = a ∧ c' = c then x else 0 :=
  resv_spend b a a' c c' x

theorem credit_comm (b : Accounts α κ) (a a' : α) (c c' : κ) (x y : ℕ) :
    (b.credit a c x).credit a' c' y = (b.credit a' c' y).credit a c x := by
  refine ext (fun a'' c'' => ?_) (fun _ _ => rfl)
  rw [avail_credit, avail_credit, avail_credit, avail_credit]
  omega

theorem release_eq (b : Accounts α κ) (a : α) (c : κ) (x : ℕ) :
    b.release a c x = (b.spend a c x).credit a c x := rfl

@[simp] theorem reserve_zero (b : Accounts α κ) (a : α) (c : κ) : b.reserve a c 0 = b :=
  ext (fun a' c' => by simp [avail_reserve]) (fun a' c' => by simp [resv_reserve])

@[simp] theorem release_zero (b : Accounts α κ) (a : α) (c : κ) : b.release a c 0 = b :=
  ext (fun a' c' => by simp [avail_release]) (fun a' c' => by simp [resv_release])

/-! ## Totals -/

section Total

variable [Fintype α]

/-- What all accounts hold of `c`. -/
def total (b : Accounts α κ) (c : κ) : ℕ := ∑ a, (b.avail a c + b.resv a c)

omit [DecidableEq α] [DecidableEq κ] in
theorem held_le_total (b : Accounts α κ) (a : α) (c : κ) :
    b.avail a c + b.resv a c ≤ b.total c :=
  Finset.single_le_sum (f := fun a => b.avail a c + b.resv a c)
    (fun _ _ => Nat.zero_le _) (Finset.mem_univ a)

omit [DecidableEq κ] in
/-- Available here and reserved there fit into the total together. -/
theorem avail_add_resv_le_total (b : Accounts α κ) (a a' : α) (c : κ) :
    b.avail a c + b.resv a' c ≤ b.total c := by
  by_cases h : a = a'
  · subst h
    exact b.held_le_total a c
  · have hpair : ∑ x ∈ {a, a'}, (b.avail x c + b.resv x c) ≤ b.total c :=
      Finset.sum_le_sum_of_subset (Finset.subset_univ _)
    rw [Finset.sum_pair h] at hpair
    omega

theorem sum_entry (a : α) (c c' : κ) (x : ℕ) :
    (∑ a', if a' = a ∧ c' = c then x else 0) = if c' = c then x else 0 := by
  by_cases h : c' = c <;> simp [h]

theorem total_credit (b : Accounts α κ) (a : α) (c c' : κ) (x : ℕ) :
    (b.credit a c x).total c' = b.total c' + if c' = c then x else 0 := by
  unfold total
  rw [← sum_entry a c c' x, ← Finset.sum_add_distrib]
  refine Finset.sum_congr rfl fun a' _ => ?_
  rw [avail_credit]
  change _ + b.resv a' c' = _
  omega

theorem total_spend (b : Accounts α κ) {a : α} {c : κ} {x : ℕ} (h : x ≤ b.resv a c)
    (c' : κ) : (b.spend a c x).total c' + (if c' = c then x else 0) = b.total c' := by
  unfold total
  rw [← sum_entry a c c' x, ← Finset.sum_add_distrib]
  refine Finset.sum_congr rfl fun a' _ => ?_
  rw [resv_spend]
  change b.avail a' c' + _ + _ = _
  by_cases hac : a' = a ∧ c' = c
  · obtain ⟨rfl, rfl⟩ := hac
    simp only [and_self, if_true]
    omega
  · rw [if_neg hac]
    omega

omit [DecidableEq α] [DecidableEq κ] in
theorem total_swap (b : Accounts α κ) (c : κ) :
    (⟨b.resv, b.avail⟩ : Accounts α κ).total c = b.total c :=
  Finset.sum_congr rfl fun _ _ => Nat.add_comm _ _

theorem total_withdraw (b : Accounts α κ) {a : α} {c : κ} {x : ℕ} (h : x ≤ b.avail a c)
    (c' : κ) : (b.withdraw a c x).total c' + (if c' = c then x else 0) = b.total c' := by
  have := total_spend ⟨b.resv, b.avail⟩ h c'
  rwa [total_swap, ← total_swap (spend _ _ _ _)] at this

theorem total_release (b : Accounts α κ) {a : α} {c : κ} {x : ℕ} (h : x ≤ b.resv a c)
    (c' : κ) : (b.release a c x).total c' = b.total c' := by
  rw [release_eq, total_credit, b.total_spend h]

theorem total_reserve (b : Accounts α κ) {a : α} {c : κ} {x : ℕ} (h : x ≤ b.avail a c)
    (c' : κ) : (b.reserve a c x).total c' = b.total c' := by
  have := total_release ⟨b.resv, b.avail⟩ h c'
  rwa [total_swap, ← total_swap (release _ _ _ _)] at this

end Total

end Accounts

/-! ## Transfers -/

/-- From the reserved part of `src` to the available part of `dst`. -/
structure Transfer (α κ : Type) where
  src : α
  dst : α
  cur : κ
  amt : ℕ

/-- What a transfer takes out of the reserves. -/
def Transfer.debit (t : Transfer α κ) (a : α) (c : κ) : ℕ :=
  if a = t.src ∧ c = t.cur then t.amt else 0

/-- What a transfer makes available. -/
def Transfer.credit (t : Transfer α κ) (a : α) (c : κ) : ℕ :=
  if a = t.dst ∧ c = t.cur then t.amt else 0

/-- What some transfers take from an account. -/
def debits (ts : List (Transfer α κ)) (a : α) (c : κ) : ℕ :=
  (ts.map fun t => t.debit a c).sum

/-- What they give it. -/
def credits (ts : List (Transfer α κ)) (a : α) (c : κ) : ℕ :=
  (ts.map fun t => t.credit a c).sum

/-- Everything some transfers move of `c`. -/
def moved (ts : List (Transfer α κ)) (c : κ) : ℕ :=
  (ts.map fun t => if c = t.cur then t.amt else 0).sum

omit [DecidableEq α] in
@[simp] theorem moved_cons (t : Transfer α κ) (ts : List (Transfer α κ)) (c : κ) :
    moved (t :: ts) c = (if c = t.cur then t.amt else 0) + moved ts c := by simp [moved]

@[simp] theorem debits_nil (a : α) (c : κ) : debits [] a c = 0 := rfl

@[simp] theorem debits_cons (t : Transfer α κ) (ts : List (Transfer α κ)) (a : α) (c : κ) :
    debits (t :: ts) a c = t.debit a c + debits ts a c := by simp [debits]

@[simp] theorem debits_append (ts us : List (Transfer α κ)) (a : α) (c : κ) :
    debits (ts ++ us) a c = debits ts a c + debits us a c := by simp [debits]

@[simp] theorem credits_nil (a : α) (c : κ) : credits [] a c = 0 := rfl

@[simp] theorem credits_cons (t : Transfer α κ) (ts : List (Transfer α κ)) (a : α) (c : κ) :
    credits (t :: ts) a c = t.credit a c + credits ts a c := by simp [credits]

namespace Accounts

/-- One transfer, out of the reserved part and into the available one. -/
def transfer (b : Accounts α κ) (t : Transfer α κ) : Accounts α κ :=
  (b.spend t.src t.cur t.amt).credit t.dst t.cur t.amt

/-- Transfers one after the other. -/
def transferAll (b : Accounts α κ) (ts : List (Transfer α κ)) : Accounts α κ :=
  ts.foldl transfer b

@[simp] theorem transferAll_nil (b : Accounts α κ) : b.transferAll [] = b := rfl

@[simp] theorem transferAll_cons (b : Accounts α κ) (t : Transfer α κ)
    (ts : List (Transfer α κ)) :
    b.transferAll (t :: ts) = (b.transfer t).transferAll ts := rfl

theorem transferAll_append (b : Accounts α κ) (ts us : List (Transfer α κ)) :
    b.transferAll (ts ++ us) = (b.transferAll ts).transferAll us := List.foldl_append

theorem resv_transfer (b : Accounts α κ) (t : Transfer α κ) (a : α) (c : κ) :
    (b.transfer t).resv a c = b.resv a c - t.debit a c :=
  resv_spend b t.src a t.cur c t.amt

theorem avail_transfer (b : Accounts α κ) (t : Transfer α κ) (a : α) (c : κ) :
    (b.transfer t).avail a c = b.avail a c + t.credit a c :=
  avail_credit _ t.dst a t.cur c t.amt

/-- What is left of the reserves. -/
theorem resv_transferAll (ts : List (Transfer α κ)) (a : α) (c : κ) :
    ∀ b : Accounts α κ, (b.transferAll ts).resv a c = b.resv a c - debits ts a c := by
  induction ts with
  | nil => intro b; simp
  | cons t ts ih =>
      intro b
      rw [transferAll_cons, ih, resv_transfer, debits_cons, Nat.sub_sub]

theorem avail_transferAll (ts : List (Transfer α κ)) (a : α) (c : κ) :
    ∀ b : Accounts α κ, (b.transferAll ts).avail a c = b.avail a c + credits ts a c := by
  induction ts with
  | nil => intro b; simp
  | cons t ts ih =>
      intro b
      rw [transferAll_cons, ih, avail_transfer, credits_cons, Nat.add_assoc]

/-- The transfers are within the reserves. -/
def Covers (b : Accounts α κ) (ts : List (Transfer α κ)) : Prop :=
  ∀ a c, debits ts a c ≤ b.resv a c

theorem Covers.head {b : Accounts α κ} {t : Transfer α κ} {ts : List (Transfer α κ)}
    (h : b.Covers (t :: ts)) : t.amt ≤ b.resv t.src t.cur := by
  have := h t.src t.cur
  rw [debits_cons, Transfer.debit, if_pos ⟨rfl, rfl⟩] at this
  omega

theorem Covers.tail {b : Accounts α κ} {t : Transfer α κ} {ts : List (Transfer α κ)}
    (h : b.Covers (t :: ts)) : (b.transfer t).Covers ts := by
  intro a c
  have := h a c
  rw [debits_cons] at this
  rw [resv_transfer]
  omega

theorem Covers.append_left {b : Accounts α κ} {ts us : List (Transfer α κ)}
    (h : b.Covers (ts ++ us)) : b.Covers ts := by
  intro a c
  have := h a c
  rw [debits_append] at this
  omega

theorem Covers.append_right {b : Accounts α κ} {ts us : List (Transfer α κ)}
    (h : b.Covers (ts ++ us)) : (b.transferAll ts).Covers us := by
  intro a c
  have := h a c
  rw [debits_append] at this
  rw [resv_transferAll]
  omega

/-- **What is reserved in excess and released again** is as if it had not been
reserved. -/
theorem release_excess {b : Accounts α κ} {ts : List (Transfer α κ)} {a : α} {c : κ}
    {x y g : ℕ} (hle : x + y ≤ b.avail a c) (hcover : debits ts a c + g ≤ b.resv a c + x) :
    (((b.reserve a c (x + y)).transferAll ts).release a c g).release a c y
      = ((b.reserve a c x).transferAll ts).release a c g := by
  refine ext (fun a' c' => ?_) (fun a' c' => ?_)
  · simp only [avail_release, avail_transferAll, avail_reserve]
    split
    · rename_i h
      rw [h.1, h.2]
      omega
    · omega
  · simp only [resv_release, resv_transferAll, resv_reserve]
    split
    · rename_i h
      rw [h.1, h.2]
      omega
    · omega

variable [Fintype α]

theorem total_transfer {b : Accounts α κ} {t : Transfer α κ}
    (h : t.amt ≤ b.resv t.src t.cur) (c : κ) : (b.transfer t).total c = b.total c := by
  rw [transfer, total_credit, b.total_spend h]

theorem total_transferAll {ts : List (Transfer α κ)} (c : κ) : ∀ {b : Accounts α κ},
    b.Covers ts → (b.transferAll ts).total c = b.total c := by
  induction ts with
  | nil => intro b _; rfl
  | cons t ts ih =>
      intro b h
      rw [transferAll_cons, ih h.tail, total_transfer h.head]

/-- What transfers move is what they debit, over all accounts. -/
theorem sum_debits (ts : List (Transfer α κ)) (c : κ) : ∑ a, debits ts a c = moved ts c := by
  induction ts with
  | nil => simp [moved]
  | cons t ts ih =>
      have ht : ∑ a, t.debit a c = if c = t.cur then t.amt else 0 :=
        sum_entry t.src t.cur c t.amt
      simp only [debits_cons, Finset.sum_add_distrib, ih, ht, moved_cons]

/-- Transfers within the reserves move no more than there is. -/
theorem Covers.moved_le_total {b : Accounts α κ} {ts : List (Transfer α κ)}
    (h : b.Covers ts) (c : κ) : moved ts c ≤ b.total c := by
  rw [← sum_debits, total]
  exact Finset.sum_le_sum fun a _ => (h a c).trans (Nat.le_add_left _ _)

end Accounts

end Bank
