import Mathlib.Data.FinEnum
import MatchingEngine.Ledger
import MatchingEngine.Lib.Bank

/-!
# Accounts: the ledger refines the bank

`Ledger.bank` reads a ledger as an abstract bank: exact amounts, zeros where
there is no entry. Every ledger operation has three lemmas: what a result
looks like (`_ok`), that it is the bank's operation when the amounts fit
(`_bank`), and that it returns when they fit (`_eq`). "Fit" is `Build.Checks`
in the second kind: a debug build that returned has checked it.
-/

namespace MatchingEngine

open RustArith HashModel Bank

/-- The exact amounts of a ledger. -/
def Ledger.bank (l : Ledger) : Accounts AccountId Currency where
  avail a c := (l.balance a c).available.toNat
  resv a c := (l.balance a c).reserved.toNat

/-! ## Entries -/

theorem balance_put (l : Ledger) (a a' : AccountId) (c c' : Currency) (bal : Balance) :
    (l.put a c bal).balance a' c' = if a' = a ∧ c' = c then bal else l.balance a' c' := by
  unfold Ledger.balance Ledger.put
  simp only [lookup_insert_ite]
  by_cases ha : a' = a
  · subst ha
    rw [if_pos rfl, Option.getD_some, lookup_insert_ite]
    by_cases hc : c' = c
    · simp [hc]
    · simp [hc]
  · simp [ha]

@[simp] theorem balance_mark (l : Ledger) (a a' : AccountId) (c c' : Currency) :
    (l.mark a c).balance a' c' = l.balance a' c' := rfl

@[simp] theorem bank_mark (l : Ledger) (a : AccountId) (c : Currency) :
    (l.mark a c).bank = l.bank := rfl

/-- Writing back what an entry holds, zeros included, is not visible. -/
theorem balance_put_self (l : Ledger) (a a' : AccountId) (c c' : Currency) :
    (l.put a c (l.balance a c)).balance a' c' = l.balance a' c' := by
  rw [balance_put]
  split
  · rename_i h
    rw [h.1, h.2]
  · rfl

/-- The ledger has an entry at the key. -/
def Ledger.Has (l : Ledger) (key : AccountId × Currency) : Prop :=
  ∃ balances balance, l.balances.lookup key.1 = some balances ∧
    balances.lookup key.2 = some balance

theorem has_put (l : Ledger) (a : AccountId) (c : Currency) (bal : Balance) :
    (l.put a c bal).Has (a, c) :=
  ⟨_, bal, Finmap.lookup_insert _, Finmap.lookup_insert _⟩

theorem Ledger.Has.put {l : Ledger} {key : AccountId × Currency} (h : l.Has key)
    (a : AccountId) (c : Currency) (bal : Balance) : (l.put a c bal).Has key := by
  obtain ⟨balances, balance, hl, hb⟩ := h
  unfold Ledger.Has Ledger.put
  simp only [lookup_insert_ite]
  by_cases ha : key.1 = a
  · rw [if_pos ha, ← ha, hl]
    by_cases hc : key.2 = c
    · exact ⟨_, bal, rfl, by rw [hc]; exact Finmap.lookup_insert _⟩
    · exact ⟨_, balance, rfl, by rw [Option.getD_some, lookup_insert_ite, if_neg hc, hb]⟩
  · rw [if_neg ha]
    exact ⟨balances, balance, hl, hb⟩

/-- Every dirty key has an entry. -/
def Ledger.DirtyHas (l : Ledger) : Prop := ∀ key ∈ l.dirty, l.Has key

/-! ## One entry, rewritten -/

theorem bank_put {l : Ledger} {a : AccountId} {c : Currency} {bal : Balance}
    {k : Accounts AccountId Currency}
    (havail : k.avail = upd l.bank.avail a c bal.available.toNat)
    (hresv : k.resv = upd l.bank.resv a c bal.reserved.toNat) :
    (l.put a c bal).bank = k := by
  refine Accounts.ext (fun a' c' => ?_) (fun a' c' => ?_)
  · rw [havail]
    simp only [Ledger.bank, balance_put, upd]
    split <;> rfl
  · rw [hresv]
    simp only [Ledger.bank, balance_put, upd]
    split <;> rfl

theorem upd_same (f : AccountId → Currency → ℕ) (a : AccountId) (c : Currency) :
    upd f a c (f a c) = f := by
  funext a' c'
  unfold upd
  split
  · rename_i h
    rw [h.1, h.2]
  · rfl

theorem bank_put_self (l : Ledger) (a : AccountId) (c : Currency) :
    (l.put a c (l.balance a c)).bank = l.bank :=
  bank_put (upd_same _ a c).symm (upd_same _ a c).symm

theorem modify_ok {l l' : Ledger} {a : AccountId} {c : Currency}
    {f : Balance → Exec Balance} :
    l.modify a c f = .ok l' ↔ ∃ bal, f (l.balance a c) = .ok bal ∧ l' = l.put a c bal := by
  unfold Ledger.modify
  rw [bind_ok]
  exact exists_congr fun bal => and_congr_right fun _ => pure_ok.trans eq_comm

section Operations

variable {b : Build} {l l' : Ledger} {a : AccountId} {c : Currency} {x : UInt64}

/-! ## The half-steps of a settlement -/

theorem credit_bank (h : l.modify a c (Balance.credit b x) = .ok l')
    (hfit : b.Checks (l.bank.avail a c + x.toNat < 2 ^ 64)) :
    l'.bank = l.bank.credit a c x.toNat := by
  obtain ⟨bal, hbal, rfl⟩ := modify_ok.mp h
  obtain ⟨y, hy, hbal⟩ := bind_ok.mp hbal
  cases hbal
  refine bank_put ?_ (upd_same _ a c).symm
  rw [Build.add_toNat hy hfit]
  rfl

theorem credit_eq (hfit : l.bank.avail a c + x.toNat < 2 ^ 64) :
    ∃ l', l.modify a c (Balance.credit b x) = .ok l' := by
  unfold Ledger.modify Balance.credit
  rw [Build.add_eq hfit]
  exact ⟨_, rfl⟩

theorem spend_bank (h : l.modify a c (Balance.spend b x) = .ok l')
    (hle : x.toNat ≤ l.bank.resv a c) : l'.bank = l.bank.spend a c x.toNat := by
  obtain ⟨bal, hbal, rfl⟩ := modify_ok.mp h
  obtain ⟨y, hy, hbal⟩ := bind_ok.mp hbal
  cases hbal
  refine bank_put (upd_same _ a c).symm ?_
  rw [(Build.sub_toNat hy (.inr (UInt64.le_iff_toNat_le.mpr hle))).2]
  rfl

theorem spend_eq (hle : x.toNat ≤ l.bank.resv a c) :
    ∃ l', l.modify a c (Balance.spend b x) = .ok l' := by
  unfold Ledger.modify Balance.spend
  rw [Build.sub_eq (UInt64.le_iff_toNat_le.mpr hle)]
  exact ⟨_, rfl⟩

/-! ## `deposit` and `held` -/

theorem deposit_ok {y : UInt64} (h : l.deposit b c a x = .ok (l', y)) :
    ∃ l₁, l.modify a c (Balance.credit b x) = .ok l₁ ∧ l' = l₁.mark a c ∧
      y = (l₁.balance a c).available := by
  unfold Ledger.deposit at h
  obtain ⟨l₁, h₁, h⟩ := bind_ok.mp h
  cases h
  exact ⟨l₁, h₁, rfl, rfl⟩

theorem deposit_bank {y : UInt64} (h : l.deposit b c a x = .ok (l', y))
    (hfit : b.Checks (l.bank.avail a c + x.toNat < 2 ^ 64)) :
    l'.bank = l.bank.credit a c x.toNat := by
  obtain ⟨l₁, h₁, rfl, _⟩ := deposit_ok h
  exact (bank_mark l₁ a c).trans (credit_bank h₁ hfit)

theorem deposit_eq (hfit : l.bank.avail a c + x.toNat < 2 ^ 64) :
    ∃ r, l.deposit b c a x = .ok r := by
  obtain ⟨l₁, h₁⟩ := credit_eq (b := b) hfit
  exact ⟨_, by rw [Ledger.deposit, h₁]; rfl⟩

/-- An absent entry holds zeros. -/
theorem balance_of_none
    (h : ((l.balances.lookup a).bind fun balances => balances.lookup c) = none) :
    l.balance a c = {} := by
  unfold Ledger.balance
  cases hl : l.balances.lookup a with
  | none => rfl
  | some balances =>
      rw [hl] at h
      rw [Option.getD_some, show balances.lookup c = none from h]
      rfl

theorem balance_of_some {bal : Balance}
    (h : ((l.balances.lookup a).bind fun balances => balances.lookup c) = some bal) :
    l.balance a c = bal := by
  unfold Ledger.balance
  cases hl : l.balances.lookup a with
  | none => rw [hl] at h; cases h
  | some balances =>
      rw [hl] at h
      rw [Option.getD_some, show balances.lookup c = some bal from h]
      rfl

theorem held_toNat {y : UInt64} (h : l.held b a c = .ok y)
    (hfit : b.Checks (l.bank.avail a c + l.bank.resv a c < 2 ^ 64)) :
    y.toNat = l.bank.avail a c + l.bank.resv a c := by
  unfold Ledger.held at h
  split at h
  · rename_i bal hbal
    have heq := balance_of_some hbal
    simp only [Ledger.bank, heq] at hfit ⊢
    exact Build.add_toNat h hfit
  · rename_i hnone
    cases h
    simp [Ledger.bank, balance_of_none hnone]

theorem held_eq (hfit : l.bank.avail a c + l.bank.resv a c < 2 ^ 64) :
    ∃ y, l.held b a c = .ok y := by
  unfold Ledger.held
  split
  · rename_i bal hbal
    simp only [Ledger.bank, balance_of_some hbal] at hfit
    exact ⟨_, Build.add_eq hfit⟩
  · exact ⟨_, rfl⟩

/-! ## `withdraw`, `reserve` and `release` -/

theorem withdraw_ok {r : Except RejectReason Unit}
    (h : l.withdraw b a c x = .ok (l', r)) :
    (r = .error .insufficientFunds ∧ l.bank.avail a c < x.toNat ∧
        l' = l.put a c (l.balance a c)) ∨
      (r = .ok () ∧ x.toNat ≤ l.bank.avail a c ∧
        ∃ bal, l' = (l.put a c bal).mark a c ∧
          l'.bank = l.bank.withdraw a c x.toNat) := by
  unfold Ledger.withdraw at h
  dsimp only at h
  split at h
  · rename_i hlt
    cases h
    exact .inl ⟨rfl, UInt64.lt_iff_toNat_lt.mp hlt, rfl⟩
  · rename_i hge
    have hle : x ≤ (l.balance a c).available := le_of_not_gt hge
    rw [Build.sub_eq hle] at h
    cases h
    refine .inr ⟨rfl, UInt64.le_iff_toNat_le.mp hle, _, rfl, ?_⟩
    rw [bank_mark]
    refine bank_put ?_ (upd_same _ a c).symm
    rw [toNat_sub_of_le hle]
    rfl

theorem withdraw_eq (b : Build) (l : Ledger) (a : AccountId) (c : Currency) (x : UInt64) :
    ∃ r, l.withdraw b a c x = .ok r := by
  unfold Ledger.withdraw
  dsimp only
  split
  · exact ⟨_, rfl⟩
  · rename_i hge
    rw [Build.sub_eq (le_of_not_gt hge)]
    exact ⟨_, rfl⟩

theorem reserve_ok {r : Except RejectReason Unit}
    (h : l.reserve b a c x = .ok (l', r)) :
    (r = .error .insufficientFunds ∧ l.bank.avail a c < x.toNat ∧
        l' = l.put a c (l.balance a c)) ∨
      (r = .ok () ∧ x.toNat ≤ l.bank.avail a c ∧
        ∃ bal, l' = (l.put a c bal).mark a c ∧
          (b.Checks (l.bank.resv a c + x.toNat < 2 ^ 64) →
            l'.bank = l.bank.reserve a c x.toNat)) := by
  unfold Ledger.reserve at h
  dsimp only at h
  split at h
  · rename_i hlt
    cases h
    exact .inl ⟨rfl, UInt64.lt_iff_toNat_lt.mp hlt, rfl⟩
  · rename_i hge
    have hle : x ≤ (l.balance a c).available := le_of_not_gt hge
    rw [Build.sub_eq hle, ok_bind] at h
    obtain ⟨y, hy, h⟩ := bind_ok.mp h
    cases h
    refine .inr ⟨rfl, UInt64.le_iff_toNat_le.mp hle, _, rfl, fun hfit => ?_⟩
    rw [bank_mark]
    refine bank_put ?_ ?_
    · rw [toNat_sub_of_le hle]
      rfl
    · rw [Build.add_toNat hy hfit]
      rfl

theorem reserve_eq (hfit : l.bank.resv a c + l.bank.avail a c < 2 ^ 64) :
    ∃ r, l.reserve b a c x = .ok r := by
  unfold Ledger.reserve
  dsimp only
  split
  · exact ⟨_, rfl⟩
  · rename_i hge
    have hle : x ≤ (l.balance a c).available := le_of_not_gt hge
    have hsum : (l.balance a c).reserved.toNat + x.toNat < 2 ^ 64 := by
      have := UInt64.le_iff_toNat_le.mp hle
      simp only [Ledger.bank] at hfit
      omega
    rw [Build.sub_eq hle, ok_bind, Build.add_eq hsum]
    exact ⟨_, rfl⟩

theorem release_ok {r : Except RejectReason Unit}
    (h : l.release b a c x = .ok (l', r)) :
    (r = .error .invalidAmount ∧ l.bank.resv a c < x.toNat ∧
        l' = l.put a c (l.balance a c)) ∨
      (r = .ok () ∧ x.toNat ≤ l.bank.resv a c ∧
        ∃ bal, l' = (l.put a c bal).mark a c ∧
          (b.Checks (l.bank.avail a c + x.toNat < 2 ^ 64) →
            l'.bank = l.bank.release a c x.toNat)) := by
  unfold Ledger.release at h
  dsimp only at h
  split at h
  · rename_i hlt
    cases h
    exact .inl ⟨rfl, UInt64.lt_iff_toNat_lt.mp hlt, rfl⟩
  · rename_i hge
    have hle : x ≤ (l.balance a c).reserved := le_of_not_gt hge
    rw [Build.sub_eq hle, ok_bind] at h
    obtain ⟨y, hy, h⟩ := bind_ok.mp h
    cases h
    refine .inr ⟨rfl, UInt64.le_iff_toNat_le.mp hle, _, rfl, fun hfit => ?_⟩
    rw [bank_mark]
    refine bank_put ?_ ?_
    · rw [Build.add_toNat hy hfit]
      rfl
    · rw [toNat_sub_of_le hle]
      rfl

theorem release_eq (hfit : l.bank.avail a c + l.bank.resv a c < 2 ^ 64) :
    ∃ r, l.release b a c x = .ok r := by
  unfold Ledger.release
  dsimp only
  split
  · exact ⟨_, rfl⟩
  · rename_i hge
    have hle : x ≤ (l.balance a c).reserved := le_of_not_gt hge
    have hsum : (l.balance a c).available.toNat + x.toNat < 2 ^ 64 := by
      have := UInt64.le_iff_toNat_le.mp hle
      simp only [Ledger.bank] at hfit
      omega
    rw [Build.sub_eq hle, ok_bind, Build.add_eq hsum]
    exact ⟨_, rfl⟩

end Operations

end MatchingEngine
