import MatchingEngine.Accounts
import MatchingEngine.History

/-!
# Settlement: trades are transfers

A trade is two transfers of the abstract bank, its legs: the buyer pays the
seller in the quote, the seller delivers the base. `settle` performs them in
four half-steps, some credits before the debits that pay for them; as long as
the reserves cover the legs and the totals are words, no half-step wraps or
panics and the order does not matter.
-/

namespace MatchingEngine

open RustArith HashModel Bank

/-- The two transfers of a trade. -/
def Trade.legs (pair : Pair) (t : Trade) : List (Transfer AccountId Currency) :=
  [{ src := t.buyer, dst := t.seller, cur := pair.quote, amt := t.cost },
    { src := t.seller, dst := t.buyer, cur := pair.base, amt := t.qty.toNat }]

/-- Both legs of every trade, in order. -/
def legs (pair : Pair) (ts : List Trade) : List (Transfer AccountId Currency) :=
  ts.flatMap (Trade.legs pair)

@[simp] theorem legs_nil (pair : Pair) : legs pair [] = [] := rfl

theorem legs_cons (pair : Pair) (t : Trade) (ts : List Trade) :
    legs pair (t :: ts) = t.legs pair ++ legs pair ts := rfl

theorem legs_append (pair : Pair) (ts us : List Trade) :
    legs pair (ts ++ us) = legs pair ts ++ legs pair us := List.flatMap_append

/-- The legs of a trade are what it gives and takes. -/
theorem credits_legs (t : Trade) (a : AccountId) (c : Currency) :
    credits (t.legs t.pair) a c = t.gives a c := by
  simp only [Trade.legs, credits_cons, credits_nil, Transfer.credit, Trade.gives]
  exact Nat.add_comm _ _

theorem debits_legs (t : Trade) (a : AccountId) (c : Currency) :
    debits (t.legs t.pair) a c = t.takes a c := by
  simp only [Trade.legs, debits_cons, debits_nil, Transfer.debit, Trade.takes]
  exact Nat.add_comm _ _

theorem tradeCost_toNat {t : Trade} {cost : UInt64} (h : tradeCost t = .ok cost) :
    cost.toNat = t.cost := by
  unfold tradeCost at h
  split at h
  · rename_i y hy
    cases h
    exact checkedMul_some hy
  · cases h

theorem tradeCost_eq {t : Trade} (h : t.cost < 2 ^ 64) :
    ∃ cost, tradeCost t = .ok cost ∧ cost.toNat = t.cost := by
  have hmul := checkedMul_eq h
  have hcost : tradeCost t = .ok (t.price * t.qty) := by rw [tradeCost, hmul]
  exact ⟨_, hcost, tradeCost_toNat hcost⟩

/-! ## One trade -/

section Settle

variable {b : Build} {l l' : Ledger} {pair : Pair} {t : Trade}

/-- The buyer's quote and the seller's base cover the trade. -/
theorem covers_legs (hpair : pair.base ≠ pair.quote) :
    l.bank.Covers (t.legs pair) ↔
      t.cost ≤ l.bank.resv t.buyer pair.quote ∧
        t.qty.toNat ≤ l.bank.resv t.seller pair.base := by
  constructor
  · intro h
    refine ⟨h.head, ?_⟩
    have := h.tail.head
    rwa [Accounts.resv_transfer, Transfer.debit, if_neg (by simp [hpair])] at this
  · rintro ⟨hcost, hqty⟩ a c
    simp only [Trade.legs, debits_cons, debits_nil, Transfer.debit]
    by_cases hq : c = pair.quote
    · have hb : c ≠ pair.base := fun h => hpair (h.symm.trans hq)
      by_cases ha : a = t.buyer
      · simp [ha, hq, hpair.symm, hcost]
      · simp [ha, hb]
    · by_cases hb : a = t.seller ∧ c = pair.base
      · rw [if_neg (fun h => hq h.2), if_pos hb, hb.1, hb.2]
        omega
      · rw [if_neg (fun h => hq h.2), if_neg hb]
        omega

variable (hpair : pair.base ≠ pair.quote) (hcover : l.bank.Covers (t.legs pair))

include hpair hcover

/-- A word-sized total leaves room for either leg. -/
theorem room_for_legs (htotal : ∀ c, l.bank.total c < 2 ^ 64) (a : AccountId) :
    l.bank.avail a pair.quote + t.cost < 2 ^ 64 ∧
      l.bank.avail a pair.base + t.qty.toNat < 2 ^ 64 := by
  obtain ⟨hcost, hqty⟩ := (covers_legs hpair).mp hcover
  have hq := l.bank.avail_add_resv_le_total a t.buyer pair.quote
  have hb := l.bank.avail_add_resv_le_total a t.seller pair.base
  have := htotal pair.quote
  have := htotal pair.base
  omega

/-- **A settled trade** moved exactly its two legs. -/
theorem settle_bank (h : l.settle b pair t = .ok l')
    (hfit : b.Checks (∀ c, l.bank.total c < 2 ^ 64)) :
    l'.bank = l.bank.transferAll (t.legs pair) := by
  obtain ⟨hcost, hqty⟩ := (covers_legs hpair).mp hcover
  have hroom := fun a => hfit.imp fun htotal => room_for_legs hpair hcover htotal a
  unfold Ledger.settle at h
  obtain ⟨cost, hcost', h⟩ := bind_ok.mp h
  have hc := tradeCost_toNat hcost'
  obtain ⟨l₄, hsteps, h⟩ := bind_ok.mp h
  cases h
  simp only [bank_mark]
  unfold Ledger.settleBalances at hsteps
  unfold Trade.legs Trade.buyer Trade.seller at *
  split at hsteps
  · rename_i hside
    simp only [hside] at hcost hqty ⊢
    obtain ⟨l₁, h₁, hsteps⟩ := bind_ok.mp hsteps
    obtain ⟨l₂, h₂, hsteps⟩ := bind_ok.mp hsteps
    obtain ⟨l₃, h₃, h₄⟩ := bind_ok.mp hsteps
    have hb₁ := spend_bank h₁ (by rw [hc]; exact hcost)
    have hb₂ := credit_bank h₂ (by rw [hb₁]; exact (hroom _).imp And.right)
    have hb₃ := credit_bank h₃ (by
      rw [hb₂, hb₁, Accounts.avail_credit, if_neg (by simp [hpair.symm]), hc]
      exact (hroom _).imp And.left)
    have hb₄ := spend_bank h₄ (by
      rw [hb₃, hb₂, hb₁]
      change _ ≤ (l.bank.spend _ _ _).resv _ _
      rw [Accounts.resv_spend, if_neg (by simp [hpair])]
      exact hqty)
    rw [hb₄, hb₃, hb₂, hb₁, hc, Accounts.credit_comm]
    rfl
  · rename_i hside
    simp only [hside] at hcost hqty ⊢
    obtain ⟨l₁, h₁, hsteps⟩ := bind_ok.mp hsteps
    obtain ⟨l₂, h₂, hsteps⟩ := bind_ok.mp hsteps
    obtain ⟨l₃, h₃, h₄⟩ := bind_ok.mp hsteps
    have hb₁ := credit_bank h₁ (by rw [hc]; exact (hroom _).imp And.left)
    have hb₂ := spend_bank h₂ (by rw [hb₁]; exact hqty)
    have hb₃ := spend_bank h₃ (by
      rw [hb₂, hb₁, Accounts.resv_spend, if_neg (by simp [hpair.symm]), hc]
      exact hcost)
    have hb₄ := credit_bank h₄ (by
      rw [hb₃, hb₂, hb₁]
      change b.Checks ((l.bank.credit _ _ _).avail _ _ + _ < _)
      rw [Accounts.avail_credit, if_neg (by simp [hpair])]
      exact (hroom _).imp And.right)
    rw [hb₄, hb₃, hb₂, hb₁, hc]
    refine Accounts.ext (fun a c => rfl) (fun a c => ?_)
    change (Accounts.spend (Accounts.spend l.bank _ _ _) _ _ _).resv a c
      = (Accounts.spend (Accounts.spend l.bank _ _ _) _ _ _).resv a c
    simp only [Accounts.resv_spend]
    omega

/-- **A covered trade settles**, in either build. -/
theorem settle_eq (b : Build) (hword : t.cost < 2 ^ 64)
    (htotal : ∀ c, l.bank.total c < 2 ^ 64) : ∃ l', l.settle b pair t = .ok l' := by
  obtain ⟨hcost, hqty⟩ := (covers_legs hpair).mp hcover
  have hroom := fun a => room_for_legs hpair hcover htotal a
  obtain ⟨cost, hcost', hc⟩ := tradeCost_eq hword
  unfold Ledger.settle Ledger.settleBalances
  rw [hcost', ok_bind]
  unfold Trade.buyer Trade.seller at *
  cases hside : t.takerSide with
  | bid =>
      simp only [hside] at hcost hqty
      obtain ⟨l₁, h₁⟩ := spend_eq (b := b) (show cost.toNat ≤ _ by rw [hc]; exact hcost)
      have hb₁ := spend_bank h₁ (by rw [hc]; exact hcost)
      obtain ⟨l₂, h₂⟩ := credit_eq (b := b) (l := l₁) (a := t.takerAccount) (c := pair.base)
        (x := t.qty) (by rw [hb₁]; exact (hroom _).2)
      have hb₂ := credit_bank h₂ (.inr (by rw [hb₁]; exact (hroom _).2))
      have hfit₃ : l₂.bank.avail t.makerAccount pair.quote + cost.toNat < 2 ^ 64 := by
        rw [hb₂, hb₁, Accounts.avail_credit, if_neg (by simp [hpair.symm]), hc]
        exact (hroom _).1
      obtain ⟨l₃, h₃⟩ := credit_eq (b := b) hfit₃
      have hb₃ := credit_bank h₃ (.inr hfit₃)
      obtain ⟨l₄, h₄⟩ := spend_eq (b := b) (l := l₃) (a := t.makerAccount) (c := pair.base)
        (x := t.qty) (by
          rw [hb₃, hb₂, hb₁]
          change _ ≤ (l.bank.spend _ _ _).resv _ _
          rw [Accounts.resv_spend, if_neg (by simp [hpair])]
          exact hqty)
      simp only [h₁, h₂, h₃, h₄, ok_bind]
      exact ⟨_, rfl⟩
  | ask =>
      simp only [hside] at hcost hqty
      have hfit₁ : l.bank.avail t.takerAccount pair.quote + cost.toNat < 2 ^ 64 := by
        rw [hc]; exact (hroom _).1
      obtain ⟨l₁, h₁⟩ := credit_eq (b := b) hfit₁
      have hb₁ := credit_bank h₁ (.inr hfit₁)
      have hle₂ : t.qty.toNat ≤ l₁.bank.resv t.takerAccount pair.base := by
        rw [hb₁]; exact hqty
      obtain ⟨l₂, h₂⟩ := spend_eq (b := b) hle₂
      have hb₂ := spend_bank h₂ hle₂
      have hle₃ : cost.toNat ≤ l₂.bank.resv t.makerAccount pair.quote := by
        rw [hb₂, hb₁, Accounts.resv_spend, if_neg (by simp [hpair.symm]), hc]
        exact hcost
      obtain ⟨l₃, h₃⟩ := spend_eq (b := b) hle₃
      have hb₃ := spend_bank h₃ hle₃
      obtain ⟨l₄, h₄⟩ := credit_eq (b := b) (l := l₃) (a := t.makerAccount) (c := pair.base)
        (x := t.qty) (by
          rw [hb₃, hb₂, hb₁]
          change (l.bank.credit _ _ _).avail _ _ + _ < _
          rw [Accounts.avail_credit, if_neg (by simp [hpair])]
          exact (hroom _).2)
      simp only [h₁, h₂, h₃, h₄, ok_bind]
      exact ⟨_, rfl⟩

end Settle

/-! ## All trades of an order -/

section SettleTrades

variable {b : Build} {pair : Pair} (hpair : pair.base ≠ pair.quote)

include hpair

theorem settleTrades_bank {ts : List Trade} : ∀ {l l' : Ledger},
    settleTrades b pair ts l = .ok l' → l.bank.Covers (legs pair ts) →
    b.Checks (∀ c, l.bank.total c < 2 ^ 64) →
    l'.bank = l.bank.transferAll (legs pair ts) := by
  induction ts with
  | nil => intro l l' h _ _; cases h; rfl
  | cons t ts ih =>
      intro l l' h hcover hfit
      obtain ⟨l₁, h₁, h⟩ := bind_ok.mp h
      rw [legs_cons] at hcover ⊢
      have ht : l.bank.Covers (t.legs pair) := hcover.append_left
      have hb₁ := settle_bank hpair ht h₁ hfit
      rw [Accounts.transferAll_append, ← hb₁]
      refine ih h (hb₁ ▸ hcover.append_right) (hfit.imp fun htotal c => ?_)
      rw [hb₁, Accounts.total_transferAll c ht]
      exact htotal c

theorem settleTrades_eq (b : Build) {ts : List Trade} : ∀ {l : Ledger},
    (∀ t ∈ ts, t.cost < 2 ^ 64) → l.bank.Covers (legs pair ts) →
    (∀ c, l.bank.total c < 2 ^ 64) → ∃ l', settleTrades b pair ts l = .ok l' := by
  induction ts with
  | nil => intro l _ _ _; exact ⟨l, rfl⟩
  | cons t ts ih =>
      intro l hword hcover htotal
      rw [legs_cons] at hcover
      have ht : l.bank.Covers (t.legs pair) := hcover.append_left
      obtain ⟨l₁, h₁⟩ := settle_eq hpair ht b (hword t List.mem_cons_self) htotal
      have hb₁ := settle_bank hpair ht h₁ (.inr htotal)
      obtain ⟨l', h'⟩ := ih (l := l₁) (fun t' ht' => hword t' (List.mem_cons_of_mem _ ht'))
        (hb₁ ▸ hcover.append_right) (fun c => by
          rw [hb₁, Accounts.total_transferAll c ht]
          exact htotal c)
      exact ⟨l', by rw [settleTrades, h₁, ok_bind, h']⟩

end SettleTrades

end MatchingEngine
