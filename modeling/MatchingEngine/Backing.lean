import MatchingEngine.Reserves

/-!
# Backing: reserves back the open orders, command by command

The ledger's way through an order, stage by stage, as operations of the
abstract bank: reserve, one transfer per leg, one release. The reserve covers
the legs (`MatchTrace.covers`), the releases find what they release, and the
reserves back the open orders afterwards (`PlaceTrace.backed`). Cancels
release what the order committed (`CancelTrace.backed`).
-/

namespace MatchingEngine

open RustArith HashModel Bank

/-- The totals are words. A debug build need not know this: it has checked
every amount it computed. -/
def Engine.Fits (b : Build) (e : Engine) : Prop :=
  b.Checks (∀ c, e.ledger.bank.total c < 2 ^ 64)

theorem Engine.Fits.held {b : Build} {e : Engine} (h : e.Fits b) (a : AccountId)
    (c : Currency) : b.Checks (e.ledger.bank.avail a c + e.ledger.bank.resv a c < 2 ^ 64) :=
  h.imp fun htotal => (e.ledger.bank.held_le_total a c).trans_lt (htotal c)

/-! ## Reserve and match -/

namespace MatchTrace

variable {b : Build} {o : Drains} {e : Engine} {accountId : AccountId} {req : OrderRequest}
  (t : MatchTrace b o e accountId req)

theorem reserved_ok : t.amount ≤ e.ledger.bank.avail accountId req.currency ∧
    ∃ bal, t.reserved = (e.ledger.put accountId req.currency bal).mark accountId req.currency ∧
      (b.Checks (e.ledger.bank.resv accountId req.currency + t.amount < 2 ^ 64) →
        t.reserved.bank = e.ledger.bank.reserve accountId req.currency t.amount) := by
  have h := t.reserve
  rw [reserveOrder_eq] at h
  rcases reserve_ok h with ⟨habsurd, _⟩ | ⟨_, hle, hbank⟩
  · cases habsurd
  · exact ⟨hle, hbank⟩

theorem reserved_bank (hfit : e.Fits b) :
    t.reserved.bank = e.ledger.bank.reserve accountId req.currency t.amount := by
  obtain ⟨hle, _, _, hbank⟩ := t.reserved_ok
  refine hbank ((hfit.held accountId req.currency).imp fun h => ?_)
  omega

theorem reserved_total (hfit : e.Fits b) (c : Currency) :
    t.reserved.bank.total c = e.ledger.bank.total c := by
  rw [t.reserved_bank hfit, Accounts.total_reserve _ t.reserved_ok.1]

theorem reserved_fits (hfit : e.Fits b) :
    b.Checks (∀ c, t.reserved.bank.total c < 2 ^ 64) :=
  hfit.imp fun htotal c => by rw [t.reserved_total hfit]; exact htotal c

/-- The legs of the trades of a trace. -/
def legs (t : MatchTrace b o e accountId req) : List (Transfer AccountId Currency) :=
  MatchingEngine.legs req.pair t.matchResult.trades

/-- What a resting order commits is what it keeps of its reserve. -/
theorem stays_rate (a : AccountId) (c : Currency) :
    (if (e.book req.pair).Stays e.nextOrderId accountId req then
        Order.rate req.pair a c ((e.book req.pair).taker e.nextOrderId accountId req)
          * ((e.book req.pair).taker e.nextOrderId accountId req).units
      else 0)
      = if a = accountId ∧ c = req.currency then req.kept t.left else 0 := by
  by_cases hstay : (e.book req.pair).Stays e.nextOrderId accountId req
  · obtain ⟨rem, htaker⟩ := taker_eq (e.book req.pair) e.nextOrderId accountId req
    have hside := taker_side (e.book req.pair) e.nextOrderId accountId req
    rw [if_pos hstay]
    cases hs : req.side with
    | bid =>
        have hcur : req.currency = req.pair.quote := by rw [OrderRequest.currency, hs]
        have hkept : req.kept t.left = req.price.toNat * t.left := by
          simp [OrderRequest.kept, hstay.1, hs]
        rw [Order.rate_bid (hside.trans hs), hcur, hkept, htaker]
        split
        · rw [if_pos ‹_›, left, htaker]; rfl
        · rw [if_neg ‹_›, Nat.zero_mul]
    | ask =>
        have hcur : req.currency = req.pair.base := by rw [OrderRequest.currency, hs]
        have hkept : req.kept t.left = t.left := by
          simp [OrderRequest.kept, hstay.1, hs]
        rw [Order.rate_ask (hside.trans hs), hcur, hkept, htaker]
        split
        · rw [if_pos ‹_›, left, htaker, Nat.one_mul]
        · rw [if_neg ‹_›, Nat.zero_mul]
  · have hkept : req.kept t.left = 0 := by
      unfold OrderRequest.kept
      cases htype : req.orderType with
      | market => rfl
      | limit =>
          have hzero : t.left = 0 := by
            by_contra hne
            exact hstay ⟨htype, Nat.pos_of_ne_zero hne⟩
          cases req.side <;> simp [hzero]
    rw [if_neg hstay, hkept, ite_self]

variable (hs : e.Shape)

include hs

theorem trades_eq_fills : t.matchResult.trades
    = t.fills.map (fillTrade req.pair (req.toOrder e.nextOrderId accountId)) :=
  t.trades_eq hs

/-- What the trades debit: the makers' committed units and the taker's
charge. -/
theorem debits_eq (a : AccountId) (c : Currency) :
    debits t.legs a c
      = (t.fills.map fun f => Order.rate req.pair a c f.1 * f.2).sum
        + if a = accountId ∧ c = req.currency then charge req t.fills else 0 := by
  rw [legs, t.trades_eq_fills hs]
  refine debits_fills (req.toOrder e.nextOrderId accountId) rfl (fun f hf => ?_) a c
  have hf := t.mem_fills hs hf
  exact ⟨hf.1.side, hf.2.2.2.1⟩

/-- The fills take no more than the book has committed. -/
theorem fills_le_committed (a : AccountId) (c : Currency) :
    (t.fills.map fun f => Order.rate req.pair a c f.1 * f.2).sum ≤ e.committed a c := by
  have hswept := swept_worth (Order.rate_unitwise req.pair a c) (e.book req.pair)
    e.nextOrderId accountId req
  have hbook := committed_book_le e req.pair a c
  rw [committed_eq_worth (hs.wf _), worth_orders _ _ req.side] at hbook
  change (List.map _ (OrderBook.fills _ _ _ _)).sum ≤ _
  omega

variable (hb : e.Backed) (hfit : e.Fits b)

include hb hfit

/-- **The reserve covers the trades.** -/
theorem covers : t.reserved.bank.Covers t.legs := by
  intro a c
  have hfills := t.fills_le_committed hs a c
  have hsplit := t.amount_split hs hb hfit
  rw [t.reserved_bank hfit, Accounts.resv_reserve, t.debits_eq hs, hb a c]
  split
  · omega
  · omega

/-- What is reserved once the trades are settled. -/
theorem settled_resv (a : AccountId) (c : Currency) :
    (t.reserved.bank.transferAll t.legs).resv a c
        + (t.fills.map fun f => Order.rate req.pair a c f.1 * f.2).sum
      = e.committed a c + if a = accountId ∧ c = req.currency then
          req.givenBack t.fills t.left + req.kept t.left else 0 := by
  have hfills := t.fills_le_committed hs a c
  have hsplit := t.amount_split hs hb hfit
  rw [Accounts.resv_transferAll, t.debits_eq hs, t.reserved_bank hfit,
    Accounts.resv_reserve, hb a c]
  split
  · omega
  · omega

/-- What is to be given back is reserved. -/
theorem givenBack_le :
    req.givenBack t.fills t.left
      ≤ (t.reserved.bank.transferAll t.legs).resv accountId req.currency := by
  have hsettled := t.settled_resv hs hb hfit accountId req.currency
  have hfills := t.fills_le_committed hs accountId req.currency
  rw [if_pos ⟨rfl, rfl⟩] at hsettled
  omega

theorem settled_bank {l : Ledger}
    (h : settleTrades b req.pair t.matchResult.trades t.reserved = .ok l) :
    l.bank = t.reserved.bank.transferAll t.legs :=
  settleTrades_bank t.pair_valid h (t.covers hs hb hfit) (t.reserved_fits hfit)

theorem settled_total {l : Ledger}
    (h : settleTrades b req.pair t.matchResult.trades t.reserved = .ok l) (c : Currency) :
    l.bank.total c = e.ledger.bank.total c := by
  rw [t.settled_bank hs hb hfit h, Accounts.total_transferAll c (t.covers hs hb hfit),
    t.reserved_total hfit]

end MatchTrace

/-! ## The two releases -/

section Releases

variable {b : Build} {l l' : Ledger} {accountId : AccountId} {req : OrderRequest}

/-- A release of an amount that is reserved. -/
theorem release_bank {c : Currency} {x : UInt64} {r : Except RejectReason Unit}
    (h : l.release b accountId c x = .ok (l', r)) (hle : x.toNat ≤ l.bank.resv accountId c)
    (hfit : b.Checks (∀ c, l.bank.total c < 2 ^ 64)) :
    r = .ok () ∧ l'.bank = l.bank.release accountId c x.toNat := by
  rcases release_ok h with ⟨_, hlt, _⟩ | ⟨hr, _, _, _, hbank⟩
  · omega
  · refine ⟨hr, hbank (hfit.imp fun htotal => ?_)⟩
    have := l.bank.held_le_total accountId c
    have := htotal c
    omega

/-- The price improvement of some trades. -/
def surplus (req : OrderRequest) (fs : List (Order × ℕ)) : ℕ :=
  (fs.map fun f => (req.price.toNat - f.1.price.toNat) * f.2).sum

/-- **The surplus is computed exactly**, in either build: no fill is above the
limit, and the whole order's value is a word. -/
theorem surplus_eq (b : Build) (taker : Order) {fs : List (Order × ℕ)}
    (hprice : ∀ f ∈ fs, f.1.price.toNat ≤ req.price.toNat)
    (hunits : ∀ f ∈ fs, f.2 ≤ f.1.units)
    (hsize : (fs.map Prod.snd).sum ≤ req.size.toNat)
    (hvalue : req.price.toNat * req.size.toNat < 2 ^ 64) :
    ∃ s : UInt64, s.toNat = surplus req fs ∧
      ((fs.map (fillTrade req.pair taker)).mapM (tradeSurplus b req) >>= b.sum) = .ok s := by
  have hpaid := paid_add_surplus hprice
  have htotal : surplus req fs < 2 ^ 64 := by
    have := Nat.mul_le_mul_left req.price.toNat hsize
    unfold surplus
    omega
  have hone : ∀ f ∈ fs, tradeSurplus b req (fillTrade req.pair taker f)
      = .ok ((req.price - f.1.price) * UInt64.ofNat f.2) ∧
      ((req.price - f.1.price) * UInt64.ofNat f.2).toNat
        = (req.price.toNat - f.1.price.toNat) * f.2 := by
    intro f hf
    have hle : f.1.price ≤ req.price := UInt64.le_iff_toNat_le.mpr (hprice f hf)
    have hq : (UInt64.ofNat f.2).toNat = f.2 := toNat_ofNat_of_le (hunits f hf)
    have hlt : (req.price - f.1.price).toNat * (UInt64.ofNat f.2).toNat < 2 ^ 64 := by
      rw [toNat_sub_of_le hle, hq]
      exact lt_of_le_of_lt (List.single_le_sum (fun _ _ => Nat.zero_le _) _
        (List.mem_map.mpr ⟨f, hf, rfl⟩)) htotal
    constructor
    · unfold tradeSurplus
      change (b.sub req.price f.1.price >>= fun better => b.mul better (UInt64.ofNat f.2)) = _
      rw [Build.sub_eq hle, ok_bind, Build.mul_eq hlt]
    · rw [toNat_mul_of_lt hlt, toNat_sub_of_le hle, hq]
  have hmap : (fs.map (fillTrade req.pair taker)).mapM (tradeSurplus b req)
      = .ok (fs.map fun f => (req.price - f.1.price) * UInt64.ofNat f.2) := by
    rw [List.mapM_map]
    exact mapM_eq fun f hf => (hone f hf).1
  have hsum : exactSum (fs.map fun f => (req.price - f.1.price) * UInt64.ofNat f.2)
      = surplus req fs := by
    unfold exactSum surplus
    rw [List.map_map]
    exact congrArg List.sum (List.map_congr_left fun f hf => (hone f hf).2)
  obtain ⟨s, hs, hval⟩ := Build.sum_eq (b := b) (hsum ▸ htotal)
  exact ⟨s, hval.trans hsum, by rw [hmap, ok_bind, hs]⟩

end Releases

namespace MatchTrace

variable {b : Build} {o : Drains} {e : Engine} {accountId : AccountId} {req : OrderRequest}
  (t : MatchTrace b o e accountId req) {l l' : Ledger} {r : Except RejectReason Unit}

theorem takerRemaining_toNat (hs : e.Shape) : t.matchResult.takerRemaining.toNat = t.left := by
  rw [t.takerRemaining_eq hs]; rfl

/-- **The first release**: a market sell's remainder is reserved, so it is
given back; any other order is untouched here. -/
theorem sell_bank (hs : e.Shape)
    (hle : req.givenBack t.fills t.left ≤ l.bank.resv accountId req.currency)
    (hfit : b.Checks (∀ c, l.bank.total c < 2 ^ 64))
    (h : releaseMarketSell b l accountId req t.matchResult.takerRemaining = .ok (l', r)) :
    r = .ok () ∧ l'.bank =
      if req.orderType = .market then
        l.bank.release accountId req.currency (req.givenBack t.fills t.left)
      else l.bank := by
  have hrem := t.takerRemaining_toNat hs
  unfold releaseMarketSell at h
  split at h
  · rename_i hsell
    obtain ⟨htype, hside, _⟩ := hsell
    have hback : req.givenBack t.fills t.left = t.left := by
      simp [OrderRequest.givenBack, htype, hside]
    have hcur : req.currency = req.pair.base := by rw [OrderRequest.currency, hside]
    rw [hback, hcur] at hle
    have hrelease := release_bank h (by rw [hrem]; exact hle) hfit
    rw [if_pos htype, hback, hcur, ← hrem]
    exact hrelease
  · rename_i hsell
    cases h
    refine ⟨rfl, ?_⟩
    split
    · rename_i htype
      -- a market buy gets nothing back, nor does a market sell that was filled
      have hzero : req.givenBack t.fills t.left = 0 := by
        unfold OrderRequest.givenBack
        cases hside : req.side with
        | bid => simp [htype]
        | ask =>
            have hnot : ¬ 0 < t.matchResult.takerRemaining := fun hpos =>
              hsell ⟨htype, hside, hpos⟩
            rw [UInt64.lt_iff_toNat_lt, hrem] at hnot
            simp only [htype]
            exact Nat.eq_zero_of_not_pos hnot
      rw [hzero, Accounts.release_zero]
    · rfl

/-- **The second release**: a limit buy's surplus is reserved, so it is given
back; any other order is untouched here. -/
theorem refund_bank (hs : e.Shape)
    (hle : req.orderType = .limit →
      req.givenBack t.fills t.left ≤ l.bank.resv accountId req.currency)
    (hfit : b.Checks (∀ c, l.bank.total c < 2 ^ 64))
    (h : releaseSurplus b l accountId req t.matchResult.trades = .ok (l', r)) :
    r = .ok () ∧ l'.bank =
      if req.orderType = .limit then
        l.bank.release accountId req.currency (req.givenBack t.fills t.left)
      else l.bank := by
  unfold releaseSurplus at h
  split at h
  · rename_i hbuy
    obtain ⟨hside, htype⟩ := hbuy
    have hback : req.givenBack t.fills t.left = surplus req t.fills := by
      simp [OrderRequest.givenBack, htype, hside, surplus]
    have hcur : req.currency = req.pair.quote := by rw [OrderRequest.currency, hside]
    obtain ⟨s, hval, hsum⟩ := surplus_eq b (req.toOrder e.nextOrderId accountId)
      (fun f hf => t.price_le hs htype hside hf)
      (fun f hf => (t.mem_fills hs hf).2.2.2.1)
      (by have := t.fills_add_left; omega) (t.limit_value_lt htype)
    rw [← t.trades_eq_fills hs] at hsum
    have hle := hle htype
    rw [hback, hcur, ← hval] at hle
    obtain ⟨xs, hxs, h⟩ := bind_ok.mp h
    obtain ⟨s', hs', h⟩ := bind_ok.mp h
    have heq : s' = s := by
      rw [hxs, ok_bind, hs'] at hsum
      exact Except.ok.inj hsum
    subst heq
    rw [if_pos htype, hback, hcur, ← hval]
    split at h
    · exact release_bank h hle hfit
    · rename_i hzero
      cases h
      have hzero : s'.toNat = 0 := by
        rw [UInt64.lt_iff_toNat_lt] at hzero
        exact Nat.eq_zero_of_not_pos hzero
      rw [hzero, Accounts.release_zero]
      exact ⟨rfl, rfl⟩
  · rename_i hbuy
    cases h
    refine ⟨rfl, ?_⟩
    split
    · rename_i htype
      have hzero : req.givenBack t.fills t.left = 0 := by
        unfold OrderRequest.givenBack
        cases hside : req.side with
        | bid => exact absurd ⟨hside, htype⟩ hbuy
        | ask => simp [htype]
      rw [hzero, Accounts.release_zero]
    · rfl

end MatchTrace

/-! ## After the order -/

namespace PlaceTrace

variable {b : Build} {o : Drains} {e : Engine} {accountId : AccountId} {req : OrderRequest}
  (t : PlaceTrace b o e accountId req) (hs : e.Shape) (hb : e.Backed) (hfit : e.Fits b)

include hs hb hfit

theorem settled_fits : b.Checks (∀ c, t.settled.bank.total c < 2 ^ 64) :=
  hfit.imp fun htotal c => by rw [t.settled_total hs hb hfit t.settle]; exact htotal c

/-- **The ledger after an order**: one reserve, the legs, one release, and
both releases succeeded. -/
theorem refunded_bank :
    t.soldResult = .ok () ∧ t.refundedResult = .ok () ∧
      t.refunded.bank = (t.reserved.bank.transferAll t.legs).release accountId req.currency
        (req.givenBack t.fills t.left) := by
  have hle := t.givenBack_le hs hb hfit
  have hsettled := t.settled_bank hs hb hfit t.settle
  rw [← hsettled] at hle ⊢
  have hsettledFits := t.settled_fits hs hb hfit
  obtain ⟨hsold, hsoldBank⟩ := t.sell_bank hs hle hsettledFits t.sell
  cases htype : req.orderType with
  | market =>
      rw [if_pos htype] at hsoldBank
      have hsoldFits : b.Checks (∀ c, t.sold.bank.total c < 2 ^ 64) :=
        hsettledFits.imp fun htotal c => by
          rw [hsoldBank, Accounts.total_release _ hle]; exact htotal c
      obtain ⟨href, hrefBank⟩ :=
        t.refund_bank hs (by simp [htype]) hsoldFits t.refund
      rw [if_neg (by simp [htype]), hsoldBank] at hrefBank
      exact ⟨hsold, href, hrefBank⟩
  | limit =>
      rw [if_neg (by simp [htype])] at hsoldBank
      obtain ⟨href, hrefBank⟩ := t.refund_bank hs (fun _ => by rw [hsoldBank]; exact hle)
        (hsoldBank ▸ hsettledFits) t.refund
      rw [if_pos htype, hsoldBank] at hrefBank
      exact ⟨hsold, href, hrefBank⟩

/-- An order whose reserve is backed is accepted. -/
theorem result_eq : t.result = .ok t.matchResult := by
  unfold PlaceTrace.result
  rw [(t.refunded_bank hs hb hfit).2.1]

/-- An order moves nothing in or out. -/
theorem refunded_total (c : Currency) :
    t.refunded.bank.total c = e.ledger.bank.total c := by
  rw [(t.refunded_bank hs hb hfit).2.2, Accounts.total_release _ (t.givenBack_le hs hb hfit),
    Accounts.total_transferAll c (t.covers hs hb hfit), t.reserved_total hfit]

/-- What an account holds after an order: the legs, and nothing else. -/
theorem refunded_held (a : AccountId) (c : Currency) :
    t.refunded.bank.avail a c + t.refunded.bank.resv a c + debits t.legs a c
      = e.ledger.bank.avail a c + e.ledger.bank.resv a c + credits t.legs a c := by
  have hcover := t.covers hs hb hfit a c
  have hback := t.givenBack_le hs hb hfit
  have hamount := t.reserved_ok.1
  rw [(t.refunded_bank hs hb hfit).2.2, Accounts.avail_release, Accounts.resv_release]
  rw [Accounts.resv_transferAll] at hback ⊢
  rw [Accounts.avail_transferAll]
  rw [t.reserved_bank hfit] at hback hcover ⊢
  simp only [Accounts.avail_reserve, Accounts.resv_reserve] at hback hcover ⊢
  by_cases hac : a = accountId ∧ c = req.currency
  · obtain ⟨rfl, rfl⟩ := hac
    simp only [and_self, if_true] at hback hcover ⊢
    omega
  · simp only [if_neg hac] at hcover ⊢
    omega

/-- **Reserves back the open orders after an order.** -/
theorem backed : t.engine.Backed := by
  intro a c
  have hsettled := t.settled_resv hs hb hfit a c
  have hback := t.givenBack_le hs hb hfit
  have hcommitted : t.engine.committed a c + worth (Order.rate req.pair a c)
      (e.book req.pair).orders = e.committed a c + worth (Order.rate req.pair a c)
        ((e.book req.pair).placed e.nextOrderId accountId req).orders := by
    have h := committed_insert e t.engine req.pair t.book rfl a c
    rw [committed_eq_worth (hs.wf _), committed_eq_worth (t.book_wf hs),
      (t.book_eq hs).1, drained_orders] at h
    exact h
  have hworth : worth (Order.rate req.pair a c)
        ((e.book req.pair).placed e.nextOrderId accountId req).orders
      + (t.fills.map fun f => Order.rate req.pair a c f.1 * f.2).sum
      = worth (Order.rate req.pair a c) (e.book req.pair).orders
        + if a = accountId ∧ c = req.currency then req.kept t.left else 0 := by
    rw [← t.stays_rate a c]
    exact placed_worth (Order.rate_unitwise req.pair a c)
  change t.refunded.bank.resv a c = _
  rw [(t.refunded_bank hs hb hfit).2.2, Accounts.resv_release]
  by_cases hac : a = accountId ∧ c = req.currency
  · obtain ⟨rfl, rfl⟩ := hac
    simp only [and_self, if_true] at hsettled hworth ⊢
    omega
  · simp only [if_neg hac] at hsettled hworth ⊢
    omega

end PlaceTrace

/-! ## Cancels -/

namespace CancelTrace

variable {b : Build} {o : Drains} {e : Engine} {accountId : AccountId} {req : CancelRequest}
  (t : CancelTrace b o e accountId req)

/-- **What a cancel releases**: the worth of the remainder, in the currency its
side reserves. -/
theorem refund_eq (hs : e.Shape) : t.currency = t.pair.reserves t.order.side ∧
    t.amount.toNat = t.order.unitWorth * t.order.units := by
  obtain ⟨side, price, pre, post, _, hqueue, _, _, _⟩ := t.book_eq
  have hrests := ((hs.wf t.pair).side side).rests _ (SortedMap.get?_eq_some.mp hqueue)
    t.order (List.mem_append_right _ List.mem_cons_self)
  have hrefund := t.refund
  unfold cancelRefund at hrefund
  unfold Pair.reserves Order.unitWorth
  cases hside : t.order.side with
  | bid =>
      simp only [hside] at hrefund
      obtain ⟨amount, hmul, hrefund⟩ := bind_ok.mp hrefund
      obtain ⟨hcur, hamount⟩ := Prod.mk.inj (Except.ok.inj hrefund)
      have hvalue : t.order.remainingSize.toNat * t.order.price.toNat < 2 ^ 64 := by
        rw [Nat.mul_comm]
        exact (Nat.mul_le_mul_left _ (UInt64.le_iff_toNat_le.mp hrests.sized)).trans_lt
          hrests.value
      refine ⟨hcur.symm, ?_⟩
      rw [← hamount, Build.mul_toNat hmul (.inr hvalue)]
      exact Nat.mul_comm _ _
  | ask =>
      simp only [hside] at hrefund
      obtain ⟨hcur, hamount⟩ := Prod.mk.inj (Except.ok.inj hrefund)
      refine ⟨hcur.symm, ?_⟩
      rw [← hamount]
      exact (Nat.one_mul _).symm

/-- It is what the order commits of its own account, and nothing of anyone
else. -/
theorem amount_eq (hs : e.Shape) (a : AccountId) (c : Currency) :
    Order.rate t.pair a c t.order * t.order.units
      = if a = t.order.accountId ∧ c = t.currency then t.amount.toNat else 0 := by
  obtain ⟨hcur, hamount⟩ := t.refund_eq hs
  rw [hcur, hamount]
  unfold Pair.reserves Order.unitWorth
  cases hside : t.order.side with
  | bid =>
      rw [Order.rate_bid hside]
      split
      · rfl
      · exact Nat.zero_mul _
  | ask =>
      rw [Order.rate_ask hside]
      split
      · rfl
      · exact Nat.zero_mul _

/-- The committed amount falls by what the cancelled order committed. -/
theorem committed_eq (hs : e.Shape) (a : AccountId) (c : Currency) :
    t.engine.committed a c
        + (if a = t.order.accountId ∧ c = t.currency then t.amount.toNat else 0)
      = e.committed a c := by
  obtain ⟨side, price, pre, post, _, hqueue, _, hbook, _⟩ := t.book_eq
  have hcommitted := committed_insert e t.engine t.pair t.book rfl a c
  have hwf : t.book.WF := by rw [hbook]; exact removed_wf (hs.wf _) hqueue
  rw [committed_eq_worth (hs.wf _), committed_eq_worth hwf, hbook,
    drained_orders] at hcommitted
  have hworth := removed_worth req.orderId (Order.rate t.pair a c) hqueue
  rw [← t.amount_eq hs a c]
  omega

variable (hs : e.Shape) (hb : e.Backed) (hfit : e.Fits b)

include hs hb

/-- What a cancel releases is reserved. -/
theorem amount_le :
    t.amount.toNat ≤ e.ledger.bank.resv t.order.accountId t.currency := by
  have hcommitted := t.committed_eq hs t.order.accountId t.currency
  rw [if_pos ⟨rfl, rfl⟩] at hcommitted
  rw [hb]
  omega

include hfit

theorem released_bank : t.releasedResult = .ok () ∧ t.released.bank
    = e.ledger.bank.release t.order.accountId t.currency t.amount.toNat :=
  release_bank t.release (t.amount_le hs hb) hfit

/-- **Reserves back the open orders after a cancel.** -/
theorem backed : t.engine.Backed := by
  intro a c
  have hcommitted := t.committed_eq hs a c
  change t.released.bank.resv a c = _
  rw [(t.released_bank hs hb hfit).2, Accounts.resv_release, hb a c]
  omega

end CancelTrace

end MatchingEngine
