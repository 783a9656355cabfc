import MatchingEngine.Conservation
import MatchingEngine.Dirty

/-!
# Safety: the dead branches of the ledger are dead

In a reachable engine whose totals are words, the stages of a placed order
all return: each trade finds its price and quantity multiplying to a word and
both reserves it spends (`MatchTrace.trade_covered`), both releases at the end
succeed (`MatchTrace.completes`), and a cancel finds what it releases
(`cancel_completes`).
-/

namespace MatchingEngine

open RustArith HashModel Bank

/-! ## The stages of an order return -/

section Stages

variable {l : Ledger} {accountId : AccountId}

theorem releaseMarketSell_eq (b : Build) (req : OrderRequest) (rem : UInt64)
    (hfit : l.bank.avail accountId req.pair.base + l.bank.resv accountId req.pair.base
      < 2 ^ 64) : ∃ r, releaseMarketSell b l accountId req rem = .ok r := by
  unfold releaseMarketSell
  split
  · exact release_eq hfit
  · exact ⟨_, rfl⟩

end Stages

namespace MatchTrace

variable {b : Build} {o : Drains} {e : Engine} {accountId : AccountId} {req : OrderRequest}
  (t : MatchTrace b o e accountId req) (hs : e.Shape)

include hs

/-- The value of every trade is a word: each fill is bounded by its maker's
own placement check, whoever the taker is. -/
theorem cost_lt : ∀ trade ∈ t.matchResult.trades, trade.cost < 2 ^ 64 := by
  rw [t.trades_eq_fills hs]
  intro trade htrade
  obtain ⟨f, hf, rfl⟩ := List.mem_map.mp htrade
  have hfill := t.mem_fills hs hf
  exact fillTrade_cost_lt _ _ hfill.1 hfill.2.2.2.1

/-- No trade of a limit buy is above its limit. -/
theorem trade_price_le (hlimit : req.orderType = .limit) (hside : req.side = .bid) :
    ∀ trade ∈ t.matchResult.trades, trade.price ≤ req.price := by
  rw [t.trades_eq_fills hs]
  intro trade htrade
  obtain ⟨f, hf, rfl⟩ := List.mem_map.mp htrade
  exact UInt64.le_iff_toNat_le.mpr (t.price_le hs hlimit hside hf)

variable (hb : e.Backed) (htotal : ∀ c, e.ledger.bank.total c < 2 ^ 64)

include hb htotal

/-- Any number of the trades settle. -/
theorem settles {pre post : List Trade} (h : t.matchResult.trades = pre ++ post) :
    ∃ l, settleTrades b req.pair pre t.reserved = .ok l ∧
      l.bank = t.reserved.bank.transferAll (MatchingEngine.legs req.pair pre) ∧
      l.bank.Covers (MatchingEngine.legs req.pair post) := by
  have hcovers := t.covers hs hb (.inr htotal)
  rw [MatchTrace.legs, h, legs_append] at hcovers
  have hpre := hcovers.append_left
  have hreserved : ∀ c, t.reserved.bank.total c < 2 ^ 64 := by
    intro c
    rw [t.reserved_total (.inr htotal)]
    exact htotal c
  obtain ⟨l, hl⟩ := settleTrades_eq t.pair_valid b
    (fun trade htrade => t.cost_lt hs trade (h ▸ List.mem_append_left _ htrade)) hpre hreserved
  have hbank := settleTrades_bank t.pair_valid hl hpre (.inr hreserved)
  exact ⟨l, hl, hbank, hbank ▸ hcovers.append_right⟩

/-- **Every trade is covered** when its turn comes. -/
theorem trade_covered {pre post : List Trade} {trade : Trade}
    (h : t.matchResult.trades = pre ++ trade :: post) :
    ∃ l, settleTrades b req.pair pre t.reserved = .ok l ∧
      (∃ cost, checkedMul trade.price trade.qty = some cost ∧
        cost ≤ (l.balance trade.buyer req.pair.quote).reserved) ∧
      trade.qty ≤ (l.balance trade.seller req.pair.base).reserved := by
  obtain ⟨l, hl, _, hcovers⟩ := t.settles hs hb htotal h
  rw [legs_cons] at hcovers
  obtain ⟨hcost, hqty⟩ := (covers_legs t.pair_valid).mp hcovers.append_left
  have hword : trade.cost < 2 ^ 64 := t.cost_lt hs trade (h ▸ by simp)
  have hmul := checkedMul_eq hword
  refine ⟨l, hl, ⟨_, hmul, ?_⟩, UInt64.le_iff_toNat_le.mpr hqty⟩
  rw [UInt64.le_iff_toNat_le, checkedMul_some hmul]
  exact hcost

/-- **An order that was matched is settled and refunded**, and both releases
succeed. -/
theorem completes : ∃ p : PlaceTrace b o e accountId req, p.toMatchTrace = t ∧
    p.soldResult = .ok () ∧ p.refundedResult = .ok () := by
  obtain ⟨l, hl, hbank, _⟩ := t.settles hs hb htotal (List.append_nil _).symm
  have hltotal : ∀ c, l.bank.total c < 2 ^ 64 := by
    intro c
    rw [t.settled_total hs hb (.inr htotal) hl]
    exact htotal c
  have hback : req.givenBack t.fills t.left ≤ l.bank.resv accountId req.currency := by
    rw [t.settled_bank hs hb (.inr htotal) hl]
    exact t.givenBack_le hs hb (.inr htotal)
  obtain ⟨⟨l₁, r₁⟩, h₁⟩ := releaseMarketSell_eq b req t.matchResult.takerRemaining
    ((l.bank.held_le_total accountId req.pair.base).trans_lt (hltotal _))
  obtain ⟨_, hbank₁⟩ := t.sell_bank hs hback (.inr hltotal) h₁
  have hheld₁ : l₁.bank.avail accountId req.pair.quote
      + l₁.bank.resv accountId req.pair.quote < 2 ^ 64 := by
    refine (l₁.bank.held_le_total accountId req.pair.quote).trans_lt ?_
    rw [hbank₁]
    split
    · rw [Accounts.total_release _ hback]
      exact hltotal _
    · exact hltotal _
  have h₂ : ∃ r, releaseSurplus b l₁ accountId req t.matchResult.trades = .ok r := by
    unfold releaseSurplus
    split
    · rename_i hbuy
      obtain ⟨s, _, hsum⟩ := surplus_eq b (req.toOrder e.nextOrderId accountId)
        (fun f hf => t.price_le hs hbuy.2 hbuy.1 hf)
        (fun f hf => (t.mem_fills hs hf).2.2.2.1)
        (by have := t.fills_add_left; omega) (t.limit_value_lt hbuy.2)
      rw [← t.trades_eq_fills hs] at hsum
      obtain ⟨xs, hxs, hsum⟩ := bind_ok.mp hsum
      rw [hxs, ok_bind, hsum, ok_bind]
      split
      · exact release_eq hheld₁
      · exact ⟨_, rfl⟩
    · exact ⟨_, rfl⟩
  obtain ⟨⟨l₂, r₂⟩, h₂⟩ := h₂
  let p : PlaceTrace b o e accountId req := ⟨t, l, l₁, r₁, l₂, r₂, hl, h₁, h₂⟩
  have hp := p.refunded_bank hs hb (.inr htotal)
  exact ⟨p, rfl, hp.1, hp.2.1⟩

end MatchTrace

/-- **A cancel that found its order** releases what the order committed. -/
theorem cancel_completes {b : Build} {o : Drains} {e : Engine} {accountId : AccountId}
    {req : CancelRequest} {pair : Pair} {before book : OrderBook} {order : Order}
    {bookDeltas : List LevelDelta} (hs : e.Shape) (hb : e.Backed)
    (htotal : ∀ c, e.ledger.bank.total c < 2 ^ 64)
    (hroute : e.orderPair.lookup req.orderId = some pair)
    (hbook : e.books.lookup pair = some before)
    (hcancel : before.cancelOrder b o.levels accountId req.orderId
      = .ok (book, some (order, bookDeltas))) :
    ∃ t : CancelTrace b o e accountId req, t.pair = pair ∧ t.book = book ∧
      t.order = order ∧ t.bookDeltas = bookDeltas ∧ t.releasedResult = .ok () := by
  have hrefund : ∃ r, cancelRefund b pair order = .ok r := by
    unfold cancelRefund
    cases hside : order.side with
    | ask => exact ⟨_, rfl⟩
    | bid =>
        obtain ⟨side, price, pre, post, _, hqueue, _, _⟩ := cancelOrder_ok hcancel
        have hrests := ((book_of_lookup hbook ▸ hs.wf pair).side side).rests _
          (SortedMap.get?_eq_some.mp hqueue) order
          (List.mem_append_right _ List.mem_cons_self)
        have hvalue : order.remainingSize.toNat * order.price.toNat < 2 ^ 64 := by
          rw [Nat.mul_comm]
          exact (Nat.mul_le_mul_left _ (UInt64.le_iff_toNat_le.mp hrests.sized)).trans_lt
            hrests.value
        simp only [Build.mul_eq hvalue, ok_bind]
        exact ⟨_, rfl⟩
  obtain ⟨⟨currency, amount⟩, hrefund⟩ := hrefund
  obtain ⟨⟨l, r⟩, hrelease⟩ := release_eq (b := b) (x := amount)
    ((e.ledger.bank.held_le_total order.accountId currency).trans_lt (htotal currency))
  let t : CancelTrace b o e accountId req := ⟨pair, before, book, order, bookDeltas, currency,
    amount, l, r, hroute, hbook, hcancel, hrefund, hrelease⟩
  exact ⟨t, rfl, rfl, rfl, rfl, (t.released_bank hs hb (.inr htotal)).1⟩

/-! ## The whole statement -/

/-- The dead branches of the ledger are dead at the next command. -/
structure Engine.LedgerSafe (b : Build) (o : Drains) (e : Engine)
    (accountId : AccountId) : Prop where
  /-- every trade of a `Place` has a value that is a word, and finds in both
  reserves what it spends when its turn comes -/
  covered : ∀ (req : OrderRequest) (t : MatchTrace b o e accountId req) pre trade post,
    t.matchResult.trades = pre ++ trade :: post →
      ∃ l, settleTrades b req.pair pre t.reserved = .ok l ∧
        (∃ cost, checkedMul trade.price trade.qty = some cost ∧
          cost ≤ (l.balance trade.buyer req.pair.quote).reserved) ∧
        trade.qty ≤ (l.balance trade.seller req.pair.base).reserved
  /-- `req.price - t.price` of the surplus does not underflow -/
  improved : ∀ (req : OrderRequest) (t : MatchTrace b o e accountId req),
    req.side = .bid → req.orderType = .limit →
      ∀ trade ∈ t.matchResult.trades, trade.price ≤ req.price
  /-- both releases at the end of a `Place` return `Ok` -/
  refunds : ∀ (req : OrderRequest) (t : MatchTrace b o e accountId req),
    ∃ settled sold refunded,
      settleTrades b req.pair t.matchResult.trades t.reserved = .ok settled ∧
      releaseMarketSell b settled accountId req t.matchResult.takerRemaining
        = .ok (sold, .ok ()) ∧
      releaseSurplus b sold accountId req t.matchResult.trades = .ok (refunded, .ok ())
  /-- so does the release of a `Cancel` -/
  cancels : ∀ (req : CancelRequest) pair before book order bookDeltas,
    e.orderPair.lookup req.orderId = some pair → e.books.lookup pair = some before →
      before.cancelOrder b o.levels accountId req.orderId
        = .ok (book, some (order, bookDeltas)) →
      ∃ currency amount released, cancelRefund b pair order = .ok (currency, amount) ∧
        e.ledger.release b order.accountId currency amount = .ok (released, .ok ())
  /-- every key that is dirty when a command ends has an entry -/
  reported : ∀ command e' response events,
    Engine.dispatch b o e accountId command = .ok (e', response, events) →
      ∀ key ∈ e'.ledger.dirty,
        ∃ event, balanceEvent { e'.ledger with dirty := ∅ } key = .ok event

/-- **Settlement never underflows and its error branches are dead** in every
reachable engine whose net deposits are words; a release build needs them to
have been words all along. -/
theorem settlement_safe {b : Build} {limits : Limits} {h : List Record} {e : Engine}
    (hr : Reaches b limits h e) (hnow : ∀ c, netDeposits h c < 2 ^ 64)
    (hnet : b.Checks (NetBelow h)) (o : Drains) (accountId : AccountId) (dedup : Dedup) :
    (e.keyed dedup).LedgerSafe b o accountId := by
  have hacc := hr.accounted hnet
  have htotal := hacc.total_lt hnow
  have hs : (e.keyed dedup).Shape := hacc.shape.of_books rfl
  have hb : (e.keyed dedup).Backed := hacc.backed
  constructor
  case covered =>
    intro req t pre trade post hsplit
    exact t.trade_covered hs hb htotal hsplit
  case improved =>
    intro req t hside hlimit
    exact t.trade_price_le hs hlimit hside
  case refunds =>
    intro req t
    obtain ⟨p, hp, hsold, hrefunded⟩ := t.completes hs hb htotal
    subst hp
    exact ⟨p.settled, p.sold, p.refunded, p.settle, hsold ▸ p.sell, hrefunded ▸ p.refund⟩
  case cancels =>
    intro req pair before book order bookDeltas hroute hbook hcancel
    obtain ⟨t, hpair, _, horder, _, hres⟩ :=
      cancel_completes hs hb htotal hroute hbook hcancel
    subst hpair horder
    exact ⟨t.currency, t.amount, t.released, t.refund, hres ▸ t.release⟩
  case reported =>
    intro command e' response events hdispatch key hkey
    have hd : (e.keyed dedup).ledger.DirtyHas := hr.dirtyHas
    exact balanceEvent_eq (dispatch_dirtyHas hd hdispatch key hkey)

/-- At the end of the trading run every branch is dead. -/
theorem settlement_safe_trading :
    ((finish .default (runCalls .release .default tradingCalls)).1.keyed
      { seen := ∅, order := ∅ }).LedgerSafe .release .sorted 4 :=
  settlement_safe (reaches_runCalls tradingCalls_returned) tradingCalls_net.now
    (.inr tradingCalls_net) .sorted 4 { seen := ∅, order := ∅ }

/-! ## Net deposits that are words only at the end -/

/-- A run in which `2 ^ 64` units of SOL were deposited and all but ten
withdrawn again. In between, one trade credited an account past a word. -/
def overdrawnCalls : List (AccountId × UInt64 × Command) :=
  let market : Pair := { base := .SOL, quote := .USD }
  let half : UInt64 := UInt64.ofNat (2 ^ 63)
  [(9, 1, .listPair market),
    (1, 1, .deposit { amount := half, currency := .SOL }),
    (2, 1, .deposit { amount := half, currency := .SOL }),
    (1, 2, limitOrder market .ask 1 half),
    (2, 2, limitOrder market .ask 1 half),
    -- the walk over both asks sums to 0: nothing is reserved, ten units fill
    (3, 1, marketOrder market .bid 10),
    (1, 3, .cancel { orderId := 0 }),
    (2, 3, .cancel { orderId := 1 }),
    (1, 4, .withdraw { amount := half - 10, currency := .SOL }),
    (2, 4, .withdraw { amount := half, currency := .SOL }),
    (4, 1, .deposit { amount := 100, currency := .USD }),
    (4, 2, limitOrder market .bid 1 10),
    (3, 2, marketOrder market .ask 10),
    (3, 3, limitOrder market .bid 1 10)]

/-- The engine after that run. -/
def overdrawn : Engine := (finish .none (runCalls .release .none overdrawnCalls)).1

/-- The bid of account 3 is not backed: an ask that meets it settles by taking
ten from a reserve of nothing. -/
theorem overdrawn_unsafe :
    Reaches .release .none (finish .none (runCalls .release .none overdrawnCalls)).2
        overdrawn ∧
      (∀ c, netDeposits (finish .none (runCalls .release .none overdrawnCalls)).2 c
        < 2 ^ 64) ∧
      ¬ (overdrawn.keyed overdrawn.dedup).LedgerSafe .release .sorted 4 := by
  refine ⟨reaches_runCalls (by decide +kernel), fun c => by cases c <;> decide +kernel, ?_⟩
  intro hsafe
  let req : OrderRequest :=
    { pair := { base := .SOL, quote := .USD }, orderType := .limit, side := .ask,
      price := 1, size := 10 }
  obtain ⟨⟨l, r⟩, hreserve, hl⟩ := okWith_iff.mp
    (show okWith (reserveOrder .release overdrawn.ledger 4 req 10) (fun x =>
      x.2 = .ok () ∧ (x.1.balance 3 .USD).reserved = 0) = true by decide +kernel)
  obtain ⟨⟨book, m⟩, hmatched, hm⟩ := okWith_iff.mp
    (show okWith ((overdrawn.book req.pair).addOrder .release Drains.sorted.levels
      overdrawn.nextOrderId 4 req) (fun x => x.2.trades.map (fun trade =>
        (trade.buyer, trade.price, trade.qty)) = [(3, 1, 10)]) = true by decide +kernel)
  simp only [decide_eq_true_eq] at hl hm
  obtain ⟨rfl, hzero⟩ := hl
  let t : MatchTrace .release .sorted (overdrawn.keyed overdrawn.dedup) 4 req :=
    ⟨10, l, overdrawn.nextOrderId + 1, book, m, by decide +kernel, by decide +kernel, hreserve,
      rfl, hmatched⟩
  obtain ⟨trade, htrades, htrade⟩ := List.map_eq_singleton_iff.mp hm
  simp only [Prod.mk.injEq] at htrade
  obtain ⟨hbuyer, hprice, hqty⟩ := htrade
  obtain ⟨l', hl', ⟨cost, hcost, hle⟩, _⟩ := hsafe.covered req t [] trade [] htrades
  cases hl'
  rw [hprice, hqty] at hcost
  rw [hbuyer, show req.pair.quote = .USD from rfl, hzero] at hle
  cases hcost
  exact absurd hle (by decide)

end MatchingEngine
