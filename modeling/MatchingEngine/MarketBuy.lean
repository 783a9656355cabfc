import MatchingEngine.Overflow

/-!
# MarketBuy: the estimate of a market buy is exact

`market_buy_cost` takes the asks level by level, each at its price times what
it takes of the level's sum; `add_order` takes them order by order. While the
sums are words the two agree to the unit (`marketBuyCost_exact`). So a market
buy reserves what its trades are going to spend, and nothing of the reserve is
left or missing afterwards (`PlaceTrace.market_spends`).
-/

namespace MatchingEngine

open RustArith HashModel Bank

/-! ## The walk and the match -/

section Estimate

variable {b : Build} {e : Engine} {req : OrderRequest}

/-- **The estimate** is what the fills charge, and is refused only beyond a
word. -/
theorem marketBuyCost_exact (hs : e.Shape) (hb : e.Backed)
    (htotal : ∀ c, e.ledger.bank.total c < 2 ^ 64) (hmarket : req.orderType = .market)
    (hside : req.side = .bid) (orderId : UInt64) (accountId : AccountId) :
    ∃ q, (e.book req.pair).marketBuyCost b req.size = .ok q ∧
      match q with
      | .ok c => c.toNat = charge req ((e.book req.pair).fills orderId accountId req)
      | .error _ => 2 ^ 64 ≤ charge req ((e.book req.pair).fills orderId accountId req) := by
  have hasks : ∀ l ∈ (e.book req.pair).asks.entries, Greedy.total Order.units l.2 < 2 ^ 64 :=
    fun l hl => (ask_level_le_total hs hb req.pair hl).trans_lt (htotal _)
  have hprice : ∀ l ∈ (e.book req.pair).asks.entries, ∀ m ∈ l.2, m.price = l.1 :=
    fun l hl m hm => (((hs.wf req.pair).side .ask).rests l hl m hm).price
  obtain ⟨result, hwalk⟩ := walkAsks_returns (b := b) (.inr hasks) req.size 0
  have hexact := walkAsks_exact hprice (.inr hasks) hwalk
  rw [← charge_market hmarket hside (e.book req.pair) orderId accountId, UInt64.toNat_zero,
    Nat.zero_add] at hexact
  cases result with
  | none => exact ⟨_, bind_ok.mpr ⟨none, hwalk, rfl⟩, hexact⟩
  | some c => exact ⟨_, bind_ok.mpr ⟨some c, hwalk, rfl⟩, hexact⟩

/-- A market buy goes through `add_order`, and its trades cost what its fills
charge. -/
theorem market_trades (hwf : (e.book req.pair).WF) (hfit : b.Room (e.book req.pair).LevelsFit)
    (hmarket : req.orderType = .market) (hside : req.side = .bid)
    (o : DrainOrder (Side × UInt64)) (orderId : UInt64) (accountId : AccountId) :
    ∃ r, (e.book req.pair).addOrder b o orderId accountId req = .ok r ∧
      (r.2.trades.map Trade.cost).sum
        = charge req ((e.book req.pair).fills orderId accountId req) := by
  have hopp := hwf.side req.side.opposite
  have hstay : ¬ (e.book req.pair).Stays orderId accountId req := by
    rintro ⟨hlimit, _⟩
    rw [hmarket] at hlimit
    cases hlimit
  have hplaced : b.Room ((e.book req.pair).placed orderId accountId req).LevelsFit :=
    hfit.imp fun hfit => hfit.placed hwf (fun hlimit => by rw [hmarket] at hlimit; cases hlimit)
      hstay
  obtain ⟨r, hr⟩ := addOrder_returns hopp hplaced o
  refine ⟨r, hr, ?_⟩
  have htrades : r.2.trades = ((e.book req.pair).fills orderId accountId req).map
      (fillTrade req.pair (req.toOrder orderId accountId)) := by
    rw [addOrder_eq b o fun l hl m hm => (hopp.rests l hl m hm).sized] at hr
    obtain ⟨_, _, heq⟩ := bind_ok.mp hr
    rw [← Except.ok.inj heq]
    rfl
  rw [htrades]
  exact sum_cost_fills hside _ fun f hf => (mem_fills hopp hf).2.2.2.1

end Estimate

/-! ## The reserve is spent -/

/-- Who sells nothing is credited no quote. -/
theorem credits_quote {pair : Pair} (hpair : pair.base ≠ pair.quote) {a : AccountId}
    {ts : List Trade} (h : ∀ t ∈ ts, t.seller ≠ a) : credits (legs pair ts) a pair.quote = 0 := by
  induction ts with
  | nil => rfl
  | cons t ts ih =>
      have hne : ¬ (a = t.seller ∧ pair.quote = pair.quote) :=
        fun ha => h t List.mem_cons_self ha.1.symm
      have hbase : ¬ (a = t.buyer ∧ pair.quote = pair.base) := fun ha => hpair ha.2.symm
      rw [legs_cons, Trade.legs, List.cons_append, List.cons_append, List.nil_append,
        credits_cons, credits_cons, ih fun t' ht' => h t' (List.mem_cons_of_mem _ ht'),
        Transfer.credit, Transfer.credit, if_neg hne, if_neg hbase]

section Place

variable {b : Build} {o : Drains} {e : Engine} {accountId : AccountId} {req : OrderRequest}

/-- **A market buy spends its reserve**: nothing stays reserved for it, and what
is no longer available was paid. -/
theorem PlaceTrace.market_spends (t : PlaceTrace b o e accountId req) (hs : e.Shape)
    (hb : e.Backed) (hfit : e.Fits b) (hmarket : req.orderType = .market)
    (hside : req.side = .bid)
    (hothers : ∀ trade ∈ t.matchResult.trades, trade.makerAccount ≠ accountId) :
    t.refunded.bank.resv accountId req.pair.quote
        = e.ledger.bank.resv accountId req.pair.quote ∧
      t.refunded.bank.avail accountId req.pair.quote + charge req t.fills
        = e.ledger.bank.avail accountId req.pair.quote := by
  have hpair := t.pair_valid
  have hcurrency : req.currency = req.pair.quote := by rw [OrderRequest.currency, hside]
  have hback : req.givenBack t.fills t.left = 0 := by
    simp [OrderRequest.givenBack, hmarket, hside]
  have hkept : req.kept t.left = 0 := by simp [OrderRequest.kept, hmarket]
  -- the makers sell, so what they had committed is base
  have hmakers : (t.fills.map fun f =>
      Order.rate req.pair accountId req.pair.quote f.1 * f.2).sum = 0 := by
    refine List.sum_eq_zero fun x hx => ?_
    obtain ⟨f, hf, rfl⟩ := List.mem_map.mp hx
    have hask : f.1.side = .ask := by
      rw [(t.mem_fills hs hf).1.side, hside]
      rfl
    rw [Order.rate_ask hask, if_neg fun h => hpair h.2.symm, Nat.zero_mul]
  have hresv : t.refunded.bank.resv accountId req.pair.quote
      = e.ledger.bank.resv accountId req.pair.quote := by
    have hsettled := t.settled_resv hs hb hfit accountId req.pair.quote
    rw [hmakers, hback, hkept, ite_self, ← hb] at hsettled
    rw [(t.refunded_bank hs hb hfit).2.2, hback, Accounts.release_zero]
    exact hsettled
  refine ⟨hresv, ?_⟩
  have hsellers : ∀ trade ∈ t.matchResult.trades, trade.seller ≠ accountId := by
    intro trade htrade
    have htaker : trade.takerSide = .bid := by
      rw [t.trades_eq_fills hs] at htrade
      obtain ⟨f, _, rfl⟩ := List.mem_map.mp htrade
      exact hside
    rw [Trade.seller, htaker]
    exact hothers trade htrade
  have hheld := t.refunded_held hs hb hfit accountId req.pair.quote
  rw [t.debits_eq hs, hmakers, if_pos ⟨rfl, hcurrency.symm⟩, MatchTrace.legs,
    credits_quote hpair hsellers, hresv] at hheld
  omega

/-- The cost in the response is the cost of the trades. -/
theorem placeResponse_cost {m : MatchResponse} {p : PlaceOrderResponse}
    (h : placeResponse b m = .ok p) (hcost : ∀ t ∈ m.trades, t.cost < 2 ^ 64)
    (hsum : (m.trades.map Trade.cost).sum < 2 ^ 64) :
    p.totalCost.toNat = (m.trades.map Trade.cost).sum := by
  obtain ⟨hmul, hexact⟩ := tradeCosts (b := b) hcost
  obtain ⟨_, _, costs, hcosts, htotal⟩ := placeResponse_ok h
  rw [hmul] at hcosts
  cases hcosts
  rw [← hexact] at hsum ⊢
  exact Build.sum_toNat htotal (.inr hsum)

end Place

/-! ## Every run -/

/-- **The estimate of a market buy is exact** in every reachable engine whose
net deposits are words; a release build needs them to have been words all
along. It is given exactly when what the trades cost is a word, it is that
cost, and an account that is not its own maker has afterwards what it had,
less the cost in the response. -/
theorem market_buy_exact {b : Build} {limits : Limits} {h : List Record} {e : Engine}
    (hr : Reaches b limits h e) (hnow : ∀ c, netDeposits h c < 2 ^ 64)
    (hnet : b.Checks (NetBelow h)) (o : Drains) {req : OrderRequest}
    (hmarket : req.orderType = .market) (hside : req.side = .bid) (accountId : AccountId) :
    (∀ orderId, ∃ r q,
      (e.book req.pair).addOrder b o.levels orderId accountId req = .ok r ∧
      (e.book req.pair).marketBuyCost b req.size = .ok q ∧
      ((∃ c, q = .ok c) ↔ (r.2.trades.map Trade.cost).sum < 2 ^ 64) ∧
      ∀ c, q = .ok c → c.toNat = (r.2.trades.map Trade.cost).sum) ∧
    ∀ clientOrderId e' p batch,
      apply b o e accountId clientOrderId (.place req) = .ok (e', .place (.ok p), batch) →
      (∀ t ∈ batchTrades batch, t.makerAccount ≠ accountId) →
      (e'.ledger.balance accountId req.pair.quote).reserved
          = (e.ledger.balance accountId req.pair.quote).reserved ∧
        (e'.ledger.balance accountId req.pair.quote).available.toNat + p.totalCost.toNat
          = (e.ledger.balance accountId req.pair.quote).available.toNat := by
  have hacc := hr.accounted hnet
  have htotal := hacc.total_lt hnow
  have hfit : b.Room (e.book req.pair).LevelsFit := by
    cases b with
    | debug => exact .inr (hr.levelsFit req.pair)
    | release => exact .inl rfl
  constructor
  · intro orderId
    obtain ⟨q, hquote, hexact⟩ := marketBuyCost_exact (b := b) hacc.shape hacc.backed htotal
      hmarket hside orderId accountId
    obtain ⟨r, hadd, hcost⟩ := market_trades (hacc.shape.wf req.pair) hfit hmarket hside o.levels
      orderId accountId
    refine ⟨r, q, hadd, hquote, ?_⟩
    rw [hcost]
    cases q with
    | error reason =>
        exact ⟨⟨nofun, fun hlt => absurd hexact (Nat.not_le_of_lt hlt)⟩, nofun⟩
    | ok c =>
        refine ⟨⟨fun _ => ?_, fun _ => ⟨c, rfl⟩⟩, ?_⟩
        · rw [← hexact]
          exact toNat_lt c
        · rintro _ ⟨rfl⟩
          exact hexact
  · intro clientOrderId e' p batch happly hothers
    obtain ⟨dedup, n, t, _, hp, htrades, rfl⟩ := apply_accepted happly
    have hs : (e.keyed dedup).Shape := hacc.shape.of_books rfl
    have hb : (e.keyed dedup).Backed := hacc.backed
    have hfits : (e.keyed dedup).Fits b := .inr htotal
    rw [htrades] at hothers
    obtain ⟨hresv, havail⟩ := t.market_spends hs hb hfits hmarket hside hothers
    have hcharge : (t.matchResult.trades.map Trade.cost).sum = charge req t.fills := by
      rw [t.trades_eq_fills hs]
      exact sum_cost_fills hside _ fun f hf => (t.mem_fills hs hf).2.2.2.1
    have hword : charge req t.fills < 2 ^ 64 := by
      rw [← t.market_amount hs hb hfits hmarket hside]
      exact toNat_lt _
    have hcost := placeResponse_cost hp (t.cost_lt hs) (hcharge.trans_lt hword)
    refine ⟨UInt64.toNat_inj.mp hresv, ?_⟩
    rw [hcost, hcharge]
    exact havail

/-- A buy of 3 in the trading run, while the ask at 10 rests. -/
def buyThree : OrderRequest :=
  { pair := { base := .SOL, quote := .USD }, orderType := .market, side := .bid, price := 0,
    size := 3 }

/-- The estimate there is what `add_order` trades, and account 2 pays it. -/
theorem market_buy_exact_trading :
    let e := (finish .default (runCalls .release .default (tradingCalls.take 4))).1
    (∃ r q, (e.book buyThree.pair).addOrder .release Drains.sorted.levels 7 2 buyThree = .ok r ∧
      (e.book buyThree.pair).marketBuyCost .release 3 = .ok q ∧
      ((∃ c, q = .ok c) ↔ (r.2.trades.map Trade.cost).sum < 2 ^ 64) ∧
      ∀ c, q = .ok c → c.toNat = (r.2.trades.map Trade.cost).sum) ∧
    ∃ e' p batch, apply .release .sorted e 2 2 (.place buyThree) = .ok (e', .place (.ok p), batch) ∧
      (e'.ledger.balance 2 .USD).reserved = (e.ledger.balance 2 .USD).reserved ∧
      (e'.ledger.balance 2 .USD).available.toNat + p.totalCost.toNat
        = (e.ledger.balance 2 .USD).available.toNat := by
  intro e
  have hr : Reaches .release .default
      (finish .default (runCalls .release .default (tradingCalls.take 4))).2 e :=
    reaches_runCalls (by decide +kernel)
  have hnet : NetBelow (finish .default (runCalls .release .default (tradingCalls.take 4))).2 :=
    netBelow_of_deposits fun c => by cases c <;> decide +kernel
  obtain ⟨hestimate, hspends⟩ :=
    market_buy_exact hr hnet.now (.inr hnet) .sorted (show buyThree.orderType = .market from rfl)
      rfl 2
  refine ⟨hestimate 7, ?_⟩
  have hcall : okWith (apply .release .sorted e 2 2 (.place buyThree)) (fun r =>
      r.2.1.placed?.any fun _ => decide (∀ t ∈ batchTrades r.2.2, t.makerAccount ≠ 2)) = true := by
    decide +kernel
  obtain ⟨⟨e', response, batch⟩, happly, hanswer⟩ := okWith_iff.mp hcall
  cases response with
  | place answer =>
      cases answer with
      | ok p =>
          exact ⟨e', p, batch, happly, hspends 2 e' p batch happly (of_decide_eq_true hanswer)⟩
      | error reason => cases hanswer
  | _ => cases hanswer

/-! ## Net deposits that are words only at the end -/

/-- Two asks whose sum wraps give account 1 SOL that nobody had; against them
and a deposit of as much, two more asks wrap where the net deposits are words
again. -/
def wrappedAskCalls : List (AccountId × UInt64 × Command) :=
  let market : Pair := { base := .SOL, quote := .USD }
  let mirror : Pair := { base := .USD, quote := .SOL }
  let half : UInt64 := UInt64.ofNat (2 ^ 63)
  [(9, 1, .listPair market),
    (9, 2, .listPair mirror),
    (1, 1, .deposit { amount := half, currency := .USD }),
    (2, 1, .deposit { amount := half, currency := .USD }),
    (1, 2, limitOrder mirror .ask 1 half),
    (2, 2, limitOrder mirror .ask 1 half),
    -- the walk over both sums to 0: account 3 reserves nothing and pays account 1
    (3, 1, marketOrder mirror .bid half),
    (3, 2, .withdraw { amount := half, currency := .USD }),
    (1, 3, limitOrder market .ask 1 half),
    (4, 1, .deposit { amount := half, currency := .SOL }),
    (4, 2, limitOrder market .ask 1 half)]

/-- The engine after that run. -/
def wrappedAsks : Engine := (finish .none (runCalls .release .none wrappedAskCalls)).1

/-- Five units are estimated to cost nothing, and cost five. -/
theorem market_buy_estimated_zero :
    let market : Pair := { base := .SOL, quote := .USD }
    Reaches .release .none (finish .none (runCalls .release .none wrappedAskCalls)).2
        wrappedAsks ∧
      (∀ c, netDeposits (finish .none (runCalls .release .none wrappedAskCalls)).2 c
        < 2 ^ 64) ∧
      okWith ((wrappedAsks.book market).marketBuyCost .release 5) (fun q => q = .ok 0) = true ∧
      okWith ((wrappedAsks.book market).addOrder .release Drains.sorted.levels 9 5
          { pair := market, orderType := .market, side := .bid, price := 0, size := 5 })
        (fun r => (r.2.trades.map Trade.cost).sum = 5) = true :=
  ⟨reaches_runCalls (by decide +kernel), fun c => by cases c <;> decide +kernel,
    by decide +kernel, by decide +kernel⟩

end MatchingEngine
