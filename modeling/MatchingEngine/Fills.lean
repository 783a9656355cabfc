import Mathlib.Algebra.BigOperators.Ring.List
import Mathlib.Algebra.Ring.Nat
import MatchingEngine.EngineBooks

/-!
# Fills: what an incoming order trades

The fills of an order on a well-formed book (`mem_fills`), their quantities
(`fills_sum`), and their legs: per account and currency, a fill debits the
maker what its units had committed and the taker its charge
(`debits_fills`).
-/

namespace MatchingEngine

open RustArith HashModel Bank

/-- What fills charge the taker: the cost of a bid, the quantity of an ask. -/
def charge (req : OrderRequest) (fs : List (Order × ℕ)) : ℕ :=
  (fs.map fun f =>
    match req.side with
    | .bid => f.1.price.toNat * f.2
    | .ask => f.2).sum

section Fills

variable {book : OrderBook} {orderId : UInt64} {accountId : AccountId} {req : OrderRequest}

theorem mem_fills (h : SideWF req.side.opposite (book.side req.side.opposite))
    {f : Order × ℕ} (hf : f ∈ book.fills orderId accountId req) :
    f.1.Rests req.side.opposite f.1.price ∧
      (req.toOrder orderId accountId).crosses f.1.price = true ∧
      0 < f.2 ∧ f.2 ≤ f.1.units ∧ f.2 ≤ req.size.toNat ∧ f.1 ∈ book.orders := by
  rw [OrderBook.fills_eq] at hf
  obtain ⟨hm, hle, hsize⟩ := Greedy.mem_walk Order.units hf
  obtain ⟨l, hl, hc, hml⟩ := mem_reach hm
  have hrests := h.rests l (mem_bestFirst.mp hl) f.1 hml
  have hpos : 0 < f.2 := by
    refine Greedy.walk_pos Order.units (fun m hm => ?_) hf
    obtain ⟨l, hl, _, hml⟩ := mem_reach hm
    exact (h.rests l (mem_bestFirst.mp hl) m hml).pos
  refine ⟨hrests.price ▸ hrests, hrests.price ▸ hc, hpos, hle, hsize, ?_⟩
  exact mem_orders.mpr ⟨_, l, mem_bestFirst.mp hl, hml⟩

/-- Fills and remainder make up the size. -/
theorem fills_sum (book : OrderBook) (orderId : UInt64) (accountId : AccountId)
    (req : OrderRequest) :
    ((book.fills orderId accountId req).map Prod.snd).sum
      + (book.taker orderId accountId req).units = req.size.toNat := by
  rw [OrderBook.fills_eq, Greedy.sum_walk, taker_units]
  omega

theorem fill_le_of_bid (h : SideWF .ask book.asks) (hlimit : req.orderType = .limit)
    (hside : req.side = .bid) {f : Order × ℕ} (hf : f ∈ book.fills orderId accountId req) :
    f.1.price.toNat ≤ req.price.toNat := by
  have hwf : SideWF req.side.opposite (book.side req.side.opposite) := by
    rw [hside]; exact h
  have hc := (mem_fills hwf hf).2.1
  simp only [OrderRequest.toOrder, Order.crosses, hlimit, hside, decide_eq_true_eq] at hc
  exact UInt64.le_iff_toNat_le.mp hc

end Fills

/-! ## Trades of fills -/

section Trades

variable {f : Order × ℕ}

theorem fillTrade_qty (pair : Pair) (taker : Order) (h : f.2 ≤ f.1.units) :
    (fillTrade pair taker f).qty.toNat = f.2 :=
  toNat_ofNat_of_le h

theorem fillTrade_cost (pair : Pair) (taker : Order) (h : f.2 ≤ f.1.units) :
    (fillTrade pair taker f).cost = f.1.price.toNat * f.2 := by
  rw [Trade.cost, fillTrade_qty pair taker h]; rfl

/-- The value of a fill is bounded by its maker's own placement check. -/
theorem fillTrade_cost_lt (pair : Pair) (taker : Order) {s : Side} {p : UInt64} (hm : f.1.Rests s p)
    (h : f.2 ≤ f.1.units) : (fillTrade pair taker f).cost < 2 ^ 64 := by
  rw [fillTrade_cost pair taker h]
  have hsize : f.2 ≤ f.1.size.toNat := h.trans (UInt64.le_iff_toNat_le.mp hm.sized)
  exact (Nat.mul_le_mul_left _ hsize).trans_lt hm.value

/-- **The debits of one fill**: the maker's committed units, the taker's
charge. -/
theorem debits_fill {req : OrderRequest} {taker : Order} (hm : f.1.side = req.side.opposite)
    (hside : taker.side = req.side) (h : f.2 ≤ f.1.units) (a : AccountId) (c : Currency) :
    debits ((fillTrade req.pair taker f).legs req.pair) a c
      = Order.rate req.pair a c f.1 * f.2
        + if a = taker.accountId ∧ c = req.currency then charge req [f] else 0 := by
  have hcost := fillTrade_cost req.pair taker h
  have hqty := fillTrade_qty req.pair taker h
  have htaker : (fillTrade req.pair taker f).takerSide = req.side := hside
  simp only [Trade.legs, debits_cons, debits_nil, Transfer.debit, hcost, hqty, Trade.buyer,
    Trade.seller, htaker]
  cases hs : req.side with
  | bid =>
      have hcur : req.currency = req.pair.quote := by rw [OrderRequest.currency, hs]
      have hcharge : charge req [f] = f.1.price.toNat * f.2 := by simp [charge, hs]
      have hrate : Order.rate req.pair a c f.1 * f.2
          = if a = f.1.accountId ∧ c = req.pair.base then f.2 else 0 := by
        rw [Order.rate_ask (by rw [hm, hs]; rfl)]
        split
        · exact Nat.one_mul _
        · exact Nat.zero_mul _
      rw [hcur, hcharge, hrate]
      exact Nat.add_comm _ _
  | ask =>
      have hcur : req.currency = req.pair.base := by rw [OrderRequest.currency, hs]
      have hcharge : charge req [f] = f.2 := by simp [charge, hs]
      have hrate : Order.rate req.pair a c f.1 * f.2
          = if a = f.1.accountId ∧ c = req.pair.quote then f.1.price.toNat * f.2 else 0 := by
        rw [Order.rate_bid (by rw [hm, hs]; rfl)]
        split
        · rfl
        · exact Nat.zero_mul _
      rw [hcur, hcharge, hrate]
      rfl

/-- **The debits of the fills.** -/
theorem debits_fills {req : OrderRequest} (taker : Order) (hside : taker.side = req.side)
    {fs : List (Order × ℕ)}
    (hfs : ∀ f ∈ fs, f.1.side = req.side.opposite ∧ f.2 ≤ f.1.units)
    (a : AccountId) (c : Currency) :
    debits (legs req.pair (fs.map (fillTrade req.pair taker))) a c
      = (fs.map fun f => Order.rate req.pair a c f.1 * f.2).sum
        + if a = taker.accountId ∧ c = req.currency then charge req fs else 0 := by
  induction fs with
  | nil => simp [charge]
  | cons f fs ih =>
      obtain ⟨hm, hle⟩ := hfs f List.mem_cons_self
      have hcharge : charge req (f :: fs) = charge req [f] + charge req fs := by
        simp [charge]
      rw [List.map_cons, legs_cons, debits_append, debits_fill hm hside hle,
        ih fun f' hf' => hfs f' (List.mem_cons_of_mem _ hf'), List.map_cons,
        List.sum_cons, hcharge]
      split <;> omega

end Trades

/-! ## The cost of a market buy -/

/-- What a demand of `r` pays on some levels, each order at its own price. -/
def walkCost (r : ℕ) (orders : List Order) : ℕ :=
  ((Greedy.walk Order.units r orders).map fun f => f.1.price.toNat * f.2).sum

theorem walkCost_append (r : ℕ) (os os' : List Order) :
    walkCost r (os ++ os')
      = walkCost r os + walkCost (r - Greedy.total Order.units os) os' := by
  simp [walkCost, Greedy.walk_append]

/-- On one level every unit costs the level's price. -/
theorem walkCost_level {p : UInt64} {queue : List Order} (h : ∀ m ∈ queue, m.price = p)
    (r : ℕ) : walkCost r queue = p.toNat * min r (Greedy.total Order.units queue) := by
  have hlevel : walkCost r queue
      = ((Greedy.walk Order.units r queue).map fun f => p.toNat * f.2).sum := by
    refine congrArg List.sum (List.map_congr_left fun f hf => ?_)
    rw [h f.1 (Greedy.mem_walk Order.units hf).1]
  rw [hlevel, List.sum_map_mul_left, Greedy.sum_walk]

theorem exactSum_units (queue : List Order) :
    exactSum (queue.map Order.remainingSize) = Greedy.total Order.units queue := by
  simp only [exactSum, Greedy.total, List.map_map]
  rfl

/-- **The walked cost is exact** when every level's aggregate is a word: what
`market_buy_cost` returns is what the fills of the walk cost, and it refuses
only what they cost beyond a word. -/
theorem walkAsks_exact {b : Build} {levels : List (UInt64 × List Order)} :
    ∀ {remaining cost : UInt64} {result : Option UInt64},
    (∀ l ∈ levels, ∀ m ∈ l.2, m.price = l.1) →
    b.Checks (∀ l ∈ levels, Greedy.total Order.units l.2 < 2 ^ 64) →
    walkAsks b levels remaining cost = .ok result →
    match result with
    | some total => total.toNat = cost.toNat + walkCost remaining.toNat (levelOrders levels)
    | none => 2 ^ 64 ≤ cost.toNat + walkCost remaining.toNat (levelOrders levels) := by
  induction levels with
  | nil =>
      intro remaining cost result _ _ h
      cases h
      simp [walkCost]
  | cons l levels ih =>
      obtain ⟨p, queue⟩ := l
      intro remaining cost result hprice hfit h
      unfold walkAsks at h
      split at h
      · rename_i hzero
        cases h
        simp [hzero, walkCost]
      · obtain ⟨levelQty, hsum, h⟩ := bind_ok.mp h
        have hqty : levelQty.toNat = Greedy.total Order.units queue := by
          rw [← exactSum_units]
          refine Build.sum_toNat hsum (hfit.imp fun hall => ?_)
          rw [exactSum_units]
          exact hall _ List.mem_cons_self
        have hmin : (min remaining levelQty).toNat
            = min remaining.toNat (Greedy.total Order.units queue) := by
          rw [← hqty]
          rcases le_total remaining levelQty with hle | hle
          · rw [min_eq_left hle, min_eq_left (UInt64.le_iff_toNat_le.mp hle)]
          · rw [min_eq_right hle, min_eq_right (UInt64.le_iff_toNat_le.mp hle)]
        have hlevel : ∀ m ∈ queue, m.price = p := hprice _ List.mem_cons_self
        have hsplit := walkCost_append remaining.toNat queue (levelOrders levels)
        rw [walkCost_level hlevel, ← hmin] at hsplit
        rw [levelOrders_cons, hsplit]
        dsimp only at h
        split at h
        · -- this level alone costs more than a word
          rename_i hmul
          cases h
          have hover := checkedMul_none hmul
          change 2 ^ 64 ≤ _
          omega
        · rename_i levelCost hmul
          have hcost := checkedMul_some hmul
          split at h
          · rename_i hadd
            cases h
            have hover := checkedAdd_none hadd
            change 2 ^ 64 ≤ _
            omega
          · rename_i cost' hadd
            obtain ⟨remaining', hsub, h⟩ := bind_ok.mp h
            have hrest := (Build.sub_toNat hsub (.inr (min_le_left _ _))).2
            have hdemand : remaining'.toNat
                = remaining.toNat - Greedy.total Order.units queue := by
              rw [hrest, hmin]
              omega
            have htail := ih (fun l hl => hprice l (List.mem_cons_of_mem _ hl))
              (hfit.imp fun hall l hl => hall l (List.mem_cons_of_mem _ hl)) h
            rwa [checkedAdd_some hadd, hcost, hdemand, Nat.add_assoc] at htail

/-- What is not refused. -/
theorem walkAsks_toNat {b : Build} {levels : List (UInt64 × List Order)}
    {remaining cost result : UInt64} (hprice : ∀ l ∈ levels, ∀ m ∈ l.2, m.price = l.1)
    (hfit : b.Checks (∀ l ∈ levels, Greedy.total Order.units l.2 < 2 ^ 64))
    (h : walkAsks b levels remaining cost = .ok (some result)) :
    result.toNat = cost.toNat + walkCost remaining.toNat (levelOrders levels) :=
  walkAsks_exact hprice hfit h

/-- What the fills of a market buy charge is the walk over the asks. -/
theorem charge_market {req : OrderRequest} (hmarket : req.orderType = .market)
    (hside : req.side = .bid) (book : OrderBook) (orderId : UInt64) (accountId : AccountId) :
    charge req (book.fills orderId accountId req)
      = walkCost req.size.toNat (levelOrders book.asks.entries) := by
  have hreach : ∀ levels, reach (req.toOrder orderId accountId).crosses levels
      = levelOrders levels := by
    intro levels
    have hall : ∀ p, (req.toOrder orderId accountId).crosses p = true := by
      intro p
      simp [OrderRequest.toOrder, Order.crosses, hmarket]
    have htake : levels.takeWhile (fun _ => true) = levels :=
      List.takeWhile_eq_self_iff.mpr fun _ _ => rfl
    simp only [reach, hall, htake, levelOrders]
  unfold charge walkCost
  rw [OrderBook.fills_eq, hreach]
  simp only [hside]
  rfl

/-- The trades of a buy cost what its fills charge. -/
theorem sum_cost_fills {req : OrderRequest} (hside : req.side = .bid) (taker : Order)
    {fs : List (Order × ℕ)} (hfs : ∀ f ∈ fs, f.2 ≤ f.1.units) :
    ((fs.map (fillTrade req.pair taker)).map Trade.cost).sum = charge req fs := by
  unfold charge
  rw [List.map_map]
  refine congrArg List.sum (List.map_congr_left fun f hf => ?_)
  rw [hside]
  exact fillTrade_cost req.pair taker (hfs f hf)

end MatchingEngine
