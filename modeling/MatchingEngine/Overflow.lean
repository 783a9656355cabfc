import MatchingEngine.Builds
import MatchingEngine.Deltas
import MatchingEngine.Index

/-!
# Overflow: where the arithmetic of `apply` stays exact

Every sum of `apply` is backed by deposits, and those are bounded by the
ceiling, with one exception: a limit bid at price 0 is worth nothing, so no
reserve bounds its size, and the aggregate of its level can leave a word.
While that level has room (`ZeroRoom`) no operation overflows, and it is the
only way one can (`no_overflow`).
-/

namespace MatchingEngine

open RustArith HashModel Bank

/-- A limit bid at price 0 that is let through leaves the aggregate of its
level a word: what rests there, and what the asks at price 0 do not fill. -/
def ZeroRoom (e : Engine) (s : Submission) : Prop :=
  match s.command with
  | .place req =>
      (s.accountId, s.clientOrderId) ∉ e.dedup.seen → e.checkOrder s.accountId req = none →
        req.orderType = .limit → req.side = .bid → req.price = 0 →
        levelTotal ((e.book req.pair).queue .bid 0)
          + (req.size.toNat - levelTotal ((e.book req.pair).queue .ask 0)) < 2 ^ 64
  | _ => True

instance (e : Engine) (s : Submission) : Decidable (ZeroRoom e s) := by
  unfold ZeroRoom
  cases s.command <;> infer_instance

/-- Debug and release build return the same: no operation of the call had an
inexact result. -/
def Exact (o : Drains) (e : Engine) (accountId : AccountId) (clientOrderId : UInt64)
    (command : Command) : Prop :=
  ∃ r, apply .debug o e accountId clientOrderId command = .ok r ∧
    apply .release o e accountId clientOrderId command = .ok r

/-! ## The level at price 0 -/

section Level

variable {book : OrderBook} (orderId : UInt64) (accountId : AccountId) {req : OrderRequest}

/-- **A level after an order**: fills leave it, the remainder joins. -/
theorem placed_level (h : book.WF)
    (hvalue : req.orderType = .limit → req.price.toNat * req.size.toNat < 2 ^ 64)
    (s : Side) (price : UInt64) :
    levelTotal ((book.placed orderId accountId req).drained.queue s price)
        + ((book.fills orderId accountId req).map fun f => f.1.atLevel s price * f.2).sum
      = levelTotal (book.queue s price)
        + if book.Stays orderId accountId req then
            (book.taker orderId accountId req).atLevel s price
              * (book.taker orderId accountId req).units
          else 0 := by
  rw [levelTotal_queue (placed_wf h hvalue), levelTotal_queue h, drained_orders]
  exact placed_worth (Order.atLevel_unitwise s price)

/-- A limit bid at price 0 is filled by the asks at price 0. -/
theorem taker_units_zero (h : book.WF) (hlimit : req.orderType = .limit)
    (hside : req.side = .bid) (hprice : req.price = 0) :
    (book.taker orderId accountId req).units
      = req.size.toNat - levelTotal (book.queue .ask 0) := by
  let taker := req.toOrder orderId accountId
  have hcross : ∀ p, taker.crosses p = true ↔ p = 0 := by
    intro p
    simp [taker, OrderRequest.toOrder, Order.crosses, hlimit, hside, hprice]
  have hasks : bestFirst req.side (book.side req.side.opposite) = bestFirst .bid book.asks := by
    rw [hside]; rfl
  have hat : ∀ l ∈ bestFirst .bid book.asks, ∀ m ∈ l.2,
      m.atLevel .ask 0 = if taker.crosses l.1 then 1 else 0 := by
    intro l hl m hm
    have hrests := (h.side .ask).rests l (mem_bestFirst.mp hl) m hm
    simp only [Order.atLevel, hrests.side, hrests.price, hcross, true_and]
  have hreach : worth (Order.atLevel .ask 0) (reach taker.crosses (bestFirst .bid book.asks))
      = Greedy.total Order.units (reach taker.crosses (bestFirst .bid book.asks)) := by
    refine worth_eq_levelTotal fun m hm => ?_
    obtain ⟨l, hl, hc, hm⟩ := mem_reach hm
    rw [hat l hl m hm, if_pos hc]
  have hbeyond : worth (Order.atLevel .ask 0)
      (levelOrders (beyond taker.crosses (bestFirst .bid book.asks))) = 0 := by
    refine worth_eq_zero fun m hm => ?_
    obtain ⟨l, hl, hm⟩ := mem_levelOrders.mp hm
    have hc : taker.crosses l.1 = false :=
      not_crosses_of_beyond (o := taker) (by rw [show taker.side = .bid from hside]; exact hl)
    rw [hat l ((List.dropWhile_sublist _).subset hl) m hm, if_neg (by simp [hc])]
  have hbids : sideWorth (Order.atLevel .ask 0) book.bids = 0 := by
    refine worth_eq_zero fun m hm => ?_
    obtain ⟨l, hl, hm⟩ := mem_levelOrders.mp hm
    have hrests := (h.side .bid).rests l hl m hm
    simp [Order.atLevel, hrests.side]
  have hsplit := congrArg (worth (Order.atLevel .ask 0))
    (reach_append_beyond taker.crosses (bestFirst .bid book.asks))
  rw [worth_append, hreach, hbeyond, Nat.add_zero, sideWorth_bestFirst] at hsplit
  rw [taker_units, hasks, levelTotal_queue h, worth_orders _ _ .ask]
  change _ - Greedy.total Order.units (reach taker.crosses _) = _
  rw [hsplit]
  change _ = _ - (sideWorth _ book.asks + sideWorth _ book.bids)
  rw [hbids, Nat.add_zero]

/-- The bids at price 0 after an order: no more than what a limit bid at price
0 adds to them. -/
theorem placed_zero_le (h : book.WF)
    (hvalue : req.orderType = .limit → req.price.toNat * req.size.toNat < 2 ^ 64) :
    levelTotal ((book.placed orderId accountId req).drained.queue .bid 0)
      ≤ levelTotal (book.queue .bid 0)
        + if req.orderType = .limit ∧ req.side = .bid ∧ req.price = 0 then
            req.size.toNat - levelTotal (book.queue .ask 0)
          else 0 := by
  have hlevel := placed_level orderId accountId h hvalue .bid 0
  have hat : (book.taker orderId accountId req).atLevel .bid 0
      = if req.side = .bid ∧ req.price = 0 then 1 else 0 := by
    rw [Order.atLevel, taker_side, taker_price]
  by_cases hstay : book.Stays orderId accountId req
  · rw [if_pos hstay, hat] at hlevel
    by_cases hzero : req.side = .bid ∧ req.price = 0
    · rw [if_pos hzero, Nat.one_mul,
        taker_units_zero orderId accountId h hstay.1 hzero.1 hzero.2] at hlevel
      rw [if_pos ⟨hstay.1, hzero⟩]
      omega
    · rw [if_neg hzero, Nat.zero_mul] at hlevel
      omega
  · rw [if_neg hstay] at hlevel
    omega

/-- For a limit bid at price 0 it is exactly that: its makers are asks. -/
theorem placed_zero_eq (h : book.WF) (hlimit : req.orderType = .limit)
    (hside : req.side = .bid) (hprice : req.price = 0) :
    levelTotal ((book.placed orderId accountId req).drained.queue .bid 0)
      = levelTotal (book.queue .bid 0)
        + (req.size.toNat - levelTotal (book.queue .ask 0)) := by
  have hvalue : req.price.toNat * req.size.toNat < 2 ^ 64 := by simp [hprice]
  have hlevel := placed_level orderId accountId h
    (fun _ => hvalue) .bid 0
  have hfills : ((book.fills orderId accountId req).map fun f => f.1.atLevel .bid 0 * f.2).sum
      = 0 := by
    refine List.sum_eq_zero fun x hx => ?_
    obtain ⟨f, hf, rfl⟩ := List.mem_map.mp hx
    have hmaker : f.1.side = .ask := by
      rw [(mem_fills (h.side _) hf).1.side, hside]
      rfl
    simp [Order.atLevel, hmaker]
  have hunits := taker_units_zero orderId accountId h hlimit hside
    hprice
  rw [hfills, Nat.add_zero] at hlevel
  rw [hlevel, ← hunits]
  by_cases hstay : book.Stays orderId accountId req
  · rw [if_pos hstay, Order.atLevel, taker_side, taker_price, if_pos ⟨hside, hprice⟩,
      Nat.one_mul]
  · have hnone : (book.taker orderId accountId req).units = 0 := by
      by_contra hne
      exact hstay ⟨hlimit, Nat.pos_of_ne_zero hne⟩
    rw [if_neg hstay, hnone]

end Level

/-! ## Bounded engines -/

/-- What bounds the sums of the next command. -/
structure Engine.Bounded (e : Engine) : Prop where
  shape : e.Shape
  backed : e.Backed
  total : ∀ c, e.ledger.bank.total c < 2 ^ 64
  zero : ∀ pair, levelTotal ((e.book pair).queue .bid 0) < 2 ^ 64

/-- The aggregate of a bid level at a price is reserved. -/
theorem bid_level_le_total {e : Engine} (hs : e.Shape) (hb : e.Backed) (pair : Pair)
    {l : UInt64 × List Order} (hl : l ∈ (e.book pair).bids.entries) (hprice : l.1 ≠ 0) :
    Greedy.total Order.units l.2 ≤ e.ledger.bank.total pair.quote := by
  have hpos : 1 ≤ l.1.toNat := by
    rw [Nat.one_le_iff_ne_zero]
    exact fun hzero => hprice (UInt64.toNat_inj.mp hzero)
  have hunit : Greedy.total Order.units l.2 ≤ worth Order.unitWorth l.2 := by
    refine List.sum_le_sum fun m hm => ?_
    have hrests := ((hs.wf pair).side .bid).rests l hl m hm
    rw [Order.unitWorth, hrests.side]
    change m.units ≤ m.price.toNat * m.units
    rw [hrests.price]
    exact Nat.le_mul_of_pos_left _ hpos
  exact hunit.trans ((worth_level_le Order.unitWorth hl).trans
    (sideWorth_le_total hs hb pair .bid))

/-- **Every level is a word.** -/
theorem Engine.Bounded.levelsFit {e : Engine} (h : e.Bounded) (pair : Pair) :
    (e.book pair).LevelsFit := by
  intro s l hl
  cases s with
  | ask => exact (ask_level_le_total h.shape h.backed pair hl).trans_lt (h.total _)
  | bid =>
      by_cases hprice : l.1 = 0
      · have hqueue : (e.book pair).queue .bid 0 = l.2 := by
          have hget : ((e.book pair).side .bid).get? 0 = some l.2 :=
            SortedMap.get?_eq_some.mpr (hprice ▸ hl)
          rw [OrderBook.queue, hget]
          rfl
        have hzero := h.zero pair
        rwa [hqueue] at hzero
      · exact (bid_level_le_total h.shape h.backed pair hl hprice).trans_lt (h.total _)

theorem Engine.Bounded.keyed {e : Engine} (h : e.Bounded) (dedup : Dedup) :
    (e.keyed dedup).Bounded where
  shape := h.shape.of_books rfl
  backed := h.backed
  total := h.total
  zero := h.zero

/-- What `ZeroRoom` says of an order that is let through. -/
def RoomFor (e : Engine) (req : OrderRequest) : Prop :=
  req.orderType = .limit → req.side = .bid → req.price = 0 →
    levelTotal ((e.book req.pair).queue .bid 0)
      + (req.size.toNat - levelTotal ((e.book req.pair).queue .ask 0)) < 2 ^ 64

/-! ## Orders -/

section Place

variable {b : Build} {o : Drains} {e : Engine} {accountId : AccountId} {req : OrderRequest}

theorem PlaceTrace.bounded (t : PlaceTrace b o e accountId req) (h : e.Bounded)
    (hroom : RoomFor e req) : t.engine.Bounded where
  shape := t.engine_shape h.shape
  backed := t.backed h.shape h.backed (.inr h.total)
  total c := by
    have htotal : t.engine.ledger.bank.total c = _ :=
      t.refunded_total h.shape h.backed (.inr h.total) c
    rw [htotal]
    exact h.total c
  zero pair := by
    rw [book_insert rfl]
    split
    · have hle := placed_zero_le e.nextOrderId accountId
        (h.shape.wf req.pair) t.limit_value_lt
      rw [(t.book_eq h.shape).1]
      refine hle.trans_lt ?_
      split
      · rename_i hzero
        exact hroom hzero.1 hzero.2.1 hzero.2.2
      · exact h.zero req.pair
    · exact h.zero pair

theorem quoteAmount_returns (h : e.Bounded) (req : OrderRequest) :
    ∃ r, e.quoteAmount .debug req = .ok r := by
  unfold Engine.quoteAmount
  split
  · split
    · rename_i book hbook
      have hfit := h.levelsFit req.pair
      rw [book_of_lookup hbook] at hfit
      obtain ⟨cost, hcost⟩ := walkAsks_returns (b := .debug) (.inr (hfit .ask)) req.size 0
      cases cost with
      | none => exact ⟨_, bind_ok.mpr ⟨none, hcost, rfl⟩⟩
      | some cost => exact ⟨_, bind_ok.mpr ⟨some cost, hcost, rfl⟩⟩
    · exact ⟨_, rfl⟩
  · split
    · exact ⟨_, rfl⟩
    · exact ⟨_, rfl⟩

/-- The reserve of an order returns: what an account holds is a word. -/
theorem reserveOrder_returns (htotal : ∀ c, e.ledger.bank.total c < 2 ^ 64)
    (accountId : AccountId) (req : OrderRequest) (q : UInt64) :
    ∃ l r, reserveOrder b e.ledger accountId req q = .ok (l, r) ∧
      (r = .ok () ↔ (req.amount q).toNat ≤ e.ledger.bank.avail accountId req.currency) ∧
      (r ≠ .ok () → r = .error .insufficientFunds) := by
  have hheld := e.ledger.bank.held_le_total accountId req.currency
  have htotal := htotal req.currency
  obtain ⟨⟨l, r⟩, hreserve⟩ := reserve_eq (b := b) (x := req.amount q)
    (l := e.ledger) (a := accountId) (c := req.currency) (by omega)
  refine ⟨l, r, by rw [reserveOrder_eq]; exact hreserve, ?_⟩
  rcases reserve_ok hreserve with ⟨rfl, hlt, _⟩ | ⟨rfl, hle, _⟩
  · exact ⟨iff_of_false nofun (by omega), fun _ => rfl⟩
  · exact ⟨iff_of_true rfl hle, fun h => absurd rfl h⟩

/-- **An admitted order goes through in a debug build**, too: the release
build shows which book it leaves, and that book's levels are words. -/
theorem placeOrder_debug {q : UInt64} (h : e.Bounded)
    (hids : e.nextOrderId.toNat + 1 < 2 ^ 64) (hroom : RoomFor e req)
    (hcheck : e.checkOrder accountId req = none)
    (hquote : e.quoteAmount .debug req = .ok (.ok q))
    (havail : (req.amount q).toNat ≤ e.ledger.bank.avail accountId req.currency) :
    Nonempty (PlaceTrace .debug o e accountId req) := by
  obtain ⟨t, _⟩ := placeOrder_release (o := o) h.shape hcheck
    (quoteAmount_agrees e req _ hquote) havail
  have hfit : ((e.book req.pair).placed e.nextOrderId accountId req).LevelsFit := by
    have hbook : t.engine.book req.pair
        = ((e.book req.pair).placed e.nextOrderId accountId req).drained := by
      rw [book_insert rfl, if_pos rfl]
      exact (t.book_eq h.shape).1
    have hplaced := (t.bounded h hroom).levelsFit req.pair
    rw [hbook] at hplaced
    intro s l hl
    exact hplaced s l (by rwa [OrderBook.drained_side])
  obtain ⟨l, r, hreserve, hok, _⟩ := reserveOrder_returns (b := .debug) h.total accountId req q
  rw [hok.mpr havail] at hreserve
  obtain ⟨⟨book, m⟩, hmatched⟩ : ∃ r, (e.book req.pair).addOrder .debug o.levels e.nextOrderId
      accountId req = .ok r :=
    addOrder_returns ((h.shape.wf req.pair).side _) (.inr hfit) o.levels
  let d : MatchTrace .debug o e accountId req :=
    ⟨q, l, e.nextOrderId + 1, book, m, hcheck, hquote, hreserve, Build.add_eq hids, hmatched⟩
  obtain ⟨p, _⟩ := d.completes h.shape h.backed h.total
  exact ⟨p⟩

/-- The products of a response are what the trades cost. -/
theorem tradeCosts {ts : List Trade} (h : ∀ t ∈ ts, t.cost < 2 ^ 64) :
    (ts.mapM fun t => b.mul t.qty t.price) = .ok (ts.map fun t => t.qty * t.price) ∧
      exactSum (ts.map fun t => t.qty * t.price) = (ts.map Trade.cost).sum := by
  have hword : ∀ t ∈ ts, t.qty.toNat * t.price.toNat < 2 ^ 64 := fun t ht => by
    rw [Nat.mul_comm]
    exact h t ht
  refine ⟨mapM_eq fun t ht => Build.mul_eq (hword t ht), ?_⟩
  rw [exactSum, List.map_map]
  refine congrArg List.sum (List.map_congr_left fun t ht => ?_)
  rw [Trade.cost, Nat.mul_comm]
  exact toNat_mul_of_lt (hword t ht)

/-- The response of an accepted order: what its trades moved is a word. -/
theorem placeResponse_returns (t : PlaceTrace .debug o e accountId req) (h : e.Bounded) :
    ∃ p, placeResponse .debug t.matchResult = .ok p := by
  have hcovers := t.covers h.shape h.backed (.inr h.total)
  have hmoved : ∀ c, moved t.legs c < 2 ^ 64 := fun c => by
    refine (hcovers.moved_le_total c).trans_lt ?_
    rw [t.reserved_total (.inr h.total)]
    exact h.total c
  have hpair := t.pair_valid
  have hsums : ∀ ts : List Trade, moved (legs req.pair ts) req.pair.quote
      = (ts.map Trade.cost).sum ∧ moved (legs req.pair ts) req.pair.base
      = (ts.map fun tr => tr.qty.toNat).sum := by
    intro ts
    induction ts with
    | nil => exact ⟨rfl, rfl⟩
    | cons tr ts ih =>
        simp [legs_cons, Trade.legs, ih, hpair, hpair.symm]
  obtain ⟨hcost, hqty⟩ := hsums t.matchResult.trades
  have hqtys : exactSum (t.matchResult.trades.map Trade.qty) < 2 ^ 64 := by
    rw [exactSum, List.map_map]
    exact hqty ▸ hmoved req.pair.base
  obtain ⟨filledQty, hfilled, _⟩ := Build.sum_eq (b := .debug) hqtys
  obtain ⟨hmul, hexact⟩ := tradeCosts (b := .debug) (t.cost_lt h.shape)
  have hcosts : exactSum (t.matchResult.trades.map fun tr => tr.qty * tr.price) < 2 ^ 64 := by
    rw [hexact]
    exact hcost ▸ hmoved req.pair.quote
  obtain ⟨totalCost, htotal, _⟩ := Build.sum_eq (b := .debug) hcosts
  exact ⟨_, bind_ok.mpr ⟨filledQty, hfilled, bind_ok.mpr
    ⟨_, hmul, bind_ok.mpr ⟨totalCost, htotal, rfl⟩⟩⟩⟩

/-- **Every order is answered** by a debug build. -/
theorem place_returns (o : Drains) (accountId : AccountId) (h : e.Bounded)
    (hids : e.nextOrderId.toNat + 1 < 2 ^ 64)
    (hroom : e.checkOrder accountId req = none → RoomFor e req) :
    ∃ r, Engine.dispatch .debug o e accountId (.place req) = .ok r := by
  have hrefuse : ∀ e' reason, e.placeOrder .debug o accountId req = .ok (e', .error reason) →
      ∃ r, Engine.dispatch .debug o e accountId (.place req) = .ok r :=
    fun e' reason hplace => ⟨_, bind_ok.mpr ⟨_, hplace, rfl⟩⟩
  cases hcheck : e.checkOrder accountId req with
  | some reason =>
      refine hrefuse e reason ?_
      unfold Engine.placeOrder
      rw [hcheck]
      rfl
  | none =>
      obtain ⟨q, hquote⟩ := quoteAmount_returns h req
      cases q with
      | error reason =>
          refine hrefuse e reason ?_
          unfold Engine.placeOrder
          rw [hcheck]
          exact bind_ok.mpr ⟨_, hquote, rfl⟩
      | ok q =>
          by_cases havail :
              (req.amount q).toNat ≤ e.ledger.bank.avail accountId req.currency
          · obtain ⟨t⟩ := placeOrder_debug (o := o) h hids (hroom hcheck) hcheck hquote havail
            have hplace := t.placeOrder_eq
            rw [t.result_eq h.shape h.backed (.inr h.total)] at hplace
            obtain ⟨p, hp⟩ := placeResponse_returns t h
            exact ⟨_, bind_ok.mpr ⟨_, hplace, bind_ok.mpr ⟨p, hp, rfl⟩⟩⟩
          · obtain ⟨l, r, hreserve, hok, hrefused⟩ :=
              reserveOrder_returns (b := .debug) h.total accountId req q
            rw [hrefused (hok.not.mpr havail)] at hreserve
            refine hrefuse { e with ledger := l } .insufficientFunds ?_
            unfold Engine.placeOrder
            rw [hcheck]
            exact bind_ok.mpr ⟨_, hquote, bind_ok.mpr ⟨_, hreserve, rfl⟩⟩

/-- **The other way round**: a debug build that let an order through had room
for it. -/
theorem roomFor_of_placed {e' : Engine} {r : Except RejectReason MatchResponse}
    (h : e.Bounded) (hcheck : e.checkOrder accountId req = none)
    (hplace : e.placeOrder .debug o accountId req = .ok (e', r)) : RoomFor e req := by
  intro hlimit hside hprice
  have hzero : e.quoteAmount .release req = .ok (.ok 0) := by
    have hmul : checkedMul (0 : UInt64) req.size = some 0 := by
      rw [checkedMul_eq (by simp), UInt64.zero_mul]
    unfold Engine.quoteAmount
    rw [if_neg (by simp [hlimit]), hprice, hmul]
    rfl
  have hfree : (req.amount 0).toNat ≤ e.ledger.bank.avail accountId req.currency := by
    simp [OrderRequest.amount, hside]
  -- the release build lets it through, so the debug build did
  obtain ⟨t, _⟩ := placeOrder_release (o := o) h.shape hcheck hzero hfree
  have hrelease : e.placeOrder .release o accountId req = .ok (e', r) :=
    placeOrder_agrees h.shape o accountId req _ hplace
  rw [t.placeOrder_eq] at hrelease
  obtain ⟨hengine, _⟩ := Prod.mk.inj (Except.ok.inj hrelease)
  rcases placeOrder_ok hplace with ⟨_, l, _, rfl, _⟩ | ⟨d, rfl, _⟩
  · have hid : e.nextOrderId + 1 = e.nextOrderId :=
      (Build.add_ok t.numbered).symm.trans (congrArg Engine.nextOrderId hengine)
    exact absurd hid (by simp)
  · have hwf := h.shape.wf req.pair
    have hbook := (d.book_eq h.shape).1
    rw [← placed_zero_eq e.nextOrderId accountId hwf hlimit hside
      hprice, ← hbook]
    by_cases hdirty : (Side.bid, (0 : UInt64))
        ∈ ((e.book req.pair).placed e.nextOrderId accountId req).dirtyLevels
    · -- the aggregate was summed when the level was drained
      obtain ⟨delta, _, _, _, hqty⟩ := forall₂_mem_left (d.book_eq h.shape).2.2
        ((o.levels.mem_toList _ _).mpr hdirty)
      unfold OrderBook.levelQty at hqty
      rw [OrderBook.queue]
      split at hqty
      · rename_i queue hqueue
        have hsum := Build.sum_toNat hqty (.inl rfl)
        rw [exactSum_units, total_units] at hsum
        rw [hqueue, Option.getD_some, ← hsum]
        exact toNat_lt _
      · rename_i hnone
        rw [hnone]
        decide
    · have hframe := placed_frame hwf hdirty
      rw [hbook, OrderBook.queue, OrderBook.drained_side, hframe]
      exact h.zero req.pair

end Place

/-! ## The other commands -/

section Command

variable {o : Drains} {e : Engine} {accountId : AccountId}

theorem cancel_returns {b : Build} (o : Drains) (accountId : AccountId) (req : CancelRequest)
    (hs : e.Shape) (hb : e.Backed) (htotal : ∀ c, e.ledger.bank.total c < 2 ^ 64)
    (hfit : ∀ pair, b.Room (e.book pair).LevelsFit) :
    ∃ r, Engine.dispatch b o e accountId (.cancel req) = .ok r := by
  have hnone : e.cancelOrder b o accountId req = .ok (e, none) →
      ∃ r, Engine.dispatch b o e accountId (.cancel req) = .ok r :=
    fun hcancel => ⟨_, bind_ok.mpr ⟨_, hcancel, rfl⟩⟩
  cases hroute : e.orderPair.lookup req.orderId with
  | none =>
      refine hnone ?_
      unfold Engine.cancelOrder
      rw [hroute]
      rfl
  | some pair =>
      cases hbook : e.books.lookup pair with
      | none =>
          refine hnone ?_
          unfold Engine.cancelOrder
          rw [hroute]
          dsimp only
          rw [hbook]
          rfl
      | some before =>
          have hfit := hfit pair
          rw [book_of_lookup hbook] at hfit
          obtain ⟨⟨book, out⟩, hcancel⟩ := cancelOrder_returns hfit o.levels accountId req.orderId
          cases out with
          | none =>
              refine hnone ?_
              unfold Engine.cancelOrder
              rw [hroute]
              dsimp only
              rw [hbook]
              exact bind_ok.mpr ⟨_, hcancel, rfl⟩
          | some out =>
              obtain ⟨t, _, _, _, _, _⟩ := cancel_completes hs hb htotal hroute hbook hcancel
              obtain ⟨side, price, pre, post, _, hqueue, _, _⟩ := t.book_eq
              have hsized : t.order.remainingSize ≤ t.order.size :=
                (((hs.wf t.pair).side side).rests _ (SortedMap.get?_eq_some.mp hqueue)
                  t.order (List.mem_append_right _ List.mem_cons_self)).sized
              exact ⟨_, bind_ok.mpr ⟨_, t.cancelOrder_eq,
                bind_ok.mpr ⟨_, Build.sub_eq hsized, rfl⟩⟩⟩

theorem deposit_returns (accountId : AccountId) (req : DepositRequest) (h : e.Bounded) :
    ∃ r, e.deposit .debug accountId req = .ok r := by
  have hheld := (e.ledger.bank.held_le_total accountId req.currency).trans_lt
    (h.total req.currency)
  obtain ⟨held, hheld'⟩ := held_eq (b := .debug) hheld
  have hexact := held_toNat hheld' (.inl rfl)
  unfold Engine.deposit
  rw [hheld', ok_bind]
  split
  · exact ⟨_, rfl⟩
  · rename_i after hafter
    split
    · exact ⟨_, rfl⟩
    · have hsum := checkedAdd_some hafter
      have hlt := toNat_lt after
      obtain ⟨r, hr⟩ := deposit_eq (b := .debug) (l := e.ledger) (a := accountId)
        (c := req.currency) (x := req.amount) (by omega)
      exact ⟨_, bind_ok.mpr ⟨r, hr, rfl⟩⟩

theorem dispatch_returns (o : Drains) (accountId : AccountId) (command : Command)
    (h : e.Bounded) (hids : e.nextOrderId.toNat + 1 < 2 ^ 64)
    (hroom : ∀ req, command = .place req → e.checkOrder accountId req = none → RoomFor e req) :
    ∃ r, Engine.dispatch .debug o e accountId command = .ok r := by
  cases command with
  | place req => exact place_returns o accountId h hids (hroom req rfl)
  | cancel req =>
      exact cancel_returns o accountId req h.shape h.backed h.total fun pair =>
        .inr (h.levelsFit pair)
  | deposit req =>
      obtain ⟨r, hr⟩ := deposit_returns accountId req h
      exact ⟨_, bind_ok.mpr ⟨r, hr, rfl⟩⟩
  | withdraw req =>
      obtain ⟨r, hr⟩ := withdraw_eq .debug e.ledger accountId req.currency req.amount
      exact ⟨_, bind_ok.mpr ⟨r, hr, rfl⟩⟩
  | listPair pair =>
      rw [Engine.dispatch]
      split
      · exact ⟨_, rfl⟩
      · exact ⟨_, rfl⟩
  | delistPair pair => exact ⟨_, rfl⟩

/-- **One call** is exact if and only if there is room for it. -/
theorem apply_exact_iff {clientOrderId : UInt64} {command : Command} (h : e.Bounded)
    (hd : e.ledger.DirtyHas) (hids : e.nextOrderId.toNat + 1 < 2 ^ 64)
    (hseq : e.nextSeq.toNat + 1 < 2 ^ 64) :
    Exact o e accountId clientOrderId command
      ↔ ZeroRoom e ⟨accountId, clientOrderId, command, o⟩ := by
  by_cases hkey : (accountId, clientOrderId) ∈ e.dedup.seen
  · -- a duplicate is answered before anything is computed
    have hdup : ∀ b, apply b o e accountId clientOrderId command
        = .ok (e, .duplicate, none) := by
      intro b
      unfold apply Dedup.insert
      rw [if_pos hkey]
      rfl
    refine iff_of_true ⟨_, hdup .debug, hdup .release⟩ ?_
    unfold ZeroRoom
    split
    · exact fun hfresh => absurd hkey hfresh
    · trivial
  · obtain ⟨dedup, hdedup, _⟩ := Dedup.insert_fresh hkey
    have hk := h.keyed dedup
    constructor
    · rintro ⟨r, hdebug, _⟩
      unfold ZeroRoom
      split
      · rename_i req hcommand
        intro _ hcheck
        rw [show command = .place req from hcommand] at hdebug
        obtain ⟨⟨d, fresh⟩, hinsert, hdebug⟩ := bind_ok.mp hdebug
        rw [hdedup] at hinsert
        cases hinsert
        obtain ⟨_, hdispatch, _⟩ := bind_ok.mp hdebug
        obtain ⟨_, hplace, _⟩ := bind_ok.mp hdispatch
        exact roomFor_of_placed (e := e.keyed dedup) hk hcheck hplace
      · trivial
    · intro hroom
      obtain ⟨⟨e₁, response, events⟩, hdispatch⟩ := dispatch_returns o accountId command hk hids
        fun req hcommand hcheck => by
          subst hcommand
          exact hroom hkey hcheck
      have hseq₁ : e₁.nextSeq = e.nextSeq := (dispatch_frame hdispatch).2.1
      obtain ⟨nextSeq, batch, happly⟩ := apply_eq (b := .debug) hdedup hdispatch
        (dispatch_dirtyHas (e := e.keyed dedup) hd hdispatch) (.inr (by rw [hseq₁]; exact hseq))
      exact ⟨_, happly, apply_agrees h.shape o accountId clientOrderId command _ happly⟩

/-- The bids at price 0 after a cancel: no more than before. -/
theorem CancelTrace.zero_le {b : Build} {req : CancelRequest}
    (t : CancelTrace b o e accountId req) (h : e.Bounded) (pair : Pair) :
    levelTotal ((t.engine.book pair).queue .bid 0) < 2 ^ 64 := by
  rw [book_insert rfl]
  split
  · obtain ⟨side, price, pre, post, _, hqueue, _, hbook, _⟩ := t.book_eq
    have hwf := h.shape.wf t.pair
    have hold := h.zero t.pair
    have hremoved := removed_worth req.orderId (Order.atLevel .bid 0) hqueue
    rw [levelTotal_queue hwf] at hold
    rw [hbook, levelTotal_queue (removed_wf hwf hqueue), drained_orders]
    omega
  · exact h.zero pair

/-- **One call** keeps the bids at price 0 a word. -/
theorem apply_zero {b : Build} {e' : Engine} {clientOrderId : UInt64} {command : Command}
    {response : CommandResponse} {batch : Option EventBatch} (h : e.Bounded)
    (hroom : ZeroRoom e ⟨accountId, clientOrderId, command, o⟩)
    (happly : apply b o e accountId clientOrderId command = .ok (e', response, batch))
    (pair : Pair) : levelTotal ((e'.book pair).queue .bid 0) < 2 ^ 64 := by
  rcases apply_ok happly with ⟨rfl, _⟩ | ⟨dedup, e₁, _, _, hdedup, hdispatch, _, hend⟩
  · exact h.zero pair
  · have hk := h.keyed dedup
    have hzero : levelTotal ((e₁.book pair).queue .bid 0) < 2 ^ 64 := by
      rcases dispatch_books (e := e.keyed dedup) hdispatch with
        ⟨hsame, _, _⟩ | ⟨req, rfl, t, rfl, _⟩ | ⟨req, rfl, t, _, rfl, _⟩
      · rw [Engine.book, hsame.books]
        exact h.zero pair
      · have hkey : (accountId, clientOrderId) ∉ e.dedup.seen := by
          intro hin
          unfold Dedup.insert at hdedup
          rw [if_pos hin] at hdedup
          cases hdedup
        exact (t.bounded hk (hroom hkey t.checked)).zero pair
      · exact t.zero_le hk pair
    rcases hend with ⟨_, _, rfl⟩ | ⟨_, _, _, _, rfl⟩
    · exact hzero
    · exact hzero

end Command

/-! ## The levels of a debug run -/

theorem OrderBook.levelsFit_iff {book : OrderBook} :
    book.LevelsFit ↔ ∀ s price, levelTotal (book.queue s price) < 2 ^ 64 := by
  constructor
  · intro hfit s price
    rw [OrderBook.queue]
    cases hget : (book.side s).get? price with
    | none => decide
    | some queue => exact hfit s _ (SortedMap.get?_eq_some.mp hget)
  · intro hfit s l hl
    have hget : (book.side s).get? l.1 = some l.2 := SortedMap.get?_eq_some.mpr hl
    have hlevel := hfit s l.1
    rwa [OrderBook.queue, hget] at hlevel

/-- An order that does not rest adds to no level. -/
theorem OrderBook.LevelsFit.placed {book : OrderBook} {orderId : UInt64}
    {accountId : AccountId} {req : OrderRequest} (hfit : book.LevelsFit) (hwf : book.WF)
    (hvalue : req.orderType = .limit → req.price.toNat * req.size.toNat < 2 ^ 64)
    (hstay : ¬ book.Stays orderId accountId req) :
    (book.placed orderId accountId req).LevelsFit := by
  rw [OrderBook.levelsFit_iff] at hfit ⊢
  intro s price
  have hlevel := placed_level orderId accountId hwf hvalue s price
  rw [if_neg hstay, OrderBook.queue, OrderBook.drained_side] at hlevel
  have hold := hfit s price
  rw [OrderBook.queue]
  omega

/-- A level that changed was summed, and a debug build returned the sum. -/
theorem Reported.levelsFit {e e' : Engine} {deltas : List (Pair × LevelDelta)}
    (h : Reported .debug e e' deltas) (hfit : ∀ pair, (e.book pair).LevelsFit) (pair : Pair) :
    (e'.book pair).LevelsFit := by
  intro s l hl
  have hget : ((e'.book pair).side s).get? l.1 = some l.2 := SortedMap.get?_eq_some.mpr hl
  by_cases hdelta : ∃ qty, (pair, s, l.1, qty) ∈ deltas
  · obtain ⟨qty, hin⟩ := hdelta
    have hqty := h.value pair s l.1 qty hin
    unfold OrderBook.levelQty at hqty
    rw [hget] at hqty
    have hsum := Build.sum_toNat hqty (.inl rfl)
    rw [exactSum_units] at hsum
    rw [← hsum]
    exact toNat_lt qty
  · rw [h.frame pair s l.1 fun qty hin => hdelta ⟨qty, hin⟩] at hget
    exact hfit pair s l (SortedMap.get?_eq_some.mp hget)

/-- **Every level of a debug run is a word.** -/
theorem Reaches.levelsFit {limits : Limits} {h : List Record} {e : Engine}
    (hr : Reaches .debug limits h e) (pair : Pair) : (e.book pair).LevelsFit := by
  have hboth : Accounted h e ∧ ∀ pair, (e.book pair).LevelsFit := by
    refine hr.invariant (motive := fun h e => Accounted h e ∧ ∀ pair, (e.book pair).LevelsFit)
      ⟨Accounted.new limits, fun pair s l hl => ?_⟩ ?_
    · cases s <;> cases hl
    · intro h e o a cid cmd e' response batch ⟨hacc, hfit⟩ happly
      exact ⟨hacc.step (apply_shape hacc.shape happly)
          (apply_moved hacc.shape hacc.backed (.inl rfl) happly),
        (apply_reported hacc.shape hacc.backed (.inl rfl) happly).levelsFit hfit⟩
  exact hboth.2 pair

/-! ## Every run -/

section Runs

variable {b : Build} {limits : Limits} {h : List Record} {e : Engine}

/-- One deposit stays within the ceiling. -/
theorem apply_deposited {o : Drains} {e' : Engine} {accountId : AccountId}
    {clientOrderId : UInt64} {command : Command} {response : CommandResponse}
    {batch : Option EventBatch}
    (happly : apply b o e accountId clientOrderId command = .ok (e', response, batch))
    (c : Currency) :
    depositedBy command response c ≤ (e.limits.depositCeiling c).toNat := by
  unfold depositedBy
  split
  · rename_i req y
    rcases apply_ok happly with ⟨_, habsurd, _⟩ | ⟨dedup, e₁, _, _, _, hdispatch, _⟩
    · cases habsurd
    · obtain ⟨r, hdeposit, hr, _⟩ := dispatch_ok hdispatch
      rcases engineDeposit_ok hdeposit with ⟨_, rfl, _⟩ | ⟨held, _, _, _, _, hle, _⟩
      · cases hr
      · split
        · rename_i hc
          subst hc
          exact (Nat.le_add_left _ _).trans hle
        · exact Nat.zero_le _
  · exact Nat.zero_le _

/-- The deposits of a run, under a ceiling. -/
theorem Reaches.deposits_le {ceiling : ℕ}
    (hceiling : ∀ c, (limits.depositCeiling c).toNat ≤ ceiling) (hr : Reaches b limits h e)
    (c : Currency) : deposits h c ≤ ceiling * h.length := by
  have hboth : e.limits = limits ∧ deposits h c ≤ ceiling * h.length := by
    refine hr.invariant
      (motive := fun h e => e.limits = limits ∧ deposits h c ≤ ceiling * h.length)
      ⟨rfl, Nat.zero_le _⟩ ?_
    intro h e o a cid cmd e' response batch ih happly
    have hone := apply_deposited happly c
    rw [ih.1] at hone
    refine ⟨(apply_limits happly).trans ih.1, ?_⟩
    have hlast : deposits [⟨a, cid, cmd, response, batch⟩] c = depositedBy cmd response c := by
      simp [deposits, Record.deposited]
    have hle := hceiling c
    rw [deposits_append, hlast, List.length_append, List.length_singleton, Nat.mul_add]
    omega
  exact hboth.2

theorem Reaches.nextSeq_le (hr : Reaches b limits h e) : e.nextSeq.toNat ≤ h.length := by
  refine hr.invariant (motive := fun h e => e.nextSeq.toNat ≤ h.length) (Nat.zero_le _) ?_
  intro h e o a cid cmd e' response batch ih happly
  rw [List.length_append, List.length_singleton]
  rcases apply_numbered happly with ⟨_, hseq⟩ | ⟨_, _, hseq⟩
  · rw [hseq]
    omega
  · rw [Build.add_ok hseq, UInt64.toNat_add]
    have : e.nextSeq.toNat + (1 : UInt64).toNat ≤ h.length + 1 := Nat.add_le_add_right ih 1
    exact (Nat.mod_le _ _).trans this

/-- The default ceilings keep the deposits of any conceivable run words. -/
theorem Reaches.netBelow_default (hr : Reaches b .default h e) (hlen : h.length < 10 ^ 12) :
    NetBelow h := by
  refine netBelow_of_deposits fun c => ?_
  have hceiling : ∀ c, (Limits.default.depositCeiling c).toNat ≤ 10 ^ 5 := by
    intro c
    cases c <;> decide
  have hdep := hr.deposits_le hceiling c
  omega

theorem Reaches.bounded (hr : Reaches b .default h e) (hlen : h.length < 10 ^ 12)
    (hzero : ∀ pair, levelTotal ((e.book pair).queue .bid 0) < 2 ^ 64) : e.Bounded := by
  have hnet := hr.netBelow_default hlen
  have hacc := hr.accounted (.inr hnet)
  exact ⟨hacc.shape, hacc.backed, hacc.total_lt hnet.now, hzero⟩

theorem ReachesAlong.bounded (hr : ReachesAlong b .default ZeroRoom h e)
    (hlen : h.length < 10 ^ 12) : e.Bounded := by
  refine hr.reaches.bounded hlen ?_
  refine hr.invariant (motive := fun h e => h.length < 10 ^ 12 →
    ∀ pair, levelTotal ((e.book pair).queue .bid 0) < 2 ^ 64) (fun _ pair => ?_) ?_ hlen
  · have hqueue : ((Engine.new .default).book pair).queue .bid 0 = [] := rfl
    rw [hqueue]
    decide
  · intro h e o a cid cmd e' response batch hr ih hroom happly hlen
    have hlen : h.length < 10 ^ 12 := by
      rw [List.length_append] at hlen
      omega
    exact apply_zero (hr.bounded hlen (ih hlen)) hroom happly

/-- **No overflow but at price 0**: after any run of fewer than `10 ^ 12`
calls that each had room, under the default limits, the next call is exact in
both builds if and only if it has room. -/
theorem no_overflow (hr : ReachesAlong b .default ZeroRoom h e) (hlen : h.length < 10 ^ 12)
    (o : Drains) (accountId : AccountId) (clientOrderId : UInt64) (command : Command) :
    Exact o e accountId clientOrderId command
      ↔ ZeroRoom e ⟨accountId, clientOrderId, command, o⟩ := by
  have hcount : places h ≤ h.length := List.countP_le_length
  have hids := (hr.reaches.indexed (.inr (by omega))).2
  have hseq := hr.reaches.nextSeq_le
  exact apply_exact_iff (hr.bounded hlen) hr.reaches.dirtyHas (by omega) (by omega)

end Runs

/-- Every call of the trading run had room, and any one more that has is
exact. -/
theorem no_overflow_trading :
    Exact .sorted (finish .default (runCalls .release .default tradingCalls)).1 2 3
      (limitOrder { base := .SOL, quote := .USD } .bid 0 (UInt64.ofNat (2 ^ 64 - 1))) :=
  (no_overflow (reachesAlong_runCalls (fun _ _ h => of_decide_eq_true h) tradingCalls_returned
    (by decide +kernel)) (by decide +kernel) _ _ _ _).mpr (by decide +kernel)

/-- A market with one bid at price 0 and of the greatest size. -/
def zeroBidCalls : List (AccountId × UInt64 × Command) :=
  [(9, 1, .listPair { base := .SOL, quote := .USD }),
    (1, 1, limitOrder { base := .SOL, quote := .USD } .bid 0 (UInt64.ofNat (2 ^ 64 - 1)))]

/-- A second one overflows: a debug build panics, a release build reports the
wrapped aggregate. -/
theorem zeroBids_overflow :
    let e := (finish .default (runCalls .release .default zeroBidCalls)).1
    let h := (finish .default (runCalls .release .default zeroBidCalls)).2
    let bid := limitOrder { base := .SOL, quote := .USD } .bid 0 (UInt64.ofNat (2 ^ 64 - 1))
    Reaches .release .default h e ∧ h.length < 10 ^ 12 ∧
      okWith (apply .debug .sorted e 2 1 bid) (fun _ => true) = false ∧
      okWith (apply .release .sorted e 2 1 bid) (fun r => (batchDeltas r.2.2).map (fun d => d.2)
        = [(.bid, 0, UInt64.ofNat (2 ^ 64 - 2))]) = true ∧
      ¬ Exact .sorted e 2 1 bid := by
  intro e h bid
  have hpanics : okWith (apply .debug .sorted e 2 1 bid) (fun _ => true) = false := by
    decide +kernel
  refine ⟨reaches_runCalls (by decide +kernel), by decide +kernel, hpanics, by decide +kernel, ?_⟩
  rintro ⟨r, hdebug, _⟩
  rw [hdebug] at hpanics
  cases hpanics

end MatchingEngine
