import MatchingEngine.Returns
import MatchingEngine.Conservation

/-!
# MarketPrice: the price field of a market order

A market order has no limit: the price band, the self-trade guard, the crossing
test and the resting path all pass its price over, so it comes out of
`add_order` and of the settlement the same at any price
(`matchAndSettle_priced`). One place reads the price: the product with the size
that `place_order` computes for every order but a market bid. The price of a
market ask therefore matters where that product leaves a word
(`market_price_iff`).
-/

namespace MatchingEngine

open RustArith HashModel

/-- The same request at another price. -/
def OrderRequest.priced (req : OrderRequest) (price : UInt64) : OrderRequest :=
  { req with price := price }

/-- An event without the price an acceptance echoes. -/
def Event.unpriced : Event → Event
  | .orderAccepted orderId accountId pair side orderType _ size =>
      .orderAccepted orderId accountId pair side orderType 0 size
  | event => event

/-- A batch without the prices its orders were asked at. -/
def EventBatch.unpriced (batch : EventBatch) : EventBatch :=
  { batch with events := batch.events.map Event.unpriced }

/-- What `apply` returned, the echoed price left out. -/
def unpriced (r : Engine × CommandResponse × Option EventBatch) :
    Engine × CommandResponse × Option EventBatch :=
  (r.1, r.2.1, r.2.2.map EventBatch.unpriced)

/-! ## The book -/

section Book

variable {book : OrderBook} {orderId : UInt64} {accountId : AccountId} {req : OrderRequest}
  (hmarket : req.orderType = .market) (price : UInt64)

include hmarket

/-- A market order crosses every price. -/
theorem crosses_market (orderId : UInt64) (accountId : AccountId) :
    (req.toOrder orderId accountId).crosses = fun _ => true := by
  funext p
  simp [OrderRequest.toOrder, Order.crosses, hmarket]

theorem fills_priced : book.fills orderId accountId (req.priced price)
    = book.fills orderId accountId req := by
  rw [OrderBook.fills_eq, OrderBook.fills_eq, crosses_market hmarket,
    @crosses_market (req.priced price) hmarket]
  rfl

theorem taker_priced : book.taker orderId accountId (req.priced price)
    = { book.taker orderId accountId req with price := price } := by
  obtain ⟨rem, hrem⟩ := taker_eq book orderId accountId req
  obtain ⟨rem', hrem'⟩ := taker_eq book orderId accountId (req.priced price)
  have hunits := taker_units book orderId accountId req
  have hunits' := taker_units book orderId accountId (req.priced price)
  rw [crosses_market hmarket, hrem] at hunits
  rw [@crosses_market (req.priced price) hmarket, hrem'] at hunits'
  have hsame : rem' = rem := UInt64.toNat_inj.mp (hunits'.trans hunits.symm)
  rw [hrem, hrem', hsame]
  rfl

theorem not_stays_market : ¬ book.Stays orderId accountId req := by
  rintro ⟨hlimit, _⟩
  rw [hmarket] at hlimit
  cases hlimit

theorem placed_priced : book.placed orderId accountId (req.priced price)
    = book.placed orderId accountId req := by
  have hbook : (recordAll req.pair (book.start orderId accountId (req.priced price))
        (book.fills orderId accountId req)).book
      = (recordAll req.pair (book.start orderId accountId req)
        (book.fills orderId accountId req)).book := recordAll_book req.pair _ rfl
  have hmatched : book.matchedBook orderId accountId (req.priced price)
      = ((recordAll req.pair (book.start orderId accountId (req.priced price))
          (book.fills orderId accountId (req.priced price))).book.setSide
            req.side.opposite (book.swept orderId accountId (req.priced price))) := rfl
  have hswept : book.swept orderId accountId (req.priced price)
      = book.swept orderId accountId req := by
    rw [OrderBook.swept, OrderBook.swept, crosses_market hmarket,
      @crosses_market (req.priced price) hmarket]
    rfl
  rw [placed_eq_of_not_stays _ _ _ _ (not_stays_market hmarket),
    placed_eq_of_not_stays _ _ _ _
      (@not_stays_market book orderId accountId (req.priced price) hmarket),
    hmatched, fills_priced hmarket, hswept, hbook]
  rfl

/-- **`add_order` passes the price over.** -/
theorem addOrder_priced (b : Build) (o : DrainOrder (Side × UInt64))
    (hs : SideWF req.side.opposite (book.side req.side.opposite)) :
    book.addOrder b o orderId accountId (req.priced price)
      = book.addOrder b o orderId accountId req := by
  have hresponse : ∀ deltas, book.response orderId accountId (req.priced price) deltas
      = book.response orderId accountId req deltas := by
    intro deltas
    rw [OrderBook.response, OrderBook.response, fills_priced hmarket, taker_priced hmarket]
    rfl
  have hsized : ∀ l ∈ (book.side req.side.opposite).entries, ∀ m ∈ l.2, m.Sized :=
    fun l hl m hm => (hs.rests l hl m hm).sized
  have hplain : book.addOrder b o orderId accountId req = _ := addOrder_eq b o hsized
  have hpriced : book.addOrder b o orderId accountId (req.priced price) = _ :=
    addOrder_eq b o hsized
  rw [hplain, hpriced, placed_priced hmarket]
  simp only [hresponse]

end Book

/-! ## The engine -/

section Engine

variable {b : Build} {o : Drains} {e : Engine} {accountId : AccountId} {req : OrderRequest}
  (hmarket : req.orderType = .market) (price : UInt64)

include hmarket

theorem checkOrder_priced (e : Engine) (accountId : AccountId) :
    e.checkOrder accountId (req.priced price) = e.checkOrder accountId req := by
  have hguard : ∀ book : OrderBook, book.wouldSelfTrade accountId (req.priced price)
      = book.wouldSelfTrade accountId req := by
    intro book
    simp [OrderBook.wouldSelfTrade, OrderRequest.priced, hmarket]
  unfold Engine.checkOrder
  simp only [hguard]
  simp only [OrderRequest.priced, hmarket]

/-- **From the reserve on** a market order goes the same way at any price. -/
theorem matchAndSettle_priced (hs : e.Shape) :
    e.matchAndSettle b o accountId (req.priced price) = e.matchAndSettle b o accountId req := by
  have hadd : (e.book req.pair).addOrder b o.levels e.nextOrderId accountId (req.priced price)
      = (e.book req.pair).addOrder b o.levels e.nextOrderId accountId req :=
    addOrder_priced hmarket price b o.levels ((hs.wf req.pair).side _)
  have hsurplus : ∀ (req : OrderRequest) l ts, req.orderType = .market →
      releaseSurplus b l accountId req ts = .ok (l, .ok ()) := by
    intro req l ts hmarket
    simp [releaseSurplus, hmarket, pure_eq_ok]
  unfold Engine.matchAndSettle
  simp only [hsurplus req _ _ hmarket, hsurplus (req.priced price) _ _ hmarket]
  rw [show (req.priced price).pair = req.pair from rfl, hadd]
  rfl

/-- A market order that was matched is accepted. -/
theorem matchAndSettle_market {e' : Engine} {r : Except RejectReason MatchResponse}
    (h : e.matchAndSettle b o accountId req = .ok (e', r)) : ∃ m, r = .ok m := by
  unfold Engine.matchAndSettle at h
  obtain ⟨_, _, h⟩ := bind_ok.mp h
  obtain ⟨⟨_, m⟩, _, h⟩ := bind_ok.mp h
  obtain ⟨_, _, h⟩ := bind_ok.mp h
  obtain ⟨_, _, h⟩ := bind_ok.mp h
  obtain ⟨⟨l, refunded⟩, hrefund, h⟩ := bind_ok.mp h
  simp only [releaseSurplus, hmarket, reduceCtorEq, and_false, if_false, pure_ok,
    Prod.mk.injEq] at hrefund
  obtain ⟨_, rfl⟩ := hrefund
  cases h
  exact ⟨m, rfl⟩

omit hmarket in
/-- What a market ask has to multiply. -/
theorem quoteAmount_ask (b : Build) (e : Engine) (hside : req.side = .ask) (price : UInt64) :
    e.quoteAmount b (req.priced price)
      = if price.toNat * req.size.toNat < 2 ^ 64 then .ok (.ok (price * req.size))
        else .ok (.error .invalidAmount) := by
  unfold Engine.quoteAmount
  have hproduct : checkedMul (req.priced price).price (req.priced price).size
      = checkedMul price req.size := rfl
  rw [if_neg (by simp [OrderRequest.priced, hside])]
  by_cases hfit : price.toNat * req.size.toNat < 2 ^ 64
  · rw [hproduct, checkedMul_eq hfit, if_pos hfit]
    rfl
  · rw [hproduct, show checkedMul price req.size = none from if_neg hfit, if_neg hfit]
    rfl

/-- **`place_order` passes the price of a market order over** if it is a bid, or
both products are words, or neither is. -/
theorem placeOrder_priced (hs : e.Shape) {price' : UInt64}
    (h : e.checkOrder accountId req ≠ none ∨ req.side = .bid ∨
      (price.toNat * req.size.toNat < 2 ^ 64 ↔ price'.toNat * req.size.toNat < 2 ^ 64)) :
    e.placeOrder b o accountId (req.priced price)
      = e.placeOrder b o accountId (req.priced price') := by
  have hsettle : ∀ l, Engine.matchAndSettle b o { e with ledger := l } accountId
      (req.priced price)
      = Engine.matchAndSettle b o { e with ledger := l } accountId (req.priced price') := by
    intro l
    have hs' : ({ e with ledger := l } : Engine).Shape := hs.of_books rfl
    rw [matchAndSettle_priced hmarket price hs', matchAndSettle_priced hmarket price' hs']
  unfold Engine.placeOrder
  rw [checkOrder_priced hmarket, checkOrder_priced hmarket]
  cases hcheck : e.checkOrder accountId req with
  | some reason => rfl
  | none =>
      have hreserve : ∀ l q, reserveOrder b l accountId (req.priced price) q
          = reserveOrder b l accountId (req.priced price') q := fun _ _ => rfl
      dsimp only
      rcases h with habsurd | hbid | hsame
      · exact absurd hcheck habsurd
      · have hquote : e.quoteAmount b (req.priced price) = e.quoteAmount b (req.priced price') := by
          have hcase : ∀ p, (req.priced p).orderType = .market ∧ (req.priced p).side = .bid :=
            fun _ => ⟨hmarket, hbid⟩
          rw [Engine.quoteAmount, Engine.quoteAmount, if_pos (hcase _), if_pos (hcase _)]
          rfl
        simp only [hquote, hreserve, hsettle]
      · cases hside : req.side with
        | bid =>
            have hcase : ∀ p, (req.priced p).orderType = .market ∧ (req.priced p).side = .bid :=
              fun _ => ⟨hmarket, hside⟩
            have hquote : e.quoteAmount b (req.priced price)
                = e.quoteAmount b (req.priced price') := by
              rw [Engine.quoteAmount, Engine.quoteAmount, if_pos (hcase _), if_pos (hcase _)]
              rfl
            simp only [hquote, hreserve, hsettle]
        | ask =>
            -- an ask reserves its size, whatever the product is
            have hask : ∀ p l q q', reserveOrder b l accountId (req.priced p) q
                = reserveOrder b l accountId (req.priced price') q' := by
              intro p l q q'
              simp [reserveOrder, OrderRequest.priced, hside]
            rw [quoteAmount_ask b e hside, quoteAmount_ask b e hside]
            by_cases hfit : price.toNat * req.size.toNat < 2 ^ 64
            · rw [if_pos hfit, if_pos (hsame.mp hfit), ok_bind, ok_bind]
              dsimp only
              rw [hask price e.ledger _ (price' * req.size)]
              simp only [hsettle]
            · rw [if_neg hfit, if_neg fun h' => hfit (hsame.mpr h')]
              rfl

end Engine

/-! ## `apply` -/

/-- The end of `apply`: the dirty entries are reported, and a batch that says
anything is numbered. -/
def report (b : Build) (o : Drains) (r : Engine × CommandResponse × List Event) :
    Exec (Engine × CommandResponse × Option EventBatch) := do
  let (e, response, events) := r
  let (l, dirty) := e.ledger.takeDirty o.dirty
  let e := { e with ledger := l }
  let balanceEvents ← dirty.mapM (balanceEvent l)
  let events := events ++ balanceEvents
  if events.isEmpty then pure (e, response, none)
  else do
    let seq := e.nextSeq
    let nextSeq ← b.add e.nextSeq 1
    pure ({ e with nextSeq := nextSeq }, response, some { seq := seq, events := events })

/-- What a command did, the echoed price left out. -/
def dispatched (r : Engine × CommandResponse × List Event) :
    Engine × CommandResponse × List Event :=
  (r.1, r.2.1, r.2.2.map Event.unpriced)

section Apply

variable {b : Build} {o : Drains} {e : Engine} {accountId : AccountId} {clientOrderId : UInt64}
  {req : OrderRequest} {price price' : UInt64}

/-- A command under a new key is dispatched and reported. -/
theorem apply_fresh {dedup : Dedup} {command : Command}
    (hdedup : e.dedup.insert accountId clientOrderId = .ok (dedup, true)) :
    apply b o e accountId clientOrderId command
      = Engine.dispatch b o (e.keyed dedup) accountId command >>= report b o := by
  unfold apply
  rw [hdedup, ok_bind]
  rfl

/-- A command under a known key is not looked at. -/
theorem apply_duplicate {dedup : Dedup} {command : Command}
    (hdedup : e.dedup.insert accountId clientOrderId = .ok (dedup, false)) :
    apply b o e accountId clientOrderId command = .ok (e, .duplicate, none) := by
  unfold apply
  rw [hdedup, ok_bind]
  rfl

/-- The report passes the echoed price over. -/
theorem report_unpriced {r r' : Engine × CommandResponse × List Event}
    (h : dispatched r = dispatched r') :
    (report b o r).map unpriced = (report b o r').map unpriced := by
  obtain ⟨e₁, response, events⟩ := r
  obtain ⟨e₁', response', events'⟩ := r'
  simp only [dispatched, Prod.mk.injEq] at h
  obtain ⟨rfl, rfl, hevents⟩ := h
  have hlen : events.length = events'.length := by
    simpa using congrArg List.length hevents
  unfold report
  dsimp only
  cases hbal : (e₁.ledger.takeDirty o.dirty).2.mapM
      (balanceEvent (e₁.ledger.takeDirty o.dirty).1) with
  | error panic => rfl
  | ok bevs =>
      have hempty : (events ++ bevs).isEmpty = (events' ++ bevs).isEmpty := by
        rw [Bool.eq_iff_iff, List.isEmpty_iff_length_eq_zero, List.isEmpty_iff_length_eq_zero,
          List.length_append, List.length_append, hlen]
      rw [ok_bind, ok_bind, hempty]
      split
      · rfl
      · cases b.add e₁.nextSeq 1 with
        | error panic => rfl
        | ok nextSeq =>
            rw [ok_bind, ok_bind, pure_eq_ok, pure_eq_ok]
            simp only [Except.map, unpriced, Option.map_some, EventBatch.unpriced,
              List.map_append, hevents]

/-- Two orders with one outcome in `place_order` differ in the echoed price. -/
theorem dispatch_priced (h : e.placeOrder b o accountId (req.priced price)
      = e.placeOrder b o accountId (req.priced price')) :
    (Engine.dispatch b o e accountId (.place (req.priced price))).map dispatched
      = (Engine.dispatch b o e accountId (.place (req.priced price'))).map dispatched := by
  unfold Engine.dispatch
  dsimp only
  rw [h]
  cases e.placeOrder b o accountId (req.priced price') with
  | error panic => rfl
  | ok r =>
      obtain ⟨e₁, res⟩ := r
      cases res with
      | error reason => rfl
      | ok m =>
          rw [ok_bind, ok_bind]
          dsimp only
          cases placeResponse b m with
          | error panic => rfl
          | ok response => rfl

theorem apply_priced (h : ∀ dedup, (e.keyed dedup).placeOrder b o accountId (req.priced price)
      = (e.keyed dedup).placeOrder b o accountId (req.priced price')) :
    (apply b o e accountId clientOrderId (.place (req.priced price))).map unpriced
      = (apply b o e accountId clientOrderId (.place (req.priced price'))).map unpriced := by
  cases hdedup : e.dedup.insert accountId clientOrderId with
  | error panic =>
      unfold apply
      rw [hdedup]
      rfl
  | ok r =>
      obtain ⟨dedup, fresh⟩ := r
      cases fresh with
      | false => rw [apply_duplicate hdedup, apply_duplicate hdedup]
      | true =>
          rw [apply_fresh hdedup, apply_fresh hdedup]
          have hdispatch := dispatch_priced (h dedup)
          -- both panic, or both end up in the same report
          cases hrun : Engine.dispatch b o (e.keyed dedup) accountId
              (.place (req.priced price)) with
          | error panic =>
              rw [hrun] at hdispatch
              cases hrun' : Engine.dispatch b o (e.keyed dedup) accountId
                  (.place (req.priced price')) with
              | error panic' =>
                  rw [hrun'] at hdispatch
                  cases hdispatch
                  rfl
              | ok r' => rw [hrun'] at hdispatch; cases hdispatch
          | ok r =>
              rw [hrun] at hdispatch
              cases hrun' : Engine.dispatch b o (e.keyed dedup) accountId
                  (.place (req.priced price')) with
              | error panic' => rw [hrun'] at hdispatch; cases hdispatch
              | ok r' =>
                  rw [hrun'] at hdispatch
                  exact report_unpriced (Except.ok.inj hdispatch)

/-- An order refused before anything was reserved is answered, and nothing is
reported. -/
theorem apply_refused {dedup : Dedup} {reason : RejectReason} (hclean : e.ledger.dirty = ∅)
    (hdedup : e.dedup.insert accountId clientOrderId = .ok (dedup, true))
    (hplace : (e.keyed dedup).placeOrder b o accountId req
      = .ok (e.keyed dedup, .error reason)) :
    ∃ e', apply b o e accountId clientOrderId (.place req)
      = .ok (e', .place (.error reason), none) := by
  have hnone : o.dirty.toList (e.keyed dedup).ledger.dirty = [] := by
    rw [show (e.keyed dedup).ledger.dirty = ∅ from hclean, DrainOrder.toList_empty]
  have hdispatch : Engine.dispatch b o (e.keyed dedup) accountId (.place req)
      = .ok (e.keyed dedup, .place (.error reason), []) := by
    unfold Engine.dispatch
    dsimp only
    rw [hplace]
    rfl
  rw [apply_fresh hdedup, hdispatch, ok_bind]
  unfold report
  dsimp only [Ledger.takeDirty]
  rw [hnone]
  exact ⟨_, rfl⟩

/-- A market ask whose product is a word is never refused for it. -/
theorem placeOrder_fits (hmarket : req.orderType = .market) (hside : req.side = .ask)
    (hcheck : e.checkOrder accountId req = none)
    (hfit : price.toNat * req.size.toNat < 2 ^ 64) {e' : Engine} :
    e.placeOrder b o accountId (req.priced price) ≠ .ok (e', .error .invalidAmount) := by
  intro h
  unfold Engine.placeOrder at h
  rw [checkOrder_priced hmarket, hcheck, quoteAmount_ask b e hside, if_pos hfit] at h
  dsimp only at h
  rw [ok_bind] at h
  obtain ⟨⟨l, reserved⟩, hreserve, h⟩ := bind_ok.mp h
  cases reserved with
  | error reason =>
      cases h
      rw [reserveOrder_eq] at hreserve
      rcases reserve_ok hreserve with ⟨habsurd, _⟩ | ⟨habsurd, _⟩
      · cases habsurd
      · cases habsurd
  | ok _ =>
      obtain ⟨m, habsurd⟩ := @matchAndSettle_market b o _ accountId (req.priced price) hmarket _ _ h
      cases habsurd

/-- **Where one product leaves a word** and the other does not, the outcomes
differ. -/
theorem apply_priced_ne (hclean : e.ledger.dirty = ∅)
    (hkey : (accountId, clientOrderId) ∉ e.dedup.seen) (hmarket : req.orderType = .market)
    (hside : req.side = .ask) (hcheck : e.checkOrder accountId req = none)
    (hover : ¬ price.toNat * req.size.toNat < 2 ^ 64)
    (hfit : price'.toNat * req.size.toNat < 2 ^ 64) :
    (apply b o e accountId clientOrderId (.place (req.priced price))).map unpriced
      ≠ (apply b o e accountId clientOrderId (.place (req.priced price'))).map unpriced := by
  obtain ⟨dedup, hdedup, _⟩ := Dedup.insert_fresh hkey
  have hkeyed : (e.keyed dedup).checkOrder accountId req = none := hcheck
  have hplace : (e.keyed dedup).placeOrder b o accountId (req.priced price)
      = .ok (e.keyed dedup, .error .invalidAmount) := by
    unfold Engine.placeOrder
    rw [checkOrder_priced hmarket, hkeyed, quoteAmount_ask b _ hside, if_neg hover]
    rfl
  obtain ⟨e', happly⟩ := apply_refused hclean hdedup hplace
  intro hsame
  rw [happly] at hsame
  cases hrun : apply b o e accountId clientOrderId (.place (req.priced price')) with
  | error panic => rw [hrun] at hsame; cases hsame
  | ok r =>
      obtain ⟨e'', response, batch⟩ := r
      rw [hrun] at hsame
      have hresponse : CommandResponse.place (.error .invalidAmount) = response :=
        congrArg (fun r => r.2.1) (Except.ok.inj hsame)
      subst hresponse
      rcases apply_ok hrun with ⟨_, habsurd, _⟩ | ⟨dedup', e₁, events, _, _, hdispatch, _⟩
      · cases habsurd
      · obtain ⟨r, hrefused, hanswer⟩ := dispatch_ok hdispatch
        have hcheck' : ({ e with dedup := dedup' } : Engine).checkOrder accountId req = none :=
          hcheck
        cases r with
        | ok m =>
            obtain ⟨_, _, habsurd, _⟩ := hanswer
            cases habsurd
        | error reason =>
            obtain ⟨heq, _⟩ := hanswer
            cases heq
            exact placeOrder_fits hmarket hside hcheck' hfit hrefused

/-- **The price of a market order is ignored** by `apply` (response, events
apart from the echo, and state, panics included) if and only if the key is
known, a check refuses the order, it is a bid, or the products of both prices
with the size are words, or both are not. -/
theorem market_price_iff {limits : Limits} {h : List Record} (hr : Reaches b limits h e)
    (hmarket : req.orderType = .market) (o : Drains) (accountId : AccountId)
    (clientOrderId price price' : UInt64) :
    (apply b o e accountId clientOrderId (.place (req.priced price))).map unpriced
        = (apply b o e accountId clientOrderId (.place (req.priced price'))).map unpriced
      ↔ (accountId, clientOrderId) ∈ e.dedup.seen ∨ e.checkOrder accountId req ≠ none ∨
        req.side = .bid ∨
        (price.toNat * req.size.toNat < 2 ^ 64 ↔ price'.toNat * req.size.toNat < 2 ^ 64) := by
  constructor
  · intro hsame
    by_contra hno
    rw [not_or, not_or, not_or, not_not] at hno
    obtain ⟨hkey, hcheck, hbid, hproducts⟩ := hno
    have hask : req.side = .ask := by
      cases hside : req.side with
      | bid => exact absurd hside hbid
      | ask => rfl
    by_cases hfit : price.toNat * req.size.toNat < 2 ^ 64
    · have hover : ¬ price'.toNat * req.size.toNat < 2 ^ 64 := fun h' =>
        hproducts (iff_of_true hfit h')
      exact apply_priced_ne hr.clean hkey hmarket hask hcheck hover hfit hsame.symm
    · have hfit' : price'.toNat * req.size.toNat < 2 ^ 64 := by
        by_contra h'
        exact hproducts (iff_of_false hfit h')
      exact apply_priced_ne hr.clean hkey hmarket hask hcheck hfit hfit' hsame
  · rintro (hkey | hsame)
    · have hdedup : e.dedup.insert accountId clientOrderId = .ok (e.dedup, false) := by
        unfold Dedup.insert
        rw [if_pos hkey]
        rfl
      rw [apply_duplicate hdedup, apply_duplicate hdedup]
    · refine apply_priced fun dedup => ?_
      have hkeyed : (e.keyed dedup).Shape := hr.shape.of_books rfl
      exact placeOrder_priced hmarket price hkeyed hsame

end Apply

/-- A market ask of two units. -/
def sellTwo : OrderRequest where
  pair := { base := .SOL, quote := .USD }
  orderType := .market
  side := .ask
  price := 0
  size := 2

/-- On the market of the trading run the largest price that still multiplies to
a word is ignored. -/
theorem market_price_trading :
    (apply .release .sorted (finish .default (runCalls .release .default tradingCalls)).1 1 4
        (.place (sellTwo.priced 0))).map unpriced
      = (apply .release .sorted (finish .default (runCalls .release .default tradingCalls)).1 1 4
        (.place (sellTwo.priced (UInt64.ofNat (2 ^ 63 - 1))))).map unpriced :=
  (market_price_iff (reaches_runCalls tradingCalls_returned) rfl .sorted 1 4 0
    (UInt64.ofNat (2 ^ 63 - 1))).mpr (.inr (.inr (.inr (by decide))))

/-- One more is not: the sale is refused. -/
theorem market_price_read :
    Reaches .release .default (finish .default (runCalls .release .default tradingCalls)).2
        (finish .default (runCalls .release .default tradingCalls)).1 ∧
      okWith (apply .release .sorted
        (finish .default (runCalls .release .default tradingCalls)).1 1 4
          (.place (sellTwo.priced (UInt64.ofNat (2 ^ 63)))))
        (fun r => r.2.1 = .place (.error .invalidAmount)) = true ∧
      (apply .release .sorted (finish .default (runCalls .release .default tradingCalls)).1 1 4
          (.place (sellTwo.priced 0))).map unpriced
        ≠ (apply .release .sorted (finish .default (runCalls .release .default tradingCalls)).1
          1 4 (.place (sellTwo.priced (UInt64.ofNat (2 ^ 63))))).map unpriced := by
  refine ⟨reaches_runCalls tradingCalls_returned, by decide +kernel, ?_⟩
  exact (apply_priced_ne (reaches_runCalls tradingCalls_returned).clean (by decide +kernel) rfl rfl
    (by decide +kernel) (by decide) (by decide)).symm

end MatchingEngine
