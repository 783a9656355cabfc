import MatchingEngine.Command
import MatchingEngine.Lib.Run

/-!
# Engine: the deterministic state machine

`engine.rs`. `apply` is the one entry point; the engine is what a run of it
from `Engine.new` reaches. `place_order` is cut at the source's own
paragraphs into `checkOrder`, `quoteAmount`, `reserveOrder`, `routeOrder`,
`settleTrades`, `releaseMarketSell` and `releaseSurplus`, so that a theorem
can speak of the ledger between them.
-/

namespace MatchingEngine

open RustArith HashModel

/-- Abuse guards: policy, not state. -/
structure Limits where
  depositCeiling : Currency → UInt64
  priceBandBps : Option UInt64
  preventSelfTrade : Bool

/-- How far a deposit may raise what an account holds, its reserved funds included. -/
def demoDepositCeiling : Currency → UInt64
  | .USD => 100000
  | .SOL => 1000

/-- `u64::MAX`, which no balance exceeds. -/
def noDepositCeiling : Currency → UInt64 := fun _ => UInt64.ofNat (2 ^ 64 - 1)

/-- `Limits::default`. -/
def Limits.default : Limits where
  depositCeiling := demoDepositCeiling
  priceBandBps := some 2000
  preventSelfTrade := true

/-- `Limits::none`. -/
def Limits.none : Limits where
  depositCeiling := noDepositCeiling
  priceBandBps := Option.none
  preventSelfTrade := false

/-- Idempotency keys seen so far, and in what order those of each account came, so that
the oldest can be forgotten. -/
structure Dedup where
  seen : Finset (AccountId × UInt64)
  order : HashMap AccountId (List UInt64)
deriving DecidableEq

/-- Most recent client order ids kept per account. -/
def dedupWindow : Nat := 1000

/-- `Dedup::insert`: false if the key was already seen. A new one may push out the
oldest of its account. -/
def Dedup.insert (d : Dedup) (accountId : AccountId) (clientOrderId : UInt64) :
    Exec (Dedup × Bool) :=
  if (accountId, clientOrderId) ∈ d.seen then pure (d, false)
  else
    let seen := Insert.insert (accountId, clientOrderId) d.seen
    let recent := (d.order.lookup accountId).getD [] ++ [clientOrderId]
    if recent.length > dedupWindow then
      match recent with
      | evicted :: recent =>
          pure ({ seen := seen.erase (accountId, evicted)
                  order := d.order.insert accountId recent }, true)
      | [] => .error (.expect "just checked len > 0")
    else
      pure ({ seen := seen, order := d.order.insert accountId recent }, true)

/-- `price_band`: the lowest and the highest admitted limit price. -/
def priceBand (last bps : UInt64) : UInt64 × UInt64 :=
  let delta := max (saturatingMul last bps / 10000) 1
  (saturatingSub last delta, saturatingAdd last delta)

/-- All of the state that `apply` reads and writes. -/
structure Engine where
  /-- one book per market, created on first order for that pair -/
  books : HashMap Pair OrderBook
  /-- routes a cancel to the right book -/
  orderPair : HashMap UInt64 Pair
  nextOrderId : UInt64
  nextSeq : UInt64
  ledger : Ledger
  dedup : Dedup
  listedPairs : Finset Pair
  limits : Limits

/-- `Engine::new`, under the limits the process sets. -/
def Engine.new (limits : Limits) : Engine where
  books := ∅
  orderPair := ∅
  nextOrderId := 0
  nextSeq := 0
  ledger := { balances := ∅, dirty := ∅ }
  dedup := { seen := ∅, order := ∅ }
  listedPairs := ∅
  limits := limits

/-- The book of a pair, `OrderBook.new` where there is none yet. -/
def Engine.book (e : Engine) (pair : Pair) : OrderBook :=
  (e.books.lookup pair).getD OrderBook.new

/-- The orders in which one command drains `dirty_levels` and `dirty`. -/
structure Drains where
  levels : DrainOrder (Side × UInt64)
  dirty : DrainOrder (AccountId × Currency)

/-- The numeric place of a level: bids first, by price. -/
def levelKey : Side × UInt64 → ℕ
  | (.bid, price) => price.toNat
  | (.ask, price) => 2 ^ 64 + price.toNat

theorem levelKey_injective : Function.Injective levelKey := by
  rintro ⟨s, p⟩ ⟨s', p'⟩ h
  have hp := toNat_lt p
  have hp' := toNat_lt p'
  cases s <;> cases s' <;> simp only [levelKey] at h
  · rw [UInt64.toNat_inj.mp h]
  · omega
  · omega
  · rw [UInt64.toNat_inj.mp (by omega : p.toNat = p'.toNat)]

/-- The numeric place of a ledger entry: dollars first, by account. -/
def entryKey : AccountId × Currency → ℕ
  | (accountId, .USD) => accountId.toNat
  | (accountId, .SOL) => 2 ^ 64 + accountId.toNat

theorem entryKey_injective : Function.Injective entryKey := by
  rintro ⟨a, c⟩ ⟨a', c'⟩ h
  have ha := toNat_lt a
  have ha' := toNat_lt a'
  cases c <;> cases c' <;> simp only [entryKey] at h
  · rw [UInt64.toNat_inj.mp h]
  · omega
  · omega
  · rw [UInt64.toNat_inj.mp (by omega : a.toNat = a'.toNat)]

/-- The orders that sort by key: one choice that evaluates. -/
def Drains.sorted : Drains where
  levels := .byKey levelKey levelKey_injective
  dirty := .byKey entryKey entryKey_injective

/-! ## `place_order` -/

/-- The checks before anything is reserved: pair, price band, self-trade. -/
def Engine.checkOrder (e : Engine) (accountId : AccountId) (req : OrderRequest) :
    Option RejectReason :=
  if !req.pair.isValid ∨ req.pair ∉ e.listedPairs then some .invalidPair
  else
    match e.books.lookup req.pair with
    | none => none
    | some book =>
        let outOfBand : Bool :=
          match req.orderType, e.limits.priceBandBps, book.lastTradePrice with
          | .limit, some bps, some last =>
              let (low, high) := priceBand last bps
              req.price < low ∨ req.price > high
          | _, _, _ => false
        if outOfBand then some .priceOutOfBand
        else if e.limits.preventSelfTrade ∧ book.wouldSelfTrade accountId req then
          some .selfTrade
        else none

/-- What a bid has to reserve: the walked cost of a market buy, else
`price * size`. -/
def Engine.quoteAmount (b : Build) (e : Engine) (req : OrderRequest) :
    Exec (Except RejectReason UInt64) :=
  if req.orderType = .market ∧ req.side = .bid then
    match e.books.lookup req.pair with
    | some book => book.marketBuyCost b req.size
    | none => pure (.ok 0)
  else
    match checkedMul req.price req.size with
    | some amount => pure (.ok amount)
    | none => pure (.error .invalidAmount)

/-- Reserve the quote of a bid or the base of an ask. -/
def reserveOrder (b : Build) (l : Ledger) (accountId : AccountId)
    (req : OrderRequest) (quoteAmount : UInt64) :
    Exec (Ledger × Except RejectReason Unit) :=
  match req.side with
  | .bid => l.reserve b accountId req.pair.quote quoteAmount
  | .ask => l.reserve b accountId req.pair.base req.size

/-- Route future cancels of a rested order and drop the filled makers. -/
def routeOrder (orderPair : HashMap UInt64 Pair) (book : OrderBook) (pair : Pair)
    (orderId : UInt64) (trades : List Trade) : HashMap UInt64 Pair :=
  let rested := orderId ∈ book.orderIndex
  let filledMakers := (trades.map Trade.makerId).filter fun id => id ∉ book.orderIndex
  let orderPair := if rested then orderPair.insert orderId pair else orderPair
  filledMakers.foldl (fun m id => m.erase id) orderPair

/-- Settle the trades one after the other, in the order they were matched. -/
def settleTrades (b : Build) (pair : Pair) : List Trade → Ledger → Exec Ledger
  | [], l => pure l
  | trade :: trades, l => do
      let l ← l.settle b pair trade
      settleTrades b pair trades l

/-- A market sell's unfilled remainder goes back; the result is discarded. -/
def releaseMarketSell (b : Build) (l : Ledger) (accountId : AccountId)
    (req : OrderRequest) (takerRemaining : UInt64) :
    Exec (Ledger × Except RejectReason Unit) :=
  if req.orderType = .market ∧ req.side = .ask ∧ 0 < takerRemaining then
    l.release b accountId req.pair.base takerRemaining
  else pure (l, .ok ())

/-- `(req.price - t.price) * t.qty`. -/
def tradeSurplus (b : Build) (req : OrderRequest) (t : Trade) : Exec UInt64 := do
  let better ← b.sub req.price t.price
  b.mul better t.qty

/-- The buyer's surplus on price-improved fills goes back. -/
def releaseSurplus (b : Build) (l : Ledger) (accountId : AccountId)
    (req : OrderRequest) (trades : List Trade) :
    Exec (Ledger × Except RejectReason Unit) :=
  if req.side = .bid ∧ req.orderType = .limit then do
    let surpluses ← trades.mapM (tradeSurplus b req)
    let surplus ← b.sum surpluses
    if 0 < surplus then l.release b accountId req.pair.quote surplus
    else pure (l, .ok ())
  else pure (l, .ok ())

/-- `place_order` from the reserve on: match, route, settle, refund. -/
def Engine.matchAndSettle (b : Build) (o : Drains) (e : Engine)
    (accountId : AccountId) (req : OrderRequest) :
    Exec (Engine × Except RejectReason MatchResponse) := do
  let orderId := e.nextOrderId
  let nextOrderId ← b.add e.nextOrderId 1
  let (book, matchResult) ← (e.book req.pair).addOrder b o.levels orderId accountId req
  let e :=
    { e with
      nextOrderId := nextOrderId
      books := e.books.insert req.pair book
      orderPair := routeOrder e.orderPair book req.pair orderId matchResult.trades }
  let l ← settleTrades b req.pair matchResult.trades e.ledger
  let (l, _) ← releaseMarketSell b l accountId req matchResult.takerRemaining
  let (l, refunded) ← releaseSurplus b l accountId req matchResult.trades
  match refunded with
  | .error reason => pure ({ e with ledger := l }, .error reason)
  | .ok _ => pure ({ e with ledger := l }, .ok matchResult)

/-- `Engine::place_order`: check the request, reserve what it may cost, match, settle,
and give back what it did not need. -/
def Engine.placeOrder (b : Build) (o : Drains) (e : Engine)
    (accountId : AccountId) (req : OrderRequest) :
    Exec (Engine × Except RejectReason MatchResponse) := do
  match e.checkOrder accountId req with
  | some reason => pure (e, .error reason)
  | none =>
      match ← e.quoteAmount b req with
      | .error reason => pure (e, .error reason)
      | .ok quoteAmount => do
          let (l, reserved) ← reserveOrder b e.ledger accountId req quoteAmount
          match reserved with
          | .error reason => pure ({ e with ledger := l }, .error reason)
          | .ok _ => Engine.matchAndSettle b o { e with ledger := l } accountId req

/-! ## The other commands -/

/-- `Engine::deposit`: refused when the account would hold more than the ceiling, its
reserved funds included. -/
def Engine.deposit (b : Build) (e : Engine) (accountId : AccountId)
    (req : DepositRequest) : Exec (Engine × Except RejectReason UInt64) := do
  let held ← e.ledger.held b accountId req.currency
  match checkedAdd held req.amount with
  | none => pure (e, .error .invalidAmount)
  | some after =>
      if after > e.limits.depositCeiling req.currency then
        pure (e, .error .depositLimitExceeded)
      else do
        let (l, available) ← e.ledger.deposit b req.currency accountId req.amount
        pure ({ e with ledger := l }, .ok available)

/-- What cancelling `order` gives back: its remaining reserve. -/
def cancelRefund (b : Build) (pair : Pair) (order : Order) : Exec (Currency × UInt64) :=
  match order.side with
  | .bid => do
      let amount ← b.mul order.remainingSize order.price
      pure (pair.quote, amount)
  | .ask => pure (pair.base, order.remainingSize)

/-- `Engine::cancel_order`; the result of the release is discarded. -/
def Engine.cancelOrder (b : Build) (o : Drains) (e : Engine)
    (accountId : AccountId) (req : CancelRequest) :
    Exec (Engine × Option (Pair × Order × List LevelDelta)) := do
  match e.orderPair.lookup req.orderId with
  | none => pure (e, none)
  | some pair =>
      match e.books.lookup pair with
      | none => pure (e, none)
      | some book => do
          match ← book.cancelOrder b o.levels accountId req.orderId with
          | (_, none) => pure (e, none)
          | (book, some (order, bookDeltas)) => do
              let (currency, amount) ← cancelRefund b pair order
              let (l, _) ← e.ledger.release b order.accountId currency amount
              pure ({ e with
                books := e.books.insert pair book
                ledger := l
                orderPair := e.orderPair.erase req.orderId },
                some (pair, order, bookDeltas))

/-! ## `apply` -/

/-- An update of the book, as an event of its pair. -/
def OrderUpdate.toEvent (pair : Pair) (u : OrderUpdate) : Event :=
  .orderUpdated u.orderId u.accountId pair u.filledQty u.remainingSize u.status

/-- A changed level, as an event of its pair. -/
def deltaEvent (pair : Pair) : LevelDelta → Event
  | (side, price, qty) => .bookDelta pair side price qty

/-- The events of an accepted order. -/
def placeEvents (accountId : AccountId) (req : OrderRequest) (m : MatchResponse) :
    List Event :=
  .orderAccepted m.orderId accountId req.pair req.side req.orderType req.price req.size ::
    (m.trades.map Event.trade ++ m.updates.map (OrderUpdate.toEvent req.pair) ++
      m.bookDeltas.map (deltaEvent req.pair))

/-- The events of a cancelled order. -/
def cancelEvents (orderId : UInt64) (pair : Pair) (order : Order) (filledQty : UInt64)
    (bookDeltas : List LevelDelta) : List Event :=
  .orderCancelled orderId ::
    .orderUpdated order.id order.accountId pair filledQty order.remainingSize .cancelled ::
      bookDeltas.map (deltaEvent pair)

/-- `filled_qty` and `total_cost` of an accepted order. -/
def placeResponse (b : Build) (m : MatchResponse) : Exec PlaceOrderResponse := do
  let filledQty ← b.sum (m.trades.map Trade.qty)
  let costs ← m.trades.mapM fun t => b.mul t.qty t.price
  let totalCost ← b.sum costs
  pure { orderId := m.orderId, filledQty := filledQty, totalCost := totalCost }

/-- The `match command` of `apply`: the answer and the events, the balances that changed
not yet among them. -/
def Engine.dispatch (b : Build) (o : Drains) (e : Engine) (accountId : AccountId) :
    Command → Exec (Engine × CommandResponse × List Event)
  | .place req => do
      match ← e.placeOrder b o accountId req with
      | (e, .ok m) => do
          let response ← placeResponse b m
          pure (e, .place (.ok response), placeEvents accountId req m)
      | (e, .error reason) => pure (e, .place (.error reason), [])
  | .cancel req => do
      match ← e.cancelOrder b o accountId req with
      | (e, some (pair, order, bookDeltas)) => do
          let filledQty ← b.sub order.size order.remainingSize
          pure (e, .cancel true, cancelEvents req.orderId pair order filledQty bookDeltas)
      | (e, none) => pure (e, .cancel false, [])
  | .deposit req => do
      let (e, res) ← e.deposit b accountId req
      pure (e, .deposit res, [])
  | .withdraw req => do
      let (l, res) ← e.ledger.withdraw b accountId req.currency req.amount
      pure ({ e with ledger := l }, .withdraw res, [])
  | .listPair pair =>
      if !pair.isValid then pure (e, .listPair (.error .invalidPair), [])
      else
        pure ({ e with listedPairs := insert pair e.listedPairs },
          .listPair (.ok (pair ∉ e.listedPairs)), [])
  | .delistPair pair =>
      pure ({ e with listedPairs := e.listedPairs.erase pair },
        .delistPair (pair ∈ e.listedPairs), [])

/-- `&engine.ledger.balances[&account_id][&currency]`, as an event. -/
def balanceEvent (l : Ledger) (key : AccountId × Currency) : Exec Event :=
  match l.balances.lookup key.1 with
  | none => .error .missingKey
  | some balances =>
      match balances.lookup key.2 with
      | none => .error .missingKey
      | some balance =>
          .ok (.balanceChanged key.1 key.2 balance.available balance.reserved)

/-- `apply`: the response, and the batch of a command that changed something
observable. -/
def apply (b : Build) (o : Drains) (e : Engine) (accountId : AccountId)
    (clientOrderId : UInt64) (command : Command) :
    Exec (Engine × CommandResponse × Option EventBatch) := do
  match ← e.dedup.insert accountId clientOrderId with
  | (_, false) => pure (e, .duplicate, none)
  | (dedup, true) => do
      let (e, response, events) ←
        Engine.dispatch b o { e with dedup := dedup } accountId command
      let (l, dirty) := e.ledger.takeDirty o.dirty
      let e := { e with ledger := l }
      let balanceEvents ← dirty.mapM (balanceEvent l)
      let events := events ++ balanceEvents
      if events.isEmpty then pure (e, response, none)
      else do
        let seq := e.nextSeq
        let nextSeq ← b.add e.nextSeq 1
        pure ({ e with nextSeq := nextSeq }, response, some { seq := seq, events := events })

/-! ## Runs -/

/-- One call of `apply`: who, under which key, what, and the drain orders. -/
structure Submission where
  accountId : AccountId
  clientOrderId : UInt64
  command : Command
  drains : Drains

/-- One line of a run's history: the call and what it returned. -/
structure Record where
  accountId : AccountId
  clientOrderId : UInt64
  command : Command
  response : CommandResponse
  batch : Option EventBatch

/-- `apply` as the step of a machine; what was asked and answered is written down in a
record. -/
def Engine.step (b : Build) (e : Engine) (s : Submission) : Exec (Engine × Record) := do
  let (e, response, batch) ← apply b s.drains e s.accountId s.clientOrderId s.command
  pure (e,
    { accountId := s.accountId
      clientOrderId := s.clientOrderId
      command := s.command
      response := response
      batch := batch })

/-- `b.Reaches limits h e`: some sequence of `apply` calls from `Engine.new`
returned every time, its history is `h`, and it ended in `e`. -/
def Reaches (b : Build) (limits : Limits) (h : List Record) (e : Engine) : Prop :=
  ∃ subs, run (Engine.step b) (Engine.new limits) subs = .ok (e, h)

/-- The same, every call meeting `C` in the state it is made in. -/
def ReachesAlong (b : Build) (limits : Limits) (C : Engine → Submission → Prop)
    (h : List Record) (e : Engine) : Prop :=
  ∃ subs, run (Engine.step b) (Engine.new limits) subs = .ok (e, h) ∧
    Along (Engine.step b) (Engine.new limits) subs C

end MatchingEngine
