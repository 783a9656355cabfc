import MatchingEngine.Market
import MatchingEngine.Lib.SortedMap
import MatchingEngine.Lib.HashMap

/-!
# Book: the order book of one market

`book.rs`, function by function: the matching loops of `add_order`, the two
read-only scans `market_buy_cost` and `would_self_trade`, the drain of the
dirty levels, and `cancel_order`.

The two `BTreeMap`s are `SortedMap`s, a `VecDeque` is a list with its front
at the head, a `HashMap` and a `HashSet` have no order; the order in which
the dirty levels are drained is a parameter. Everything that adds,
subtracts, multiplies or sums words takes the build.
-/

namespace MatchingEngine

open RustArith HashModel

/-- A bid buys the base currency, an ask sells it. -/
inductive Side where
  | bid
  | ask
deriving DecidableEq, Repr

/-- A market order takes what is there and never rests. -/
inductive OrderType where
  | market
  | limit
deriving DecidableEq, Repr

/-- What the feed calls an order; the engine itself keeps only the remaining size. -/
inductive OrderStatus where
  | open
  | partiallyFilled
  | filled
  | cancelled
deriving DecidableEq, Repr

/-- An order as it rests in a book, or as it is matched. -/
structure Order where
  id : UInt64
  orderType : OrderType
  side : Side
  price : UInt64
  size : UInt64
  remainingSize : UInt64
  accountId : AccountId
deriving DecidableEq, Repr

/-- Where a resting order is, so that a cancel need not search for it. -/
structure OrderLocation where
  owner : AccountId
  side : Side
  price : UInt64
deriving DecidableEq, Repr

/-- What a client asks for. The price of a market order is ignored by the book. -/
structure OrderRequest where
  pair : Pair
  orderType : OrderType
  side : Side
  price : UInt64
  size : UInt64
deriving DecidableEq, Repr

/-- A match of a taker with one maker, at the maker's price. -/
structure Trade where
  pair : Pair
  price : UInt64
  qty : UInt64
  makerId : UInt64
  takerId : UInt64
  takerSide : Side
  makerAccount : AccountId
  takerAccount : AccountId
deriving DecidableEq, Repr

/-- Post-command state of one order. `filledQty` is cumulative. -/
structure OrderUpdate where
  orderId : UInt64
  accountId : AccountId
  filledQty : UInt64
  remainingSize : UInt64
  status : OrderStatus
deriving DecidableEq, Repr

/-- `(side, price, new_qty)` of a level a command changed. -/
abbrev LevelDelta := Side × UInt64 × UInt64

/-- What `add_order` returns: the fills, and what is left of the taker. -/
structure MatchResponse where
  orderId : UInt64
  trades : List Trade
  /-- the taker plus every maker this command touched -/
  updates : List OrderUpdate
  takerRemaining : UInt64
  bookDeltas : List LevelDelta
deriving DecidableEq, Repr

/-- One side of a book: queues of orders by price. -/
abbrev Levels := SortedMap UInt64 (List Order)

/-- The book of one pair: both sides by price, and the index for cancels. -/
structure OrderBook where
  bids : Levels
  asks : Levels
  orderIndex : HashMap UInt64 OrderLocation
  /-- levels whose aggregate the current command changed -/
  dirtyLevels : Finset (Side × UInt64)
  lastTradePrice : Option UInt64
deriving DecidableEq

/-- `OrderBook::new`, also its `Default`. -/
def OrderBook.new : OrderBook where
  bids := ∅
  asks := ∅
  orderIndex := ∅
  dirtyLevels := ∅
  lastTradePrice := none

/-- The levels of one side, ascending in price on both. -/
def OrderBook.side (book : OrderBook) : Side → Levels
  | .bid => book.bids
  | .ask => book.asks

/-- The book with the levels of one side replaced. -/
def OrderBook.setSide (book : OrderBook) : Side → Levels → OrderBook
  | .bid, levels => { book with bids := levels }
  | .ask, levels => { book with asks := levels }

/-! ## `add_order`: the matching loops -/

/-- The variables the matching loops update: the book, the taker, and what was written
down of the fills so far. -/
structure Matching where
  book : OrderBook
  order : Order
  trades : List Trade
  updates : List OrderUpdate

/-- The order `add_order` starts with, nothing of it filled. -/
def OrderRequest.toOrder (req : OrderRequest) (orderId : UInt64)
    (accountId : AccountId) : Order where
  id := orderId
  orderType := req.orderType
  side := req.side
  price := req.price
  size := req.size
  remainingSize := req.size
  accountId := accountId

/-- Take the traded quantity off the front order and the incoming one. -/
def fillSizes (b : Build) (best order : Order) : Exec (Order × Order) :=
  if order.remainingSize ≤ best.remainingSize then do
    let left ← b.sub best.remainingSize order.remainingSize
    pure ({ best with remainingSize := left }, { order with remainingSize := 0 })
  else do
    let left ← b.sub order.remainingSize best.remainingSize
    pure ({ best with remainingSize := 0 }, { order with remainingSize := left })

/-- The body of the inner loop up to the pop: the incoming order trades with
the order at the front of the best queue. -/
def fillFront (b : Build) (pair : Pair) (st : Matching) (best : Order) :
    Exec (Order × Matching) := do
  let tradeQty := min st.order.remainingSize best.remainingSize
  let (best, order) ← fillSizes b best st.order
  let trade : Trade :=
    { pair := pair
      price := best.price
      qty := tradeQty
      makerId := best.id
      takerId := order.id
      takerSide := order.side
      makerAccount := best.accountId
      takerAccount := order.accountId }
  let filledQty ← b.sub best.size best.remainingSize
  let update : OrderUpdate :=
    { orderId := best.id
      accountId := best.accountId
      filledQty := filledQty
      remainingSize := best.remainingSize
      status := if best.remainingSize = 0 then .filled else .partiallyFilled }
  pure (best,
    { book :=
        { st.book with
          lastTradePrice := some trade.price
          dirtyLevels := insert (best.side, best.price) st.book.dirtyLevels }
      order := order
      trades := st.trades ++ [trade]
      updates := st.updates ++ [update] })

/-- The inner loop: `while !queue.is_empty() && order.remaining_size > 0`. -/
def fillQueue (b : Build) (pair : Pair) :
    List Order → Matching → Exec (List Order × Matching)
  | [], st => pure ([], st)
  | best :: rest, st =>
      if 0 < st.order.remainingSize then do
        let (best, st) ← fillFront b pair st best
        if best.remainingSize = 0 then
          fillQueue b pair rest
            { st with book.orderIndex := st.book.orderIndex.erase best.id }
        else
          -- the front order was not used up, so the incoming one was: the
          -- loop condition is false
          pure (best :: rest, st)
      else
        pure (best :: rest, st)

/-- The head of the outer loop: the best opposite queue, or `none` where the
source breaks. -/
def OrderBook.bestPriceQueue (book : OrderBook) (order : Order) :
    Option (UInt64 × List Order) :=
  match order.side with
  | .bid =>
      match book.asks.firstKeyValue? with
      | none => none
      | some (lowestAskPrice, queue) =>
          if lowestAskPrice > order.price ∧ order.orderType = .limit then none
          else some (lowestAskPrice, queue)
  | .ask =>
      match book.bids.lastKeyValue? with
      | none => none
      | some (highestBidPrice, queue) =>
          if highestBidPrice < order.price ∧ order.orderType = .limit then none
          else some (highestBidPrice, queue)

/-- The tail of the outer loop: the queue was mutated in place, and the best
level is popped when it ended up empty. -/
def OrderBook.putBestQueue (book : OrderBook) (takerSide : Side) (price : UInt64)
    (queue : List Order) : OrderBook :=
  match takerSide with
  | .bid =>
      let asks := book.asks.insert price queue
      { book with asks := if queue.isEmpty then asks.popFirst else asks }
  | .ask =>
      let bids := book.bids.insert price queue
      { book with bids := if queue.isEmpty then bids.popLast else bids }

/-- The outer loop: `while order.remaining_size > 0`. Every round but the
last pops a level, so `fuel` is one more than the number of levels. -/
def matchLoop (b : Build) (pair : Pair) : Nat → Matching → Exec Matching
  | 0, st => pure st
  | fuel + 1, st =>
      if 0 < st.order.remainingSize then
        match st.book.bestPriceQueue st.order with
        | none => pure st
        | some (price, queue) => do
            let (queue, st) ← fillQueue b pair queue st
            matchLoop b pair fuel
              { st with book := st.book.putBestQueue st.order.side price queue }
      else
        pure st

/-! ## `add_order`: resting and reporting -/

/-- Where an order with a remainder ends up: a limit order at the back of its
level, a market order nowhere. -/
def OrderBook.rest (book : OrderBook) (order : Order) : OrderBook :=
  if 0 < order.remainingSize then
    match order.orderType with
    | .limit =>
        let levels := book.side order.side
        let book := book.setSide order.side
          (levels.insert order.price ((levels.get? order.price).getD [] ++ [order]))
        { book with dirtyLevels := insert (order.side, order.price) book.dirtyLevels }
    | .market => book
  else
    book

/-- The index entry of an order that rested. -/
def OrderBook.indexTaker (book : OrderBook) (accountId : AccountId)
    (order : Order) : OrderBook :=
  if order.orderType = .limit ∧ 0 < order.remainingSize then
    { book with
      orderIndex := book.orderIndex.insert order.id
        { owner := accountId, side := order.side, price := order.price } }
  else
    book

/-- The taker's status after matching; `none` when a limit order rests
untouched. -/
def takerStatus (order : Order) (takerFilled : UInt64) : Option OrderStatus :=
  if order.remainingSize = 0 then some .filled
  else if order.orderType = .market then some .cancelled
  else if 0 < takerFilled then some .partiallyFilled
  else none

/-- The level's current aggregate, 0 when the level is gone. -/
def OrderBook.levelQty (b : Build) (book : OrderBook) (side : Side)
    (price : UInt64) : Exec UInt64 :=
  match (book.side side).get? price with
  | some queue => b.sum (queue.map Order.remainingSize)
  | none => pure 0

/-- Drain the dirty levels into `(side, price, new_qty)` triples, recomputing
each level's current aggregate. -/
def OrderBook.takeDirtyLevels (b : Build) (o : DrainOrder (Side × UInt64))
    (book : OrderBook) : Exec (OrderBook × List LevelDelta) := do
  let dirty := o.toList book.dirtyLevels
  let book := { book with dirtyLevels := ∅ }
  let deltas ← dirty.mapM fun (side, price) => do
    let qty ← book.levelQty b side price
    pure (side, price, qty)
  pure (book, deltas)

/-- `OrderBook::add_order`: match against the other side, let what is left of a limit
order rest, and report the taker and the levels that changed. Only their order depends
on `o`. -/
def OrderBook.addOrder (b : Build) (o : DrainOrder (Side × UInt64))
    (book : OrderBook) (orderId : UInt64) (accountId : AccountId)
    (req : OrderRequest) : Exec (OrderBook × MatchResponse) := do
  let st ← matchLoop b req.pair
    (book.bids.entries.length + book.asks.entries.length + 1)
    { book := book, order := req.toOrder orderId accountId, trades := [], updates := [] }
  let order := st.order
  let book := (st.book.rest order).indexTaker accountId order
  let takerFilled ← b.sub order.size order.remainingSize
  let takerUpdate : List OrderUpdate :=
    match takerStatus order takerFilled with
    | some status =>
        [{ orderId := order.id
           accountId := order.accountId
           filledQty := takerFilled
           remainingSize := order.remainingSize
           status := status }]
    | none => []
  let (book, bookDeltas) ← book.takeDirtyLevels b o
  pure (book,
    { orderId := order.id
      trades := st.trades
      updates := st.updates ++ takerUpdate
      takerRemaining := order.remainingSize
      bookDeltas := bookDeltas })

/-! ## The read-only scans -/

/-- The loop of `market_buy_cost`; `none` is an overflowed checked operation. -/
def walkAsks (b : Build) : List (UInt64 × List Order) → UInt64 → UInt64 →
    Exec (Option UInt64)
  | [], _, cost => pure (some cost)
  | (price, level) :: levels, remaining, cost =>
      if remaining = 0 then pure (some cost)
      else do
        let levelQty ← b.sum (level.map Order.remainingSize)
        let take := min remaining levelQty
        match checkedMul price take with
        | none => pure none
        | some levelCost =>
            match checkedAdd cost levelCost with
            | none => pure none
            | some cost => do
                let remaining ← b.sub remaining take
                walkAsks b levels remaining cost

/-- `OrderBook::market_buy_cost`: the cost to fill up to `size` off the asks. -/
def OrderBook.marketBuyCost (b : Build) (book : OrderBook) (size : UInt64) :
    Exec (Except RejectReason UInt64) := do
  match ← walkAsks b book.asks.entries size 0 with
  | some cost => pure (.ok cost)
  | none => pure (.error .invalidAmount)

/-- The inner loop of `scan`: `.error` is an early `return`. -/
def scanQueue (accountId : AccountId) : List Order → UInt64 → Except Bool UInt64
  | [], remaining => .ok remaining
  | resting :: rest, remaining =>
      if resting.accountId = accountId then .error true
      else
        let remaining := saturatingSub remaining resting.remainingSize
        if remaining = 0 then .error false else scanQueue accountId rest remaining

/-- `scan`, over the levels in matching order: whether an order of the account is met
before the size is used up. The owner is looked at first, whatever is left. -/
def scan (accountId : AccountId) (crosses : UInt64 → Bool) :
    List (UInt64 × List Order) → UInt64 → Bool
  | [], _ => false
  | (price, level) :: levels, remaining =>
      if !crosses price then false
      else
        match scanQueue accountId level remaining with
        | .error found => found
        | .ok remaining => scan accountId crosses levels remaining

/-- `OrderBook::would_self_trade`: would this order match one of the same
account's resting orders? -/
def OrderBook.wouldSelfTrade (book : OrderBook) (accountId : AccountId)
    (req : OrderRequest) : Bool :=
  let market : Bool := req.orderType = .market
  match req.side with
  | .bid => scan accountId (fun p => market || p ≤ req.price) book.asks.entries req.size
  | .ask => scan accountId (fun p => market || p ≥ req.price) book.bids.entries.reverse req.size

/-! ## `cancel_order` -/

/-- `OrderBook::cancel_order`: the removed order and the deltas its removal
caused. -/
def OrderBook.cancelOrder (b : Build) (o : DrainOrder (Side × UInt64))
    (book : OrderBook) (accountId : AccountId) (orderId : UInt64) :
    Exec (OrderBook × Option (Order × List LevelDelta)) :=
  match book.orderIndex.lookup orderId with
  | none => pure (book, none)
  | some { owner, side, price } =>
      if accountId ≠ owner then pure (book, none)
      else
        match (book.side side).get? price with
        | none => pure (book, none)
        | some queue =>
            match queue.findIdx? fun order => order.id = orderId with
            | none => pure (book, none)
            | some index =>
                match queue[index]? with
                | none => pure (book, none)
                | some removed => do
                    let queue := queue.eraseIdx index
                    let levels := book.side side
                    let book := book.setSide side
                      (if queue.isEmpty then levels.erase price
                       else levels.insert price queue)
                    let book :=
                      { book with
                        orderIndex := book.orderIndex.erase orderId
                        dirtyLevels := insert (side, price) book.dirtyLevels }
                    let (book, deltas) ← book.takeDirtyLevels b o
                    pure (book, some (removed, deltas))

end MatchingEngine
