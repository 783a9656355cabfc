import MatchingEngine.History

/-!
# DbWriter: the tables of Postgres

`bin/db_writer.rs`: how the batches of the events stream become rows. A table
is a map from its primary key to the other columns; `updated_at` is left out,
and so is the retention sweep. A statement that fails (a `bigint` sum out of
range) is `none`: the transaction is gone with it. `created_at` is kept in the
milliseconds it is computed from.
-/

namespace MatchingEngine

open RustArith HashModel

/-! ## Entry ids -/

/-- Text as a list of characters, so that parsing it is a recursion. -/
abbrev Text := List Char

/-- `str::split_once`: at the first separator, which is in neither part. -/
def splitOnce (sep : Char) : Text → Option (Text × Text)
  | [] => none
  | c :: cs =>
      if c = sep then some ([], cs)
      else (splitOnce sep cs).map fun (left, right) => (c :: left, right)

/-- Whether a number is negative, and its digits. -/
def splitSign : Text → Bool × Text
  | '-' :: digits => (true, digits)
  | '+' :: digits => (false, digits)
  | digits => (false, digits)

/-- The range of a `BIGINT`. -/
def isI64 (x : ℤ) : Bool := -2 ^ 63 ≤ x ∧ x < 2 ^ 63

/-- `str::parse::<i64>`, its errors as `none`. -/
def parseI64 (text : Text) : Option ℤ :=
  let (negative, digits) := splitSign text
  if digits.isEmpty ∨ !digits.all Char.isDigit then none
  else
    let magnitude : ℤ := Nat.ofDigitChars 10 digits 0
    let x := if negative then -magnitude else magnitude
    if isI64 x then some x else none

/-- `entry_millis`: when the engine published the batch. -/
def entryMillis (entryId : Text) : Option ℤ := do
  let (millis, _) ← splitOnce '-' entryId
  parseI64 millis

/-- `format!("{}:{}", batch.seq, i)`: the same each time the batch is delivered. -/
def eventId (seq : UInt64) (i : ℕ) : Text :=
  Nat.toDigits 10 seq.toNat ++ ':' :: Nat.toDigits 10 i

/-! ## Rows -/

/-- A row of `trades`; the time is unix milliseconds. -/
structure TradeRow extends Trade where
  createdAt : ℤ
deriving DecidableEq

/-- `(pair, interval_seconds, bucket)`. -/
abbrev CandleKey := Pair × ℤ × ℤ

/-- A row of `candles`, in `BIGINT` columns. -/
structure CandleRow where
  /-- the column `open` -/
  opening : ℤ
  high : ℤ
  low : ℤ
  close : ℤ
  volume : ℤ
deriving DecidableEq

/-- A row of `orders`. -/
structure OrderRow where
  accountId : AccountId
  pair : Pair
  side : Side
  orderType : OrderType
  price : UInt64
  size : UInt64
  filledQty : UInt64 := 0
  status : OrderStatus
deriving DecidableEq, Repr

/-- The tables of the writer, each by its primary key. -/
structure Tables where
  trades : HashMap Text TradeRow
  candles : HashMap CandleKey CandleRow
  orders : HashMap UInt64 OrderRow
  balances : HashMap (AccountId × Currency) Balance
deriving DecidableEq

/-- The tables after the migrations. -/
def Tables.empty : Tables := { trades := ∅, candles := ∅, orders := ∅, balances := ∅ }

/-! ## Statements -/

/-- `INTERVAL_WIDTHS`. -/
def intervalWidths : List ℤ := [1, 900, 3600, 14400, 86400, 604800]

/-- `as i64`. -/
def asI64 (x : UInt64) : ℤ := x.toInt64.toInt

theorem asI64_of_lt {x : UInt64} (h : x.toNat < 2 ^ 63) : asI64 x = x.toNat := by
  rw [asI64, Int64.toInt, UInt64.toBitVec_toInt64]
  refine BitVec.toInt_eq_toNat_of_lt ?_
  change 2 * x.toNat < 2 ^ 64
  omega

/-- `($2::bigint / w) * w`. -/
def bucketOf (seconds w : ℤ) : ℤ := seconds.tdiv w * w

/-- One row of the candle statement: inserted, or merged into the row that is
there. -/
def upsertCandle (rows : HashMap CandleKey CandleRow) (key : CandleKey) (price qty : ℤ) :
    Option (HashMap CandleKey CandleRow) :=
  match rows.lookup key with
  | none =>
      some (rows.insert key
        { opening := price, high := price, low := price, close := price, volume := qty })
  | some row =>
      if isI64 (row.volume + qty) then
        some (rows.insert key
          { row with
            high := max row.high price
            low := min row.low price
            close := price
            volume := row.volume + qty })
      else none

/-- One statement for all widths: it goes through as a whole, or it fails. -/
def upsertCandles (rows : HashMap CandleKey CandleRow) (pair : Pair) (seconds price qty : ℤ) :
    Option (HashMap CandleKey CandleRow) :=
  intervalWidths.foldlM
    (fun rows w => upsertCandle rows (pair, w, bucketOf seconds w) price qty) rows

/-- `INSERT INTO orders .. ON CONFLICT (order_id) DO NOTHING`. -/
def insertOrder (rows : HashMap UInt64 OrderRow) (orderId : UInt64) (row : OrderRow) :
    HashMap UInt64 OrderRow :=
  match rows.lookup orderId with
  | some _ => rows
  | none => rows.insert orderId row

/-- `UPDATE orders SET .. WHERE order_id = $1`. -/
def updateOrder (rows : HashMap UInt64 OrderRow) (orderId : UInt64) (set : OrderRow → OrderRow) :
    HashMap UInt64 OrderRow :=
  match rows.lookup orderId with
  | some row => rows.insert orderId (set row)
  | none => rows

/-! ## `apply_event` -/

/-- The `Trade` arm: the candles are only touched when the trade is new. -/
def Tables.applyTrade (now : ℤ) (tables : Tables) (entryId : Text) (t : Trade) :
    Option Tables :=
  let millis := (entryMillis entryId).getD now
  match tables.trades.lookup entryId with
  | some _ => some tables
  | none => do
      let candles ← upsertCandles tables.candles t.pair (millis.tdiv 1000) (asI64 t.price)
        (asI64 t.qty)
      some { tables with
        trades := tables.trades.insert entryId { toTrade := t, createdAt := millis }
        candles := candles }

/-- `apply_event`. `now` is what the clock of the writer says, in unix
milliseconds. -/
def Tables.applyEvent (now : ℤ) (tables : Tables) (entryId : Text) : Event → Option Tables
  | .trade t => tables.applyTrade now entryId t
  | .balanceChanged accountId currency available reserved =>
      some { tables with
        balances := tables.balances.insert (accountId, currency)
          { available := available, reserved := reserved } }
  | .orderAccepted orderId accountId pair side orderType price size =>
      some { tables with
        orders := insertOrder tables.orders orderId
          { accountId := accountId
            pair := pair
            side := side
            orderType := orderType
            price := price
            size := size
            status := .open } }
  | .orderCancelled orderId =>
      some { tables with
        orders := updateOrder tables.orders orderId fun row =>
          { row with status := .cancelled } }
  | .orderUpdated orderId _ _ filledQty _ status =>
      some { tables with
        orders := updateOrder tables.orders orderId fun row =>
          { row with filledQty := filledQty, status := status } }
  | .bookDelta .. => some tables

/-- The loop of `main` over the events of one entry, staged in the
transaction; `clock i` is the time when event `i` is processed. -/
def Tables.stageBatch (clock : ℕ → ℤ) (tables : Tables) (batch : EventBatch) : Option Tables :=
  batch.events.zipIdx.foldlM
    (fun tables (event, i) => tables.applyEvent (clock i) (eventId batch.seq i) event) tables

/-- The entries of the stream in order; `clock k` is the clock while entry `k`
is staged. -/
def Tables.stageAll (clock : ℕ → ℕ → ℤ) (tables : Tables) (batches : List EventBatch) :
    Option Tables :=
  batches.zipIdx.foldlM (fun tables (batch, k) => tables.stageBatch (clock k) batch) tables

/-! ## One table at a time -/

/-- What an event does to `balances`: a row is overwritten with what the event says,
nothing is added up. -/
def balanceStep (rows : HashMap (AccountId × Currency) Balance) :
    Event → HashMap (AccountId × Currency) Balance
  | .balanceChanged accountId currency available reserved =>
      rows.insert (accountId, currency) { available := available, reserved := reserved }
  | _ => rows

/-- What an event does to `orders`. An order that has a row is not inserted again, and
an update without a row finds nothing to do. -/
def orderStep (rows : HashMap UInt64 OrderRow) : Event → HashMap UInt64 OrderRow
  | .orderAccepted orderId accountId pair side orderType price size =>
      insertOrder rows orderId
        { accountId := accountId
          pair := pair
          side := side
          orderType := orderType
          price := price
          size := size
          status := .open }
  | .orderCancelled orderId =>
      updateOrder rows orderId fun row => { row with status := .cancelled }
  | .orderUpdated orderId _ _ filledQty _ status =>
      updateOrder rows orderId fun row => { row with filledQty := filledQty, status := status }
  | _ => rows

/-- The rows of `balances` after the batches of a history. -/
def balanceRows (h : List Record) : HashMap (AccountId × Currency) Balance :=
  (eventsOf h).foldl balanceStep ∅

/-- The rows of `orders` after the batches of a history. -/
def orderRows (h : List Record) : HashMap UInt64 OrderRow := (eventsOf h).foldl orderStep ∅

/-- The tables of trades and candles, and the other two. -/
theorem applyEvent_rows {now : ℤ} {tables tables' : Tables} {entryId : Text} {event : Event}
    (h : tables.applyEvent now entryId event = some tables') :
    tables'.balances = balanceStep tables.balances event ∧
      tables'.orders = orderStep tables.orders event := by
  cases event with
  | trade t =>
      simp only [Tables.applyEvent, Tables.applyTrade] at h
      split at h
      · cases h
        exact ⟨rfl, rfl⟩
      · obtain ⟨candles, _, h⟩ := Option.bind_eq_some_iff.mp h
        cases h
        exact ⟨rfl, rfl⟩
  | _ =>
      cases h
      exact ⟨rfl, rfl⟩

theorem stageBatch_rows {clock : ℕ → ℤ} {tables tables' : Tables} {batch : EventBatch}
    (h : tables.stageBatch clock batch = some tables') :
    tables'.balances = batch.events.foldl balanceStep tables.balances ∧
      tables'.orders = batch.events.foldl orderStep tables.orders := by
  have hfold : ∀ (events : List (Event × ℕ)) (tables tables' : Tables),
      events.foldlM (fun tables (event, i) =>
        Tables.applyEvent (clock i) tables (eventId batch.seq i) event) tables = some tables' →
      tables'.balances = (events.map Prod.fst).foldl balanceStep tables.balances ∧
        tables'.orders = (events.map Prod.fst).foldl orderStep tables.orders := by
    intro events
    induction events with
    | nil => intro tables tables' h; cases h; exact ⟨rfl, rfl⟩
    | cons ev events ih =>
        intro tables tables' h
        rw [List.foldlM_cons] at h
        obtain ⟨tables₁, h₁, h⟩ := Option.bind_eq_some_iff.mp h
        obtain ⟨hbalances, horders⟩ := applyEvent_rows h₁
        rw [List.map_cons, List.foldl_cons, List.foldl_cons, ← hbalances, ← horders]
        exact ih _ _ h
  have hrows := hfold _ _ _ h
  rwa [List.zipIdx_map_fst] at hrows

/-- **The tables, staged**: the rows of balances and orders are those of the
events alone. -/
theorem stageAll_rows {clock : ℕ → ℕ → ℤ} {h : List Record} {tables : Tables}
    (hstage : Tables.empty.stageAll clock (h.filterMap Record.batch) = some tables) :
    tables.balances = balanceRows h ∧ tables.orders = orderRows h := by
  have hfold : ∀ (batches : List (EventBatch × ℕ)) (tables tables' : Tables),
      batches.foldlM (fun tables (batch, k) => Tables.stageBatch (clock k) tables batch) tables
        = some tables' →
      tables'.balances = ((batches.map Prod.fst).flatMap EventBatch.events).foldl balanceStep
          tables.balances ∧
        tables'.orders = ((batches.map Prod.fst).flatMap EventBatch.events).foldl orderStep
          tables.orders := by
    intro batches
    induction batches with
    | nil => intro tables tables' h; cases h; exact ⟨rfl, rfl⟩
    | cons bk batches ih =>
        intro tables tables' h
        rw [List.foldlM_cons] at h
        obtain ⟨tables₁, h₁, h⟩ := Option.bind_eq_some_iff.mp h
        obtain ⟨hbalances, horders⟩ := stageBatch_rows h₁
        rw [List.map_cons, List.flatMap_cons, List.foldl_append, List.foldl_append, ← hbalances,
          ← horders]
        exact ih _ _ h
  have hrows := hfold _ _ _ hstage
  rwa [List.zipIdx_map_fst, ← eventsOf_eq] at hrows

/-! ## Trade times -/

/-- An entry of the stream with the id `<millis>-<seq>`. -/
structure EventsEntry where
  millis : ℕ
  seq : ℕ
  batch : EventBatch

/-- The trade of a new row is placed in time by the id of its entry, whatever
the clock says: in `created_at` and in the bucket of every width. -/
def EventsEntry.TimeFromLog (entry : EventsEntry) : Prop :=
  ∀ i t, entry.batch.events[i]? = some (.trade t) → ∀ now tables tables',
    tables.trades.lookup (eventId entry.batch.seq i) = none →
    Tables.applyEvent now tables (eventId entry.batch.seq i) (.trade t) = some tables' →
    (tables'.trades.lookup (eventId entry.batch.seq i)).map TradeRow.createdAt
        = some (entry.millis : ℤ) ∧
      (∀ w ∈ intervalWidths,
        (tables'.candles.lookup (t.pair, w, (entry.millis : ℤ) / 1000 / w * w)).isSome) ∧
      ∀ key, tables'.candles.lookup key ≠ tables.candles.lookup key →
        ∃ w ∈ intervalWidths, key = (t.pair, w, (entry.millis : ℤ) / 1000 / w * w)

theorem splitOnce_none {sep : Char} {text : Text} (h : sep ∉ text) :
    splitOnce sep text = none := by
  induction text with
  | nil => rfl
  | cons c cs ih =>
      rw [List.mem_cons, not_or] at h
      obtain ⟨hc, hcs⟩ := h
      simp [splitOnce, Ne.symm hc, ih hcs]

theorem splitOnce_append {sep : Char} {left : Text} (h : sep ∉ left) (right : Text) :
    splitOnce sep (left ++ sep :: right) = some (left, right) := by
  induction left with
  | nil => simp [splitOnce]
  | cons c cs ih =>
      rw [List.mem_cons, not_or] at h
      obtain ⟨hc, hcs⟩ := h
      simp [splitOnce, Ne.symm hc, ih hcs]

/-- Digits are neither signs nor separators. -/
theorem notMem_toDigits {c : Char} (hc : c.isDigit = false) (n : ℕ) : c ∉ Nat.toDigits 10 n := by
  intro hmem
  have hdigit := Nat.isDigit_of_mem_toDigits (by decide) (by decide) hmem
  rw [hc] at hdigit
  cases hdigit

/-- The id of an event tells no time. -/
theorem entryMillis_eventId (seq : UInt64) (i : ℕ) : entryMillis (eventId seq i) = none := by
  have hno : '-' ∉ eventId seq i := by
    have hdigits := notMem_toDigits (c := '-') rfl
    simp [eventId, hdigits]
  rw [entryMillis, splitOnce_none hno]
  rfl

theorem upsertCandles_empty (pair : Pair) (seconds price qty : ℤ) :
    ∃ rows, upsertCandles ∅ pair seconds price qty = some rows := by
  simp [upsertCandles, intervalWidths, upsertCandle]

/-- **A new trade gets the time of the clock**, as `main` calls `apply_event`. -/
theorem createdAt_eq_now (now : ℤ) (seq : UInt64) (i : ℕ) (t : Trade) :
    ∃ tables', Tables.empty.applyEvent now (eventId seq i) (.trade t) = some tables' ∧
      (tables'.trades.lookup (eventId seq i)).map TradeRow.createdAt = some now := by
  obtain ⟨rows, hrows⟩ := upsertCandles_empty t.pair (now.tdiv 1000) (asI64 t.price) (asI64 t.qty)
  refine ⟨{ Tables.empty with
    trades := Tables.empty.trades.insert (eventId seq i) { toTrade := t, createdAt := now }
    candles := rows }, ?_, ?_⟩
  · simp [Tables.applyEvent, Tables.applyTrade, entryMillis_eventId, Tables.empty, hrows]
  · rw [lookup_insert_ite, if_pos rfl]
    rfl

/-- A millisecond of delay is enough. -/
theorem not_timeFromLog {entry : EventsEntry} {i : ℕ} {t : Trade}
    (h : entry.batch.events[i]? = some (.trade t)) : ¬ entry.TimeFromLog := by
  intro hlog
  obtain ⟨tables', happly, htime⟩ := createdAt_eq_now (entry.millis + 1) entry.batch.seq i t
  obtain ⟨hmillis, _⟩ := hlog i t h _ _ _ rfl happly
  rw [htime] at hmillis
  have hlate : (entry.millis : ℤ) + 1 = entry.millis := Option.some.inj hmillis
  omega

/-- **Exactly the entries without trades** are placed in time by the log. -/
theorem timeFromLog_iff (entry : EventsEntry) :
    entry.TimeFromLog ↔ ∀ event ∈ entry.batch.events, event.trade? = none := by
  constructor
  · intro hlog event hevent
    obtain ⟨i, hi⟩ := List.getElem?_of_mem hevent
    cases event with
    | trade t => exact absurd hlog (not_timeFromLog hi)
    | _ => rfl
  · intro hnone i t hi
    have htrade := hnone _ (List.mem_of_getElem? hi)
    cases htrade

def lateTrade : Trade where
  pair := { base := .SOL, quote := .USD }
  price := 11
  qty := 1
  makerId := 0
  takerId := 1
  takerSide := .bid
  makerAccount := 1
  takerAccount := 2

/-- A bid of account 2 took the unit account 1 had offered at 11. -/
def lateEntry : EventsEntry where
  millis := 1700000000000
  seq := 0
  batch :=
    { seq := 7
      events :=
        [.orderAccepted 1 2 lateTrade.pair .bid .limit 11 1,
          .trade lateTrade,
          .orderUpdated 0 1 lateTrade.pair 1 0 .filled,
          .orderUpdated 1 2 lateTrade.pair 1 0 .filled,
          .bookDelta lateTrade.pair .ask 11 0,
          .balanceChanged 1 .USD 11 0,
          .balanceChanged 1 .SOL 0 0,
          .balanceChanged 2 .USD 0 0,
          .balanceChanged 2 .SOL 1 0] }

theorem lateEntry_not_timeFromLog : ¬ lateEntry.TimeFromLog :=
  have htrade : lateEntry.batch.events[1]? = some (.trade lateTrade) := rfl
  not_timeFromLog htrade

end MatchingEngine
