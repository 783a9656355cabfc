import MatchingEngine.Auth
import MatchingEngine.Candles
import MatchingEngine.Lib.Latest
import MatchingEngine.Retention

/-!
# Chart: the candles a client is shown

`GET /candles/:pair` reads the rollups of the writer. Whatever was deleted between the
batches, the answer is made of whole buckets of the engine's trades, each their open,
high, low, close and volume, the newest of those asked for and no more than asked for
(`chart_exact`). What is missing is older than the rest, or a one-second candle past its
number of days.
-/

namespace MatchingEngine

open RustArith HashModel SystemModel

/-! ## `GET /candles/:pair` -/

/-- The labels of `INTERVAL_WIDTHS`. -/
def intervalSeconds (label : Text) : Option ℤ :=
  if label = "1s".toList then some 1
  else if label = "15m".toList then some 900
  else if label = "1h".toList then some 3600
  else if label = "4h".toList then some 14400
  else if label = "1d".toList then some 86400
  else if label = "1w".toList then some 604800
  else none

/-- How many candles are answered when the client does not say. -/
def defaultCandlesLimit : ℤ := 200

/-- However many the client asks for. -/
def maxCandlesLimit : ℤ := 1000

/-- The query string, parsed; `stop` is its `end`. -/
structure CandlesQuery where
  interval : Text
  start : Option ℤ
  stop : Option ℤ
  limit : Option ℤ

/-- How many rows are asked for. -/
def CandlesQuery.rowLimit (q : CandlesQuery) : ℕ :=
  (max 1 (min (q.limit.getD defaultCandlesLimit) maxCandlesLimit)).toNat

/-- `bucket >= start` and `bucket < end`, where given. -/
def CandlesQuery.covers (q : CandlesQuery) (bucket : ℤ) : Bool :=
  (q.start.all fun start => start ≤ bucket) && q.stop.all fun stop => bucket < stop

/-- The buckets that the `WHERE` lets through. -/
def bucketsIn (candles : HashMap CandleKey CandleRow) (pair : Pair) (seconds : ℤ)
    (q : CandlesQuery) : Finset ℤ :=
  (candles.keys.filter fun k => k.1 = pair ∧ k.2.1 = seconds ∧ q.covers k.2.2 = true).image
    fun k => k.2.2

/-- The statement of `get_candles`: times and rows. -/
def selectCandles (candles : HashMap CandleKey CandleRow) (pair : Pair) (seconds : ℤ)
    (q : CandlesQuery) : List (ℤ × CandleRow) :=
  (latest q.rowLimit (bucketsIn candles pair seconds q)).filterMap fun bucket =>
    (candles.lookup (pair, seconds, bucket)).map (bucket, ·)

/-- `get_candles`: 400 for a pair that does not parse and for an interval that is not
kept. -/
def getCandles (candles : HashMap CandleKey CandleRow) (rawPair : Text) (q : CandlesQuery) :
    Except ApiError (List (ℤ × CandleRow)) :=
  match Pair.tryFrom rawPair with
  | none => .error (.badRequest "invalid pair, expected BASE-QUOTE")
  | some pair =>
      match intervalSeconds q.interval with
      | none => .error (.badRequest "invalid interval, expected one of 1s/15m/1h/4h/1d/1w")
      | some seconds => .ok (selectCandles candles pair seconds q)

/-- "every label the API accepts must be a width db_writer actually maintains" -/
theorem intervalSeconds_mem {label : Text} {w : ℤ} (h : intervalSeconds label = some w) :
    w ∈ intervalWidths := by
  unfold intervalSeconds at h
  repeat' split at h
  all_goals (cases h <;> decide)

theorem CandlesQuery.rowLimit_bounds (q : CandlesQuery) : 1 ≤ q.rowLimit ∧ q.rowLimit ≤ 1000 := by
  rw [rowLimit, maxCandlesLimit]
  omega

section Select

variable {candles : HashMap CandleKey CandleRow} {pair : Pair} {seconds : ℤ} {q : CandlesQuery}

theorem mem_bucketsIn {bucket : ℤ} : bucket ∈ bucketsIn candles pair seconds q ↔
    (∃ row, candles.lookup (pair, seconds, bucket) = some row) ∧ q.covers bucket = true := by
  rw [bucketsIn, Finset.mem_image, ← Option.isSome_iff_exists, Finmap.lookup_isSome,
    ← Finmap.mem_keys]
  constructor
  · rintro ⟨⟨_, _, _⟩, hk, rfl⟩
    obtain ⟨hkey, rfl, rfl, hcovers⟩ := Finset.mem_filter.mp hk
    exact ⟨hkey, hcovers⟩
  · rintro ⟨hkey, hcovers⟩
    exact ⟨(pair, seconds, bucket), Finset.mem_filter.mpr ⟨hkey, rfl, rfl, hcovers⟩, rfl⟩

/-- The times of the answer. -/
theorem selectCandles_times : (selectCandles candles pair seconds q).map Prod.fst
    = latest q.rowLimit (bucketsIn candles pair seconds q) := by
  have hrows : ∀ buckets : List ℤ,
      (∀ bucket ∈ buckets, ∃ row, candles.lookup (pair, seconds, bucket) = some row) →
      (buckets.filterMap fun bucket =>
        (candles.lookup (pair, seconds, bucket)).map (bucket, ·)).map Prod.fst = buckets := by
    intro buckets
    induction buckets with
    | nil => exact fun _ => rfl
    | cons bucket buckets ih =>
        intro hall
        obtain ⟨row, hrow⟩ := hall bucket List.mem_cons_self
        rw [List.filterMap_cons, hrow]
        show bucket :: List.map _ _ = _
        rw [ih fun bucket' hin => hall bucket' (List.mem_cons_of_mem _ hin)]
  exact hrows _ fun bucket hin => (mem_bucketsIn.mp (mem_of_latest hin)).1

theorem mem_selectCandles {bucket : ℤ} {row : CandleRow} :
    (bucket, row) ∈ selectCandles candles pair seconds q ↔
      bucket ∈ latest q.rowLimit (bucketsIn candles pair seconds q) ∧
        candles.lookup (pair, seconds, bucket) = some row := by
  rw [selectCandles, List.mem_filterMap]
  constructor
  · rintro ⟨bucket', hin, hrow⟩
    obtain ⟨row', hlookup, heq⟩ := Option.map_eq_some_iff.mp hrow
    cases heq
    exact ⟨hin, hlookup⟩
  · rintro ⟨hin, hlookup⟩
    exact ⟨bucket, hin, by rw [hlookup]; rfl⟩

/-- **A row that is there** is in the answer, or older than a full one. -/
theorem selectCandles_or {bucket : ℤ} {row : CandleRow}
    (hrow : candles.lookup (pair, seconds, bucket) = some row) (hcovers : q.covers bucket = true) :
    (bucket, row) ∈ selectCandles candles pair seconds q ∨
      (selectCandles candles pair seconds q).length = q.rowLimit ∧
        ∀ p ∈ selectCandles candles pair seconds q, bucket < p.1 := by
  have hlength := congrArg List.length (@selectCandles_times candles pair seconds q)
  rw [List.length_map] at hlength
  rcases latest_or (n := q.rowLimit) (mem_bucketsIn.mpr ⟨⟨row, hrow⟩, hcovers⟩) with hin | hout
  · exact .inl (mem_selectCandles.mpr ⟨hin, hrow⟩)
  · refine .inr ⟨hlength.trans hout.1, fun p hp => hout.2 _ ?_⟩
    exact (mem_selectCandles.mp hp).1

end Select

/-! ## The trades that were delivered -/

/-- The events of a delivery as the writer takes them. -/
def Delivery.processed (d : Delivery) : List Processed :=
  d.batch.events.zipIdx.map fun (event, i) =>
    { now := d.clock i, entryId := eventId d.batch.seq i, event := event }

/-- The trades of some deliveries, each with the second the writer took it. -/
def deliveredTrades (ds : List Delivery) : List (ℤ × Trade) :=
  timedTrades (ds.flatMap Delivery.processed)

theorem deliver_processed (ds : List Delivery) : ∀ tables : Tables,
    tables.deliver ds = tables.applyEvents (ds.flatMap Delivery.processed) := by
  induction ds with
  | nil => exact fun _ => rfl
  | cons d ds ih =>
      intro tables
      have hone : tables.stageBatch d.clock d.batch = tables.applyEvents d.processed := by
        rw [Tables.stageBatch, Tables.applyEvents, Delivery.processed, List.foldlM_map]
      rw [Tables.deliver, List.foldlM_cons, List.flatMap_cons, Tables.applyEvents,
        List.foldlM_append, hone]
      exact bind_congr ih

theorem mem_processed {d : Delivery} {p : Processed} (h : p ∈ d.processed) :
    ∃ i, p.now = d.clock i ∧ p.entryId = eventId d.batch.seq i := by
  obtain ⟨⟨event, i⟩, _, rfl⟩ := List.mem_map.mp h
  exact ⟨i, rfl, rfl⟩

/-- **The ids of a run**: each is given once. -/
theorem processed_nodup {ds : List Delivery} (hlen : ds.length ≤ 2 ^ 64)
    (hseq : ∀ k d, ds[k]? = some d → d.batch.seq = UInt64.ofNat k) :
    ((ds.flatMap Delivery.processed).map Processed.entryId).Nodup := by
  have hids : ∀ d : Delivery, d.processed.map Processed.entryId
      = (List.range' 0 d.batch.events.length).map (eventId d.batch.seq) := by
    intro d
    rw [← List.zipIdx_map_snd, Delivery.processed, List.map_map, List.map_map]
    rfl
  rw [List.map_flatMap, List.nodup_flatMap]
  simp only [hids]
  constructor
  · intro d _
    exact (List.nodup_range' 1).map fun _ _ heq => (eventId_inj heq).2
  · rw [List.pairwise_iff_getElem]
    intro j k hj hk hlt id hidj hidk
    obtain ⟨_, _, rfl⟩ := List.mem_map.mp hidj
    obtain ⟨_, _, heq⟩ := List.mem_map.mp hidk
    have hwords := (eventId_inj heq).1
    rw [hseq k _ (List.getElem?_eq_getElem hk), hseq j _ (List.getElem?_eq_getElem hj)] at hwords
    have hk64 : k < 2 ^ 64 := by omega
    have hnat := congrArg UInt64.toNat hwords
    rw [UInt64.toNat_ofNat_of_lt' hk64, UInt64.toNat_ofNat_of_lt' (hlt.trans hk64)] at hnat
    omega

/-- **The candles of a writer that never deletes**, row by row. -/
theorem deliver_candles {ds : List Delivery} {full : Tables}
    (hdeliver : Tables.empty.deliver ds = some full) (hlen : ds.length ≤ 2 ^ 64)
    (hseq : ∀ k d, ds[k]? = some d → d.batch.seq = UInt64.ofNat k)
    (htime : ∀ d ∈ ds, ∀ i, 0 ≤ d.clock i) {w : ℤ} (hw : w ∈ intervalWidths) (pair : Pair)
    (bucket : ℤ) :
    ((full.candles.lookup (pair, w, bucket)).isSome ↔
      bucketTrades (deliveredTrades ds) pair w bucket ≠ []) ∧
      ∀ row, full.candles.lookup (pair, w, bucket) = some row →
        CandleFits (bucketTrades (deliveredTrades ds) pair w bucket) →
        Ohlcv ((bucketTrades (deliveredTrades ds) pair w bucket).map tick) row := by
  have hdistinct := (processed_nodup hlen hseq).sublist
    ((List.filter_sublist (p := fun p => p.event.trade?.isSome)).map Processed.entryId)
  have hmillis : ∀ p ∈ ds.flatMap Delivery.processed, p.event.trade?.isSome → 0 ≤ p.millis := by
    intro p hp _
    obtain ⟨d, hd, hp⟩ := List.mem_flatMap.mp hp
    obtain ⟨i, hnow, hid⟩ := mem_processed hp
    rw [Processed.millis, hid, entryMillis_eventId, Option.getD_none, hnow]
    exact htime d hd i
  have hcandles := @applyEvents_candles _ .empty hdistinct hmillis fun _ _ _ => rfl
  rw [← deliver_processed, hdeliver] at hcandles
  exact candle_of_stream hcandles.symm hw pair bucket

/-! ## The chart -/

/-- The writer's clock, and what it said. -/
theorem Ingest.timed {r : Retention} {batches : List EventBatch} {x : Ingest}
    (hruns : Runs (Ingest.step r batches) (fun _ _ => True) .init x) :
    0 ≤ x.now ∧ ∀ d ∈ x.delivered, ∀ i, 0 ≤ d.clock i := by
  refine hruns.invariant
    (motive := fun x => 0 ≤ x.now ∧ ∀ d ∈ x.delivered, ∀ i, 0 ≤ d.clock i)
    ⟨le_rfl, fun d hd => (by cases hd)⟩ ?_
  intro x a x' hx _ hstep
  obtain ⟨hnow, hclocks⟩ := hx
  cases a with
  | tick millis =>
      cases hstep
      exact ⟨by dsimp only; omega, hclocks⟩
  | batch lag =>
      obtain ⟨batch, _, hstep⟩ := Option.bind_eq_some_iff.mp hstep
      obtain ⟨pg, _, rfl⟩ := Option.map_eq_some_iff.mp hstep
      refine ⟨hnow, fun d hd i => ?_⟩
      rcases List.mem_append.mp hd with hd | hd
      · exact hclocks d hd i
      · cases List.mem_singleton.mp hd
        dsimp only
        omega
  | sweep scans =>
      cases hstep
      exact ⟨hnow, hclocks⟩
  | delete swept =>
      cases hstep
      exact ⟨hnow, hclocks⟩

/-- **The chart is exact**, whatever the environment says and was deleted: for a pair and
an interval that are known, the answer is made of the candles of whole buckets of the
window, in order and no more than asked for. A bucket with trades is left out when it is
older than a full answer, or than one-second candles are kept. -/
theorem chart_exact {b : Build} {limits : Limits} {h : List Record} {e : Engine}
    (hr : Reaches b limits h e) (hlen : b.Checks ((h.filterMap Record.batch).length ≤ 2 ^ 64))
    {env : String → Option Text} {r : Retention} (henv : r = Retention.fromEnv env) {x : Ingest}
    (hruns : Runs (Ingest.step r (h.filterMap Record.batch)) (fun _ _ => True) .init x)
    {rawPair : Text} {pair : Pair} (hpair : Pair.tryFrom rawPair = some pair)
    {q : CandlesQuery} {w : ℤ} (hw : intervalSeconds q.interval = some w) :
    x.delivered.map Delivery.batch = (h.filterMap Record.batch).take x.delivered.length ∧
    ∃ rows, getCandles x.pg.tables.candles rawPair q = .ok rows ∧
      (rows.map Prod.fst).Pairwise (· < ·) ∧
      rows.length ≤ q.rowLimit ∧ (1 ≤ q.rowLimit ∧ q.rowLimit ≤ 1000) ∧
      (∀ bucket row, (bucket, row) ∈ rows → q.covers bucket = true ∧
        bucketTrades (deliveredTrades x.delivered) pair w bucket ≠ [] ∧
        (CandleFits (bucketTrades (deliveredTrades x.delivered) pair w bucket) →
          Ohlcv ((bucketTrades (deliveredTrades x.delivered) pair w bucket).map tick) row)) ∧
      ∀ t ∈ deliveredTrades x.delivered, t.2.pair = pair → q.covers (t.1 / w * w) = true →
        (∃ row, (t.1 / w * w, row) ∈ rows) ∨
        (rows.length = q.rowLimit ∧ ∀ p ∈ rows, t.1 / w * w < p.1) ∨
        (w = 1 ∧ r.candle1sDays ≠ 0 ∧
          t.1 * 1000 < x.now - r.candle1sDays * 86400000) := by
  have hdays : 0 ≤ r.candle1sDays := henv ▸ Retention.fromEnv_nonneg env
  obtain ⟨full, hx⟩ := Ingest.kept hr hlen hdays hruns
  obtain ⟨_, hdebug, hseq⟩ := hr.numbered
  have hwords := hlen.elim (fun hb => (hdebug hb).le) id
  have hmem := intervalSeconds_mem hw
  have hnumbers : ∀ k d, x.delivered[k]? = some d → d.batch.seq = UInt64.ofNat k := by
    intro k d hd
    have hlt := (List.getElem?_eq_some_iff.mp hd).1
    refine hseq k d.batch ?_
    rw [← List.getElem?_take_of_lt hlt, ← hx.delivered, List.getElem?_map, hd]
    rfl
  have hcandles := deliver_candles hx.deliver (hx.count.trans hwords) hnumbers
    (Ingest.timed hruns).2 hmem pair
  refine ⟨hx.delivered, selectCandles x.pg.tables.candles pair w q, ?_, ?_, ?_,
    q.rowLimit_bounds, ?_, ?_⟩
  · rw [getCandles, hpair]
    dsimp only
    rw [hw]
  · rw [selectCandles_times]
    exact latest_sorted _ _
  · rw [← List.length_map (f := Prod.fst), selectCandles_times]
    exact latest_length _ _
  · intro bucket row hin
    obtain ⟨hlatest, hrow⟩ := mem_selectCandles.mp hin
    obtain ⟨hsome, hohlcv⟩ := hcandles bucket
    have hfull := hx.keeps.candles.kept hrow
    exact ⟨(mem_bucketsIn.mp (mem_of_latest hlatest)).2,
      hsome.mp (by rw [hfull]; rfl), hohlcv row hfull⟩
  · intro t ht htpair hcovers
    have htrade : t ∈ bucketTrades (deliveredTrades x.delivered) pair w (t.1 / w * w) :=
      List.mem_filter.mpr ⟨ht, by simp [htpair]⟩
    obtain ⟨row, hfull⟩ := Option.isSome_iff_exists.mp
      ((hcandles (t.1 / w * w)).1.mpr (List.ne_nil_of_mem htrade))
    rcases hx.keeps.candles.lookup (pair, w, t.1 / w * w) with hsame | ⟨_, _, _, rfl, hne, hbucket⟩
    · rcases selectCandles_or (hsame.trans hfull) hcovers with hin | hout
      · exact .inl ⟨row, hin⟩
      · exact .inr (.inl hout)
    · rw [Int.ediv_one, mul_one] at hbucket
      exact .inr (.inr ⟨rfl, hne, hbucket⟩)

/-- The second trade of the trading run comes an hour after the first. -/
def hourRun : List IngestAction :=
  List.replicate 4 (.batch fun _ => 0) ++ [.tick 3600000, .batch fun _ => 0]

/-- The last hour, which is all that was asked for. -/
theorem chart_exact_hour : ∃ (x : Ingest) (row : CandleRow),
    getCandles x.pg.tables.candles "SOL-USD".toList
      { interval := "1h".toList, start := none, stop := none, limit := some 1 }
        = .ok [(3600, row)] ∧ Ohlcv [(11, 2)] row := by
  let market : Pair := { base := .SOL, quote := .USD }
  let q : CandlesQuery :=
    { interval := "1h".toList, start := none, stop := none, limit := some 1 }
  have hcheck : (exec (Ingest.step (Retention.fromEnv fun _ => none) tradingBatches)
      (fun _ _ => true) .init hourRun).any (fun x : Ingest => decide (
        (bucketTrades (deliveredTrades x.delivered) market 3600 3600).map tick = [(11, 2)] ∧
        ∀ t ∈ deliveredTrades x.delivered, t.1 / 3600 * 3600 ≤ 3600)) = true := by
    decide +kernel
  obtain ⟨x, hruns, hx⟩ := exists_run (C := fun _ _ => True) (fun _ _ _ => trivial) hcheck
  obtain ⟨hticks, hlast⟩ := of_decide_eq_true hx
  obtain ⟨_, rows, hrows, _, hcount, _, hall, hmissing⟩ := chart_exact
    (reaches_runCalls tradingCalls_returned) (.inr (by decide +kernel)) rfl hruns
    (show Pair.tryFrom "SOL-USD".toList = some market by decide +kernel)
    (show intervalSeconds q.interval = some 3600 by decide +kernel)
  obtain ⟨t, ht, htick⟩ := List.map_eq_singleton_iff.mp hticks
  obtain ⟨hprice, hqty⟩ := Prod.mk.inj htick
  have hfits : CandleFits (bucketTrades (deliveredTrades x.delivered) market 3600 3600) := by
    rw [ht]
    constructor
    · intro t' ht'
      cases List.mem_singleton.mp ht'
      omega
    · rw [List.map_singleton, List.sum_singleton]
      omega
  have hin : t ∈ bucketTrades (deliveredTrades x.delivered) market 3600 3600 := by
    rw [ht]
    exact List.mem_singleton_self t
  obtain ⟨hdelivered, hof⟩ := List.mem_filter.mp hin
  obtain ⟨htpair, htbucket⟩ := of_decide_eq_true hof
  rcases hmissing t hdelivered htpair rfl with ⟨row, hrow⟩ | ⟨hfull, hnewer⟩ | ⟨hone, _⟩
  · rw [htbucket] at hrow
    obtain ⟨p, rfl⟩ :=
      List.length_eq_one_iff.mp (le_antisymm hcount (List.length_pos_of_mem hrow))
    cases List.mem_singleton.mp hrow
    refine ⟨x, row, hrows, ?_⟩
    rw [← hticks]
    exact (hall 3600 row hrow).2.2 hfits
  · -- no trade came later
    obtain ⟨⟨bucket, row⟩, rfl⟩ := List.length_eq_one_iff.mp hfull
    obtain ⟨_, hnonempty, _⟩ := hall bucket row List.mem_cons_self
    obtain ⟨t', ht'⟩ := List.exists_mem_of_ne_nil _ hnonempty
    obtain ⟨hdelivered', hof'⟩ := List.mem_filter.mp ht'
    obtain ⟨_, htbucket'⟩ := of_decide_eq_true hof'
    have hlater := hnewer _ List.mem_cons_self
    have hle := hlast t' hdelivered'
    omega
  · cases hone

end MatchingEngine
