import Mathlib.Algebra.BigOperators.Ring.Finset
import Mathlib.Algebra.Order.BigOperators.Group.List
import Mathlib.Algebra.Order.Group.Nat
import Mathlib.Order.Bounds.Basic
import MatchingEngine.DbWriter
import MatchingEngine.Lib.Upsert

/-!
# Candles: rows are the OHLCV of the trades

One statement per trade touches six rows. `applyEvents_candles` says what a
stream of events does to the candles: an upsert for each trade and width, so
that a row collects the trades of its own bucket (`Lib/Upsert`) and is their
open, high, low, close and volume (`Ohlcv`). A wider bucket is made of
narrower ones (`Ohlcv.of_fibers`).
-/

namespace MatchingEngine

open RustArith HashModel

/-- An event as the writer takes it from the stream. -/
structure Processed where
  now : ℤ
  entryId : Text
  event : Event

/-- The time `apply_event` goes by. -/
def Processed.millis (p : Processed) : ℤ := (entryMillis p.entryId).getD p.now

/-- The events of a stream, one after the other. -/
def Tables.applyEvents (tables : Tables) (ps : List Processed) : Option Tables :=
  ps.foldlM (fun tables p => tables.applyEvent p.now p.entryId p.event) tables

/-- The trades, each with its second. -/
def timedTrades (ps : List Processed) : List (ℤ × Trade) :=
  ps.filterMap fun p => p.event.trade?.map fun t => (p.millis / 1000, t)

/-- The trades of a pair that fall into a bucket. -/
def bucketTrades (xs : List (ℤ × Trade)) (pair : Pair) (w bucket : ℤ) : List (ℤ × Trade) :=
  xs.filter fun x => x.2.pair = pair ∧ x.1 / w * w = bucket

/-- Price and quantity. -/
def tick (x : ℤ × Trade) : ℤ × ℤ := (x.2.price.toNat, x.2.qty.toNat)

/-- Prices and volume fit into the columns. -/
structure CandleFits (xs : List (ℤ × Trade)) : Prop where
  price : ∀ x ∈ xs, x.2.price.toNat < 2 ^ 63
  volume : (xs.map fun x => x.2.qty.toNat).sum < 2 ^ 63

/-- **The candle of some ticks.** -/
structure Ohlcv (ticks : List (ℤ × ℤ)) (row : CandleRow) : Prop where
  opening : (ticks.head?).map Prod.fst = some row.opening
  high : IsGreatest {p | p ∈ ticks.map Prod.fst} row.high
  low : IsLeast {p | p ∈ ticks.map Prod.fst} row.low
  close : (ticks.getLast?).map Prod.fst = some row.close
  volume : row.volume = (ticks.map Prod.snd).sum

/-! ## One row -/

/-- The values the statement inserts. -/
def insertedCandle (tick : ℤ × ℤ) : CandleRow :=
  { opening := tick.1, high := tick.1, low := tick.1, close := tick.1, volume := tick.2 }

/-- The `DO UPDATE` of the statement. -/
def mergedCandle (row : CandleRow) (tick : ℤ × ℤ) : Option CandleRow :=
  if isI64 (row.volume + tick.2) then
    some
      { row with
        high := max row.high tick.1
        low := min row.low tick.1
        close := tick.1
        volume := row.volume + tick.2 }
  else none

theorem upsertCandle_eq (rows : HashMap CandleKey CandleRow) (key : CandleKey) (price qty : ℤ) :
    upsertCandle rows key price qty
      = upsert insertedCandle mergedCandle rows (key, (price, qty)) := by
  unfold upsertCandle upsert mergedCandle
  cases rows.lookup key with
  | none => rfl
  | some row =>
      dsimp only
      split
      · rfl
      · rfl

theorem Ohlcv.inserted (x : ℤ × ℤ) : Ohlcv [x] (insertedCandle x) where
  opening := rfl
  high := by simp [insertedCandle, IsGreatest, upperBounds]
  low := by simp [insertedCandle, IsLeast, lowerBounds]
  close := rfl
  volume := by simp [insertedCandle]

/-- **A later tick.** -/
theorem Ohlcv.merged {ticks : List (ℤ × ℤ)} {x : ℤ × ℤ} {row row' : CandleRow}
    (h : Ohlcv ticks row) (hmerge : mergedCandle row x = some row') :
    Ohlcv (ticks ++ [x]) row' := by
  unfold mergedCandle at hmerge
  split at hmerge
  · cases hmerge
    have hset : {p | p ∈ (ticks ++ [x]).map Prod.fst}
        = {p | p ∈ ticks.map Prod.fst} ∪ {x.1} := by
      ext p
      simp [or_comm]
    constructor
    case opening =>
      have hopening := h.opening
      cases ticks with
      | nil => cases hopening
      | cons y ys => exact hopening
    case high =>
      rw [hset]
      exact h.high.union isGreatest_singleton
    case low =>
      rw [hset]
      exact h.low.union isLeast_singleton
    case close => simp
    case volume => simp [h.volume]
  · cases hmerge

theorem Ohlcv.mergeAll {ticks xs : List (ℤ × ℤ)} {row row' : CandleRow} (h : Ohlcv ticks row)
    (hmerge : xs.foldlM mergedCandle row = some row') : Ohlcv (ticks ++ xs) row' := by
  induction xs generalizing ticks row with
  | nil =>
      cases hmerge
      rwa [List.append_nil]
  | cons x xs ih =>
      rw [List.foldlM_cons] at hmerge
      obtain ⟨next, hnext, hrest⟩ := Option.bind_eq_some_iff.mp hmerge
      have hall := ih (h.merged hnext) hrest
      rwa [List.append_assoc] at hall

/-- **A row that was collected** is the candle of what it collected. -/
theorem ohlcv_of_collect {xs : List (ℤ × ℤ)} {row : Option CandleRow}
    (h : xs.foldlM (collect insertedCandle mergedCandle) none = some row) :
    (row.isSome ↔ xs ≠ []) ∧ ∀ r, row = some r → Ohlcv xs r := by
  cases xs with
  | nil =>
      cases h
      exact ⟨by simp, nofun⟩
  | cons x xs =>
      rw [collect_none] at h
      obtain ⟨r, hmerge, rfl⟩ := Option.map_eq_some_iff.mp h
      refine ⟨by simp, ?_⟩
      rintro _ ⟨rfl⟩
      exact (Ohlcv.inserted x).mergeAll hmerge

/-- A volume that fits is collected. -/
theorem collect_returns {xs : List (ℤ × ℤ)} (hpos : ∀ x ∈ xs, 0 ≤ x.2)
    (hsum : (xs.map Prod.snd).sum < 2 ^ 63) :
    ∃ row, xs.foldlM (collect insertedCandle mergedCandle) none = some row := by
  have hmerge : ∀ (xs : List (ℤ × ℤ)) (row : CandleRow), 0 ≤ row.volume →
      (∀ x ∈ xs, 0 ≤ x.2) → row.volume + (xs.map Prod.snd).sum < 2 ^ 63 →
      ∃ row', xs.foldlM mergedCandle row = some row' := by
    intro xs
    induction xs with
    | nil => exact fun row _ _ _ => ⟨row, rfl⟩
    | cons x xs ih =>
        intro row hrow hpos hsum
        rw [List.map_cons, List.sum_cons] at hsum
        have hx := hpos x List.mem_cons_self
        have hxs : 0 ≤ (xs.map Prod.snd).sum :=
          List.sum_nonneg fun q hq => by
            obtain ⟨y, hy, rfl⟩ := List.mem_map.mp hq
            exact hpos y (List.mem_cons_of_mem _ hy)
        have hfits : isI64 (row.volume + x.2) = true := by
          simp only [isI64, decide_eq_true_eq]
          omega
        obtain ⟨row', hrow'⟩ := ih
          { row with
            high := max row.high x.1
            low := min row.low x.1
            close := x.1
            volume := row.volume + x.2 }
          (by dsimp only; omega) (fun y hy => hpos y (List.mem_cons_of_mem _ hy))
          (by dsimp only; omega)
        refine ⟨row', ?_⟩
        rw [List.foldlM_cons, mergedCandle, if_pos hfits]
        exact hrow'
  cases xs with
  | nil => exact ⟨none, rfl⟩
  | cons x xs =>
      obtain ⟨row, hrow⟩ := hmerge xs (insertedCandle x) (hpos x List.mem_cons_self)
        (fun y hy => hpos y (List.mem_cons_of_mem _ hy))
        (by rw [List.map_cons, List.sum_cons] at hsum; exact hsum)
      exact ⟨some row, by rw [collect_none, hrow]; rfl⟩

/-! ## All rows -/

/-- The items of one statement: a trade for every width. -/
def candleItems (x : ℤ × Trade) : List (CandleKey × (ℤ × ℤ)) :=
  intervalWidths.map fun w =>
    ((x.2.pair, w, x.1 / w * w), (asI64 x.2.price, asI64 x.2.qty))

theorem upsertCandles_eq (rows : HashMap CandleKey CandleRow) {millis : ℤ} (h : 0 ≤ millis)
    (t : Trade) :
    upsertCandles rows t.pair (millis.tdiv 1000) (asI64 t.price) (asI64 t.qty)
      = (candleItems (millis / 1000, t)).foldlM (upsert insertedCandle mergedCandle) rows := by
  have hseconds : 0 ≤ millis / 1000 := Int.ediv_nonneg h (by decide)
  have hbucket : ∀ w, bucketOf (millis.tdiv 1000) w = millis / 1000 / w * w := by
    intro w
    rw [bucketOf, Int.tdiv_eq_ediv_of_nonneg h, Int.tdiv_eq_ediv_of_nonneg hseconds]
  rw [upsertCandles, candleItems, List.foldlM_map]
  simp only [upsertCandle_eq, hbucket]

/-- The other events leave trades and candles alone. -/
theorem applyEvent_other {event : Event} (h : event.trade? = none) (now : ℤ) (tables : Tables)
    (entryId : Text) : ∃ tables', tables.applyEvent now entryId event = some tables' ∧
      tables'.candles = tables.candles ∧ tables'.trades = tables.trades := by
  cases event with
  | trade t => cases h
  | _ => exact ⟨_, rfl, rfl, rfl⟩

/-- **What a stream does to the candles**, when its trades are new and none of
them comes twice. -/
theorem applyEvents_candles {ps : List Processed} {tables : Tables}
    (hdistinct : ((ps.filter fun p => p.event.trade?.isSome).map Processed.entryId).Nodup)
    (htime : ∀ p ∈ ps, p.event.trade?.isSome → 0 ≤ p.millis)
    (hnew : ∀ p ∈ ps, p.event.trade?.isSome → tables.trades.lookup p.entryId = none) :
    (tables.applyEvents ps).map Tables.candles
      = ((timedTrades ps).flatMap candleItems).foldlM (upsert insertedCandle mergedCandle)
          tables.candles := by
  induction ps generalizing tables with
  | nil => rfl
  | cons p ps ih =>
      have htime' : ∀ p ∈ ps, p.event.trade?.isSome → 0 ≤ p.millis :=
        fun p hp => htime p (List.mem_cons_of_mem _ hp)
      rw [Tables.applyEvents, List.foldlM_cons]
      cases htrade : p.event.trade? with
      | none =>
          obtain ⟨tables₁, hfirst, hcandles, htrades⟩ :=
            applyEvent_other htrade p.now tables p.entryId
          have hxs : timedTrades (p :: ps) = timedTrades ps :=
            List.filterMap_cons_none (by rw [htrade]; rfl)
          rw [List.filter_cons_of_neg (by simp [htrade])] at hdistinct
          rw [hfirst, hxs, ← hcandles]
          exact ih hdistinct htime' fun p' hp' hsome => by
            rw [htrades]
            exact hnew p' (List.mem_cons_of_mem _ hp') hsome
      | some t =>
          have hsome : p.event.trade?.isSome := by rw [htrade]; rfl
          have hfresh := hnew p List.mem_cons_self hsome
          have hevent : p.event = .trade t := by
            cases hevent : p.event with
            | trade t' =>
                rw [hevent] at htrade
                exact congrArg Event.trade (Option.some.inj htrade)
            | _ => rw [hevent] at htrade; cases htrade
          have hxs : timedTrades (p :: ps) = (p.millis / 1000, t) :: timedTrades ps :=
            List.filterMap_cons_some (by rw [htrade]; rfl)
          rw [List.filter_cons_of_pos (by simp [htrade]), List.map_cons, List.nodup_cons]
            at hdistinct
          rw [hxs, List.flatMap_cons, List.foldlM_append,
            ← upsertCandles_eq _ (htime p List.mem_cons_self hsome), hevent, Tables.applyEvent,
            Tables.applyTrade, hfresh]
          dsimp only
          cases hupsert : upsertCandles tables.candles t.pair (p.millis.tdiv 1000) (asI64 t.price)
              (asI64 t.qty) with
          | none =>
              rw [Processed.millis] at hupsert
              rw [hupsert]
              rfl
          | some rows =>
              rw [Processed.millis] at hupsert
              rw [hupsert]
              let tables₁ : Tables := { tables with
                trades := tables.trades.insert p.entryId
                  { toTrade := t, createdAt := (entryMillis p.entryId).getD p.now }
                candles := rows }
              have hnew₁ : ∀ p' ∈ ps, p'.event.trade?.isSome →
                  tables₁.trades.lookup p'.entryId = none := by
                intro p' hp' hsome
                rw [lookup_insert_ite, if_neg ?_]
                · exact hnew p' (List.mem_cons_of_mem _ hp') hsome
                · intro hid
                  exact hdistinct.1 (hid ▸ List.mem_map_of_mem (List.mem_filter.mpr ⟨hp', hsome⟩))
              exact @ih tables₁ hdistinct.2 htime' hnew₁

/-- The items of a candle are the trades of its bucket. -/
theorem atKey_candleItems {w : ℤ} (hw : w ∈ intervalWidths) (xs : List (ℤ × Trade)) (pair : Pair)
    (bucket : ℤ) : atKey (pair, w, bucket) (xs.flatMap candleItems)
      = (bucketTrades xs pair w bucket).map fun x => (asI64 x.2.price, asI64 x.2.qty) := by
  induction xs with
  | nil => rfl
  | cons x xs ih =>
      have hone : atKey (pair, w, bucket) (candleItems x)
          = if x.2.pair = pair ∧ x.1 / w * w = bucket then
              [(asI64 x.2.price, asI64 x.2.qty)]
            else [] := by
        have hkey : ∀ w', (x.2.pair, w', x.1 / w' * w') = (pair, w, bucket)
            ↔ (x.2.pair = pair ∧ x.1 / w * w = bucket) ∧ w' = w := by
          intro w'
          rw [Prod.mk.injEq, Prod.mk.injEq]
          constructor
          · rintro ⟨hpair, rfl, hb⟩
            exact ⟨⟨hpair, hb⟩, rfl⟩
          · rintro ⟨⟨hpair, hb⟩, rfl⟩
            exact ⟨hpair, rfl, hb⟩
        have hcount : intervalWidths.count w = 1 :=
          List.count_eq_one_of_mem (by decide) hw
        rw [atKey, candleItems, List.filter_map, List.map_map]
        simp only [Function.comp_def, hkey]
        split
        · rename_i hx
          simp only [hx, true_and]
          rw [List.filter_eq, hcount]
          rfl
        · rename_i hx
          simp [hx]
      rw [List.flatMap_cons, atKey_append, ih, hone, bucketTrades, bucketTrades]
      by_cases hx : x.2.pair = pair ∧ x.1 / w * w = bucket
      · simp [hx]
      · simp [hx]

/-- There are no others. -/
theorem atKey_of_notMem {k : CandleKey} (hw : k.2.1 ∉ intervalWidths) (xs : List (ℤ × Trade)) :
    atKey k (xs.flatMap candleItems) = [] := by
  rw [atKey, List.map_eq_nil_iff, List.filter_eq_nil_iff]
  intro item hitem
  obtain ⟨x, _, hx⟩ := List.mem_flatMap.mp hitem
  obtain ⟨w, hmem, rfl⟩ := List.mem_map.mp hx
  rw [decide_eq_true_eq]
  rintro rfl
  exact hw hmem

/-! ## Buckets in buckets -/

/-- The rows of a narrower width `v` that lie in a bucket of width `w`. -/
def Tables.candlesIn (tables : Tables) (pair : Pair) (v w bucket : ℤ) : Finset CandleKey :=
  tables.candles.keys.filter fun k => k.1 = pair ∧ k.2.1 = v ∧ k.2.2 / w * w = bucket

/-- A row is made of other rows: their volumes together, the highest of their
highs and the lowest of their lows. -/
structure MadeOf (rows : HashMap CandleKey CandleRow) (S : Finset CandleKey) (row : CandleRow) :
    Prop where
  volume : row.volume = S.sum fun k => ((rows.lookup k).map CandleRow.volume).getD 0
  high : IsGreatest {p | ∃ k ∈ S, ∃ r, rows.lookup k = some r ∧ r.high = p} row.high
  low : IsLeast {p | ∃ k ∈ S, ∃ r, rows.lookup k = some r ∧ r.low = p} row.low

/-- **A candle is made of the candles of its parts.** -/
theorem Ohlcv.madeOf {α : Type} {xs : List α} {f : α → ℤ × ℤ} {row : CandleRow}
    (h : Ohlcv (xs.map f) row) {rows : HashMap CandleKey CandleRow} {S : Finset CandleKey}
    (key : α → CandleKey) (hkey : ∀ x ∈ xs, key x ∈ S)
    (hparts : ∀ k ∈ S, ∃ r, rows.lookup k = some r ∧ Ohlcv ((xs.filter (key · = k)).map f) r) :
    MadeOf rows S row := by
  have hprice : ∀ {ys : List α} {p : ℤ}, p ∈ (ys.map f).map Prod.fst ↔ ∃ x ∈ ys, (f x).1 = p := by
    intro ys p
    rw [List.map_map, List.mem_map]
    rfl
  -- a part's prices are prices of the whole, and every price is one of a part
  have hpart : ∀ k ∈ S, ∀ p, p ∈ ((xs.filter (key · = k)).map f).map Prod.fst →
      p ∈ (xs.map f).map Prod.fst := by
    intro k _ p hp
    obtain ⟨x, hx, hpx⟩ := hprice.mp hp
    exact hprice.mpr ⟨x, (List.mem_filter.mp hx).1, hpx⟩
  have hwhole : ∀ p ∈ (xs.map f).map Prod.fst, ∃ k ∈ S,
      p ∈ ((xs.filter (key · = k)).map f).map Prod.fst := by
    intro p hp
    obtain ⟨x, hx, hpx⟩ := hprice.mp hp
    exact ⟨key x, hkey x hx, hprice.mpr ⟨x, List.mem_filter.mpr ⟨hx, by simp⟩, hpx⟩⟩
  constructor
  case volume =>
    have hsum : ∀ k ∈ S, (((xs.filter (key · = k)).map fun x => (f x).2).sum
        = ((rows.lookup k).map CandleRow.volume).getD 0) := by
      intro k hk
      obtain ⟨r, hr, hpart⟩ := hparts k hk
      rw [hr, Option.map_some, Option.getD_some, hpart.volume, List.map_map]
      rfl
    rw [h.volume, List.map_map, ← Finset.sum_congr rfl hsum, ← sum_fibers key _ hkey]
    rfl
  case high =>
    constructor
    · obtain ⟨k, hk, hp⟩ := hwhole _ h.high.1
      obtain ⟨r, hr, hr'⟩ := hparts k hk
      exact ⟨k, hk, r, hr, le_antisymm (h.high.2 (hpart k hk _ hr'.high.1)) (hr'.high.2 hp)⟩
    · rintro p ⟨k, hk, r, hr, rfl⟩
      obtain ⟨r', hr', hohlcv⟩ := hparts k hk
      cases hr.symm.trans hr'
      exact h.high.2 (hpart k hk _ hohlcv.high.1)
  case low =>
    constructor
    · obtain ⟨k, hk, hp⟩ := hwhole _ h.low.1
      obtain ⟨r, hr, hr'⟩ := hparts k hk
      exact ⟨k, hk, r, hr, le_antisymm (hr'.low.2 hp) (h.low.2 (hpart k hk _ hr'.low.1))⟩
    · rintro p ⟨k, hk, r, hr, rfl⟩
      obtain ⟨r', hr', hohlcv⟩ := hparts k hk
      cases hr.symm.trans hr'
      exact h.low.2 (hpart k hk _ hohlcv.low.1)

/-- A wider bucket is cut by the narrower ones. -/
theorem bucket_of_dvd {v w : ℤ} (hv : 0 < v) (hdvd : v ∣ w) (seconds : ℤ) :
    seconds / v * v / w * w = seconds / w * w := by
  obtain ⟨m, rfl⟩ := hdvd
  rw [← Int.ediv_ediv_of_nonneg hv.le, Int.mul_ediv_cancel _ hv.ne', Int.ediv_ediv_of_nonneg hv.le]

theorem bucketTrades_filter {v w : ℤ} (hv : 0 < v) (hdvd : v ∣ w) (xs : List (ℤ × Trade))
    (pair : Pair) {part bucket : ℤ} (hpart : part / w * w = bucket) :
    bucketTrades xs pair v part
      = (bucketTrades xs pair w bucket).filter
          fun x => (pair, v, x.1 / v * v) = (pair, v, part) := by
  rw [bucketTrades, bucketTrades, List.filter_filter]
  refine List.filter_congr fun x _ => ?_
  simp only [Prod.mk.injEq, true_and, ← Bool.decide_and, decide_eq_decide]
  constructor
  · rintro ⟨hpair, rfl⟩
    exact ⟨rfl, hpair, by rw [← hpart, bucket_of_dvd hv hdvd]⟩
  · rintro ⟨rfl, hpair, _⟩
    exact ⟨hpair, rfl⟩

/-! ## Amounts that fit -/

theorem CandleFits.ticks {xs : List (ℤ × Trade)} (h : CandleFits xs) :
    (xs.map fun x => (asI64 x.2.price, asI64 x.2.qty)) = xs.map tick := by
  refine List.map_congr_left fun x hx => ?_
  have hqty : x.2.qty.toNat ≤ (xs.map fun x => x.2.qty.toNat).sum :=
    List.le_sum_of_mem (List.mem_map_of_mem hx)
  rw [asI64_of_lt (h.price x hx), asI64_of_lt (hqty.trans_lt h.volume)]
  rfl

theorem CandleFits.filter {xs : List (ℤ × Trade)} (h : CandleFits xs) (q : ℤ × Trade → Bool) :
    CandleFits (xs.filter q) where
  price x hx := h.price x (List.mem_filter.mp hx).1
  volume :=
    ((List.filter_sublist.map _).sum_le_sum fun _ _ => Nat.zero_le _).trans_lt h.volume

/-- A candle in a stream of trades. -/
theorem candle_of_stream {xs : List (ℤ × Trade)} {rows : HashMap CandleKey CandleRow}
    (h : (xs.flatMap candleItems).foldlM (upsert insertedCandle mergedCandle) ∅ = some rows)
    {w : ℤ} (hw : w ∈ intervalWidths) (pair : Pair) (bucket : ℤ) :
    ((rows.lookup (pair, w, bucket)).isSome ↔ bucketTrades xs pair w bucket ≠ []) ∧
      ∀ row, rows.lookup (pair, w, bucket) = some row → CandleFits (bucketTrades xs pair w bucket) →
        Ohlcv ((bucketTrades xs pair w bucket).map tick) row := by
  have hrow := lookup_upserts h (pair, w, bucket)
  rw [atKey_candleItems hw, Finmap.lookup_empty] at hrow
  obtain ⟨hsome, hohlcv⟩ := ohlcv_of_collect hrow
  rw [ne_eq, List.map_eq_nil_iff] at hsome
  refine ⟨hsome, fun row hlookup hfits => ?_⟩
  rw [← hfits.ticks]
  exact hohlcv row hlookup

/-- A stream whose volumes fit goes through. -/
theorem stream_returns {xs : List (ℤ × Trade)}
    (hfits : ∀ pair, ∀ w ∈ intervalWidths, ∀ bucket, CandleFits (bucketTrades xs pair w bucket)) :
    ∃ rows, (xs.flatMap candleItems).foldlM (upsert insertedCandle mergedCandle) ∅ = some rows := by
  refine upserts_return fun k => ?_
  rw [Finmap.lookup_empty]
  by_cases hw : k.2.1 ∈ intervalWidths
  · have hfit := hfits k.1 k.2.1 hw k.2.2
    rw [show k = (k.1, k.2.1, k.2.2) from rfl, atKey_candleItems hw, hfit.ticks]
    refine collect_returns (fun y hy => ?_) ?_
    · obtain ⟨x, _, rfl⟩ := List.mem_map.mp hy
      exact Int.natCast_nonneg _
    · have hcast : ((bucketTrades xs k.1 k.2.1 k.2.2).map tick |>.map Prod.snd).sum
          = (((bucketTrades xs k.1 k.2.1 k.2.2).map fun x => x.2.qty.toNat).sum : ℕ) := by
        rw [List.map_map, Nat.cast_list_sum, List.map_map]
        rfl
      rw [hcast]
      exact_mod_cast hfit.volume
  · rw [atKey_of_notMem hw]
    exact ⟨none, rfl⟩

/-! ## The candles of a stream -/

/-- **Candles are the OHLCV of the trades**, for every stream of events whose
trades are distinct. Wide ones are made of narrow ones. -/
theorem candles_ohlcv {ps : List Processed}
    (hdistinct : ((ps.filter fun p => p.event.trade?.isSome).map Processed.entryId).Nodup)
    (htime : ∀ p ∈ ps, p.event.trade?.isSome → 0 ≤ p.millis) :
    ((∀ pair, ∀ w ∈ intervalWidths, ∀ bucket,
        CandleFits (bucketTrades (timedTrades ps) pair w bucket)) →
      ∃ tables, Tables.empty.applyEvents ps = some tables) ∧
    ∀ tables, Tables.empty.applyEvents ps = some tables →
      ∀ pair, ∀ w ∈ intervalWidths, ∀ bucket,
        ((tables.candles.lookup (pair, w, bucket)).isSome ↔
          ∃ x ∈ timedTrades ps, x.2.pair = pair ∧ x.1 / w * w = bucket) ∧
        ∀ row, tables.candles.lookup (pair, w, bucket) = some row →
          CandleFits (bucketTrades (timedTrades ps) pair w bucket) →
          Ohlcv ((bucketTrades (timedTrades ps) pair w bucket).map tick) row ∧
            ∀ v ∈ intervalWidths, v ∣ w →
              MadeOf tables.candles (tables.candlesIn pair v w bucket) row := by
  have hcandles : (Tables.empty.applyEvents ps).map Tables.candles
      = ((timedTrades ps).flatMap candleItems).foldlM (upsert insertedCandle mergedCandle) ∅ :=
    applyEvents_candles hdistinct htime fun _ _ _ => rfl
  constructor
  · intro hfits
    obtain ⟨rows, hrows⟩ := stream_returns hfits
    rw [hrows] at hcandles
    obtain ⟨tables, htables, _⟩ := Option.map_eq_some_iff.mp hcandles
    exact ⟨tables, htables⟩
  · intro tables htables pair w hw bucket
    rw [htables] at hcandles
    obtain ⟨hsome, hohlcv⟩ := candle_of_stream hcandles.symm hw pair bucket
    have hmem : bucketTrades (timedTrades ps) pair w bucket ≠ []
        ↔ ∃ x ∈ timedTrades ps, x.2.pair = pair ∧ x.1 / w * w = bucket := by
      simp [bucketTrades]
    refine ⟨hsome.trans hmem, fun row hrow hfits => ⟨hohlcv row hrow hfits, fun v hv hdvd => ?_⟩⟩
    have hvpos : 0 < v := (show ∀ v ∈ intervalWidths, 0 < v by decide) v hv
    refine (hohlcv row hrow hfits).madeOf (fun x => (pair, v, x.1 / v * v)) ?_ ?_
    · intro x hx
      obtain ⟨hx, hin⟩ := List.mem_filter.mp hx
      rw [decide_eq_true_eq] at hin
      obtain ⟨hpart, _⟩ := candle_of_stream hcandles.symm hv pair (x.1 / v * v)
      have hin' : x ∈ bucketTrades (timedTrades ps) pair v (x.1 / v * v) :=
        List.mem_filter.mpr ⟨hx, by simp [hin.1]⟩
      refine Finset.mem_filter.mpr ⟨?_, rfl, rfl, ?_⟩
      · exact Finmap.mem_keys.mpr (Finmap.lookup_isSome.mp (hpart.mpr (List.ne_nil_of_mem hin')))
      · rw [bucket_of_dvd hvpos hdvd, hin.2]
    · rintro ⟨pair', v', part⟩ hk
      obtain ⟨hkeys, rfl, rfl, hin⟩ := Finset.mem_filter.mp hk
      obtain ⟨_, hpart⟩ := candle_of_stream hcandles.symm hv pair' part
      obtain ⟨r, hr⟩ :=
        Option.isSome_iff_exists.mp (Finmap.lookup_isSome.mpr (Finmap.mem_keys.mp hkeys))
      rw [bucketTrades_filter hvpos hdvd _ _ hin] at hpart
      exact ⟨r, hr, hpart r hr (hfits.filter _)⟩

/-- Three sales of SOL, the second a second before the first and the third in
the next quarter of an hour. -/
def saleStream : List Processed :=
  [{ now := 1700000100500, entryId := eventId 7 1, event := .trade lateTrade },
    { now := 1700000099900, entryId := eventId 7 2, event := .trade { lateTrade with price := 9 } },
    { now := 1700000100700, entryId := eventId 7 4
      event := .balanceChanged 1 .USD 20 0 },
    { now := 1700001000000, entryId := eventId 8 1
      event := .trade { lateTrade with price := 10, qty := 4 } }]

/-- The hour they fall into opens at 11, closes at 10 and has a volume of 6. -/
theorem candles_ohlcv_sales :
    ∃ tables row, Tables.empty.applyEvents saleStream = some tables ∧
      tables.candles.lookup (lateTrade.pair, 3600, 1699999200) = some row ∧
      Ohlcv [(11, 1), (9, 1), (10, 4)] row ∧
      MadeOf tables.candles (tables.candlesIn lateTrade.pair 900 3600 1699999200) row := by
  obtain ⟨hreturns, hall⟩ := @candles_ohlcv saleStream (by decide +kernel) (by decide +kernel)
  have hfits : CandleFits (timedTrades saleStream) := ⟨by decide +kernel, by decide +kernel⟩
  obtain ⟨tables, htables⟩ := hreturns fun pair w _ bucket => hfits.filter _
  obtain ⟨hsome, hrow⟩ := hall tables htables lateTrade.pair 3600 (by decide) 1699999200
  obtain ⟨row, hlookup⟩ := Option.isSome_iff_exists.mp (hsome.mpr (by decide +kernel))
  obtain ⟨hohlcv, hparts⟩ := hrow row hlookup (hfits.filter _)
  have hticks : (bucketTrades (timedTrades saleStream) lateTrade.pair 3600 1699999200).map tick
      = [(11, 1), (9, 1), (10, 4)] := by decide +kernel
  rw [hticks] at hohlcv
  exact ⟨tables, row, htables, hlookup, hohlcv, hparts 900 (by decide) (by decide)⟩

end MatchingEngine
