import MatchingEngine.Lib.Prune
import MatchingEngine.Lib.System
import MatchingEngine.Ownership
import MatchingEngine.Redelivery

/-!
# Retention: what the sweeps of the writer delete

`Retention` of `bin/db_writer.rs`: between batches the writer deletes old rows of
`trades`, of the one-second candles and of the orders that are filled or cancelled. No
later batch needs them: an order that ended is never told of again
(`Reaches.settled`), and a trade falls into a bucket that is still there. So the tables
are those of a writer that never deletes, but for rows that are old enough
(`retention_exact`).

Times are unix milliseconds, of one clock that does not run backwards.
-/

namespace MatchingEngine

open RustArith HashModel SystemModel

/-! ## The configuration -/

/-- For how many days rows of each kind are kept; 0 keeps them for good. -/
structure Retention where
  orderDays : ℤ
  tradeDays : ℤ
  candle1sDays : ℤ

/-- Rows of one `DELETE`. -/
def retentionBatch : ℕ := 5000

/-- Batches of one sweep, for each table. -/
def retentionMaxBatches : ℕ := 20

/-- For orders that ended. -/
def defaultOrderRetentionDays : ℤ := 7

/-- For trades. -/
def defaultTradeRetentionDays : ℤ := 365

/-- For one-second candles, the only width that is swept. -/
def defaultCandle1sRetentionDays : ℤ := 2

/-- `str::parse::<i32>`, its errors as `none`. -/
def parseI32 (text : Text) : Option ℤ :=
  (parseI64 text).filter fun x => -2 ^ 31 ≤ x ∧ x < 2 ^ 31

/-- `Retention::from_env`: a variable that is not set, no `i32` or negative means the
default. -/
def Retention.fromEnv (env : String → Option Text) : Retention :=
  let days (key : String) (fallback : ℤ) : ℤ :=
    (((env key).bind parseI32).filter fun d => 0 ≤ d).getD fallback
  { orderDays := days "ORDER_RETENTION_DAYS" defaultOrderRetentionDays
    tradeDays := days "TRADE_RETENTION_DAYS" defaultTradeRetentionDays
    candle1sDays := days "CANDLE_1S_RETENTION_DAYS" defaultCandle1sRetentionDays }

/-! ## The statements -/

/-- The tables, and the column `updated_at` of `orders`, which nothing but the sweeps
reads. -/
structure Postgres where
  tables : Tables
  updatedAt : HashMap UInt64 ℤ

/-- The least `timestamptz`, midnight of 24 November 4714 BC, in unix milliseconds. -/
def minTimestamp : ℤ := -210866803200000

/-- So many days ago. -/
def daysBefore (now days : ℤ) : ℤ := now - days * 86400000

/-- `now() - make_interval(days => $1)`, in UTC; `none` is "timestamp out of range". -/
def cutoff (now days : ℤ) : Option ℤ :=
  if minTimestamp ≤ daysBefore now days then some (daysBefore now days) else none

/-- `status IN ('filled', 'cancelled') AND updated_at < ..` -/
def staleOrder (updatedAt : HashMap UInt64 ℤ) (before : ℤ) (orderId : UInt64)
    (row : OrderRow) : Bool :=
  (row.status = .filled ∨ row.status = .cancelled) ∧
    (updatedAt.lookup orderId).any fun t => t < before

/-- `created_at < ..` -/
def staleTrade (before : ℤ) (_ : Text) (row : TradeRow) : Bool := row.createdAt < before

/-- `interval_seconds = 1 AND bucket < extract(epoch FROM ..)` -/
def staleCandle (before : ℤ) (key : CandleKey) (_ : CandleRow) : Bool :=
  key.2.1 = 1 ∧ key.2.2 * 1000 < before

/-- `prune`, `none` where a statement fails: which rows a batch gets is up to Postgres. -/
def pruneRows {κ V : Type} [DecidableEq κ] (scans : ℕ → DrainOrder κ) (now days : ℤ)
    (stale : ℤ → κ → V → Bool) (rows : HashMap κ V) : Option (HashMap κ V × ℕ) :=
  if days = 0 then some (rows, 0)
  else
    (cutoff now days).map fun before =>
      prune scans (stale before) retentionBatch retentionMaxBatches rows

/-- In what order Postgres finds the rows of each batch. -/
structure Scans where
  orders : ℕ → DrainOrder UInt64
  trades : ℕ → DrainOrder Text
  candles : ℕ → DrainOrder CandleKey

/-- The rows of `orders` that are left. -/
def Postgres.setOrders (pg : Postgres) (orders : HashMap UInt64 OrderRow) : Postgres :=
  { pg with tables := { pg.tables with orders := orders } }

/-- The rows of `trades` that are left. -/
def Postgres.setTrades (pg : Postgres) (trades : HashMap Text TradeRow) : Postgres :=
  { pg with tables := { pg.tables with trades := trades } }

/-- The rows of `candles` that are left. -/
def Postgres.setCandles (pg : Postgres) (candles : HashMap CandleKey CandleRow) : Postgres :=
  { pg with tables := { pg.tables with candles := candles } }

/-- `Retention::sweep`: what it leaves, and how many rows it deleted. A `prune` that
fails ends it (`?`), and what was deleted before stays deleted. -/
def Retention.sweep (r : Retention) (scans : Scans) (now : ℤ) (pg : Postgres) :
    Postgres × Option (ℕ × ℕ × ℕ) :=
  match pruneRows scans.orders now r.orderDays (staleOrder pg.updatedAt) pg.tables.orders with
  | none => (pg, none)
  | some (orders, prunedOrders) =>
      let pg := pg.setOrders orders
      match pruneRows scans.trades now r.tradeDays staleTrade pg.tables.trades with
      | none => (pg, none)
      | some (trades, prunedTrades) =>
          let pg := pg.setTrades trades
          match pruneRows scans.candles now r.candle1sDays staleCandle pg.tables.candles with
          | none => (pg, none)
          | some (candles, prunedCandles) =>
              (pg.setCandles candles, some (prunedOrders, prunedTrades, prunedCandles))

/-- What an event does to `updated_at`: an insert sets it, an update that finds its row
sets it, a conflict leaves it. -/
def stampStep (now : ℤ) (st : HashMap UInt64 OrderRow × HashMap UInt64 ℤ) (event : Event) :
    HashMap UInt64 OrderRow × HashMap UInt64 ℤ :=
  let updatedAt :=
    match event with
    | .orderAccepted orderId .. =>
        if (st.1.lookup orderId).isSome then st.2 else st.2.insert orderId now
    | .orderCancelled orderId =>
        if (st.1.lookup orderId).isSome then st.2.insert orderId now else st.2
    | .orderUpdated orderId .. =>
        if (st.1.lookup orderId).isSome then st.2.insert orderId now else st.2
    | _ => st.2
  (orderStep st.1 event, updatedAt)

/-- The transaction of one batch, begun at `now`, which is `now()` in all of its
statements. -/
def Postgres.stage (pg : Postgres) (now : ℤ) (clock : ℕ → ℤ) (batch : EventBatch) :
    Option Postgres :=
  (pg.tables.stageBatch clock batch).map fun tables =>
    { tables := tables
      updatedAt := (batch.events.foldl (stampStep now) (pg.tables.orders, pg.updatedAt)).2 }

/-! ## Settled orders -/

/-- The call that made a batch, and what came before. -/
theorem filterMap_split {α β : Type} (f : α → Option β) (xs : List α) : ∀ (k : ℕ) (y : β),
    (xs.filterMap f)[k]? = some y → ∃ pre x post, xs = pre ++ x :: post ∧ f x = some y ∧
      pre.filterMap f = (xs.filterMap f).take k := by
  induction xs with
  | nil => intro k y h; cases h
  | cons x xs ih =>
      intro k y h
      cases hx : f x with
      | none =>
          rw [List.filterMap_cons_none hx] at h ⊢
          obtain ⟨pre, x', post, rfl, hx', hpre⟩ := ih k y h
          exact ⟨x :: pre, x', post, rfl, hx', by rw [List.filterMap_cons_none hx, hpre]⟩
      | some z =>
          rw [List.filterMap_cons_some hx] at h ⊢
          cases k with
          | zero =>
              cases h
              exact ⟨[], x, xs, rfl, hx, rfl⟩
          | succ k =>
              obtain ⟨pre, x', post, rfl, hx', hpre⟩ := ih k y h
              exact ⟨x :: pre, x', post, rfl, hx', by
                rw [List.filterMap_cons_some hx, hpre, List.take_succ_cons]⟩

theorem Reaches.split {b : Build} {limits : Limits} {pre post : List Record} {r : Record}
    {e : Engine} (hr : Reaches b limits (pre ++ r :: post) e) : ∃ e₁ e₂ o,
      Reaches b limits pre e₁ ∧
      apply b o e₁ r.accountId r.clientOrderId r.command = .ok (e₂, r.response, r.batch) := by
  obtain ⟨subs, hrun⟩ := hr
  obtain ⟨e₁, hpre⟩ := run_take hrun pre.length
  obtain ⟨e₂, hnext⟩ := run_take hrun (pre.length + 1)
  have hlen := run_length hrun
  rw [List.length_append, List.length_cons] at hlen
  have hsub : subs[pre.length]? = some subs[pre.length] := List.getElem?_eq_getElem (by omega)
  rw [List.take_left] at hpre
  rw [List.take_add_one, hsub, Option.toList_some, run_snoc] at hnext
  obtain ⟨e₁', us, w, hrun', hstep, heq⟩ := hnext
  rw [hpre] at hrun'
  cases hrun'
  have hw : w = r := by
    have htake : (pre ++ r :: post).take (pre.length + 1) = pre ++ [r] :=
      List.take_length_add_append 1
    rw [htake] at heq
    exact (List.singleton_injective (List.append_cancel_left heq)).symm
  subst hw
  obtain ⟨response, batch, happly, rfl⟩ := step_ok.mp hstep
  exact ⟨e₁, e₂, _, ⟨_, hpre⟩, happly⟩

/-- **An order that ended is never told of again.** -/
theorem Reaches.settled {b : Build} {limits : Limits} {h : List Record} {e : Engine}
    (hr : Reaches b limits h e) (hnet : b.Checks (NetBelow h))
    (hplaces : b.Checks (places h < 2 ^ 64)) {k : ℕ} {batch : EventBatch}
    (hbatch : (h.filterMap Record.batch)[k]? = some batch) {id : UInt64} {row : OrderRow}
    (hrow : (ordersAfter (h.filterMap Record.batch) k).lookup id = some row)
    (hended : row.live = false) : trailOf id batch.events = [] := by
  obtain ⟨pre, r, post, rfl, hrecord, hpre⟩ := filterMap_split Record.batch h k batch hbatch
  obtain ⟨e₁, e₂, o, hr₁, happly⟩ := hr.split
  have hprefix : pre <+: pre ++ r :: post := List.prefix_append _ _
  have hnet₁ := hnet.imp fun hnet => hnet.of_prefix hprefix
  have hplaces₁ : b.Checks (places pre < 2 ^ 64) :=
    hplaces.imp fun hlt => hprefix.sublist.countP_le.trans_lt hlt
  have hacc := hr₁.accounted hnet₁
  have hindexed := (hr₁.indexed hplaces₁).1
  have hdescribed := hr₁.described hnet₁ hplaces₁
  have hrow₁ : (orderRows pre).lookup id = some row := by
    rw [orderRows, eventsOf_eq, hpre]
    exact hrow
  have htold := apply_speaks hacc.shape hindexed happly id
  rw [hrecord] at htold
  cases htold with
  | nothing hnil => exact hnil
  | accepts hid _ =>
      -- it has a row, so its id was given before
      have huntold := (hr₁.numberedTrails hplaces₁).untold id hid.ge
      rw [lookup_orderRows, rowAfter, huntold] at hrow₁
      cases hrow₁
  | moves o ho _ =>
      rw [(hdescribed.live_iff hrow₁).mpr ⟨o, ho⟩] at hended
      cases hended

/-! ## One event with and without retention -/

/-- Longer ago than so many days, which are not 0. -/
def Old (now days t : ℤ) : Prop := days ≠ 0 ∧ t < daysBefore now days

theorem Old.mono {now now' days t : ℤ} (hle : now ≤ now') (h : Old now days t) :
    Old now' days t := by
  refine ⟨h.1, h.2.trans_le ?_⟩
  unfold daysBefore
  omega

/-- Trades and candles beside those of a writer that never deletes. -/
structure Retention.Keeps (r : Retention) (now : ℤ) (full tables : Tables) : Prop where
  trades : Pruned (fun _ row => Old now r.tradeDays row.createdAt) full.trades tables.trades
  candles : Pruned (fun key _ => key.2.1 = 1 ∧ Old now r.candle1sDays (key.2.2 * 1000))
    full.candles tables.candles

theorem upsertCandle_pruned {gone : CandleKey → CandleRow → Prop}
    {full rows rows' : HashMap CandleKey CandleRow} (h : Pruned gone full rows) {key : CandleKey}
    (hkey : ∀ row, ¬ gone key row) {price qty : ℤ}
    (hup : upsertCandle rows key price qty = some rows') :
    ∃ full', upsertCandle full key price qty = some full' ∧ Pruned gone full' rows' := by
  have hsame := h.same (k := key) fun row _ => hkey row
  unfold upsertCandle at hup ⊢
  rw [hsame] at hup
  split at hup
  · cases hup
    exact ⟨_, rfl, h.insert _ _⟩
  · split at hup
    · cases hup
      rename_i hfits
      rw [if_pos hfits]
      exact ⟨_, rfl, h.insert _ _⟩
    · cases hup

theorem upsertCandles_pruned {gone : CandleKey → CandleRow → Prop} {pair : Pair}
    {seconds price qty : ℤ} (ws : List ℤ)
    (hkeys : ∀ w ∈ ws, ∀ row, ¬ gone (pair, w, bucketOf seconds w) row) :
    ∀ {full rows rows' : HashMap CandleKey CandleRow}, Pruned gone full rows →
      ws.foldlM (fun rows w => upsertCandle rows (pair, w, bucketOf seconds w) price qty) rows
        = some rows' →
      ∃ full', ws.foldlM (fun rows w =>
        upsertCandle rows (pair, w, bucketOf seconds w) price qty) full = some full' ∧
          Pruned gone full' rows' := by
  induction ws with
  | nil =>
      intro full rows rows' h hup
      cases hup
      exact ⟨full, rfl, h⟩
  | cons w ws ih =>
      intro full rows rows' h hup
      rw [List.foldlM_cons] at hup
      obtain ⟨rows₁, hup₁, hup⟩ := Option.bind_eq_some_iff.mp hup
      obtain ⟨full₁, hfull₁, h₁⟩ := upsertCandle_pruned h (hkeys w List.mem_cons_self) hup₁
      obtain ⟨full', hfull', h'⟩ :=
        ih (fun w hw => hkeys w (List.mem_cons_of_mem _ hw)) h₁ hup
      refine ⟨full', ?_, h'⟩
      rw [List.foldlM_cons]
      exact Option.bind_eq_some_iff.mpr ⟨full₁, hfull₁, hfull'⟩

/-- The bucket of a trade is not old when the trade comes in. -/
theorem not_old_bucket {now clock days : ℤ} (hdays : 0 ≤ days) (hclock : now ≤ clock) :
    ¬ Old now days (bucketOf (clock.tdiv 1000) 1 * 1000) := by
  rintro ⟨hne, hlt⟩
  rw [bucketOf, Int.tdiv_one, mul_one, daysBefore] at hlt
  have hround := Int.tdiv_mul_add_tmod clock 1000
  have hrest := Int.tmod_lt_of_pos clock (show (0 : ℤ) < 1000 by decide)
  omega

/-- **One event**, of a batch that comes in after the last sweep. -/
theorem Retention.Keeps.applyEvent {r : Retention} (hdays : 0 ≤ r.candle1sDays)
    {now clock : ℤ} (hclock : now ≤ clock) {full tables tables' : Tables}
    (h : r.Keeps now full tables) {seq : UInt64} {i : ℕ} {event : Event}
    (hfresh : ∀ t, event = .trade t → full.trades.lookup (eventId seq i) = none)
    (happly : tables.applyEvent clock (eventId seq i) event = some tables') :
    ∃ full', full.applyEvent clock (eventId seq i) event = some full' ∧
      r.Keeps now full' tables' ∧
      ∀ id, (full'.trades.lookup id).isSome → id = eventId seq i ∨
        (full.trades.lookup id).isSome := by
  cases event with
  | trade t =>
      have hnone := hfresh t rfl
      have hnone' : tables.trades.lookup (eventId seq i) = none :=
        (h.trades.same fun row hrow => by rw [hnone] at hrow; cases hrow).trans hnone
      simp only [Tables.applyEvent, Tables.applyTrade, hnone, hnone', entryMillis_eventId,
        Option.getD_none] at happly ⊢
      obtain ⟨candles, hcandles, happly⟩ := Option.bind_eq_some_iff.mp happly
      cases happly
      have hkeys : ∀ w ∈ intervalWidths, CandleRow →
          ¬ (w = 1 ∧ Old now r.candle1sDays (bucketOf (clock.tdiv 1000) w * 1000)) := by
        rintro w _ _ ⟨rfl, hold⟩
        exact not_old_bucket hdays hclock hold
      obtain ⟨candles', hcandles', hpruned⟩ := upsertCandles_pruned intervalWidths hkeys h.candles
        hcandles
      refine ⟨_, Option.bind_eq_some_iff.mpr ⟨candles', hcandles', rfl⟩,
        ⟨h.trades.insert _ _, hpruned⟩, fun id hid => ?_⟩
      dsimp only at hid
      rw [lookup_insert_ite] at hid
      split at hid
      · rename_i hsame
        exact .inl hsame
      · exact .inr hid
  | _ =>
      cases happly
      exact ⟨_, rfl, ⟨h.trades, h.candles⟩, fun id hid => .inr hid⟩

/-! ## One batch -/

theorem eventId_inj {seq seq' : UInt64} {i i' : ℕ} (h : eventId seq i = eventId seq' i') :
    seq = seq' ∧ i = i' := by
  have hdigits : ∀ {n n' : ℕ}, Nat.toDigits 10 n = Nat.toDigits 10 n' → n = n' := by
    intro n n' h
    rw [← Nat.ofDigitChars_toDigits (b := 10) (n := n) (by decide) (by decide), h,
      Nat.ofDigitChars_toDigits (by decide) (by decide)]
  have hsplit := congrArg (splitOnce ':') h
  rw [eventId, eventId, splitOnce_append (notMem_toDigits rfl _),
    splitOnce_append (notMem_toDigits rfl _)] at hsplit
  obtain ⟨hseq, hi⟩ := Prod.mk.inj (Option.some.inj hsplit)
  exact ⟨UInt64.toNat_inj.mp (hdigits hseq), hdigits hi⟩

/-- The trades known are of the first `k` batches and the first `n` events of the next. -/
def TradesOf (k n : ℕ) (tables : Tables) : Prop :=
  ∀ id, (tables.trades.lookup id).isSome →
    ∃ j i, id = eventId (UInt64.ofNat j) i ∧ (j < k ∨ j = k ∧ i < n)

/-- **One batch**, event after event. -/
theorem Retention.Keeps.stageEvents {r : Retention} (hdays : 0 ≤ r.candle1sDays) {now : ℤ}
    {clock : ℕ → ℤ} (hclock : ∀ i, now ≤ clock i) {k : ℕ} (hk : k < 2 ^ 64)
    (events : List Event) : ∀ (n : ℕ) {full tables tables' : Tables},
      r.Keeps now full tables → TradesOf k n full →
      (events.zipIdx n).foldlM (fun tables (event, i) =>
        Tables.applyEvent (clock i) tables (eventId (UInt64.ofNat k) i) event) tables
        = some tables' →
      ∃ full', (events.zipIdx n).foldlM (fun tables (event, i) =>
        Tables.applyEvent (clock i) tables (eventId (UInt64.ofNat k) i) event) full = some full' ∧
          r.Keeps now full' tables' ∧ TradesOf (k + 1) 0 full' := by
  induction events with
  | nil =>
      intro n full tables tables' h hids hstage
      cases hstage
      refine ⟨full, rfl, h, fun id hid => ?_⟩
      obtain ⟨j, i, rfl, hold⟩ := hids id hid
      exact ⟨j, i, rfl, .inl (by omega)⟩
  | cons event events ih =>
      intro n full tables tables' h hids hstage
      rw [List.zipIdx_cons, List.foldlM_cons] at hstage
      obtain ⟨tables₁, hstage₁, hstage⟩ := Option.bind_eq_some_iff.mp hstage
      -- an id is given once
      have hfresh : full.trades.lookup (eventId (UInt64.ofNat k) n) = none := by
        by_contra hne
        obtain ⟨j, i, heq, hold⟩ := hids _ (Option.isSome_iff_ne_none.mpr hne)
        obtain ⟨hseq, hi⟩ := eventId_inj heq
        rcases hold with hlt | ⟨_, hlt⟩
        · have hnat := congrArg UInt64.toNat hseq
          rw [UInt64.toNat_ofNat_of_lt' hk, UInt64.toNat_ofNat_of_lt' (hlt.trans hk)] at hnat
          omega
        · omega
      obtain ⟨full₁, hfull₁, h₁, hnew⟩ :=
        h.applyEvent hdays (hclock n) (fun _ _ => hfresh) hstage₁
      have hids₁ : TradesOf k (n + 1) full₁ := by
        intro id hid
        rcases hnew id hid with rfl | hid
        · exact ⟨k, n, rfl, .inr ⟨rfl, Nat.lt_succ_self n⟩⟩
        · obtain ⟨j, i, rfl, hold⟩ := hids id hid
          exact ⟨j, i, rfl, hold.imp id fun hold => ⟨hold.1, hold.2.trans (Nat.lt_succ_self n)⟩⟩
      obtain ⟨full', hfull', h'⟩ := ih (n + 1) h₁ hids₁ hstage
      refine ⟨full', ?_, h'⟩
      rw [List.zipIdx_cons, List.foldlM_cons]
      exact Option.bind_eq_some_iff.mpr ⟨full₁, hfull₁, hfull'⟩

/-! ## `updated_at` -/

/-- No event about an order, no change of its `updated_at`. -/
theorem stampStep_other (now : ℤ) (st : HashMap UInt64 OrderRow × HashMap UInt64 ℤ)
    {event : Event} {id : UInt64} (h : event.order? ≠ some id) :
    (stampStep now st event).2.lookup id = st.2.lookup id := by
  have hstamp : ∀ orderId, some orderId ≠ some id →
      (st.2.insert orderId now).lookup id = st.2.lookup id := by
    intro orderId hne
    exact Finmap.lookup_insert_of_ne _ fun heq => hne (congrArg some heq.symm)
  cases event with
  | orderAccepted orderId =>
      simp only [stampStep]
      split
      · rfl
      · exact hstamp orderId h
  | orderCancelled orderId =>
      simp only [stampStep]
      split
      · exact hstamp orderId h
      · rfl
  | orderUpdated orderId =>
      simp only [stampStep]
      split
      · exact hstamp orderId h
      · rfl
  | _ => rfl

theorem foldl_stampStep_other (now : ℤ) {id : UInt64} (events : List Event)
    (h : trailOf id events = []) :
    ∀ st : HashMap UInt64 OrderRow × HashMap UInt64 ℤ,
      (events.foldl (stampStep now) st).2.lookup id = st.2.lookup id := by
  induction events with
  | nil => exact fun st => rfl
  | cons event events ih =>
      intro st
      rw [trailOf_cons] at h
      split at h
      · cases h
      · rename_i hother
        rw [List.foldl_cons, ih h, stampStep_other now st hother]

/-! ## The writer and its sweeps -/

/-- One `DELETE`, of the table it is from. -/
inductive Swept where
  | orders (scan : DrainOrder UInt64)
  | trades (scan : DrainOrder Text)
  | candles (scan : DrainOrder CandleKey)

/-- One batch of `prune`; where it fails it deletes nothing. -/
def deleteRows {κ V : Type} [DecidableEq κ] (scan : DrainOrder κ) (now days : ℤ)
    (stale : ℤ → κ → V → Bool) (rows : HashMap κ V) : HashMap κ V :=
  if days = 0 then rows
  else
    match cutoff now days with
    | some before => (deleteSome scan (stale before) retentionBatch rows).1
    | none => rows

/-- One statement of a sweep; a sweep that is cut short is the statements before. -/
def Retention.delete (r : Retention) (now : ℤ) (pg : Postgres) : Swept → Postgres
  | .orders scan =>
      pg.setOrders (deleteRows scan now r.orderDays (staleOrder pg.updatedAt) pg.tables.orders)
  | .trades scan =>
      pg.setTrades (deleteRows scan now r.tradeDays staleTrade pg.tables.trades)
  | .candles scan =>
      pg.setCandles (deleteRows scan now r.candle1sDays staleCandle pg.tables.candles)

/-- The writer as far as its tables go: what Postgres holds, the time, and the batches
committed so far. -/
structure Ingest where
  pg : Postgres
  now : ℤ
  /-- what was committed; no process keeps this -/
  delivered : List Delivery

/-- Empty tables, at the beginning of unix time. -/
def Ingest.init : Ingest :=
  { pg := { tables := .empty, updatedAt := ∅ }, now := 0, delivered := [] }

/-- What the writer does next, or how long it waits. -/
inductive IngestAction where
  | tick (millis : ℕ)
  /-- the transaction of the next batch; event `i` comes `lag i` after it began -/
  | batch (lag : ℕ → ℕ)
  | sweep (scans : Scans)
  | delete (swept : Swept)

/-- The next state: the clock moves on, the next batch of `events` is committed, if the
transaction goes through, or a sweep runs, to its end or one statement of it. -/
def Ingest.step (r : Retention) (batches : List EventBatch) (x : Ingest) :
    IngestAction → Option Ingest
  | .tick millis => some { x with now := x.now + millis }
  | .batch lag =>
      let clock (i : ℕ) : ℤ := x.now + lag i
      batches[x.delivered.length]?.bind fun batch =>
        (x.pg.stage x.now clock batch).map fun pg =>
          { x with pg := pg, delivered := x.delivered ++ [⟨clock, batch⟩] }
  | .sweep scans => some { x with pg := (r.sweep scans x.now x.pg).1 }
  | .delete swept => some { x with pg := r.delete x.now x.pg swept }

/-- An order that is deleted ended long ago. -/
def Retention.GoneOrder (r : Retention) (pg : Postgres) (now : ℤ) (id : UInt64)
    (row : OrderRow) : Prop :=
  (row.status = .filled ∨ row.status = .cancelled) ∧
    ∃ t, pg.updatedAt.lookup id = some t ∧ Old now r.orderDays t

/-- Balances, trades and candles are those of a writer that never deletes, but for old
trades and old one-second candles. -/
structure Ingest.Kept (r : Retention) (batches : List EventBatch) (x : Ingest)
    (full : Tables) : Prop where
  delivered : x.delivered.map Delivery.batch = batches.take x.delivered.length
  deliver : Tables.empty.deliver x.delivered = some full
  balances : x.pg.tables.balances = full.balances
  keeps : r.Keeps x.now full x.pg.tables
  ids : TradesOf x.delivered.length 0 full

/-- So are the orders, but for some that ended long ago. -/
structure Ingest.Retained (r : Retention) (batches : List EventBatch) (x : Ingest)
    (full : Tables) : Prop extends x.Kept r batches full where
  orders : Pruned (r.GoneOrder x.pg x.now) full.orders x.pg.tables.orders

theorem Retention.GoneOrder.ended {r : Retention} {pg : Postgres} {now : ℤ} {id : UInt64}
    {row : OrderRow} (h : r.GoneOrder pg now id row) : row.live = false := by
  obtain ⟨hstatus, _⟩ := h
  rw [OrderRow.live, decide_eq_false_iff_not]
  rintro (hopen | hpart)
  · rcases hstatus with hstatus | hstatus <;> (rw [hopen] at hstatus; cases hstatus)
  · rcases hstatus with hstatus | hstatus <;> (rw [hpart] at hstatus; cases hstatus)

/-! ## What a sweep deletes -/

/-- The rows a statement may delete: none when it is off. -/
def onDays {κ V : Type} (now days : ℤ) (stale : ℤ → κ → V → Bool) (k : κ) (v : V) : Bool :=
  days ≠ 0 ∧ stale (daysBefore now days) k v

theorem onDays_stale {κ V : Type} {now days : ℤ} (hne : days ≠ 0) (stale : ℤ → κ → V → Bool) :
    onDays now days stale = stale (daysBefore now days) := by
  funext k v
  rw [onDays]
  simp [hne]

theorem cutoff_some {now days before : ℤ} (h : cutoff now days = some before) :
    before = daysBefore now days := by
  rw [cutoff] at h
  split at h
  · exact (Option.some.inj h).symm
  · cases h

theorem pruneRows_deleted {κ V : Type} [DecidableEq κ] {scans : ℕ → DrainOrder κ} {now days : ℤ}
    {stale : ℤ → κ → V → Bool} {rows rows' : HashMap κ V} {n : ℕ}
    (h : pruneRows scans now days stale rows = some (rows', n)) :
    Deleted (onDays now days stale) rows rows' := by
  rw [pruneRows] at h
  split at h
  · cases h
    exact .refl _ rows
  · rename_i hne
    obtain ⟨before, hcut, hpruned⟩ := Option.map_eq_some_iff.mp h
    have hdeleted := prune_deleted scans (stale before) retentionBatch retentionMaxBatches rows
    rw [hpruned, cutoff_some hcut] at hdeleted
    rw [onDays_stale hne]
    exact hdeleted

theorem deleteRows_deleted {κ V : Type} [DecidableEq κ] (scan : DrainOrder κ) (now days : ℤ)
    (stale : ℤ → κ → V → Bool) (rows : HashMap κ V) :
    Deleted (onDays now days stale) rows (deleteRows scan now days stale rows) := by
  rw [deleteRows]
  split
  · exact .refl _ rows
  · rename_i hne
    rw [onDays_stale hne]
    split
    · rename_i before hcut
      rw [← cutoff_some hcut]
      exact deleteSome_deleted scan _ _ rows
    · exact .refl _ rows

/-- What a sweep, or a part of one, does to the tables: some stale rows are deleted. -/
structure Retention.Sweeps (r : Retention) (now : ℤ) (pg pg' : Postgres) : Prop where
  updatedAt : pg'.updatedAt = pg.updatedAt
  balances : pg'.tables.balances = pg.tables.balances
  orders : Deleted (onDays now r.orderDays (staleOrder pg.updatedAt)) pg.tables.orders
    pg'.tables.orders
  trades : Deleted (onDays now r.tradeDays staleTrade) pg.tables.trades pg'.tables.trades
  candles : Deleted (onDays now r.candle1sDays staleCandle) pg.tables.candles pg'.tables.candles

namespace Retention.Sweeps

variable {r : Retention} {now : ℤ} {pg pg' pg'' : Postgres}

theorem refl (r : Retention) (now : ℤ) (pg : Postgres) : r.Sweeps now pg pg :=
  ⟨rfl, rfl, .refl _ _, .refl _ _, .refl _ _⟩

theorem trans (h : r.Sweeps now pg pg') (h' : r.Sweeps now pg' pg'') : r.Sweeps now pg pg'' where
  updatedAt := h'.updatedAt.trans h.updatedAt
  balances := h'.balances.trans h.balances
  orders := h.orders.trans (h.updatedAt ▸ h'.orders)
  trades := h.trades.trans h'.trades
  candles := h.candles.trans h'.candles

theorem setOrders {orders : HashMap UInt64 OrderRow}
    (h : Deleted (onDays now r.orderDays (staleOrder pg.updatedAt)) pg.tables.orders orders) :
    r.Sweeps now pg (pg.setOrders orders) :=
  ⟨rfl, rfl, h, .refl _ _, .refl _ _⟩

theorem setTrades {trades : HashMap Text TradeRow}
    (h : Deleted (onDays now r.tradeDays staleTrade) pg.tables.trades trades) :
    r.Sweeps now pg (pg.setTrades trades) :=
  ⟨rfl, rfl, .refl _ _, h, .refl _ _⟩

theorem setCandles {candles : HashMap CandleKey CandleRow}
    (h : Deleted (onDays now r.candle1sDays staleCandle) pg.tables.candles candles) :
    r.Sweeps now pg (pg.setCandles candles) :=
  ⟨rfl, rfl, .refl _ _, .refl _ _, h⟩

end Retention.Sweeps

/-- **A sweep** deletes stale rows only, wherever it fails. -/
theorem Retention.sweep_sweeps (r : Retention) (scans : Scans) (now : ℤ) (pg : Postgres) :
    r.Sweeps now pg (r.sweep scans now pg).1 := by
  rw [Retention.sweep]
  split
  · exact .refl r now pg
  · rename_i orders _ horders
    have hfirst : r.Sweeps now pg (pg.setOrders orders) :=
      .setOrders (pruneRows_deleted horders)
    dsimp only
    split
    · exact hfirst
    · rename_i trades _ htrades
      have hsecond := hfirst.trans (.setTrades (pruneRows_deleted htrades))
      split
      · exact hsecond
      · rename_i candles _ hcandles
        exact hsecond.trans (.setCandles (pruneRows_deleted hcandles))

theorem Retention.delete_sweeps (r : Retention) (now : ℤ) (pg : Postgres) (swept : Swept) :
    r.Sweeps now pg (r.delete now pg swept) := by
  cases swept with
  | orders scan => exact .setOrders (deleteRows_deleted ..)
  | trades scan => exact .setTrades (deleteRows_deleted ..)
  | candles scan => exact .setCandles (deleteRows_deleted ..)

section Steps

variable {r : Retention} {batches : List EventBatch} {x : Ingest} {full : Tables}

theorem Ingest.Kept.count (h : x.Kept r batches full) :
    x.delivered.length ≤ batches.length := by
  have htake := congrArg List.length h.delivered
  rw [List.length_map, List.length_take] at htake
  omega

theorem Retention.Keeps.mono {now now' : ℤ} (hle : now ≤ now') {tables : Tables}
    (h : r.Keeps now full tables) : r.Keeps now' full tables where
  trades := h.trades.mono fun _ _ _ hold => hold.mono hle
  candles := h.candles.mono fun _ _ _ hgone => ⟨hgone.1, hgone.2.mono hle⟩

theorem Retention.GoneOrder.mono {pg : Postgres} {now now' : ℤ} (hle : now ≤ now')
    {id : UInt64} {row : OrderRow} (h : r.GoneOrder pg now id row) :
    r.GoneOrder pg now' id row := by
  obtain ⟨hstatus, t, ht, hold⟩ := h
  exact ⟨hstatus, t, ht, hold.mono hle⟩

/-- What is stale is old. -/
theorem old_of_onDays {κ V : Type} {now days t : ℤ} {stale : ℤ → κ → V → Bool} {k : κ} {v : V}
    (hstale : ∀ before, stale before k v = true → t < before)
    (h : onDays now days stale k v = true) : Old now days t := by
  obtain ⟨hne, hlt⟩ := of_decide_eq_true h
  exact ⟨hne, hstale _ hlt⟩

theorem goneOrder_of_stale {pg : Postgres} {now : ℤ} {id : UInt64} {row : OrderRow}
    (h : onDays now r.orderDays (staleOrder pg.updatedAt) id row = true) :
    r.GoneOrder pg now id row := by
  obtain ⟨hne, hstale⟩ := of_decide_eq_true h
  obtain ⟨hstatus, hold⟩ := of_decide_eq_true hstale
  obtain ⟨t, ht, hlt⟩ := (Option.any_eq_true _ _).mp hold
  exact ⟨hstatus, t, ht, hne, of_decide_eq_true hlt⟩

/-- **Deleting stale rows**, of any of the tables. -/
theorem Ingest.Kept.swept (h : x.Kept r batches full) {pg : Postgres}
    (hsweeps : r.Sweeps x.now x.pg pg) : Ingest.Kept r batches { x with pg := pg } full where
  delivered := h.delivered
  deliver := h.deliver
  balances := hsweeps.balances.trans h.balances
  keeps :=
    { trades := h.keeps.trades.deleted
        (fun _ _ _ hstale => old_of_onDays (fun _ hlt => of_decide_eq_true hlt) hstale)
        hsweeps.trades
      candles := h.keeps.candles.deleted
        (fun _ _ _ hstale => ⟨(of_decide_eq_true (of_decide_eq_true hstale).2).1,
          old_of_onDays (fun _ hlt => (of_decide_eq_true hlt).2) hstale⟩)
        hsweeps.candles }
  ids := h.ids

theorem Ingest.Retained.swept (h : x.Retained r batches full) {pg : Postgres}
    (hsweeps : r.Sweeps x.now x.pg pg) :
    Ingest.Retained r batches { x with pg := pg } full where
  toKept := h.toKept.swept hsweeps
  orders := by
    have horders := h.orders.deleted (fun _ _ _ hstale => goneOrder_of_stale hstale) hsweeps.orders
    refine horders.mono fun id row _ hgone => ?_
    obtain ⟨hstatus, t, ht, hold⟩ := hgone
    exact ⟨hstatus, t, by rw [← ht, hsweeps.updatedAt], hold⟩

theorem Ingest.Kept.tick (h : x.Kept r batches full) (millis : ℕ) :
    Ingest.Kept r batches { x with now := x.now + millis } full where
  delivered := h.delivered
  deliver := h.deliver
  balances := h.balances
  keeps := h.keeps.mono (Int.le_add_of_nonneg_right (Int.natCast_nonneg millis))
  ids := h.ids

theorem Ingest.Retained.tick (h : x.Retained r batches full) (millis : ℕ) :
    Ingest.Retained r batches { x with now := x.now + millis } full where
  toKept := h.toKept.tick millis
  orders := h.orders.mono fun _ _ _ hgone =>
    hgone.mono (Int.le_add_of_nonneg_right (Int.natCast_nonneg millis))

/-- **One batch**, of trades and balances. -/
theorem Ingest.Kept.batch (hdays : 0 ≤ r.candle1sDays) (h : x.Kept r batches full)
    {clock : ℕ → ℤ} (hclock : ∀ i, x.now ≤ clock i) {batch : EventBatch}
    (hbatch : batches[x.delivered.length]? = some batch)
    (hseq : batch.seq = UInt64.ofNat x.delivered.length) (hlen : x.delivered.length < 2 ^ 64)
    {pg : Postgres} (hstage : x.pg.stage x.now clock batch = some pg) :
    ∃ full', full.stageBatch clock batch = some full' ∧ Ingest.Kept r batches
      { x with pg := pg, delivered := x.delivered ++ [⟨clock, batch⟩] } full' := by
  obtain ⟨tables, htables, rfl⟩ := Option.map_eq_some_iff.mp hstage
  have hevents := htables
  rw [Tables.stageBatch, hseq] at hevents
  obtain ⟨full', hfull', hkeeps, hids⟩ :=
    Retention.Keeps.stageEvents hdays hclock hlen batch.events 0 h.keeps h.ids hevents
  have hfull : full.stageBatch clock batch = some full' := by
    rw [Tables.stageBatch, hseq]
    exact hfull'
  obtain ⟨hbalances, _⟩ := stageBatch_rows htables
  obtain ⟨hbalances', _⟩ := stageBatch_rows hfull
  refine ⟨full', hfull, ?_, ?_, ?_, hkeeps, ?_⟩
  · rw [List.map_append, h.delivered, List.length_append, List.length_singleton,
      List.take_add_one, hbatch]
    rfl
  · rw [deliver_append, h.deliver]
    show Tables.deliver full _ = _
    rw [Tables.deliver, List.foldlM_cons, hfull]
    rfl
  · show tables.balances = full'.balances
    rw [hbalances, hbalances', h.balances]
  · rw [List.length_append, List.length_singleton]
    exact hids

/-- **One batch**: no order that is told of was deleted. -/
theorem Ingest.Retained.batch (hdays : 0 ≤ r.candle1sDays) (h : x.Retained r batches full)
    {clock : ℕ → ℤ} (hclock : ∀ i, x.now ≤ clock i) {batch : EventBatch}
    (hbatch : batches[x.delivered.length]? = some batch)
    (hseq : batch.seq = UInt64.ofNat x.delivered.length) (hlen : x.delivered.length < 2 ^ 64)
    (hsettled : ∀ id row, full.orders.lookup id = some row → row.live = false →
      trailOf id batch.events = [])
    {pg : Postgres} (hstage : x.pg.stage x.now clock batch = some pg) :
    ∃ full', Ingest.Retained r batches
      { x with pg := pg, delivered := x.delivered ++ [⟨clock, batch⟩] } full' := by
  obtain ⟨full', hfull, hkept⟩ := h.toKept.batch hdays hclock hbatch hseq hlen hstage
  obtain ⟨tables, htables, rfl⟩ := Option.map_eq_some_iff.mp hstage
  obtain ⟨_, horders⟩ := stageBatch_rows htables
  obtain ⟨_, horders'⟩ := stageBatch_rows hfull
  refine ⟨full', hkept, ⟨fun id => ?_⟩⟩
  show tables.orders.lookup id = full'.orders.lookup id ∨ _
  rw [horders, horders', lookup_foldl_orderStep, lookup_foldl_orderStep]
  by_cases htrail : trailOf id batch.events = []
  · -- nothing was told of it
    rw [rowAfter, rowAfter, htrail]
    refine (h.orders.lookup id).imp (fun hsame => hsame) fun hgone => ?_
    obtain ⟨hnone, row, hrow, hstatus, t, ht, hold⟩ := hgone
    refine ⟨hnone, row, hrow, hstatus, t, ?_, hold⟩
    dsimp only
    rw [foldl_stampStep_other x.now batch.events htrail]
    exact ht
  · refine .inl (congrArg _ (h.orders.same fun row hrow hgone => htrail ?_))
    exact hsettled id row hrow hgone.ended

end Steps

/-- How far back a sweep goes is a timestamp. -/
def Retention.InRange (r : Retention) (now : ℤ) : Prop :=
  ∀ days ∈ [r.orderDays, r.tradeDays, r.candle1sDays],
    days = 0 ∨ minTimestamp ≤ daysBefore now days

/-- `prune` deletes all that is stale, up to 20 batches of 5000. -/
theorem pruneRows_count {κ V : Type} [DecidableEq κ] {now days : ℤ}
    (hrange : days = 0 ∨ minTimestamp ≤ daysBefore now days) (scans : ℕ → DrainOrder κ)
    (stale : ℤ → κ → V → Bool) (rows : HashMap κ V) :
    ∃ rows', pruneRows scans now days stale rows = some (rows',
      if days = 0 then 0
      else min 100000 (eligible (stale (daysBefore now days)) rows).card) := by
  rw [pruneRows]
  split
  · exact ⟨rows, rfl⟩
  · rename_i hne
    rw [cutoff, if_pos (hrange.resolve_left hne), Option.map_some]
    have hcount := (prune_total scans (stale (daysBefore now days)) retentionBatch
      retentionMaxBatches rows).1
    exact ⟨_, congrArg some (Prod.ext rfl hcount)⟩

/-- **How much a sweep deletes**, when it goes through. -/
theorem Retention.sweep_count {r : Retention} {now : ℤ} (hrange : r.InRange now) (scans : Scans)
    (pg : Postgres) : (r.sweep scans now pg).2 = some
      (if r.orderDays = 0 then 0
        else min 100000 (eligible (staleOrder pg.updatedAt (daysBefore now r.orderDays))
          pg.tables.orders).card,
      if r.tradeDays = 0 then 0
        else min 100000 (eligible (staleTrade (daysBefore now r.tradeDays)) pg.tables.trades).card,
      if r.candle1sDays = 0 then 0
        else min 100000 (eligible (staleCandle (daysBefore now r.candle1sDays))
          pg.tables.candles).card) := by
  obtain ⟨orders, horders⟩ := pruneRows_count (hrange r.orderDays (by simp)) scans.orders
    (staleOrder pg.updatedAt) pg.tables.orders
  obtain ⟨trades, htrades⟩ := pruneRows_count (hrange r.tradeDays (by simp)) scans.trades
    staleTrade pg.tables.trades
  obtain ⟨candles, hcandles⟩ := pruneRows_count (hrange r.candle1sDays (by simp)) scans.candles
    staleCandle pg.tables.candles
  rw [Retention.sweep, horders]
  dsimp only [Postgres.setOrders, Postgres.setTrades]
  rw [htrades]
  dsimp only
  rw [hcandles]

theorem Retention.fromEnv_nonneg (env : String → Option Text) :
    0 ≤ (Retention.fromEnv env).candle1sDays := by
  show 0 ≤ (((env "CANDLE_1S_RETENTION_DAYS").bind parseI32).filter fun d => 0 ≤ d).getD
    defaultCandle1sRetentionDays
  cases hdays : ((env "CANDLE_1S_RETENTION_DAYS").bind parseI32).filter fun d => 0 ≤ d with
  | none => decide
  | some d => exact of_decide_eq_true (Option.filter_eq_some_iff.mp hdays).2

section Run

variable {b : Build} {limits : Limits} {h : List Record} {e : Engine}
  (hr : Reaches b limits h e)
  (hlen : b.Checks ((h.filterMap Record.batch).length ≤ 2 ^ 64))

include hr hlen

/-- The number of a batch, and that it fits its word. -/
theorem Reaches.batchSeq {k : ℕ} {batch : EventBatch}
    (hbatch : (h.filterMap Record.batch)[k]? = some batch) :
    batch.seq = UInt64.ofNat k ∧ k < 2 ^ 64 := by
  obtain ⟨_, hdebug, hseq⟩ := hr.numbered
  have hwords := hlen.elim (fun hb => (hdebug hb).le) id
  have hlt := (List.getElem?_eq_some_iff.mp hbatch).1
  exact ⟨hseq _ _ hbatch, hlt.trans_le hwords⟩

theorem Ingest.Kept.stepped {r : Retention} (hdays : 0 ≤ r.candle1sDays) {x x' : Ingest}
    {full : Tables} (hx : x.Kept r (h.filterMap Record.batch) full) {a : IngestAction}
    (hstep : x.step r (h.filterMap Record.batch) a = some x') :
    ∃ full', x'.Kept r (h.filterMap Record.batch) full' := by
  cases a with
  | tick millis =>
      cases hstep
      exact ⟨full, hx.tick millis⟩
  | batch lag =>
      obtain ⟨batch, hbatch, hstep⟩ := Option.bind_eq_some_iff.mp hstep
      obtain ⟨pg, hpg, rfl⟩ := Option.map_eq_some_iff.mp hstep
      obtain ⟨hseq, hlt⟩ := hr.batchSeq hlen hbatch
      obtain ⟨full', _, hkept⟩ := hx.batch hdays (fun i => by omega) hbatch hseq hlt hpg
      exact ⟨full', hkept⟩
  | sweep scans =>
      cases hstep
      exact ⟨full, hx.swept (r.sweep_sweeps ..)⟩
  | delete swept =>
      cases hstep
      exact ⟨full, hx.swept (r.delete_sweeps ..)⟩

/-- **In every run** trades, candles and balances are kept. -/
theorem Ingest.kept {r : Retention} (hdays : 0 ≤ r.candle1sDays) {x : Ingest}
    (hruns : Runs (Ingest.step r (h.filterMap Record.batch)) (fun _ _ => True) .init x) :
    ∃ full, x.Kept r (h.filterMap Record.batch) full := by
  have hinit : Ingest.init.Kept r (h.filterMap Record.batch) .empty :=
    ⟨rfl, rfl, rfl, ⟨.refl _ _, .refl _ _⟩, fun id hid => (by cases hid)⟩
  refine hruns.invariant
    (motive := fun x => ∃ full, x.Kept r (h.filterMap Record.batch) full) ⟨_, hinit⟩ ?_
  rintro x a x' ⟨full, hx⟩ _ hstep
  exact hx.stepped hr hlen hdays hstep

variable (hnet : b.Checks (NetBelow h)) (hplaces : b.Checks (places h < 2 ^ 64))

include hnet hplaces

theorem Ingest.Retained.stepped {r : Retention} (hdays : 0 ≤ r.candle1sDays) {x x' : Ingest}
    {full : Tables} (hx : x.Retained r (h.filterMap Record.batch) full) {a : IngestAction}
    (hstep : x.step r (h.filterMap Record.batch) a = some x') :
    ∃ full', x'.Retained r (h.filterMap Record.batch) full' := by
  cases a with
  | tick millis =>
      cases hstep
      exact ⟨full, hx.tick millis⟩
  | batch lag =>
      obtain ⟨batch, hbatch, hstep⟩ := Option.bind_eq_some_iff.mp hstep
      obtain ⟨pg, hpg, rfl⟩ := Option.map_eq_some_iff.mp hstep
      obtain ⟨hseq, hlt⟩ := hr.batchSeq hlen hbatch
      refine hx.batch hdays (fun i => by omega) hbatch hseq hlt (fun id row hrow hended => ?_) hpg
      rw [deliver_orders hx.delivered hx.deliver] at hrow
      exact hr.settled hnet hplaces hbatch hrow hended
  | sweep scans =>
      cases hstep
      exact ⟨full, hx.swept (r.sweep_sweeps ..)⟩
  | delete swept =>
      cases hstep
      exact ⟨full, hx.swept (r.delete_sweeps ..)⟩

/-- **In every run** the tables are pruned of what is old. -/
theorem Ingest.retained {r : Retention} (hdays : 0 ≤ r.candle1sDays) {x : Ingest}
    (hruns : Runs (Ingest.step r (h.filterMap Record.batch)) (fun _ _ => True) .init x) :
    ∃ full, x.Retained r (h.filterMap Record.batch) full := by
  have hinit : Ingest.init.Retained r (h.filterMap Record.batch) .empty :=
    { toKept := ⟨rfl, rfl, rfl, ⟨.refl _ _, .refl _ _⟩, fun id hid => (by cases hid)⟩
      orders := .refl _ _ }
  refine hruns.invariant
    (motive := fun x => ∃ full, x.Retained r (h.filterMap Record.batch) full) ⟨_, hinit⟩ ?_
  rintro x a x' ⟨full, hx⟩ _ hstep
  exact hx.stepped hr hlen hnet hplaces hdays hstep

/-- **Retention is exact**, however the sweeps fall between the batches, whatever the
environment says and whichever rows Postgres finds first: the tables are those of a
writer that never deletes, but for orders that were filled or cancelled and trades and
one-second candles, each older than its number of days. A sweep that goes back no
further than timestamps do deletes all of these, up to 100000 of each. -/
theorem retention_exact {env : String → Option Text} {r : Retention}
    (henv : r = Retention.fromEnv env) {x : Ingest}
    (hruns : Runs (Ingest.step r (h.filterMap Record.batch)) (fun _ _ => True) .init x) :
    ∃ full : Tables,
      x.delivered.map Delivery.batch = (h.filterMap Record.batch).take x.delivered.length ∧
      Tables.empty.deliver x.delivered = some full ∧
      x.pg.tables.balances = full.balances ∧
      (∀ id, x.pg.tables.orders.lookup id = full.orders.lookup id ∨
        x.pg.tables.orders.lookup id = none ∧ ∃ row t, full.orders.lookup id = some row ∧
          (row.status = .filled ∨ row.status = .cancelled) ∧ r.orderDays ≠ 0 ∧
          x.pg.updatedAt.lookup id = some t ∧ t < x.now - r.orderDays * 86400000) ∧
      (∀ id, x.pg.tables.trades.lookup id = full.trades.lookup id ∨
        x.pg.tables.trades.lookup id = none ∧ ∃ row, full.trades.lookup id = some row ∧
          r.tradeDays ≠ 0 ∧ row.createdAt < x.now - r.tradeDays * 86400000) ∧
      (∀ pair w bucket, x.pg.tables.candles.lookup (pair, w, bucket)
          = full.candles.lookup (pair, w, bucket) ∨
        x.pg.tables.candles.lookup (pair, w, bucket) = none ∧
          w = 1 ∧ r.candle1sDays ≠ 0 ∧ bucket * 1000 < x.now - r.candle1sDays * 86400000) ∧
      (r.InRange x.now → ∀ scans, (r.sweep scans x.now x.pg).2 = some
        (if r.orderDays = 0 then 0
          else min 100000 (eligible
            (staleOrder x.pg.updatedAt (x.now - r.orderDays * 86400000)) x.pg.tables.orders).card,
        if r.tradeDays = 0 then 0
          else min 100000 (eligible (staleTrade (x.now - r.tradeDays * 86400000))
            x.pg.tables.trades).card,
        if r.candle1sDays = 0 then 0
          else min 100000 (eligible (staleCandle (x.now - r.candle1sDays * 86400000))
            x.pg.tables.candles).card)) := by
  have hdays : 0 ≤ r.candle1sDays := henv ▸ Retention.fromEnv_nonneg env
  obtain ⟨full, hx⟩ := Ingest.retained hr hlen hnet hplaces hdays hruns
  refine ⟨full, hx.delivered, hx.deliver, hx.balances, fun id => ?_, fun id => ?_,
    fun pair w bucket => ?_, fun hrange scans => Retention.sweep_count hrange scans x.pg⟩
  · refine (hx.orders.lookup id).imp (fun hsame => hsame) ?_
    rintro ⟨hnone, row, hrow, hstatus, t, ht, hne, hlt⟩
    exact ⟨hnone, row, t, hrow, hstatus, hne, ht, hlt⟩
  · refine (hx.keeps.trades.lookup id).imp (fun hsame => hsame) ?_
    rintro ⟨hnone, row, hrow, hne, hlt⟩
    exact ⟨hnone, row, hrow, hne, hlt⟩
  · refine (hx.keeps.candles.lookup (pair, w, bucket)).imp (fun hsame => hsame) ?_
    rintro ⟨hnone, row, hrow, hw, hne, hlt⟩
    exact ⟨hnone, hw, hne, hlt⟩

end Run

/-! ## A week later -/

/-- The trading run is written, and eight days later a sweep gets as far as the
orders. -/
def weekRun : List IngestAction :=
  List.replicate 5 (.batch fun _ => 0) ++
    [.tick (8 * 86400000), .delete (.orders (.byKey UInt64.toNat fun _ _ => UInt64.toNat_inj.mp))]

/-- The order that was filled is deleted; what is left for a sweep is a one-second candle. -/
theorem retention_exact_week : ∃ (x : Ingest) (full : Tables),
    Tables.empty.deliver x.delivered = some full ∧ x.delivered.length = 5 ∧
    (full.orders.lookup 0).isSome = true ∧ x.pg.tables.orders.lookup 0 = none ∧
    x.pg.tables.orders.lookup 1 = full.orders.lookup 1 ∧
    x.pg.tables.balances = full.balances ∧
    ∀ scans, ((Retention.fromEnv fun _ => none).sweep scans x.now x.pg).2 = some (0, 0, 1) := by
  have hcheck : (exec (Ingest.step (Retention.fromEnv fun _ => none) tradingBatches)
      (fun _ _ => true) .init weekRun).any (fun x => x.delivered.length = 5 ∧
        (x.pg.tables.orders.lookup 0).isNone ∧ (x.pg.tables.orders.lookup 1).isSome ∧
        ((Tables.empty.deliver x.delivered).any fun full => (full.orders.lookup 0).isSome) ∧
        x.now = 8 * 86400000 ∧
        (eligible (staleOrder x.pg.updatedAt 86400000) x.pg.tables.orders).card = 0 ∧
        (eligible (staleTrade (-357 * 86400000)) x.pg.tables.trades).card = 0 ∧
        (eligible (staleCandle (6 * 86400000)) x.pg.tables.candles).card = 1)
      = true := by decide +kernel
  obtain ⟨x, hruns, hx⟩ := exists_run (C := fun _ _ => True) (fun _ _ _ => trivial) hcheck
  obtain ⟨hlength, hgone, hkept, hfull, hnow, horders, htrades, hcandles⟩ := of_decide_eq_true hx
  obtain ⟨full, _, hdeliver, hbalances, hrows, _, _, hsweep⟩ := retention_exact
    (reaches_runCalls tradingCalls_returned) (.inr (by decide +kernel)) (.inr tradingCalls_net)
    (.inr (by decide +kernel)) rfl hruns
  rw [hdeliver] at hfull
  refine ⟨x, full, hdeliver, hlength, hfull, Option.isNone_iff_eq_none.mp hgone, ?_, hbalances,
    fun scans => ?_⟩
  · rcases hrows 1 with hsame | ⟨hnone, _⟩
    · exact hsame
    · rw [hnone] at hkept
      cases hkept
  · rw [hnow] at hsweep ⊢
    have hrange : (Retention.fromEnv fun _ => none).InRange (8 * 86400000) := by
      rw [Retention.InRange]
      decide +kernel
    rw [hsweep hrange scans]
    exact congrArg some (congrArg₂ Prod.mk (congrArg (min 100000) horders)
      (congrArg₂ Prod.mk (congrArg (min 100000) htrades) (congrArg (min 100000) hcandles)))

end MatchingEngine
