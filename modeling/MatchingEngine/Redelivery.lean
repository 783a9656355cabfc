import MatchingEngine.Acceptance
import MatchingEngine.Balances
import MatchingEngine.Cancellation
import MatchingEngine.Idempotency

/-!
# Redelivery: batches that are staged again

The stream may hand the writer batches it has committed. Trades are keyed by
their event and candles move with new trades only, so both skip what they know
(`stageBatch_again`). Balances and order columns are set, so a run of batches
up to the latest one sets them to what they are (`Writes.sets_sets`,
`rowAfter_again`); for that an order has to have been accepted before it is
updated.
-/

namespace MatchingEngine

open RustArith HashModel Bank

/-- A batch, and what the clock says while its events are staged. -/
structure Delivery where
  clock : ℕ → ℤ
  batch : EventBatch

/-- The transactions of some deliveries, in order. -/
def Tables.deliver (tables : Tables) (ds : List Delivery) : Option Tables :=
  ds.foldlM (fun tables d => tables.stageBatch d.clock d.batch) tables

/-- The deliveries `all` are those of `once`, with batches delivered again: at
any point some of the latest, in order, before the next one. -/
inductive Schedule : List Delivery → List Delivery → Prop where
  | nil : Schedule [] []
  | next {once all : List Delivery} (d : Delivery) (h : Schedule once all) :
      Schedule (once ++ [d]) (all ++ [d])
  | again {once all : List Delivery} (n : ℕ) (ds : List Delivery) (h : Schedule once all)
      (hds : ds.map Delivery.batch = (once.drop n).map Delivery.batch) : Schedule once (all ++ ds)

theorem Schedule.refl (ds : List Delivery) : Schedule ds ds := by
  induction ds using List.reverseRecOn with
  | nil => exact .nil
  | append_singleton ds d ih => exact .next d ih

/-! ## Order rows -/

/-- What happens to a row that is there: some columns are set. -/
theorem foldl_rowStep_some (trail : List Event) : ∃ (q : Option UInt64) (s : Option OrderStatus),
    ∀ row : OrderRow, trail.foldl rowStep (some row)
      = some { row with filledQty := q.getD row.filledQty, status := s.getD row.status } := by
  induction trail with
  | nil => exact ⟨none, none, fun _ => rfl⟩
  | cons event trail ih =>
      obtain ⟨q, s, hset⟩ := ih
      cases event with
      | orderCancelled => exact ⟨q, some (s.getD .cancelled), fun row => hset _⟩
      | orderUpdated _ _ _ filledQty _ status =>
          exact ⟨some (q.getD filledQty), some (s.getD status), fun row => hset _⟩
      | _ => exact ⟨q, s, fun row => hset _⟩

/-- So the same again changes nothing. -/
theorem foldl_rowStep_twice (trail : List Event) (row : OrderRow) :
    trail.foldl rowStep (trail.foldl rowStep (some row)) = trail.foldl rowStep (some row) := by
  obtain ⟨q, s, hset⟩ := foldl_rowStep_some trail
  rw [hset, hset]
  cases q <;> cases s <;> rfl

/-- An acceptance makes a row, and leaves a row alone. -/
theorem rowStep_accepted {event : Event} (h : event.accepted?.isSome) :
    ∃ row, rowStep none event = some row ∧ ∀ row', rowStep (some row') event = some row' := by
  cases event with
  | orderAccepted => exact ⟨_, rfl, fun _ => rfl⟩
  | _ => cases h

/-- **The latest events of an order, again**, when its acceptance comes first. -/
theorem rowAfter_again {id : UInt64} {old latest : List Event}
    (h : AcceptedFirst (trailOf id (old ++ latest))) :
    rowAfter id latest (rowAfter id (old ++ latest) none) = rowAfter id (old ++ latest) none := by
  simp only [rowAfter, trailOf_append, List.foldl_append] at h ⊢
  cases h with
  | never hnone =>
      have hrow : ∀ trail : List Event, (∀ event ∈ trail, event.accepted? = none) →
          trail.foldl rowStep none = none := by
        intro trail
        induction trail with
        | nil => exact fun _ => rfl
        | cons event trail ih =>
            intro hnone
            rw [List.foldl_cons, rowStep_none (hnone event List.mem_cons_self)]
            exact ih fun event' hevent => hnone event' (List.mem_cons_of_mem _ hevent)
      rw [hrow _ fun event hevent => hnone event (List.mem_append_left _ hevent),
        hrow (trailOf id latest) fun event hevent => hnone event (List.mem_append_right _ hevent)]
      exact hrow _ fun event hevent => hnone event (List.mem_append_right _ hevent)
  | begun hbegun =>
      obtain ⟨event, rest, htrail, hacc⟩ := hbegun
      obtain ⟨row, hrow, hkeep⟩ := rowStep_accepted hacc
      cases hold : trailOf id old with
      | nil =>
          -- the acceptance is told again, to the row it made
          rw [hold, List.nil_append] at htrail
          obtain ⟨q, s, hset⟩ := foldl_rowStep_some rest
          obtain ⟨row', hrest⟩ : ∃ row', rest.foldl rowStep (some row) = some row' := ⟨_, hset row⟩
          have hfirst : (event :: rest).foldl rowStep none = some row' := by
            rw [List.foldl_cons, hrow, hrest]
          have htwice := foldl_rowStep_twice rest row
          rw [hrest] at htwice
          rw [htrail, List.foldl_nil, hfirst, List.foldl_cons, hkeep]
          exact htwice
      | cons first old' =>
          rw [hold] at htrail
          obtain ⟨rfl, _⟩ := List.cons_eq_cons.mp htrail
          obtain ⟨q, s, hset⟩ := foldl_rowStep_some old'
          rw [List.foldl_cons, hrow, hset]
          exact foldl_rowStep_twice (trailOf id latest) _

/-! ## One batch -/

/-- The trades of a batch have rows. -/
def Tables.Knows (tables : Tables) (batch : EventBatch) : Prop :=
  ∀ i t, batch.events[i]? = some (.trade t) →
    (tables.trades.lookup (eventId batch.seq i)).isSome

/-- No row of a trade is ever dropped, and a staged trade has one. -/
theorem applyEvent_trades {now : ℤ} {tables tables' : Tables} {entryId : Text} {event : Event}
    (h : tables.applyEvent now entryId event = some tables') :
    (∀ id, (tables.trades.lookup id).isSome → (tables'.trades.lookup id).isSome) ∧
      ∀ t, event = .trade t → (tables'.trades.lookup entryId).isSome := by
  cases event with
  | trade t =>
      simp only [Tables.applyEvent, Tables.applyTrade] at h
      split at h
      · rename_i row hrow
        cases h
        exact ⟨fun _ hid => hid, fun _ _ => by rw [hrow]; rfl⟩
      · obtain ⟨candles, _, h⟩ := Option.bind_eq_some_iff.mp h
        cases h
        refine ⟨fun id hid => ?_, fun _ _ => ?_⟩
        · rw [lookup_insert_ite]
          split
          · rfl
          · exact hid
        · rw [lookup_insert_ite, if_pos rfl]
          rfl
  | _ =>
      cases h
      exact ⟨fun _ hid => hid, fun t ht => by cases ht⟩

/-- An event that is known changes neither trades nor candles. -/
theorem applyEvent_known (now : ℤ) {tables : Tables} {entryId : Text} {event : Event}
    (h : ∀ t, event = .trade t → (tables.trades.lookup entryId).isSome) :
    ∃ tables', tables.applyEvent now entryId event = some tables' ∧
      tables'.trades = tables.trades ∧ tables'.candles = tables.candles := by
  cases event with
  | trade t =>
      obtain ⟨row, hrow⟩ := Option.isSome_iff_exists.mp (h t rfl)
      refine ⟨tables, ?_, rfl, rfl⟩
      simp only [Tables.applyEvent, Tables.applyTrade, hrow]
  | _ => exact ⟨_, rfl, rfl, rfl⟩

theorem applyEvents_trades {clock : ℕ → ℤ} {seq : UInt64} (events : List (Event × ℕ)) :
    ∀ tables tables' : Tables,
      events.foldlM (fun tables (event, i) =>
        Tables.applyEvent (clock i) tables (eventId seq i) event) tables = some tables' →
      (∀ id, (tables.trades.lookup id).isSome → (tables'.trades.lookup id).isSome) ∧
        ∀ t i, (Event.trade t, i) ∈ events → (tables'.trades.lookup (eventId seq i)).isSome := by
  induction events with
  | nil =>
      intro tables tables' h
      cases h
      exact ⟨fun _ hid => hid, fun t i hmem => absurd hmem List.not_mem_nil⟩
  | cons ev events ih =>
      intro tables tables' h
      rw [List.foldlM_cons] at h
      obtain ⟨tables₁, h₁, h⟩ := Option.bind_eq_some_iff.mp h
      obtain ⟨hkept, hknown⟩ := applyEvent_trades h₁
      obtain ⟨hkept', hknown'⟩ := ih _ _ h
      refine ⟨fun id hid => hkept' id (hkept id hid), fun t i hmem => ?_⟩
      rcases List.mem_cons.mp hmem with rfl | hmem
      · exact hkept' _ (hknown t rfl)
      · exact hknown' t i hmem

theorem stageBatch_trades {clock : ℕ → ℤ} {tables tables' : Tables} {batch : EventBatch}
    (h : tables.stageBatch clock batch = some tables') :
    (∀ id, (tables.trades.lookup id).isSome → (tables'.trades.lookup id).isSome) ∧
      tables'.Knows batch := by
  obtain ⟨hkept, hknown⟩ := applyEvents_trades _ _ _ h
  exact ⟨hkept, fun i t hi => hknown t i (List.mem_zipIdx_iff_getElem?.mpr hi)⟩

theorem applyEvents_known (clock : ℕ → ℤ) {seq : UInt64} (events : List (Event × ℕ)) :
    ∀ tables : Tables,
      (∀ t i, (Event.trade t, i) ∈ events → (tables.trades.lookup (eventId seq i)).isSome) →
      ∃ tables', events.foldlM (fun tables (event, i) =>
        Tables.applyEvent (clock i) tables (eventId seq i) event) tables = some tables' ∧
        tables'.trades = tables.trades ∧ tables'.candles = tables.candles := by
  induction events with
  | nil => exact fun tables _ => ⟨tables, rfl, rfl, rfl⟩
  | cons ev events ih =>
      intro tables hknown
      obtain ⟨event, i⟩ := ev
      have hfirst : ∀ t, event = .trade t →
          (tables.trades.lookup (eventId seq i)).isSome := by
        rintro t rfl
        exact hknown t i List.mem_cons_self
      obtain ⟨tables₁, h₁, htrades, hcandles⟩ := applyEvent_known (clock i) hfirst
      obtain ⟨tables', h', htrades', hcandles'⟩ := ih tables₁ fun t j hmem => by
        rw [htrades]
        exact hknown t j (List.mem_cons_of_mem _ hmem)
      refine ⟨tables', ?_, htrades'.trans htrades, hcandles'.trans hcandles⟩
      rw [List.foldlM_cons]
      exact Option.bind_eq_some_iff.mpr ⟨tables₁, h₁, h'⟩

/-- **A batch that is known**, staged again. -/
theorem stageBatch_again (clock : ℕ → ℤ) {tables : Tables} {batch : EventBatch}
    (h : tables.Knows batch) : ∃ tables', tables.stageBatch clock batch = some tables' ∧
      tables'.trades = tables.trades ∧ tables'.candles = tables.candles :=
  applyEvents_known clock _ tables fun t i hmem => h i t (List.mem_zipIdx_iff_getElem?.mp hmem)

/-- A batch without trades is always known. -/
theorem Tables.knows_quiet (tables : Tables) {batch : EventBatch}
    (h : batch.events.filterMap Event.trade? = []) : tables.Knows batch := by
  intro i t hi
  have hnone := List.filterMap_eq_nil_iff.mp h _ (List.mem_of_getElem? hi)
  cases hnone

/-! ## Many batches -/

theorem deliver_append (tables : Tables) (ds ds' : List Delivery) :
    tables.deliver (ds ++ ds') = (tables.deliver ds).bind fun tables => tables.deliver ds' :=
  List.foldlM_append

/-- The events of some deliveries. -/
def deliveredEvents (ds : List Delivery) : List Event :=
  (ds.map Delivery.batch).flatMap EventBatch.events

theorem deliver_rows {ds : List Delivery} {tables tables' : Tables}
    (h : tables.deliver ds = some tables') :
    tables'.balances = (deliveredEvents ds).foldl balanceStep tables.balances ∧
      tables'.orders = (deliveredEvents ds).foldl orderStep tables.orders := by
  induction ds generalizing tables with
  | nil => cases h; exact ⟨rfl, rfl⟩
  | cons d ds ih =>
      rw [Tables.deliver, List.foldlM_cons] at h
      obtain ⟨tables₁, h₁, h⟩ := Option.bind_eq_some_iff.mp h
      obtain ⟨hbalances, horders⟩ := stageBatch_rows h₁
      rw [deliveredEvents, List.map_cons, List.flatMap_cons, List.foldl_append, List.foldl_append,
        ← hbalances, ← horders]
      exact ih h

/-- The table `orders` when the writer has committed the first `k` batches. -/
def ordersAfter (batches : List EventBatch) (k : ℕ) : HashMap UInt64 OrderRow :=
  ((batches.take k).flatMap EventBatch.events).foldl orderStep ∅

/-- The table `orders` after some deliveries. -/
theorem deliver_orders {batches : List EventBatch} {k : ℕ} {ds : List Delivery} {tables : Tables}
    (hds : ds.map Delivery.batch = batches.take k) (h : Tables.empty.deliver ds = some tables) :
    tables.orders = ordersAfter batches k := by
  rw [(deliver_rows h).2, deliveredEvents, hds]
  rfl

theorem deliver_trades {ds : List Delivery} {tables tables' : Tables}
    (h : tables.deliver ds = some tables') :
    (∀ id, (tables.trades.lookup id).isSome → (tables'.trades.lookup id).isSome) ∧
      ∀ d ∈ ds, tables'.Knows d.batch := by
  induction ds generalizing tables with
  | nil => cases h; exact ⟨fun _ hid => hid, nofun⟩
  | cons d ds ih =>
      rw [Tables.deliver, List.foldlM_cons] at h
      obtain ⟨tables₁, h₁, h⟩ := Option.bind_eq_some_iff.mp h
      obtain ⟨hkept, hknows⟩ := stageBatch_trades h₁
      obtain ⟨hkept', hknows'⟩ := ih h
      refine ⟨fun id hid => hkept' id (hkept id hid), fun d' hd' => ?_⟩
      rcases List.mem_cons.mp hd' with rfl | hd'
      · exact fun i t hi => hkept' _ (hknows i t hi)
      · exact hknows' d' hd'

theorem deliver_again {ds : List Delivery} {tables : Tables}
    (h : ∀ d ∈ ds, tables.Knows d.batch) : ∃ tables', tables.deliver ds = some tables' ∧
      tables'.trades = tables.trades ∧ tables'.candles = tables.candles := by
  induction ds generalizing tables with
  | nil => exact ⟨tables, rfl, rfl, rfl⟩
  | cons d ds ih =>
      obtain ⟨tables₁, h₁, htrades, hcandles⟩ :=
        stageBatch_again d.clock (h d List.mem_cons_self)
      have hknows : ∀ d' ∈ ds, tables₁.Knows d'.batch := fun d' hd' i t hi => by
        rw [htrades]
        exact h d' (List.mem_cons_of_mem _ hd') i t hi
      obtain ⟨tables', h', htrades', hcandles'⟩ := ih hknows
      refine ⟨tables', ?_, htrades'.trans htrades, hcandles'.trans hcandles⟩
      rw [Tables.deliver, List.foldlM_cons]
      exact Option.bind_eq_some_iff.mpr ⟨tables₁, h₁, h'⟩

/-- **The latest batches, again**: every table stays what it is. -/
theorem deliver_latest {once ds : List Delivery} {tables : Tables}
    (hfirst : ∀ id, AcceptedFirst (trailOf id (deliveredEvents once)))
    (honce : Tables.empty.deliver once = some tables) {n : ℕ}
    (hds : ds.map Delivery.batch = (once.drop n).map Delivery.batch) :
    tables.deliver ds = some tables := by
  have hsplit : deliveredEvents once
      = deliveredEvents (once.take n) ++ deliveredEvents (once.drop n) := by
    rw [deliveredEvents, deliveredEvents, deliveredEvents, ← List.flatMap_append, ← List.map_append,
      List.take_append_drop]
  have hlatest : deliveredEvents ds = deliveredEvents (once.drop n) := by
    rw [deliveredEvents, hds]
    rfl
  have hrun := honce
  rw [← List.take_append_drop n once, deliver_append] at hrun
  obtain ⟨tables₁, _, hrun⟩ := Option.bind_eq_some_iff.mp hrun
  have hknows : ∀ d ∈ ds, tables.Knows d.batch := by
    intro d hd
    have hmem : d.batch ∈ (once.drop n).map Delivery.batch := hds ▸ List.mem_map_of_mem hd
    obtain ⟨d', hd', heq⟩ := List.mem_map.mp hmem
    exact heq ▸ (deliver_trades hrun).2 d' hd'
  obtain ⟨tables', hagain, htrades, hcandles⟩ := deliver_again hknows
  obtain ⟨hbalances', horders'⟩ := deliver_rows hagain
  obtain ⟨hbalances, _⟩ := deliver_rows hrun
  obtain ⟨_, horders⟩ := deliver_rows honce
  rw [hlatest] at hbalances' horders'
  have hsame : tables'.balances = tables.balances := by
    rw [hbalances', hbalances, foldl_balanceStep, foldl_balanceStep]
    exact foldl_insert_again _ _
  have hrows : tables'.orders = tables.orders := by
    apply Finmap.ext_lookup
    intro id
    rw [horders', horders, lookup_foldl_orderStep, lookup_foldl_orderStep, hsplit]
    exact rowAfter_again (hsplit ▸ hfirst id)
  rw [hagain]
  cases tables
  cases tables'
  cases htrades
  cases hcandles
  cases hsame
  cases hrows
  rfl

/-- **Redelivery is harmless**, whatever the clocks say. -/
theorem Schedule.harmless {once all : List Delivery} (h : Schedule once all)
    (hfirst : ∀ id, AcceptedFirst (trailOf id (deliveredEvents once))) :
    Tables.empty.deliver all = Tables.empty.deliver once := by
  induction h with
  | nil => rfl
  | next d _ ih =>
      have hbefore : ∀ id, AcceptedFirst (trailOf id (deliveredEvents _)) := fun id => by
        have hid := hfirst id
        rw [deliveredEvents, List.map_append, List.flatMap_append, trailOf_append] at hid
        exact hid.of_append
      rw [deliver_append, deliver_append, ih hbefore]
  | again n ds _ hds ih =>
      rw [deliver_append, ih hfirst]
      cases honce : Tables.empty.deliver _ with
      | none => rfl
      | some tables => exact deliver_latest hfirst honce hds

/-- The batches of a run, delivered at once. -/
def firstDeliveries (h : List Record) : List Delivery :=
  (h.filterMap Record.batch).map fun batch => { clock := fun _ => 0, batch := batch }

theorem firstDeliveries_batch (h : List Record) :
    (firstDeliveries h).map Delivery.batch = h.filterMap Record.batch := by
  rw [firstDeliveries, List.map_map]
  exact List.map_id _

theorem firstDeliveries_events (h : List Record) :
    deliveredEvents (firstDeliveries h) = eventsOf h := by
  rw [deliveredEvents, firstDeliveries_batch, eventsOf_eq]

/-- Records without trades are always known. -/
theorem firstDeliveries_known {h : List Record}
    (hquiet : ∀ r ∈ h, (batchEvents r.batch).filterMap Event.trade? = []) (tables : Tables) :
    ∀ d ∈ firstDeliveries h, tables.Knows d.batch := by
  intro d hd
  obtain ⟨batch, hbatch, rfl⟩ := List.mem_map.mp hd
  obtain ⟨r, hr, hr'⟩ := List.mem_filterMap.mp hbatch
  have hevents := hquiet r hr
  rw [hr'] at hevents
  exact tables.knows_quiet hevents

/-! ## Every run -/

/-- **Redelivery to Postgres is harmless**, for the batches of every run; in a
release build its ids must not wrap, or its net deposits must be words. -/
theorem redelivery_harmless {b : Build} {limits : Limits} {h : List Record} {e : Engine}
    (hr : Reaches b limits h e) (hruns : b.Checks (places h < 2 ^ 64 ∨ NetBelow h))
    {once all : List Delivery} (honce : once.map Delivery.batch = h.filterMap Record.batch)
    (hschedule : Schedule once all) : Tables.empty.deliver all = Tables.empty.deliver once := by
  refine hschedule.harmless fun id => ?_
  have hevents : deliveredEvents once = eventsOf h := by
    rw [deliveredEvents, honce, eventsOf_eq]
  rw [hevents]
  exact hr.acceptedFirst hruns id

/-- In the trading run all batches but the first two come again, later. -/
theorem redelivery_harmless_trading :
    let once := firstDeliveries (finish .default (runCalls .release .default tradingCalls)).2
    Tables.empty.deliver
        (once ++ (once.drop 2).map fun d => { clock := fun _ => 1700000009000, batch := d.batch })
      = Tables.empty.deliver once := by
  intro once
  have hbatches : ∀ ds : List Delivery,
      (ds.map fun d => ({ clock := fun _ => 1700000009000, batch := d.batch } : Delivery)).map
        Delivery.batch = ds.map Delivery.batch := by
    intro ds
    rw [List.map_map]
    exact List.map_congr_left fun _ _ => rfl
  exact redelivery_harmless (reaches_runCalls tradingCalls_returned) (.inr (.inr tradingCalls_net))
    (firstDeliveries_batch _) (.again 2 _ (Schedule.refl once) (hbatches _))

/-! ## An id that is accepted late -/

/-- Account 1 reserves past a word, so that the surplus of its bid with id 4 is
not found: the bid rests without having been accepted, and is cancelled. -/
def orphanCalls : List (AccountId × UInt64 × Command) :=
  let market : Pair := { base := .SOL, quote := .USD }
  let most : UInt64 := UInt64.ofNat (2 ^ 64 - 10)
  [(9, 1, .listPair market),
    (1, 1, .deposit { amount := most, currency := .USD }),
    (1, 2, limitOrder market .bid 1 most),
    (2, 1, .deposit { amount := 100, currency := .USD }),
    (1, 3, .deposit { amount := 50, currency := .SOL }),
    (2, 2, limitOrder market .bid 2 50),
    (1, 4, limitOrder market .ask 2 50),
    (3, 1, .deposit { amount := 10, currency := .SOL }),
    (3, 2, limitOrder market .ask 5 10),
    (1, 5, limitOrder market .bid 9 11),
    (1, 6, .cancel { orderId := 4 })]

/-- The engine after that run. -/
def orphaned : Engine := (finish .none (runCalls .release .none orphanCalls)).1

/-- Orders of size 0 that come after tell nothing of the id 4, until it is given
again. -/
theorem orphaned_idle {market : Pair} {n : ℕ} (hn : n < 2 ^ 64) {r : Record}
    (h : ∃ h₁ e₁ e₂, ∃ i < n, Reaches .release .none h₁ e₁ ∧ Idles orphaned 7 i e₁ ∧
      apply .release .sorted e₁ r.accountId r.clientOrderId (.place (idleOrder market))
        = .ok (e₂, r.response, r.batch)) :
    trailOf 4 (batchEvents r.batch) = [] ∧ (batchEvents r.batch).filterMap Event.trade? = [] := by
  obtain ⟨h₁, e₁, e₂, i, hlt, hr, hi, happly⟩ := h
  constructor
  · cases apply_tells hr.shape happly 4 with
    | nothing hnil => exact hnil
    | accepts hid _ =>
        have hnext : orphaned.nextOrderId = 5 := by decide +kernel
        rw [hi.nextOrderId, hnext, ← UInt64.toNat_inj, UInt64.toNat_add,
          UInt64.toNat_ofNat_of_lt' (hlt.trans hn)] at hid
        change 4 = (5 + i) % 2 ^ 64 at hid
        omega
    | moves o ho _ =>
        have hnone : ∀ pair, ∀ o ∈ (orphaned.book pair).orders, o.id ≠ 4 := by decide +kernel
        obtain ⟨pair, ho, hid⟩ := (Engine.Resting.of_books hi.books 4 o).mp ho
        exact absurd hid (hnone pair o ho)
  · refine apply_quiet hr.shape ?_ happly
    rw [OrderBook.fills_eq]
    exact Greedy.walk_zero _ _

/-- **Delivered again, an order is cancelled that is open**: it has the id of
one that was cancelled and never accepted. -/
theorem redelivery_cancels : ∃ h e, Reaches .release .none h e ∧
    ∃ once all, once.map Delivery.batch = h.filterMap Record.batch ∧ Schedule once all ∧
    ∃ tables tables', Tables.empty.deliver once = some tables ∧
      Tables.empty.deliver all = some tables' ∧
      (tables.orders.lookup 4).map OrderRow.status = some .open ∧
      (tables'.orders.lookup 4).map OrderRow.status = some .cancelled := by
  let market : Pair := { base := .SOL, quote := .USD }
  let h₀ := (finish .none (runCalls .release .none orphanCalls)).2
  have hr₀ : Reaches .release .none h₀ orphaned := reaches_runCalls (by decide +kernel)
  have hfree : ∀ key ∈ orphaned.dedup.seen, key.1 ≠ 7 ∧ key.1 ≠ 8 := by
    rintro ⟨a, cid⟩ hseen
    have hrecent := (hr₀.windowed.seen a cid).mp hseen
    have hseven : orphaned.dedup.recent 7 = [] := by decide +kernel
    have height : orphaned.dedup.recent 8 = [] := by decide +kernel
    constructor
    · rintro rfl
      exact absurd (hseven ▸ hrecent) List.not_mem_nil
    · rintro rfl
      exact absurd (height ▸ hrecent) List.not_mem_nil
  obtain ⟨h₁, e, hr, hi, _, hidle⟩ := idles_run (show market.isValid = true by decide)
    (by decide +kernel) (by decide +kernel) (fun key hkey => (hfree key hkey).1) hr₀ (2 ^ 64 - 1)
    (by omega)
  have hbook : e.book market = orphaned.book market := by
    rw [Engine.book, hi.books]
    rfl
  have hnext : e.nextOrderId = 4 := by
    have hfive : orphaned.nextOrderId + UInt64.ofNat (2 ^ 64 - 1) = 4 := by decide +kernel
    exact hi.nextOrderId.trans hfive
  -- the bid that gets the id 4 again, and rests
  have hkey : (8, 0) ∉ e.dedup.seen := by
    intro hin
    rcases hi.seen _ hin with hold | ⟨hseven, _⟩
    · exact (hfree _ hold).2 rfl
    · exact absurd hseven (show (8 : UInt64) ≠ 7 by decide)
  have hlisted : worthlessBid.pair ∈ e.listedPairs := by
    rw [hi.listedPairs]
    decide +kernel
  have hcheck : e.checkOrder 8 worthlessBid = none :=
    checkOrder_unguarded (by decide) hlisted (by rw [hr.limits_eq]; rfl) (by rw [hr.limits_eq]; rfl)
  have hquote : e.quoteAmount .release worthlessBid = .ok (.ok 0) := by
    unfold Engine.quoteAmount
    rw [if_neg (by decide), checkedMul_eq (by decide)]
    rfl
  obtain ⟨dedup, n, t, response, events, batch, happly, hanswer, _⟩ :=
    apply_trace_release (o := .sorted) hr.shape hr.dirtyHas hkey hcheck hquote (Nat.zero_le _)
  have hfills : (e.book worthlessBid.pair).fills e.nextOrderId 8 worthlessBid = [] := by
    rw [hnext, show e.book worthlessBid.pair = _ from hbook]
    decide +kernel
  have htaker :
      takerUpdate ((e.book worthlessBid.pair).taker e.nextOrderId 8 worthlessBid) = [] := by
    rw [hnext, show e.book worthlessBid.pair = _ from hbook]
    decide +kernel
  have hs : (e.keyed dedup).Shape := hr.shape.of_books rfl
  have htrades : t.matchResult.trades = [] := by
    rw [t.trades_eq hs]
    exact congrArg _ hfills
  have hresult : t.result = .ok t.matchResult := by
    have hrefund := t.refund
    rw [htrades] at hrefund
    have hok : (.ok () : Except RejectReason Unit) = t.refundedResult :=
      congrArg Prod.snd (Except.ok.inj hrefund)
    rw [PlaceTrace.result, ← hok]
  rw [hresult] at hanswer
  obtain ⟨p, _, rfl, _⟩ := hanswer
  have htrail := apply_accepted_trail hr.shape hfills htaker happly
  rw [hnext] at htrail
  let r : Record := ⟨8, 0, .place worthlessBid, .place (.ok p), batch⟩
  let h : List Record := h₀ ++ (h₁ ++ [r])
  obtain ⟨e', hr'⟩ : ∃ e', Reaches .release .none h e' := by
    have hlast := hr.snoc happly
    rw [List.append_assoc] at hlast
    exact ⟨_, hlast⟩
  -- what is told of the id 4
  have htold : trailOf 4 (eventsOf h) = [.orderCancelled 4,
      .orderUpdated 4 1 market 10 1 .cancelled, .orderAccepted 4 8 market .bid .limit 0 1] := by
    have hbase : trailOf 4 (eventsOf h₀)
        = [.orderCancelled 4, .orderUpdated 4 1 market 10 1 .cancelled] := by decide +kernel
    have hmiddle : trailOf 4 (eventsOf h₁) = [] := by
      refine List.filter_eq_nil_iff.mpr fun event hevent => ?_
      obtain ⟨r, hr, hevent⟩ := List.mem_flatMap.mp hevent
      have hnone := (orphaned_idle (by omega) (hidle r hr)).1
      exact List.filter_eq_nil_iff.mp hnone event hevent
    rw [eventsOf_append, eventsOf_append, eventsOf_singleton, trailOf_append, trailOf_append, hbase,
      hmiddle, htrail]
    rfl
  have hquiet : ∀ r' ∈ h₁ ++ [r], (batchEvents r'.batch).filterMap Event.trade? = [] := by
    intro r' hr'
    rcases List.mem_append.mp hr' with hold | hnew
    · exact (orphaned_idle (by omega) (hidle r' hold)).2
    · rw [List.mem_singleton.mp hnew]
      exact apply_quiet hr.shape hfills happly
  -- the two schedules
  obtain ⟨tables₀, h₀'⟩ := Option.isSome_iff_exists.mp
    (show (Tables.empty.deliver (firstDeliveries h₀)).isSome = true by decide +kernel)
  obtain ⟨tables, h₁', _⟩ := deliver_again (firstDeliveries_known hquiet tables₀)
  have honce : Tables.empty.deliver (firstDeliveries h) = some tables := by
    have hsplit : firstDeliveries h = firstDeliveries h₀ ++ firstDeliveries (h₁ ++ [r]) := by
      rw [firstDeliveries, List.filterMap_append, List.map_append]
      rfl
    rw [hsplit, deliver_append, h₀']
    exact h₁'
  obtain ⟨tables', hagain, _⟩ := deliver_again (deliver_trades honce).2
  have hrow : tables.orders.lookup 4 = rowAfter 4 (eventsOf h) none := by
    rw [(deliver_rows honce).2, lookup_foldl_orderStep, firstDeliveries_events]
    rfl
  have hrow' :
      tables'.orders.lookup 4 = rowAfter 4 (eventsOf h) (rowAfter 4 (eventsOf h) none) := by
    rw [(deliver_rows hagain).2, lookup_foldl_orderStep, firstDeliveries_events, hrow]
  refine ⟨h, _, hr', firstDeliveries h, firstDeliveries h ++ firstDeliveries h,
    firstDeliveries_batch h, .again 0 _ (Schedule.refl _) rfl, tables, tables', honce, ?_, ?_, ?_⟩
  · rw [deliver_append, honce]
    exact hagain
  · rw [hrow, rowAfter, htold]
    rfl
  · rw [hrow', rowAfter, rowAfter, htold]
    rfl

end MatchingEngine
