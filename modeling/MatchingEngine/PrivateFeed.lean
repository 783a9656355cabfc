import Mathlib.Data.Finset.Sort
import MatchingEngine.Redelivery
import MatchingEngine.Sockets

/-!
# PrivateFeed: the orders of an account, kept up to date

A client of `GET /ws/orders` subscribes, fetches `GET /orders` and applies what the
socket is sent to the rows it got. The feed has no sequence numbers: what the rows
know already is applied to them again, which changes nothing (`rowAfter_again`), and
what is left out of the feed is told twice (`Belongs`). Once the socket is as far as
the table was, the client has the rows of its account (`private_feed_reconciles`).
-/

namespace MatchingEngine

open RustArith HashModel SystemModel

/-! ## `GET /orders` and its client -/

/-- Whose rows `account_id = $1` finds: `$1` is bound `as i64`, the column is a
`NUMERIC` written from the `u64`, and no row has a negative account. -/
def boundAccount (accountId : AccountId) : Option AccountId :=
  if 0 ≤ asI64 accountId then some (UInt64.ofNat (asI64 accountId).toNat) else none

/-- The ids that signup hands out are `BIGSERIAL`. -/
theorem boundAccount_of_lt {a : AccountId} (ha : a.toNat < 2 ^ 63) : boundAccount a = some a := by
  rw [boundAccount, asI64_of_lt ha, if_pos (Int.natCast_nonneg _), Int.toNat_natCast,
    UInt64.ofNat_toNat]

/-- `get_orders`: the rows of an account, `ORDER BY order_id DESC`. -/
def getOrders (rows : HashMap UInt64 OrderRow) (accountId : AccountId) :
    List (UInt64 × OrderRow) :=
  (rows.keys.sort (· ≥ ·)).filterMap fun orderId =>
    ((rows.lookup orderId).filter fun row => some row.accountId = boundAccount accountId).map
      (orderId, ·)

/-- The rows a client got, by order. -/
def clientOrders (orders : List (UInt64 × OrderRow)) : HashMap UInt64 OrderRow :=
  orders.foldl (fun rows r => rows.insert r.1 r.2) ∅

/-- What a client does with a message of its private feed. -/
def applyOrderMessage (rows : HashMap UInt64 OrderRow) : FeedMessage → HashMap UInt64 OrderRow
  | .order event => orderStep rows event
  | .market _ => rows

section Answer

variable {a : AccountId} (ha : a.toNat < 2 ^ 63)

include ha

theorem getOrders_eq (rows : HashMap UInt64 OrderRow) :
    getOrders rows a = (rows.keys.sort (· ≥ ·)).filterMap fun orderId =>
      ((rows.lookup orderId).filter fun row => row.accountId = a).map (orderId, ·) := by
  simp only [getOrders, boundAccount_of_lt ha, Option.some.injEq]

theorem mem_getOrders {rows : HashMap UInt64 OrderRow} {id : UInt64} {row : OrderRow} :
    (id, row) ∈ getOrders rows a ↔ rows.lookup id = some row ∧ row.accountId = a := by
  rw [getOrders_eq ha, List.mem_filterMap]
  constructor
  · rintro ⟨id', _, hrow⟩
    obtain ⟨row', hfilter, heq⟩ := Option.map_eq_some_iff.mp hrow
    cases heq
    obtain ⟨hlookup, hown⟩ := Option.filter_eq_some_iff.mp hfilter
    exact ⟨hlookup, of_decide_eq_true hown⟩
  · rintro ⟨hlookup, hown⟩
    refine ⟨id, ?_, ?_⟩
    · rw [Finset.mem_sort, Finmap.mem_keys]
      exact Finmap.mem_of_lookup_eq_some hlookup
    · rw [hlookup]
      simp [hown]

theorem lookup_clientOrders (rows : HashMap UInt64 OrderRow) (id : UInt64) :
    (clientOrders (getOrders rows a)).lookup id
      = (rows.lookup id).filter fun row => row.accountId = a := by
  rw [clientOrders, lookup_foldl_insert]
  refine Writes.sets_eq (fun v hin => ?_) fun hno => ?_
  · obtain ⟨⟨orderId, row⟩, hrow, heq⟩ := List.mem_map.mp hin
    obtain ⟨rfl, rfl⟩ := Prod.mk.inj heq
    obtain ⟨hlookup, hown⟩ := (mem_getOrders ha).mp hrow
    exact (Option.filter_eq_some_iff.mpr ⟨hlookup, decide_eq_true hown⟩).symm
  · -- a row of the account would be in the answer
    cases hrow : (rows.lookup id).filter fun row => row.accountId = a with
    | none => rfl
    | some row =>
        obtain ⟨hlookup, hown⟩ := Option.filter_eq_some_iff.mp hrow
        have hin := (mem_getOrders ha).mpr ⟨hlookup, of_decide_eq_true hown⟩
        exact absurd (List.mem_map.mpr ⟨(id, some row), List.mem_map.mpr ⟨_, hin, rfl⟩, rfl⟩) hno

end Answer

theorem foldl_applyOrderMessage (a : AccountId) (batches : List EventBatch) (since next : ℕ)
    (rows : HashMap UInt64 OrderRow) :
    ((Subject.orders a).stream batches since next).foldl applyOrderMessage rows
      = (ownedBy a (((batches.take next).drop since).flatMap EventBatch.events)).foldl
          orderStep rows := by
  rw [Subject.stream]
  induction (batches.take next).drop since generalizing rows with
  | nil => rfl
  | cons batch batches ih =>
      have hbatch : ((Subject.orders a).messages batch).foldl applyOrderMessage rows
          = (ownedBy a batch.events).foldl orderStep rows := by
        rw [Subject.messages, List.foldl_map]
        rfl
      rw [List.flatMap_cons, List.foldl_append, hbatch, ih, List.flatMap_cons, ownedBy, ownedBy,
        ownedBy, List.filter_append, List.foldl_append]

/-! ## The trail of one order in the feed -/

/-- What is told of an order in batches that each name its account. -/
theorem Belongs.flatMap {a : AccountId} {id : UInt64} {batches : List EventBatch}
    (h : ∀ batch ∈ batches, Belongs a (trailOf id batch.events)) :
    Belongs a (trailOf id (batches.flatMap EventBatch.events)) := by
  induction batches with
  | nil => exact .nil a
  | cons batch batches ih =>
      rw [List.flatMap_cons, trailOf_append]
      exact (h batch List.mem_cons_self).append
        (ih fun batch' hbatch => h batch' (List.mem_cons_of_mem _ hbatch))

/-- **An order's feed is its trail**, for its account; the others hear nothing. -/
theorem rowAfter_owned {a : AccountId} {id : UInt64} {events : List Event}
    (h : Belongs a (trailOf id events)) (a' : AccountId) (row : Option OrderRow) :
    rowAfter id (ownedBy a' events) row = if a' = a then rowAfter id events row else row := by
  rw [rowAfter, trailOf_ownedBy]
  split
  · rename_i heq
    subst heq
    exact h.rows row
  · rename_i hne
    rw [h.other hne]
    rfl

theorem rowAfter_append (id : UInt64) (events events' : List Event) (row : Option OrderRow) :
    rowAfter id (events ++ events') row = rowAfter id events' (rowAfter id events row) := by
  rw [rowAfter, trailOf_append, List.foldl_append]
  rfl

section Run

variable {b : Build} {limits : Limits} {h : List Record} {e : Engine}
  (hr : Reaches b limits h e) (hnet : b.Checks (NetBelow h))
  (hplaces : b.Checks (places h < 2 ^ 64))

include hr hnet hplaces

/-- Every order has an account: its row and all that is told of it say so. -/
theorem Reaches.order_account (id : UInt64) : ∃ a,
    (∀ batch ∈ h.filterMap Record.batch, Belongs a (trailOf id batch.events)) ∧
      ∀ k row, (ordersAfter (h.filterMap Record.batch) k).lookup id = some row →
        row.accountId = a := by
  obtain ⟨a, ha⟩ := hr.attributed hnet hplaces id
  have htold : ∀ batch ∈ h.filterMap Record.batch, Belongs a (trailOf id batch.events) := by
    intro batch hbatch
    obtain ⟨r, hr, hrecord⟩ := List.mem_filterMap.mp hbatch
    have hbelongs := ha.told r hr
    rw [hrecord] at hbelongs
    exact hbelongs
  refine ⟨a, htold, fun k row hrow => ?_⟩
  -- the row was accepted with its columns
  rw [ordersAfter, lookup_foldl_orderStep] at hrow
  have hfind := rowAfter_none id (((h.filterMap Record.batch).take k).flatMap EventBatch.events)
  have hempty : (∅ : HashMap UInt64 OrderRow).lookup id = none := rfl
  rw [hempty] at hrow
  rw [hrow, Option.map_some] at hfind
  obtain ⟨batch, hbatch, hmem⟩ := List.mem_flatMap.mp (List.mem_of_find?_eq_some hfind.symm)
  exact (htold batch (List.mem_of_mem_take hbatch)).owner _
    (mem_trailOf.mpr ⟨hmem, rfl⟩) row.accountId rfl

/-- **The rows of an account**: fetched when the table was at batch `k`, the feed from
`since` to `next` brings them to what they are at `next`. -/
theorem orders_feed_rows {a : AccountId} (ha : a.toNat < 2 ^ 63) {since k next : ℕ}
    (hsince : since ≤ k) (hnext : k ≤ next) :
    ((Subject.orders a).stream (h.filterMap Record.batch) since next).foldl applyOrderMessage
        (clientOrders (getOrders (ordersAfter (h.filterMap Record.batch) k) a))
      = clientOrders (getOrders (ordersAfter (h.filterMap Record.batch) next) a) := by
  apply Finmap.ext_lookup
  intro id
  obtain ⟨owner, htold, haccount⟩ := hr.order_account hnet hplaces id
  have hfirst := hr.acceptedFirst (hnet.imp .inr) id
  rw [eventsOf_eq] at hfirst
  generalize h.filterMap Record.batch = batches at *
  have hsegment : ∀ {i j k : ℕ}, i ≤ j → j ≤ k →
      ((batches.take k).drop i).flatMap EventBatch.events
        = ((batches.take j).drop i).flatMap EventBatch.events
          ++ ((batches.take k).drop j).flatMap EventBatch.events := fun hij hjk => by
    rw [← List.flatMap_append, segment_append batches hij hjk]
  have hrow : ∀ k, (ordersAfter batches k).lookup id
      = rowAfter id ((batches.take k).flatMap EventBatch.events) none := fun k =>
    lookup_foldl_orderStep _ id ∅
  have hmiddle : Belongs owner
      (trailOf id (((batches.take next).drop since).flatMap EventBatch.events)) :=
    .flatMap fun batch hbatch => htold batch (List.mem_of_mem_take (List.mem_of_mem_drop hbatch))
  rw [foldl_applyOrderMessage, lookup_foldl_orderStep, lookup_clientOrders ha,
    lookup_clientOrders ha, rowAfter_owned hmiddle]
  split
  · rename_i hown
    subst hown
    -- all rows of the order are the account's
    have hfilter : ∀ k, ((ordersAfter batches k).lookup id).filter
        (fun row => row.accountId = a) = (ordersAfter batches k).lookup id := by
      intro k
      cases hlookup : (ordersAfter batches k).lookup id with
      | none => rfl
      | some row => simp [haccount k row hlookup]
    have hk := hsegment (Nat.zero_le since) hsince
    have hm := hsegment (Nat.zero_le k) hnext
    have hall := hsegment (Nat.zero_le k) (Nat.le_max_left k batches.length)
    rw [List.take_of_length_le (Nat.le_max_right k batches.length)] at hall
    simp only [List.drop_zero] at hk hm hall
    rw [hall, trailOf_append] at hfirst
    have hfirst := hfirst.of_append
    rw [hk] at hfirst
    -- the table knows the first part already
    have hagain := rowAfter_again hfirst
    rw [← hk] at hagain
    rw [hfilter, hfilter, hrow, hrow, hsegment hsince hnext, rowAfter_append, hagain, hm,
      rowAfter_append]
  · rename_i hother
    have hfilter : ∀ k, ((ordersAfter batches k).lookup id).filter
        (fun row => row.accountId = a) = none := by
      intro k
      cases hlookup : (ordersAfter batches k).lookup id with
      | none => rfl
      | some row => simp [haccount k row hlookup, Ne.symm hother]
    rw [hfilter, hfilter]

/-- Nothing is sent to an account about an order that is not its own. -/
theorem orders_feed_own {a : AccountId} {since next : ℕ} {event : Event}
    (hevent : .order event ∈ (Subject.orders a).stream (h.filterMap Record.batch) since next)
    {id : UInt64} (hid : event.order? = some id) {row : OrderRow}
    (hrow : (orderRows h).lookup id = some row) : row.accountId = a := by
  obtain ⟨owner, htold, haccount⟩ := hr.order_account hnet hplaces id
  have hall : ordersAfter (h.filterMap Record.batch) (h.filterMap Record.batch).length
      = orderRows h := by
    rw [ordersAfter, List.take_length, ← eventsOf_eq]
    rfl
  rw [haccount _ row (hall.symm ▸ hrow)]
  obtain ⟨batch, hbatch, hsent⟩ := List.mem_flatMap.mp hevent
  obtain ⟨event', hown, heq⟩ := List.mem_map.mp hsent
  cases heq
  obtain ⟨hmem, howner⟩ := List.mem_filter.mp hown
  have hin := List.mem_of_mem_take (List.mem_of_mem_drop hbatch)
  exact ((htold batch hin).owner event (mem_trailOf.mpr ⟨hmem, hid⟩) a
    (of_decide_eq_true howner)).symm

end Run

/-- **The private feed**, in every interleaving of `tail`, the sockets and their
clients. A socket is sent nothing about the orders of other accounts, and was opened
with a live token of its own. A client that fetched the orders of its account when
the writer had committed the first `k` batches, those included that `tail` had read
when the client subscribed, has the rows as of the last batch it received, once that
is not before `k`. -/
theorem private_feed_reconciles {b : Build} {limits : Limits} {h : List Record} {e : Engine}
    (hr : Reaches b limits h e) (hnet : b.Checks (NetBelow h))
    (hplaces : b.Checks (places h < 2 ^ 64)) {site : SocketSite} {start : ℕ} {hub : Hub}
    (hstart : start ≤ (h.filterMap Record.batch).length)
    (hruns : Runs (Hub.step site (h.filterMap Record.batch)) (fun _ _ => True) (.booted start)
      hub) :
    (∀ i s, hub.sockets.lookup i = some (.subscribed s) ∨
        hub.sockets.lookup i = some (.closed (some s)) → ∀ a, s.subject = .orders a →
      (∃ text token claims, site.authMessage text = some token ∧
        site.jwt.decode token = some claims ∧ claims.sub = a ∧
        s.opened ≤ claims.exp + tokenLeewaySecs) ∧
      ∀ message ∈ s.sent, ∃ event, message = .order event ∧
        ∀ id row, event.order? = some id → (orderRows h).lookup id = some row →
          row.accountId = a) ∧
    ∀ i s, hub.sockets.lookup i = some (.subscribed s) → ∀ a, s.subject = .orders a →
      a.toNat < 2 ^ 63 → ∀ k, s.since ≤ k → k ≤ s.next → ∀ ds ds' tables tables',
        ds.map Delivery.batch = (h.filterMap Record.batch).take k →
        ds'.map Delivery.batch = (h.filterMap Record.batch).take s.next →
        Tables.empty.deliver ds = some tables → Tables.empty.deliver ds' = some tables' →
        s.sent.foldl applyOrderMessage (clientOrders (getOrders tables.orders a))
          = clientOrders (getOrders tables'.orders a) := by
  have hsound := hub_sound hstart hruns
  constructor
  · intro i s hsocket a hsubject
    have hbegun : s.Begun site (h.filterMap Record.batch) hub :=
      hsocket.elim (fun hopen => (hsound.subscribed i s hopen).begun) (hsound.closed i s)
    refine ⟨hbegun.authenticated a hsubject, fun message hmessage => ?_⟩
    have hin := hbegun.sent.subset hmessage
    rw [hsubject] at hin
    obtain ⟨batch, _, hsent⟩ := List.mem_flatMap.mp hin
    obtain ⟨event, _, rfl⟩ := List.mem_map.mp hsent
    exact ⟨event, rfl, fun id row hid hrow => orders_feed_own hr hnet hplaces hin hid hrow⟩
  · intro i s hsocket a hsubject ha k hsince hnext ds ds' tables tables' hds hds' h₁ h₂
    have hexact := hsound.subscribed i s hsocket
    rw [deliver_orders hds h₁, deliver_orders hds' h₂, hexact.sent, hsubject]
    exact orders_feed_rows hr hnet hplaces ha hsince hnext

/-! ## A bidder watches its order -/

/-- Batches as they are delivered when nothing is read from the clock. -/
def stillDeliveries (batches : List EventBatch) : List Delivery :=
  batches.map fun batch => ⟨fun _ => 0, batch⟩

/-- Account 2 opens its socket before its bid is placed and hears of both fills. -/
def watchedRun : List HubAction :=
  [.tail, .tail, .tail, .privateOrders 1, .frame 1 (.text (sign plainJwt 0 2)), .tail, .tail,
    .deliver 1, .deliver 1]

theorem private_feed_reconciles_watched : ∃ (tables tables' : Tables) (sent : List FeedMessage),
    Tables.empty.deliver (stillDeliveries (tradingBatches.take 4)) = some tables ∧
    Tables.empty.deliver (stillDeliveries tradingBatches) = some tables' ∧ sent.length = 3 ∧
    sent.foldl applyOrderMessage (clientOrders (getOrders tables.orders 2))
      = clientOrders (getOrders tables'.orders 2) := by
  have hcheck : (exec (Hub.step plainSocketSite tradingBatches) (fun _ _ => true) (.booted 0)
      watchedRun).any (fun hub => (hub.receiver? 1).any fun s => s.subject = .orders 2 ∧
        s.since = 3 ∧ s.next = 5 ∧ s.sent.length = 3) = true := by decide +kernel
  obtain ⟨hub, hruns, hhub⟩ := exists_run (C := fun _ _ => True) (fun _ _ _ => trivial) hcheck
  obtain ⟨s, hreceiver, hs⟩ := (Option.any_eq_true _ _).mp hhub
  obtain ⟨hsubject, hsince, hnext, hsent⟩ := of_decide_eq_true hs
  obtain ⟨tables, htables⟩ := Option.isSome_iff_exists.mp (show (Tables.empty.deliver
    (stillDeliveries (tradingBatches.take 4))).isSome = true by decide +kernel)
  obtain ⟨tables', htables'⟩ := Option.isSome_iff_exists.mp (show (Tables.empty.deliver
    (stillDeliveries tradingBatches)).isSome = true by decide +kernel)
  have hdelivered : ∀ batches, (stillDeliveries batches).map Delivery.batch = batches := by
    intro batches
    rw [stillDeliveries, List.map_map]
    exact List.map_id batches
  have hall : tradingBatches.take s.next = tradingBatches := by
    rw [hnext]
    exact List.take_of_length_le (by decide +kernel)
  obtain ⟨_, hreconciles⟩ := private_feed_reconciles (reaches_runCalls tradingCalls_returned)
    (.inr tradingCalls_net) (.inr (by decide +kernel)) (Nat.zero_le _) hruns
  refine ⟨tables, tables', s.sent, htables, htables', hsent, ?_⟩
  exact hreconciles 1 s (Hub.receiver?_eq_some hreceiver) 2 hsubject (by decide) 4 (by omega)
    (by omega) _ _ tables tables' (hdelivered _) ((hdelivered _).trans hall.symm) htables htables'

end MatchingEngine
