import MatchingEngine.DbWriter
import MatchingEngine.Settlement

/-!
# OrderRows: the history of one order

The events about one order are its trail, and its row is the trail folded
(`lookup_orderRows`): the writer never looks at another row. What else a run
says about the order is read off the trades and the answers, so that the row
has something to be compared with.
-/

namespace MatchingEngine

open RustArith HashModel

/-! ## Trails -/

/-- The order an order event is about. -/
def Event.order? : Event → Option UInt64
  | .orderAccepted orderId .. => some orderId
  | .orderCancelled orderId => some orderId
  | .orderUpdated orderId .. => some orderId
  | _ => none

/-- The events about one order, in order. -/
def trailOf (id : UInt64) (events : List Event) : List Event :=
  events.filter fun event => event.order? = some id

/-- What an event about an order does to its row. -/
def rowStep (row : Option OrderRow) : Event → Option OrderRow
  | .orderAccepted _ accountId pair side orderType price size =>
      row.or (some
        { accountId := accountId
          pair := pair
          side := side
          orderType := orderType
          price := price
          size := size
          status := .open })
  | .orderCancelled _ => row.map fun row => { row with status := .cancelled }
  | .orderUpdated _ _ _ filledQty _ status =>
      row.map fun row => { row with filledQty := filledQty, status := status }
  | _ => row

/-- The row of an order after some events. -/
def rowAfter (id : UInt64) (events : List Event) (row : Option OrderRow) : Option OrderRow :=
  (trailOf id events).foldl rowStep row

@[simp] theorem trailOf_append (id : UInt64) (events events' : List Event) :
    trailOf id (events ++ events') = trailOf id events ++ trailOf id events' :=
  List.filter_append ..

theorem trailOf_cons (id : UInt64) (event : Event) (events : List Event) :
    trailOf id (event :: events)
      = if event.order? = some id then event :: trailOf id events else trailOf id events := by
  rw [trailOf, List.filter_cons]
  simp only [decide_eq_true_eq]
  rfl

/-- Events about no order leave no trail. -/
theorem trailOf_eq_nil {id : UInt64} {events : List Event}
    (h : ∀ event ∈ events, event.order? = none) : trailOf id events = [] := by
  refine List.filter_eq_nil_iff.mpr fun event hevent => ?_
  rw [h event hevent]
  simp

theorem lookup_insertOrder (rows : HashMap UInt64 OrderRow) (orderId id : UInt64)
    (row : OrderRow) : (insertOrder rows orderId row).lookup id
      = if orderId = id then (rows.lookup id).or (some row) else rows.lookup id := by
  unfold insertOrder
  by_cases hid : orderId = id
  · subst hid
    cases hrow : rows.lookup orderId with
    | none => simp
    | some old => simp [hrow]
  · rw [if_neg hid]
    split
    · rfl
    · rw [lookup_insert_ite, if_neg (Ne.symm hid)]

theorem lookup_updateOrder (rows : HashMap UInt64 OrderRow) (orderId id : UInt64)
    (set : OrderRow → OrderRow) : (updateOrder rows orderId set).lookup id
      = if orderId = id then (rows.lookup id).map set else rows.lookup id := by
  unfold updateOrder
  by_cases hid : orderId = id
  · subst hid
    cases hrow : rows.lookup orderId with
    | none => simp [hrow]
    | some old => simp
  · rw [if_neg hid]
    split
    · rw [lookup_insert_ite, if_neg (Ne.symm hid)]
    · rfl

/-- One event, one row. -/
theorem lookup_orderStep (rows : HashMap UInt64 OrderRow) (event : Event) (id : UInt64) :
    (orderStep rows event).lookup id
      = if event.order? = some id then rowStep (rows.lookup id) event
        else rows.lookup id := by
  cases event with
  | orderAccepted orderId =>
      simp only [orderStep, lookup_insertOrder, Event.order?, Option.some.injEq]
      rfl
  | orderCancelled orderId =>
      simp only [orderStep, lookup_updateOrder, Event.order?, Option.some.injEq]
      rfl
  | orderUpdated orderId =>
      simp only [orderStep, lookup_updateOrder, Event.order?, Option.some.injEq]
      rfl
  | _ => rfl

/-- **The row of an order is its trail**, folded from what was there. -/
theorem lookup_foldl_orderStep (events : List Event) (id : UInt64) :
    ∀ rows : HashMap UInt64 OrderRow, (events.foldl orderStep rows).lookup id
      = rowAfter id events (rows.lookup id) := by
  induction events with
  | nil => intro rows; rfl
  | cons event events ih =>
      intro rows
      rw [List.foldl_cons, ih, lookup_orderStep, rowAfter, rowAfter, trailOf_cons]
      split
      · rfl
      · rfl

theorem lookup_orderRows (h : List Record) (id : UInt64) :
    (orderRows h).lookup id = rowAfter id (eventsOf h) none :=
  lookup_foldl_orderStep _ id ∅

/-- The rows after one more call. -/
theorem lookup_orderRows_snoc (h : List Record) (r : Record) (id : UInt64) :
    (orderRows (h ++ [r])).lookup id
      = rowAfter id (batchEvents r.batch) ((orderRows h).lookup id) := by
  rw [orderRows, eventsOf_append, eventsOf_singleton, List.foldl_append]
  exact lookup_foldl_orderStep _ id _

/-! ## Acceptances -/

/-- The id of an order that was accepted. -/
def Event.accepted? : Event → Option UInt64
  | .orderAccepted orderId .. => some orderId
  | _ => none

/-- The ids that were ever accepted, in order. -/
def acceptedOrders (h : List Record) : List UInt64 := (eventsOf h).filterMap Event.accepted?

/-- The event that would have inserted this row. -/
def OrderRow.acceptance (orderId : UInt64) (row : OrderRow) : Event :=
  .orderAccepted orderId row.accountId row.pair row.side row.orderType row.price row.size

theorem acceptedOrders_snoc (h : List Record) (r : Record) :
    acceptedOrders (h ++ [r])
      = acceptedOrders h ++ (batchEvents r.batch).filterMap Event.accepted? := by
  rw [acceptedOrders, eventsOf_append, eventsOf_singleton, List.filterMap_append, acceptedOrders]

theorem accepted_order {event : Event} {id : UInt64} (h : event.accepted? = some id) :
    event.order? = some id := by
  cases event with
  | orderAccepted => exact h
  | _ => cases h

/-- Updates keep what was accepted. -/
theorem rowStep_acceptance (id : UInt64) (row : OrderRow) (event : Event) :
    ∃ row', rowStep (some row) event = some row' ∧ row'.acceptance id = row.acceptance id := by
  cases event with
  | orderAccepted => exact ⟨row, rfl, rfl⟩
  | orderCancelled => exact ⟨_, rfl, rfl⟩
  | orderUpdated => exact ⟨_, rfl, rfl⟩
  | _ => exact ⟨row, rfl, rfl⟩

theorem foldl_rowStep_acceptance (id : UInt64) (trail : List Event) : ∀ row : OrderRow,
    ∃ row', trail.foldl rowStep (some row) = some row' ∧
      row'.acceptance id = row.acceptance id := by
  induction trail with
  | nil => intro row; exact ⟨row, rfl, rfl⟩
  | cons event trail ih =>
      intro row
      obtain ⟨row₁, hstep, hacc⟩ := rowStep_acceptance id row event
      obtain ⟨row', hfold, hacc'⟩ := ih row₁
      rw [List.foldl_cons, hstep]
      exact ⟨row', hfold, hacc'.trans hacc⟩

/-- An order that was never accepted has no row to change. -/
theorem rowStep_none {event : Event} (h : event.accepted? = none) : rowStep none event = none := by
  cases event with
  | orderAccepted => cases h
  | _ => rfl

/-- **The first acceptance decides the row** of an order. -/
theorem rowAfter_none (id : UInt64) (events : List Event) :
    (rowAfter id events none).map (OrderRow.acceptance id)
      = events.find? fun event => event.accepted? = some id := by
  unfold rowAfter
  induction events with
  | nil => rfl
  | cons event events ih =>
      rw [trailOf_cons, List.find?_cons]
      cases hacc : event.accepted? with
      | none =>
          have hno : decide ((none : Option UInt64) = some id) = false := rfl
          rw [hno]
          split
          · rw [List.foldl_cons, rowStep_none hacc]
            exact ih
          · exact ih
      | some orderId =>
          rw [accepted_order hacc]
          by_cases hid : orderId = id
          · subst hid
            rw [if_pos rfl, decide_eq_true rfl, List.foldl_cons]
            cases event with
            | orderAccepted _ accountId pair side orderType price size =>
                cases hacc
                let row : OrderRow :=
                  { accountId := accountId
                    pair := pair
                    side := side
                    orderType := orderType
                    price := price
                    size := size
                    status := .open }
                obtain ⟨row', hfold, hrow⟩ :=
                  foldl_rowStep_acceptance orderId (trailOf orderId events) row
                show ((trailOf orderId events).foldl rowStep (some row)).map _ = _
                rw [hfold, Option.map_some, hrow]
                rfl
            | _ => cases hacc
          · have hne : ¬ some orderId = some id := fun h => hid (Option.some.inj h)
            rw [if_neg hne, decide_eq_false hne]
            exact ih

/-- An order has a row when it was accepted, and one row. -/
theorem orderRows_isSome (h : List Record) (id : UInt64) :
    ((orderRows h).lookup id).isSome ↔ id ∈ acceptedOrders h := by
  rw [← Option.isSome_map (f := OrderRow.acceptance id), lookup_orderRows, rowAfter_none,
    List.find?_isSome, acceptedOrders, List.mem_filterMap]
  simp only [decide_eq_true_eq]

/-- The columns of a row are those of an acceptance. -/
theorem orderRows_acceptance {h : List Record} {id : UInt64} {row : OrderRow}
    (hrow : (orderRows h).lookup id = some row) : row.acceptance id ∈ eventsOf h := by
  have hfind := rowAfter_none id (eventsOf h)
  rw [← lookup_orderRows, hrow, Option.map_some] at hfind
  exact List.mem_of_find?_eq_some hfind.symm

/-! ## What else a run says about an order -/

/-- The quantity some trades moved with an order as maker or taker. -/
def tradedQty (id : UInt64) (ts : List Trade) : ℕ :=
  ((ts.filter fun t => t.makerId = id ∨ t.takerId = id).map fun t => t.qty.toNat).sum

/-- The quantity all trades of a run moved with an order. -/
def filledOf (h : List Record) (id : UInt64) : ℕ := tradedQty id (tradesOf h)

/-- A command cancelled the order. -/
def Record.Cancels (r : Record) (id : UInt64) : Prop :=
  r.command = .cancel { orderId := id } ∧ r.response = .cancel true

/-- Some command of the run cancelled the order. -/
def Cancelled (h : List Record) (id : UInt64) : Prop := ∃ r ∈ h, r.Cancels id

theorem filledOf_snoc (h : List Record) (r : Record) (id : UInt64) :
    filledOf (h ++ [r]) id = filledOf h id + tradedQty id r.trades := by
  simp [filledOf, tradesOf, tradedQty]

theorem cancelled_snoc {h : List Record} {r : Record} {id : UInt64} :
    Cancelled (h ++ [r]) id ↔ Cancelled h id ∨ r.Cancels id := by
  simp [Cancelled, or_and_right, exists_or]

end MatchingEngine
