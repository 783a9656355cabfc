import MatchingEngine.BookStore
import MatchingEngine.OrderLife

/-!
# OrderHistory: the orders table matches the engine

Folding the order events of a run gives one row for each order that was ever
accepted, and the row tells how the order stands (`orders_mirrored`): what was
traded of it, and whether it rests, was filled or was cancelled.
-/

namespace MatchingEngine

open RustArith HashModel

/-! ## One command -/

/-- The order an update is about. -/
def Event.updated? : Event → Option UInt64
  | .orderUpdated orderId .. => some orderId
  | _ => none

/-- What a command that said `events` did to the orders. -/
structure Lived (e e' : Engine) (command : Command) (response : CommandResponse)
    (events : List Event) : Prop where
  life : ∀ id n c row, OrderLife e id n c row →
    OrderLife e' id (n + tradedQty id (events.filterMap Event.trade?))
      (c ∨ (command = .cancel { orderId := id } ∧ response = .cancel true))
      (rowAfter id events row)
  updatedOnce : (events.filterMap Event.updated?).Nodup
  accepted : (events.filterMap Event.accepted?).Sublist [e.nextOrderId]

section Commands

variable {b : Build} {o : Drains} {e e' : Engine} {accountId : AccountId}

/-- A command that left the books alone and said nothing. -/
theorem Lived.still {command : Command} {response : CommandResponse}
    (hbooks : e'.books = e.books) (hnext : e'.nextOrderId = e.nextOrderId)
    (hresponse : response ≠ .cancel true) : Lived e e' command response [] where
  life id n c row h :=
    h.frame (Engine.Resting.of_books hbooks id) (by rw [hnext])
      (or_iff_left fun hcancel => hresponse hcancel.2)
  updatedOnce := List.nodup_nil
  accepted := List.nil_sublist _

/-- Events about no order accept and update none. -/
theorem filterMap_of_order {f : Event → Option UInt64} (hf : ∀ ev id, f ev = some id →
    ev.order? = some id) {events : List Event} (h : ∀ ev ∈ events, ev.order? = none) :
    events.filterMap f = [] := by
  refine List.filterMap_eq_nil_iff.mpr fun ev hev => ?_
  cases hid : f ev with
  | none => rfl
  | some id =>
      have horder := hf ev id hid
      rw [h ev hev] at horder
      cases horder

theorem updated_order (ev : Event) (id : UInt64) (h : ev.updated? = some id) :
    ev.order? = some id := by
  cases ev with
  | orderUpdated => exact h
  | _ => cases h

theorem placeEvents_updated (accountId : AccountId) (req : OrderRequest) (m : MatchResponse) :
    (placeEvents accountId req m).filterMap Event.updated?
      = m.updates.map OrderUpdate.orderId := by
  have htrades : (m.trades.map Event.trade).filterMap Event.updated? = [] := by
    rw [List.filterMap_map]
    exact List.filterMap_eq_nil_iff.mpr fun _ _ => rfl
  have hdeltas : (m.bookDeltas.map (deltaEvent req.pair)).filterMap Event.updated? = [] := by
    rw [List.filterMap_map]
    exact List.filterMap_eq_nil_iff.mpr fun _ _ => rfl
  have hupdates : (m.updates.map (OrderUpdate.toEvent req.pair)).filterMap Event.updated?
      = m.updates.map OrderUpdate.orderId := by
    rw [List.filterMap_map, ← List.filterMap_eq_map]
    rfl
  rw [placeEvents, List.filterMap_cons_none rfl, List.filterMap_append, List.filterMap_append,
    htrades, hdeltas, hupdates, List.nil_append, List.append_nil]

theorem placeEvents_accepted (accountId : AccountId) (req : OrderRequest) (m : MatchResponse) :
    (placeEvents accountId req m).filterMap Event.accepted? = [m.orderId] := by
  have hrest : (m.trades.map Event.trade ++ m.updates.map (OrderUpdate.toEvent req.pair)
      ++ m.bookDeltas.map (deltaEvent req.pair)).filterMap Event.accepted? = [] := by
    refine List.filterMap_eq_nil_iff.mpr fun ev hev => ?_
    rcases List.mem_append.mp hev with hev | hev
    · rcases List.mem_append.mp hev with hev | hev
      · obtain ⟨_, _, rfl⟩ := List.mem_map.mp hev
        rfl
      · obtain ⟨_, _, rfl⟩ := List.mem_map.mp hev
        rfl
    · obtain ⟨_, _, rfl⟩ := List.mem_map.mp hev
      rfl
  have hhead : Event.accepted? (.orderAccepted m.orderId accountId req.pair req.side
      req.orderType req.price req.size) = some m.orderId := rfl
  rw [placeEvents, List.filterMap_cons_some hhead, hrest]

theorem PlaceTrace.lived {req : OrderRequest} (t : PlaceTrace b o e accountId req)
    (hs : e.Shape) (hi : e.Indexed) (hnext : t.nextOrderId.toNat = e.nextOrderId.toNat + 1)
    (response : CommandResponse) :
    Lived e t.engine (.place req) response (placeEvents accountId req t.matchResult) where
  life id n c row h := by
    rw [placeEvents_trades]
    exact (t.life hs hi hnext h).frame (fun _ => Iff.rfl) Iff.rfl
      (or_iff_left fun hcancel => nomatch hcancel.1)
  updatedOnce := by
    have hupdates : t.matchResult.updates.map OrderUpdate.orderId
        = ((e.book req.pair).fills e.nextOrderId accountId req).map (fun f => f.1.id)
          ++ (takerUpdate ((e.book req.pair).taker e.nextOrderId accountId req)).map
              OrderUpdate.orderId := by
      have heq := congrArg MatchResponse.updates (t.book_eq hs).2.1
      rw [heq, OrderBook.response, List.map_append, List.map_map]
      rfl
    rw [placeEvents_updated, hupdates, takerUpdate]
    have hmakers := fills_nodup (hi.books req.pair) e.nextOrderId accountId req
    split
    · -- the taker is no maker
      rw [List.map_singleton, taker_id, List.nodup_append]
      refine ⟨hmakers, List.nodup_singleton _, fun id hid id' hid' => ?_⟩
      obtain ⟨f, hf, rfl⟩ := List.mem_map.mp hid
      rw [List.mem_singleton.mp hid']
      exact (hi.fills_lt hs f hf).ne
    · rw [List.map_nil, List.append_nil]
      exact hmakers
  accepted := by
    rw [placeEvents_accepted, t.orderId_eq hs]

theorem CancelTrace.lived {req : CancelRequest} (t : CancelTrace b o e accountId req)
    (hs : e.Shape) (hi : e.Indexed) {filledQty : UInt64}
    (hqty : b.sub t.order.size t.order.remainingSize = .ok filledQty) :
    Lived e t.engine (.cancel req) (.cancel true)
      (cancelEvents req.orderId t.pair t.order filledQty t.bookDeltas) where
  life id n c row h := by
    rw [cancelEvents_trades]
    refine (t.life hs hi hqty h).frame (fun _ => Iff.rfl) Iff.rfl (or_congr_right ?_)
    constructor
    · rintro ⟨heq, _⟩
      cases heq
      rfl
    · rintro rfl
      exact ⟨rfl, rfl⟩
  updatedOnce := by
    have hdeltas : (t.bookDeltas.map (deltaEvent t.pair)).filterMap Event.updated? = [] := by
      rw [List.filterMap_map]
      exact List.filterMap_eq_nil_iff.mpr fun _ _ => rfl
    have hhead : Event.updated? (.orderUpdated t.order.id t.order.accountId t.pair filledQty
        t.order.remainingSize .cancelled) = some t.order.id := rfl
    rw [cancelEvents, List.filterMap_cons_none rfl, List.filterMap_cons_some hhead, hdeltas]
    exact List.nodup_singleton _
  accepted := by
    have hdeltas : (t.bookDeltas.map (deltaEvent t.pair)).filterMap Event.accepted? = [] := by
      rw [List.filterMap_map]
      exact List.filterMap_eq_nil_iff.mpr fun _ _ => rfl
    rw [cancelEvents, List.filterMap_cons_none rfl, List.filterMap_cons_none rfl, hdeltas]
    exact List.nil_sublist _

/-- **One command** moves the lives its events tell of. -/
theorem dispatch_lived {command : Command} {response : CommandResponse} {events : List Event}
    (hs : e.Shape) (hi : e.Indexed) (hb : e.Backed) (hfit : e.Fits b)
    (hroom : command.isPlace = true → b.Checks (e.nextOrderId.toNat + 1 < 2 ^ 64))
    (h : Engine.dispatch b o e accountId command = .ok (e', response, events)) :
    Lived e e' command response events := by
  rcases dispatch_books h with
    ⟨hsame, hresponse, rfl⟩ | ⟨req, rfl, t, rfl, hanswer⟩ | ⟨req, rfl, t, q, rfl, hq, rfl, rfl⟩
  · exact .still hsame.books hsame.nextOrderId hresponse
  · rw [t.result_eq hs hb hfit] at hanswer
    obtain ⟨p, _, _, rfl⟩ := hanswer
    exact t.lived hs hi (t.nextOrderId_toNat (hroom rfl)) response
  · exact t.lived hs hi hq

/-- **One `apply`.** -/
theorem apply_lived {clientOrderId : UInt64} {command : Command} {response : CommandResponse}
    {batch : Option EventBatch} (hs : e.Shape) (hi : e.Indexed) (hb : e.Backed) (hfit : e.Fits b)
    (hroom : command.isPlace = true → b.Checks (e.nextOrderId.toNat + 1 < 2 ^ 64))
    (h : apply b o e accountId clientOrderId command = .ok (e', response, batch)) :
    Lived e e' command response (batchEvents batch) := by
  rcases apply_ok h with ⟨rfl, rfl, rfl⟩ | ⟨dedup, e₁, events, bevs, _, hdispatch, hbev, hend⟩
  · exact .still rfl rfl nofun
  · have hlived := dispatch_lived (e := { e with dedup := dedup }) (hs.of_books rfl)
      (hi.of_books rfl rfl rfl) hb hfit hroom hdispatch
    have hnone := balanceEvents_order hbev
    have hbatch : batchEvents batch = events ++ bevs := by
      rcases hend with ⟨hnil, rfl, _⟩ | ⟨n, _, _, rfl, _⟩
      · exact hnil.symm
      · rfl
    have hbooks : e'.books = e₁.books ∧ e'.nextOrderId = e₁.nextOrderId := by
      rcases hend with ⟨_, _, rfl⟩ | ⟨n, _, _, _, rfl⟩
      · exact ⟨rfl, rfl⟩
      · exact ⟨rfl, rfl⟩
    rw [hbatch]
    constructor
    case life =>
      intro id n c row hlife
      rw [List.filterMap_append, balanceEvents_trades hbev, List.append_nil, rowAfter,
        trailOf_append, trailOf_eq_nil hnone, List.append_nil]
      have hlife := hlived.life id n c row
        (hlife.frame (Engine.Resting.of_books rfl id) Iff.rfl Iff.rfl)
      exact hlife.frame (Engine.Resting.of_books hbooks.1 id) (by rw [hbooks.2]) Iff.rfl
    case updatedOnce =>
      rw [List.filterMap_append, filterMap_of_order updated_order hnone, List.append_nil]
      exact hlived.updatedOnce
    case accepted =>
      rw [List.filterMap_append, filterMap_of_order (fun _ _ => accepted_order) hnone,
        List.append_nil]
      exact hlived.accepted

end Commands

/-! ## Every run -/

/-- The row of an order says what the run and the engine say of it. -/
structure OrderRow.Matches (h : List Record) (e : Engine) (id : UInt64) (row : OrderRow) :
    Prop where
  accepted : row.acceptance id ∈ eventsOf h
  filledQty : row.filledQty.toNat = filledOf h id
  open_iff : row.status = .open ↔ ∃ o, e.Resting id o ∧ o.remainingSize = o.size
  partiallyFilled_iff : row.status = .partiallyFilled ↔
    ∃ o, e.Resting id o ∧ 0 < o.remainingSize ∧ o.remainingSize < o.size
  filled_iff : row.status = .filled ↔ row.filledQty = row.size
  /-- by a command, or a market order with an unfilled remainder -/
  cancelled_iff : row.status = .cancelled ↔
    Cancelled h id ∨ (row.orderType = .market ∧ row.filledQty < row.size)
  resting : ∀ o, e.Resting id o → row.size = o.size ∧
    row.filledQty.toNat + o.remainingSize.toNat = o.size.toNat

/-- Which life an order leads can be read off its row. -/
theorem OrderLife.matches {h : List Record} {e : Engine} {id : UInt64} {row : OrderRow}
    (hs : e.Shape) (hi : e.Indexed) (haccepted : row.acceptance id ∈ eventsOf h)
    (hlife : OrderLife e id (filledOf h id) (Cancelled h id) (some row)) :
    row.Matches h e id := by
  cases hlife with
  | resting o ho hlimit hsize hqty hsum hstatus hlive =>
      have hpos : 0 < o.units := (ho.rests hs).pos
      have hunits : o.units = o.remainingSize.toNat := rfl
      have hall : o.remainingSize = o.size ↔ filledOf h id = 0 := by
        rw [← UInt64.toNat_inj, ← hsize]
        omega
      have hsome : 0 < o.remainingSize ∧ o.remainingSize < o.size ↔ ¬ filledOf h id = 0 := by
        rw [UInt64.lt_iff_toNat_lt, UInt64.lt_iff_toNat_lt, ← hsize, UInt64.toNat_zero]
        omega
      have hone : ∀ p : Order → Prop, (∃ o', e.Resting id o' ∧ p o') ↔ p o := fun p =>
        ⟨fun ⟨_, ho', hp⟩ => hi.resting_unique ho' ho ▸ hp, fun hp => ⟨o, ho, hp⟩⟩
      constructor
      case accepted => exact haccepted
      case filledQty => exact hqty
      case open_iff =>
        rw [hone, hall, hstatus]
        split
        · rename_i hzero
          exact iff_of_true rfl hzero
        · rename_i hzero
          exact iff_of_false nofun hzero
      case partiallyFilled_iff =>
        rw [hone, hsome, hstatus]
        split
        · rename_i hzero
          exact iff_of_false nofun (not_not.mpr hzero)
        · rename_i hzero
          exact iff_of_true rfl hzero
      case filled_iff =>
        rw [hstatus, ← UInt64.toNat_inj, hqty]
        refine iff_of_false ?_ (by omega)
        split
        · nofun
        · nofun
      case cancelled_iff =>
        rw [hstatus, hlimit]
        refine iff_of_false ?_ fun hwhy => hwhy.elim hlive fun hmarket => nomatch hmarket.1
        split
        · nofun
        · nofun
      case resting =>
        intro o' ho'
        obtain rfl := hi.resting_unique ho' ho
        refine ⟨hsize, ?_⟩
        rw [hqty, ← hsize]
        exact hsum
  | filled _ hgone hqty hsum hstatus hlive =>
      have hall : row.filledQty = row.size := UInt64.toNat_inj.mp (hqty.trans hsum)
      constructor
      case accepted => exact haccepted
      case filledQty => exact hqty
      case open_iff =>
        rw [hstatus]
        exact iff_of_false nofun fun ⟨o, ho, _⟩ => hgone o ho
      case partiallyFilled_iff =>
        rw [hstatus]
        exact iff_of_false nofun fun ⟨o, ho, _⟩ => hgone o ho
      case filled_iff => exact iff_of_true hstatus hall
      case cancelled_iff =>
        rw [hstatus, hall]
        exact iff_of_false nofun fun hwhy => hwhy.elim hlive fun hmarket =>
          absurd hmarket.2 (lt_irrefl _)
      case resting => exact fun o ho => absurd ho (hgone o)
  | cancelled _ hgone hqty hsum hstatus hwhy =>
      have hless : row.filledQty < row.size := by
        rw [UInt64.lt_iff_toNat_lt, hqty]
        exact hsum
      constructor
      case accepted => exact haccepted
      case filledQty => exact hqty
      case open_iff =>
        rw [hstatus]
        exact iff_of_false nofun fun ⟨o, ho, _⟩ => hgone o ho
      case partiallyFilled_iff =>
        rw [hstatus]
        exact iff_of_false nofun fun ⟨o, ho, _⟩ => hgone o ho
      case filled_iff =>
        rw [hstatus]
        exact iff_of_false nofun hless.ne
      case cancelled_iff =>
        exact iff_of_true hstatus (hwhy.imp_right fun hmarket => ⟨hmarket, hless⟩)
      case resting => exact fun o ho => absurd ho (hgone o)

/-- What holds of the orders after a run with history `h`. -/
structure OrdersSound (h : List Record) (e : Engine) : Prop where
  life : ∀ id, OrderLife e id (filledOf h id) (Cancelled h id) ((orderRows h).lookup id)
  acceptedOnce : (acceptedOrders h).Nodup
  updatedOnce : ∀ r ∈ h, ((batchEvents r.batch).filterMap Event.updated?).Nodup

theorem OrdersSound.new (limits : Limits) : OrdersSound [] (Engine.new limits) where
  life _ := .unborn (UInt64.le_iff_toNat_le.mpr (Nat.zero_le _)) rfl
    fun ⟨_, hr, _⟩ => absurd hr List.not_mem_nil
  acceptedOnce := List.nodup_nil
  updatedOnce _ hr := absurd hr List.not_mem_nil

/-- The rows of a longer history. -/
theorem OrdersSound.step {h : List Record} {e e' : Engine} (hsound : OrdersSound h e)
    (hi : e.Indexed) {r : Record}
    (hlived : Lived e e' r.command r.response (batchEvents r.batch)) :
    OrdersSound (h ++ [r]) e' where
  life id := by
    have htrades : r.trades = (batchEvents r.batch).filterMap Event.trade? := by
      unfold Record.trades batchTrades batchEvents
      cases r.batch <;> rfl
    rw [filledOf_snoc, lookup_orderRows_snoc, htrades]
    exact (hlived.life id _ _ _ (hsound.life id)).frame (fun _ => Iff.rfl) Iff.rfl cancelled_snoc
  acceptedOnce := by
    have hnew : e.nextOrderId ∉ acceptedOrders h := by
      rw [← orderRows_isSome, ((hsound.life e.nextOrderId).next hi).1]
      nofun
    rw [acceptedOrders_snoc, List.nodup_append]
    refine ⟨hsound.acceptedOnce, hlived.accepted.nodup (List.nodup_singleton _), ?_⟩
    rintro id hid _ hid' rfl
    rw [List.mem_singleton.mp (hlived.accepted.subset hid')] at hid
    exact hnew hid
  updatedOnce r' hr' := by
    rcases List.mem_append.mp hr' with hr' | hr'
    · exact hsound.updatedOnce r' hr'
    · rw [List.mem_singleton.mp hr']
      exact hlived.updatedOnce

/-- **Every run is sound for the orders** while its net deposits stay words
and its ids do not wrap. -/
theorem Reaches.ordersSound {b : Build} {limits : Limits} {h : List Record} {e : Engine}
    (hr : Reaches b limits h e) (hnet : b.Checks (NetBelow h))
    (hplaces : b.Checks (places h < 2 ^ 64)) : OrdersSound h e := by
  have hinv : Reaches b limits h e ∧ (b.Checks (NetBelow h) → b.Checks (places h < 2 ^ 64) →
      OrdersSound h e) := by
    refine hr.invariant (motive := fun h e => Reaches b limits h e ∧
      (b.Checks (NetBelow h) → b.Checks (places h < 2 ^ 64) → OrdersSound h e))
      ⟨⟨[], rfl⟩, fun _ _ => .new limits⟩ ?_
    intro h e o a cid cmd e' response batch ⟨hr, ih⟩ happly
    refine ⟨hr.snoc happly, fun hnet hplaces => ?_⟩
    have hprev := hnet.imp fun hnet => hnet.of_prefix (List.prefix_append h _)
    rw [places_snoc] at hplaces
    dsimp only at hplaces
    have hplaces' := hplaces.imp fun hlt => (Nat.le_add_right (places h) _).trans_lt hlt
    obtain ⟨hi, hnext⟩ := hr.indexed hplaces'
    have hacc := hr.accounted hprev
    refine (ih hprev hplaces').step hi (apply_lived hacc.shape hi hacc.backed (hacc.fits hprev)
      (fun hplace => hplaces.imp fun hlt => ?_) happly)
    rw [if_pos hplace] at hlt
    omega
  exact hinv.2 hnet hplaces

/-- **The orders table matches the engine.** Every order that was ever
accepted has one row, which says how the order stands, and no batch updates an
order twice. A release build needs net deposits that stay words and ids that
do not wrap. -/
theorem orders_mirrored {b : Build} {limits : Limits} {h : List Record} {e : Engine}
    (hr : Reaches b limits h e) (hnet : b.Checks (NetBelow h))
    (hplaces : b.Checks (places h < 2 ^ 64)) :
    (∀ id, ((orderRows h).lookup id).isSome ↔ id ∈ acceptedOrders h) ∧
      (acceptedOrders h).Nodup ∧
      (∀ id row, (orderRows h).lookup id = some row → row.Matches h e id) ∧
      ∀ r ∈ h, ((batchEvents r.batch).filterMap Event.updated?).Nodup := by
  have hsound := hr.ordersSound hnet hplaces
  refine ⟨orderRows_isSome h, hsound.acceptedOnce, fun id row hrow => ?_, hsound.updatedOnce⟩
  have hlife := hsound.life id
  rw [hrow] at hlife
  exact hlife.matches hr.shape (hr.indexed hplaces).1 (orderRows_acceptance hrow)

/-- In the trading run seven units of the bid at 11 were traded, one rests. -/
theorem orders_mirrored_trading :
    ∃ row, (orderRows (finish .default (runCalls .release .default tradingCalls)).2).lookup 1
      = some row ∧ row.filledQty.toNat = 7 := by
  obtain ⟨row, hrow⟩ := Option.isSome_iff_exists.mp
    (show ((orderRows (finish .default (runCalls .release .default tradingCalls)).2).lookup
      1).isSome = true by decide +kernel)
  refine ⟨row, hrow, ?_⟩
  have hmirrored := orders_mirrored (reaches_runCalls tradingCalls_returned)
    (.inr tradingCalls_net) (.inr (by decide +kernel))
  rw [(hmirrored.2.2.1 1 row hrow).filledQty]
  decide +kernel

/-- **Neither condition can go.** The ask that a refused order was matched
with is gone, and its row still open; when an id was given twice, the row is
that of the first order. -/
theorem orders_not_mirrored :
    (∃ h e row, Reaches .release .none h e ∧ places h < 2 ^ 64 ∧
      (orderRows h).lookup 3 = some row ∧ ¬ row.Matches h e 3) ∧
    ∃ h e row, Reaches .release .none h e ∧ NetBelow h ∧
      (orderRows h).lookup 0 = some row ∧ ¬ row.Matches h e 0 := by
  constructor
  · have hreturned : returned (runCalls .release .none lostCalls) = true := by decide +kernel
    have hgone : ∀ pair : Pair, ∀ o ∈ ((finish .none (runCalls .release .none lostCalls)).1.book
        pair).orders, o.id ≠ 3 := by decide +kernel
    refine ⟨_, _, ⟨3, { base := .SOL, quote := .USD }, .ask, .limit, 5, 10, 0, .open⟩,
      reaches_runCalls hreturned, by decide +kernel, by decide +kernel, fun hmatches => ?_⟩
    obtain ⟨o, ⟨pair, ho, hid⟩, _⟩ := hmatches.open_iff.mp rfl
    exact hgone pair o ho hid
  · obtain ⟨h, e, hr, hbook, ⟨rest, rfl⟩, hdep⟩ := wrapped_run
    have hfirst : (eventsOf (finish .none (runCalls .release .none restedCalls)).2).find?
        (fun event => event.accepted? = some 0)
          = some (.orderAccepted 0 4 freeBid.pair .bid .limit 0 0) := by decide +kernel
    have hfind := rowAfter_none 0
      (eventsOf ((finish .none (runCalls .release .none restedCalls)).2 ++ rest))
    rw [← lookup_orderRows, eventsOf_append, List.find?_append, hfirst] at hfind
    obtain ⟨row, hrow, hacc⟩ := Option.map_eq_some_iff.mp hfind
    have hbid : ∃ o ∈ ((rested.book freeBid.pair).placed 0 3 freeBid).drained.orders,
        o.id = 0 ∧ o.size = 1 := by decide +kernel
    obtain ⟨o, ho, hid, hsize⟩ := hbid
    have hnet : NetBelow ((finish .none (runCalls .release .none restedCalls)).2 ++ rest) :=
      netBelow_of_deposits fun c => by rw [hdep]; decide
    refine ⟨_, e, row, hr, hnet, hrow, fun hmatches => ?_⟩
    have hrest := (hmatches.resting o ⟨freeBid.pair, hbook ▸ ho, hid⟩).1
    obtain ⟨_, _, _, _, _, _, hzero⟩ := Event.orderAccepted.inj hacc
    rw [hzero, hsize] at hrest
    exact absurd hrest (by decide)

end MatchingEngine
