import MatchingEngine.OrderRows
import MatchingEngine.Priority

/-!
# OrderLife: an order from its acceptance to its end

An order that was accepted rests, was filled or was cancelled, and its row
knows which (`OrderLife`). A command moves at most the order it names and the
makers it meets; the rows move with them.
-/

namespace MatchingEngine

open RustArith HashModel Bank

/-! ## Who rests -/

/-- The order rests under this id. -/
def Engine.Resting (e : Engine) (id : UInt64) (o : Order) : Prop :=
  ∃ pair, o ∈ (e.book pair).orders ∧ o.id = id

theorem Engine.Resting.of_books {e e' : Engine} (h : e'.books = e.books) (id : UInt64) (o : Order) :
    e'.Resting id o ↔ e.Resting id o := by
  have hbook : ∀ pair, e'.book pair = e.book pair := by
    intro pair
    rw [Engine.book, h]
    rfl
  simp only [Engine.Resting, hbook]

/-- One order rests under an id. -/
theorem Engine.Indexed.resting_unique {e : Engine} (h : e.Indexed) {id : UInt64} {o o' : Order}
    (ho : e.Resting id o) (ho' : e.Resting id o') : o = o' := by
  obtain ⟨pair, ho, hid⟩ := ho
  obtain ⟨pair', ho', hid'⟩ := ho'
  obtain rfl := h.pair_unique ho ho' (hid.trans hid'.symm)
  exact List.inj_on_of_nodup_map (h.books pair).nodup ho ho' (hid.trans hid'.symm)

/-- An id that was not given yet does not rest. -/
theorem Engine.Indexed.not_resting {e : Engine} (h : e.Indexed) {id : UInt64}
    (hid : e.nextOrderId ≤ id) (o : Order) : ¬ e.Resting id o := by
  rintro ⟨pair, ho, rfl⟩
  exact absurd (h.fresh pair o ho) (not_lt_of_ge hid)

theorem OrderBook.WF.rests_of_mem {book : OrderBook} (h : book.WF) {o : Order}
    (ho : o ∈ book.orders) : o.Rests o.side o.price := by
  obtain ⟨s, l, hl, ho⟩ := mem_orders.mp ho
  have hrests := (h.side s).rests l hl o ho
  rw [hrests.side, hrests.price]
  exact hrests

theorem Engine.Resting.rests {e : Engine} {id : UInt64} {o : Order} (h : e.Resting id o)
    (hs : e.Shape) : o.Rests o.side o.price := by
  obtain ⟨pair, ho, _⟩ := h
  exact (hs.wf pair).rests_of_mem ho

theorem leftAfter_id {fs : List (Order × ℕ)} {o o' : Order} (h : leftAfter fs o = some o') :
    o'.id = o.id := by
  unfold leftAfter Greedy.after at h
  split at h
  · cases h
  · cases h
    rfl

section Placed

variable {book : OrderBook} (hi : book.Indexed) (hwf : book.WF) (orderId : UInt64)
  (accountId : AccountId) (req : OrderRequest)

include hi

/-- An order meets each maker once. -/
theorem fills_nodup : ((book.fills orderId accountId req).map fun f => f.1.id).Nodup := by
  have hbegins : (book.fills orderId accountId req).map Prod.fst <+: book.inPriority req.side := by
    rw [OrderBook.fills_eq, crosses_toOrder, inPriority_split]
    exact (Greedy.walk_prefix Order.units _ _).trans (List.prefix_append _ _)
  have hids := (inPriority_nodup hi req.side).sublist (hbegins.map Order.id).sublist
  rwa [List.map_map] at hids

include hwf

/-- Orders of the taker's side are not met. -/
theorem leftAfter_own {o : Order} (ho : o ∈ levelOrders (book.side req.side).entries) :
    leftAfter (book.fills orderId accountId req) o = some o := by
  obtain ⟨l, hl, hm⟩ := mem_levelOrders.mp ho
  have hrests := (hwf.side _).rests l hl o hm
  refine Greedy.after_of_not_filled Order.units Order.shrink Order.id shrink_zero hrests.pos
    fun f hf hid => ?_
  have hfill := mem_fills (hwf.side _) hf
  have heq : f.1 = o := List.inj_on_of_nodup_map hi.nodup hfill.2.2.2.2.2
    (mem_orders.mpr ⟨_, l, hl, hm⟩) hid
  have hside : req.side.opposite = req.side := by
    rw [← hfill.1.side, heq, hrests.side]
  cases hreq : req.side <;> rw [hreq] at hside <;> cases hside

/-- **Who rests after an order**: the taker if it stays, and what its fills
left of the others. -/
theorem mem_placed {o' : Order} : o' ∈ (book.placed orderId accountId req).orders ↔
    o' ∈ book.resting orderId accountId req ∨
      ∃ o ∈ book.orders, leftAfter (book.fills orderId accountId req) o = some o' := by
  have hown : ∀ {o : Order}, o ∈ levelOrders (book.side req.side).entries →
      leftAfter (book.fills orderId accountId req) o = some o :=
    leftAfter_own hi hwf orderId accountId req
  have hswept : o' ∈ levelOrders (book.swept orderId accountId req).entries ↔
      ∃ o ∈ levelOrders (book.side req.side.opposite).entries,
        leftAfter (book.fills orderId accountId req) o = some o' := by
    rw [← (bestFirst_orders_perm req.side _).mem_iff, swept_eq_filterMap hwf hi, List.mem_filterMap,
      referenceFills_eq hwf hi req orderId accountId]
    simp only [(inPriority_perm book req.side).mem_iff]
  rw [(orders_perm _ req.side).mem_iff, List.mem_append, placed_own, placed_opposite,
    (joined_orders_perm book orderId accountId req).mem_iff, List.mem_append, hswept, or_assoc]
  refine or_congr_right ?_
  constructor
  · rintro (ho | ⟨o, ho, hleft⟩)
    · exact ⟨o', (orders_perm book req.side).mem_iff.mpr (List.mem_append_left _ ho), hown ho⟩
    · exact ⟨o, (orders_perm book req.side).mem_iff.mpr (List.mem_append_right _ ho), hleft⟩
  · rintro ⟨o, ho, hleft⟩
    rcases List.mem_append.mp ((orders_perm book req.side).mem_iff.mp ho) with ho | ho
    · rw [hown ho] at hleft
      exact .inl (Option.some.inj hleft ▸ ho)
    · exact .inr ⟨o, ho, hleft⟩

end Placed

section Traces

variable {b : Build} {o : Drains} {e : Engine} {accountId : AccountId} {req : OrderRequest}
  (t : PlaceTrace b o e accountId req) (hs : e.Shape) (hi : e.Indexed)

include hs hi

/-- Who rests in the engine after an order. -/
theorem PlaceTrace.resting_iff {id : UInt64} {o' : Order} : t.engine.Resting id o' ↔
    (o' ∈ (e.book req.pair).resting e.nextOrderId accountId req ∧ o'.id = id) ∨
      ∃ o, e.Resting id o ∧
        leftAfter ((e.book req.pair).fills e.nextOrderId accountId req) o = some o' := by
  have hwf := hs.wf req.pair
  have hindexed := hi.books req.pair
  have hengine : ∀ pair, t.engine.book pair
      = if pair = req.pair then t.book else e.book pair := book_insert rfl
  have hplaced : ∀ o', o' ∈ t.book.orders ↔
      o' ∈ (e.book req.pair).resting e.nextOrderId accountId req ∨
        ∃ o ∈ (e.book req.pair).orders,
          leftAfter ((e.book req.pair).fills e.nextOrderId accountId req) o = some o' := by
    intro o'
    rw [(t.book_eq hs).1, drained_orders]
    exact mem_placed hindexed hwf e.nextOrderId accountId req
  -- the fills are orders of this market
  have helse : ∀ {pair : Pair}, pair ≠ req.pair → ∀ o ∈ (e.book pair).orders,
      leftAfter ((e.book req.pair).fills e.nextOrderId accountId req) o = some o := by
    intro pair hpair o ho
    refine Greedy.after_of_not_filled Order.units Order.shrink Order.id shrink_zero
      ((hs.wf pair).rests_of_mem ho).pos fun f hf heq => hpair ?_
    exact hi.pair_unique ho (mem_fills (hwf.side _) hf).2.2.2.2.2 heq.symm
  constructor
  · rintro ⟨pair, ho', rfl⟩
    rw [hengine] at ho'
    split at ho'
    · rcases (hplaced o').mp ho' with ho' | ⟨o, ho, hleft⟩
      · exact .inl ⟨ho', rfl⟩
      · exact .inr ⟨o, ⟨req.pair, ho, (leftAfter_id hleft).symm⟩, hleft⟩
    · rename_i hpair
      exact .inr ⟨o', ⟨pair, ho', rfl⟩, helse hpair o' ho'⟩
  · rintro (⟨ho', rfl⟩ | ⟨o, ⟨pair, ho, rfl⟩, hleft⟩)
    · refine ⟨req.pair, ?_, rfl⟩
      rw [hengine, if_pos rfl, hplaced]
      exact .inl ho'
    · refine ⟨pair, ?_, leftAfter_id hleft⟩
      rw [hengine]
      split
      · rename_i hpair
        subst hpair
        exact (hplaced o').mpr (.inr ⟨o, ho, hleft⟩)
      · rename_i hpair
        rw [helse hpair o ho] at hleft
        exact Option.some.inj hleft ▸ ho

/-- The new order rests if it stays. -/
theorem PlaceTrace.resting_taker {o' : Order} : t.engine.Resting e.nextOrderId o' ↔
    o' ∈ (e.book req.pair).resting e.nextOrderId accountId req := by
  rw [t.resting_iff hs hi]
  constructor
  · rintro (⟨ho', _⟩ | ⟨o, ho, _⟩)
    · exact ho'
    · exact absurd ho (hi.not_resting (le_refl _) o)
  · intro ho'
    refine .inl ⟨ho', ?_⟩
    unfold OrderBook.resting at ho'
    split at ho'
    · rw [List.mem_singleton.mp ho', taker_id]
    · cases ho'

/-- Everyone else rests with what the fills left. -/
theorem PlaceTrace.resting_other {id : UInt64} (hid : id ≠ e.nextOrderId) {o' : Order} :
    t.engine.Resting id o' ↔ ∃ o, e.Resting id o ∧
      leftAfter ((e.book req.pair).fills e.nextOrderId accountId req) o = some o' := by
  rw [t.resting_iff hs hi]
  refine or_iff_right ?_
  rintro ⟨ho', rfl⟩
  unfold OrderBook.resting at ho'
  split at ho'
  · rw [List.mem_singleton.mp ho', taker_id] at hid
    exact hid rfl
  · cases ho'

/-- A maker rests on if its fill left something. -/
theorem PlaceTrace.resting_maker {f : Order × ℕ}
    (hf : f ∈ (e.book req.pair).fills e.nextOrderId accountId req) {o' : Order} :
    t.engine.Resting f.1.id o' ↔ f.2 ≠ f.1.units ∧ o' = f.1.shrink f.2 := by
  have hmem := (mem_fills ((hs.wf _).side _) hf).2.2.2.2.2
  have hrests : e.Resting f.1.id f.1 := ⟨req.pair, hmem, rfl⟩
  have htaken : Greedy.taken Order.id ((e.book req.pair).fills e.nextOrderId accountId req) f.1
      = f.2 :=
    Greedy.taken_of_mem Order.id
      (fills_nodup (hi.books _) e.nextOrderId accountId req) hf
  have hleft : leftAfter ((e.book req.pair).fills e.nextOrderId accountId req) f.1
      = if f.2 = f.1.units then none else some (f.1.shrink f.2) := by
    rw [leftAfter, Greedy.after, htaken]
  rw [t.resting_other hs hi (hi.fresh _ _ hmem).ne]
  constructor
  · rintro ⟨o, ho, hafter⟩
    rw [hi.resting_unique ho hrests, hleft] at hafter
    split at hafter
    · cases hafter
    · rename_i hne
      exact ⟨hne, (Option.some.inj hafter).symm⟩
  · rintro ⟨hne, rfl⟩
    exact ⟨f.1, hrests, by rw [hleft, if_neg hne]⟩

/-- Whom the order does not meet, it leaves alone. -/
theorem PlaceTrace.resting_untouched {id : UInt64} (hid : id ≠ e.nextOrderId)
    (hno : ∀ f ∈ (e.book req.pair).fills e.nextOrderId accountId req, f.1.id ≠ id)
    {o' : Order} : t.engine.Resting id o' ↔ e.Resting id o' := by
  have hleft : ∀ o, e.Resting id o →
      leftAfter ((e.book req.pair).fills e.nextOrderId accountId req) o = some o := by
    rintro o ⟨pair, ho, rfl⟩
    exact Greedy.after_of_not_filled Order.units Order.shrink Order.id shrink_zero
      ((hs.wf pair).rests_of_mem ho).pos hno
  rw [t.resting_other hs hi hid]
  constructor
  · rintro ⟨o, ho, hafter⟩
    rw [hleft o ho] at hafter
    exact Option.some.inj hafter ▸ ho
  · intro ho
    exact ⟨o', ho, hleft o' ho⟩

end Traces

/-- After a cancel the order it names is gone. -/
theorem CancelTrace.resting_iff {b : Build} {o : Drains} {e : Engine} {accountId : AccountId}
    {req : CancelRequest} (t : CancelTrace b o e accountId req) (hi : e.Indexed) {id : UInt64}
    {o' : Order} : t.engine.Resting id o' ↔ e.Resting id o' ∧ id ≠ req.orderId := by
  obtain ⟨hid, _, hperm⟩ := t.removed_order hi
  have hengine : ∀ pair, t.engine.book pair
      = if pair = t.pair then t.book else e.book pair := book_insert rfl
  have hnd := (hperm.map Order.id).nodup_iff.mp (hi.books t.pair).nodup
  rw [List.map_cons, List.nodup_cons, hid] at hnd
  constructor
  · rintro ⟨pair, ho', rfl⟩
    rw [hengine] at ho'
    split at ho'
    · refine ⟨⟨t.pair, hperm.mem_iff.mpr (List.mem_cons_of_mem _ ho'), rfl⟩, fun heq => hnd.1 ?_⟩
      exact heq ▸ List.mem_map.mpr ⟨o', ho', rfl⟩
    · rename_i hpair
      refine ⟨⟨pair, ho', rfl⟩, fun heq => hpair ?_⟩
      have horder := hperm.mem_iff.mpr (List.mem_cons_self (a := t.order) (l := t.book.orders))
      exact hi.pair_unique ho' horder (heq.trans hid.symm)
  · rintro ⟨⟨pair, ho', rfl⟩, hne⟩
    refine ⟨pair, ?_, rfl⟩
    rw [hengine]
    split
    · rename_i hpair
      subst hpair
      rcases List.mem_cons.mp (hperm.mem_iff.mp ho') with rfl | ho'
      · exact absurd hid hne
      · exact ho'
    · exact ho'

/-! ## What a command says about an order -/

theorem trailOf_trades (id : UInt64) (ts : List Trade) : trailOf id (ts.map Event.trade) = [] :=
  trailOf_eq_nil fun event hevent => by
    obtain ⟨_, _, rfl⟩ := List.mem_map.mp hevent
    rfl

theorem trailOf_deltas (id : UInt64) (pair : Pair) (deltas : List LevelDelta) :
    trailOf id (deltas.map (deltaEvent pair)) = [] :=
  trailOf_eq_nil fun event hevent => by
    obtain ⟨_, _, rfl⟩ := List.mem_map.mp hevent
    rfl

theorem trailOf_updates (id : UInt64) (pair : Pair) (us : List OrderUpdate) :
    trailOf id (us.map (OrderUpdate.toEvent pair))
      = (us.filter fun u => u.orderId = id).map (OrderUpdate.toEvent pair) := by
  rw [trailOf, List.filter_map]
  refine congrArg _ (List.filter_congr fun u _ => ?_)
  simp [OrderUpdate.toEvent, Event.order?]

/-- The trail an order leaves: its acceptance, and an update of everyone it
concerns. -/
theorem trailOf_placeEvents (id : UInt64) (accountId : AccountId) (req : OrderRequest)
    (m : MatchResponse) : trailOf id (placeEvents accountId req m)
      = (if m.orderId = id then
          [.orderAccepted id accountId req.pair req.side req.orderType req.price req.size]
        else [])
        ++ (m.updates.filter fun u => u.orderId = id).map (OrderUpdate.toEvent req.pair) := by
  rw [placeEvents, trailOf_cons, trailOf_append, trailOf_append, trailOf_trades, trailOf_deltas,
    trailOf_updates, List.nil_append, List.append_nil]
  simp only [Event.order?, Option.some.injEq]
  split
  · rename_i hid
    subst hid
    rfl
  · rfl

theorem trailOf_cancelEvents (id orderId : UInt64) (pair : Pair) {order : Order}
    (hid : order.id = orderId) (filledQty : UInt64) (deltas : List LevelDelta) :
    trailOf id (cancelEvents orderId pair order filledQty deltas)
      = if orderId = id then
          [.orderCancelled orderId,
            .orderUpdated orderId order.accountId pair filledQty order.remainingSize .cancelled]
        else [] := by
  rw [cancelEvents, trailOf_cons, trailOf_cons, trailOf_deltas, hid]
  simp only [Event.order?, Option.some.injEq]
  split
  · rfl
  · rfl

/-- The balances of a batch say nothing about orders. -/
theorem balanceEvents_order {l : Ledger} {keys : List (AccountId × Currency)} {bevs : List Event}
    (h : keys.mapM (balanceEvent l) = .ok bevs) : ∀ event ∈ bevs, event.order? = none := by
  intro event hevent
  obtain ⟨key, _, hkey⟩ := mapM_mem h hevent
  obtain ⟨balance, _, rfl⟩ := balanceEvent_ok hkey
  rfl

/-- What fills move with an order. -/
theorem tradedQty_fills (pair : Pair) (taker : Order) {fs : List (Order × ℕ)}
    (hfs : ∀ f ∈ fs, f.2 ≤ f.1.units) (id : UInt64) :
    tradedQty id (fs.map (fillTrade pair taker))
      = ((fs.filter fun f => f.1.id = id ∨ taker.id = id).map Prod.snd).sum := by
  rw [tradedQty, List.filter_map, List.map_map]
  refine congrArg List.sum (List.map_congr_left fun f hf => ?_)
  exact fillTrade_qty pair taker (hfs f (List.mem_of_mem_filter hf))

/-! ## Lives -/

/-- How an order stands, and what its row says. `filled` is what was traded of
it, `cancelled` whether a command cancelled it. -/
inductive OrderLife (e : Engine) (id : UInt64) (filled : ℕ) (cancelled : Prop) :
    Option OrderRow → Prop where
  /-- the id is not given yet -/
  | unborn (hid : e.nextOrderId ≤ id) (hfilled : filled = 0) (hlive : ¬ cancelled) :
      OrderLife e id filled cancelled none
  | resting {row : OrderRow} (o : Order) (ho : e.Resting id o) (hlimit : row.orderType = .limit)
      (hsize : row.size = o.size) (hqty : row.filledQty.toNat = filled)
      (hsum : filled + o.units = row.size.toNat)
      (hstatus : row.status = if filled = 0 then .open else .partiallyFilled)
      (hlive : ¬ cancelled) : OrderLife e id filled cancelled (some row)
  | filled {row : OrderRow} (hid : id < e.nextOrderId) (hgone : ∀ o, ¬ e.Resting id o)
      (hqty : row.filledQty.toNat = filled) (hsum : filled = row.size.toNat)
      (hstatus : row.status = .filled) (hlive : ¬ cancelled) :
      OrderLife e id filled cancelled (some row)
  /-- by a command, or for want of makers -/
  | cancelled {row : OrderRow} (hid : id < e.nextOrderId) (hgone : ∀ o, ¬ e.Resting id o)
      (hqty : row.filledQty.toNat = filled) (hsum : filled < row.size.toNat)
      (hstatus : row.status = .cancelled) (hwhy : cancelled ∨ row.orderType = .market) :
      OrderLife e id filled cancelled (some row)

section Lives

variable {e e' : Engine} {id : UInt64} {n n' : ℕ} {c c' : Prop} {row : Option OrderRow}

/-- An order nothing happened to lives on. -/
theorem OrderLife.frame (h : OrderLife e id n c row)
    (hrests : ∀ o, e'.Resting id o ↔ e.Resting id o)
    (hnext : e'.nextOrderId ≤ id ↔ e.nextOrderId ≤ id) (hcancel : c' ↔ c) :
    OrderLife e' id n c' row := by
  have hlt : id < e.nextOrderId → id < e'.nextOrderId := fun hid =>
    lt_of_not_ge fun hle => absurd hid (not_lt_of_ge (hnext.mp hle))
  cases h with
  | unborn hid hfilled hlive => exact .unborn (hnext.mpr hid) hfilled (hcancel.not.mpr hlive)
  | resting o ho hlimit hsize hqty hsum hstatus hlive =>
      exact .resting o ((hrests o).mpr ho) hlimit hsize hqty hsum hstatus (hcancel.not.mpr hlive)
  | filled hid hgone hqty hsum hstatus hlive =>
      exact .filled (hlt hid) (fun o => (hrests o).not.mpr (hgone o)) hqty hsum hstatus
        (hcancel.not.mpr hlive)
  | cancelled hid hgone hqty hsum hstatus hwhy =>
      exact .cancelled (hlt hid) (fun o => (hrests o).not.mpr (hgone o)) hqty hsum hstatus
        (hwhy.imp_left hcancel.mpr)

/-- The next id has no life yet. -/
theorem OrderLife.next (h : OrderLife e e.nextOrderId n c row) (hi : e.Indexed) :
    row = none ∧ n = 0 ∧ ¬ c := by
  cases h with
  | unborn _ hfilled hlive => exact ⟨rfl, hfilled, hlive⟩
  | resting o ho => exact absurd ho (hi.not_resting (le_refl _) o)
  | filled hid => exact absurd hid (lt_irrefl _)
  | cancelled hid => exact absurd hid (lt_irrefl _)

/-- What rests has a row that says so. -/
theorem OrderLife.of_resting (h : OrderLife e id n c row) (hi : e.Indexed) {o : Order}
    (ho : e.Resting id o) : ∃ r : OrderRow, row = some r ∧ r.orderType = .limit ∧
      r.size = o.size ∧ r.filledQty.toNat = n ∧ n + o.units = r.size.toNat ∧
      r.status = (if n = 0 then .open else .partiallyFilled) ∧ ¬ c := by
  cases h with
  | unborn hid => exact absurd ho (hi.not_resting hid o)
  | resting o' ho' hlimit hsize hqty hsum hstatus hlive =>
      obtain rfl := hi.resting_unique ho ho'
      exact ⟨_, rfl, hlimit, hsize, hqty, hsum, hstatus, hlive⟩
  | filled _ hgone => exact absurd ho (hgone o)
  | cancelled _ hgone => exact absurd ho (hgone o)

end Lives

/-! ## An order is placed -/

theorem Engine.Shape.fills_le {e : Engine} (hs : e.Shape) {orderId : UInt64}
    {accountId : AccountId} {req : OrderRequest} :
    ∀ f ∈ (e.book req.pair).fills orderId accountId req, f.2 ≤ f.1.units :=
  fun _ hf => (mem_fills ((hs.wf _).side _) hf).2.2.2.1

/-- The next id is no maker's. -/
theorem Engine.Indexed.fills_lt {e : Engine} (hi : e.Indexed) (hs : e.Shape) {orderId : UInt64}
    {accountId : AccountId} {req : OrderRequest} :
    ∀ f ∈ (e.book req.pair).fills orderId accountId req, f.1.id < e.nextOrderId :=
  fun _ hf => hi.fresh _ _ (mem_fills ((hs.wf _).side _) hf).2.2.2.2.2

/-- The taker's own update is about the taker. -/
theorem takerUpdate_filter (order : Order) (id : UInt64) :
    ((takerUpdate order).filter fun u => u.orderId = id)
      = if order.id = id then takerUpdate order else [] := by
  unfold takerUpdate
  cases takerStatus order (order.size - order.remainingSize) with
  | none => simp
  | some status =>
      rw [List.filter_singleton]
      by_cases hid : order.id = id
      · simp [hid]
      · simp [hid]

/-- What the taker's own update, if there is one, makes of its row. -/
theorem takerUpdate_row (pair : Pair) (order : Order) (row : OrderRow) :
    ((takerUpdate order).map (OrderUpdate.toEvent pair)).foldl rowStep (some row)
      = match takerStatus order (order.size - order.remainingSize) with
        | some status =>
            some { row with
              filledQty := order.size - order.remainingSize
              status := status }
        | none => some row := by
  unfold takerUpdate
  cases takerStatus order (order.size - order.remainingSize) with
  | none => rfl
  | some status => rfl

/-- **How an order arrives**: it rests, or it is over at once. `q` is what it
took. -/
theorem OrderLife.arrived {e : Engine} {taker : Order} {row : OrderRow} {q : ℕ} {c : Prop}
    (hid : taker.id < e.nextOrderId)
    (hrests : ∀ o, e.Resting taker.id o ↔
      (taker.orderType = .limit ∧ 0 < taker.units) ∧ o = taker)
    (hsum : q + taker.units = taker.size.toNat) (htype : row.orderType = taker.orderType)
    (hsize : row.size = taker.size) (hqty : row.filledQty = 0) (hopen : row.status = .open)
    (hlive : ¬ c) (pair : Pair) : OrderLife e taker.id q c
      (((takerUpdate taker).map (OrderUpdate.toEvent pair)).foldl rowStep (some row)) := by
  have hunits : taker.units = taker.remainingSize.toNat := rfl
  have hle : taker.remainingSize ≤ taker.size := by
    rw [UInt64.le_iff_toNat_le]
    omega
  have hfilled : (taker.size - taker.remainingSize).toNat = q := by
    rw [toNat_sub_of_le hle]
    omega
  have hmore : 0 < taker.size - taker.remainingSize ↔ q ≠ 0 := by
    rw [UInt64.lt_iff_toNat_lt, hfilled]
    exact Nat.pos_iff_ne_zero
  rw [takerUpdate_row, takerStatus]
  by_cases hrem : taker.remainingSize = 0
  · -- all of it was filled
    have hzero : taker.units = 0 := by rw [hunits, hrem]; rfl
    rw [if_pos hrem]
    refine .filled hid (fun o ho => ?_) hfilled ?_ rfl hlive
    · have hpos := ((hrests o).mp ho).1.2
      omega
    · show q = row.size.toNat
      rw [hsize]
      omega
  have hpos : 0 < taker.units := by
    rw [hunits]
    exact Nat.pos_of_ne_zero fun hzero => hrem (UInt64.toNat_inj.mp hzero)
  rw [if_neg hrem]
  cases hmarket : taker.orderType with
  | market =>
      -- nobody is left to fill the rest, and a market order does not wait
      rw [if_pos rfl]
      refine .cancelled hid (fun o ho => ?_) hfilled ?_ rfl (.inr (htype.trans hmarket))
      · have hlimit := ((hrests o).mp ho).1.1
        rw [hmarket] at hlimit
        cases hlimit
      · show q < row.size.toNat
        rw [hsize]
        omega
  | limit =>
      have hstays := (hrests taker).mpr ⟨⟨hmarket, hpos⟩, rfl⟩
      have hlimit := htype.trans hmarket
      rw [if_neg (by decide)]
      by_cases hq : q = 0
      · -- it rests untouched, without an update
        rw [if_neg (hmore.not.mpr (not_not.mpr hq))]
        refine .resting taker hstays hlimit hsize ?_ (hsize ▸ hsum) ?_ hlive
        · rw [hqty, hq]
          rfl
        · rw [hopen, if_pos hq]
      · rw [if_pos (hmore.mpr hq)]
        refine .resting taker hstays hlimit hsize hfilled (hsize ▸ hsum) ?_ hlive
        rw [if_neg hq]

section Place

variable {b : Build} {o : Drains} {e : Engine} {accountId : AccountId} {req : OrderRequest}
  (t : PlaceTrace b o e accountId req) (hs : e.Shape) (hi : e.Indexed) {id : UInt64} {n : ℕ}
  {c : Prop} {row : Option OrderRow}

include hs

/-- The updates of one order: its fill as a maker, its own as the taker. -/
theorem PlaceTrace.updates_filter (id : UInt64) :
    (t.matchResult.updates.filter fun u => u.orderId = id)
      = (((e.book req.pair).fills e.nextOrderId accountId req).filter
            fun f => f.1.id = id).map fillUpdate
        ++ if e.nextOrderId = id then
            takerUpdate ((e.book req.pair).taker e.nextOrderId accountId req) else [] := by
  have hupdates : t.matchResult.updates
      = ((e.book req.pair).fills e.nextOrderId accountId req).map fillUpdate
        ++ takerUpdate ((e.book req.pair).taker e.nextOrderId accountId req) :=
    congrArg MatchResponse.updates (t.book_eq hs).2.1
  rw [hupdates, List.filter_append, takerUpdate_filter, taker_id, List.filter_map]
  rfl

theorem PlaceTrace.orderId_eq : t.matchResult.orderId = e.nextOrderId :=
  congrArg MatchResponse.orderId (t.book_eq hs).2.1

/-- What an order trades of itself, and of the others. -/
theorem PlaceTrace.traded_taker : tradedQty e.nextOrderId t.matchResult.trades
    = (((e.book req.pair).fills e.nextOrderId accountId req).map Prod.snd).sum := by
  rw [t.trades_eq hs, tradedQty_fills req.pair _ hs.fills_le,
    List.filter_eq_self.mpr fun f _ => by simp [OrderRequest.toOrder]]

theorem PlaceTrace.traded_other (hid : id ≠ e.nextOrderId) :
    tradedQty id t.matchResult.trades
      = ((((e.book req.pair).fills e.nextOrderId accountId req).filter
          fun f => f.1.id = id).map Prod.snd).sum := by
  have htaker : ¬ (req.toOrder e.nextOrderId accountId).id = id := Ne.symm hid
  rw [t.trades_eq hs, tradedQty_fills req.pair _ hs.fills_le]
  simp only [htaker, or_false]

variable (hnext : t.nextOrderId.toNat = e.nextOrderId.toNat + 1)

omit hs in
include hnext in
/-- One id is used up. -/
theorem PlaceTrace.next_le_iff (hid : id ≠ e.nextOrderId) :
    t.engine.nextOrderId ≤ id ↔ e.nextOrderId ≤ id := by
  have hne : id.toNat ≠ e.nextOrderId.toNat := fun h => hid (UInt64.toNat_inj.mp h)
  rw [UInt64.le_iff_toNat_le, UInt64.le_iff_toNat_le]
  show t.nextOrderId.toNat ≤ _ ↔ _
  omega

include hi hnext

/-- **An order is accepted.** -/
theorem PlaceTrace.life_taker (h : OrderLife e e.nextOrderId n c row) :
    OrderLife t.engine e.nextOrderId (n + tradedQty e.nextOrderId t.matchResult.trades) c
      (rowAfter e.nextOrderId (placeEvents accountId req t.matchResult) row) := by
  obtain ⟨rfl, rfl, hlive⟩ := h.next hi
  obtain ⟨rem, htaker⟩ := taker_eq (e.book req.pair) e.nextOrderId accountId req
  have hid : e.nextOrderId < t.engine.nextOrderId := by
    rw [UInt64.lt_iff_toNat_lt]
    show _ < t.nextOrderId.toNat
    omega
  have htraded : tradedQty e.nextOrderId t.matchResult.trades + rem.toNat = req.size.toNat := by
    have hsum := fills_sum (e.book req.pair) e.nextOrderId accountId req
    rw [htaker, ← t.traded_taker hs] at hsum
    exact hsum
  have hnone : (((e.book req.pair).fills e.nextOrderId accountId req).filter
      fun f => f.1.id = e.nextOrderId) = [] :=
    List.filter_eq_nil_iff.mpr fun f hf => by simpa using (hi.fills_lt hs f hf).ne
  rw [rowAfter, trailOf_placeEvents, t.updates_filter hs, hnone, t.orderId_eq hs, if_pos rfl,
    if_pos rfl, Nat.zero_add, htaker]
  let taker : Order := { req.toOrder e.nextOrderId accountId with remainingSize := rem }
  have hid' : taker.id < t.engine.nextOrderId := hid
  refine OrderLife.arrived hid' (fun o' => ?_) htraded rfl rfl rfl rfl hlive req.pair
  show t.engine.Resting e.nextOrderId o' ↔ _
  have hstays : (e.book req.pair).Stays e.nextOrderId accountId req ↔
      req.orderType = .limit ∧ 0 < rem.toNat := by
    rw [OrderBook.Stays, htaker]
    rfl
  rw [t.resting_taker hs hi, OrderBook.resting, htaker]
  by_cases hstay : (e.book req.pair).Stays e.nextOrderId accountId req
  · rw [if_pos hstay, List.mem_singleton]
    exact (and_iff_right (hstays.mp hstay)).symm
  · rw [if_neg hstay]
    exact iff_of_false List.not_mem_nil fun h => hstay (hstays.mpr h.1)

/-- **An order is met**: one update, and it rests on or is filled. -/
theorem PlaceTrace.life_maker {f : Order × ℕ}
    (hf : f ∈ (e.book req.pair).fills e.nextOrderId accountId req)
    (h : OrderLife e f.1.id n c row) :
    OrderLife t.engine f.1.id (n + tradedQty f.1.id t.matchResult.trades) c
      (rowAfter f.1.id (placeEvents accountId req t.matchResult) row) := by
  have hlt : f.1.id < e.nextOrderId := hi.fills_lt hs f hf
  have hfill := mem_fills ((hs.wf _).side _) hf
  obtain ⟨r, rfl, hlimit, hsize, hqty, hsum, _, hlive⟩ :=
    h.of_resting hi ⟨req.pair, hfill.2.2.2.2.2, rfl⟩
  have hone : (((e.book req.pair).fills e.nextOrderId accountId req).filter
      fun g => g.1.id = f.1.id) = [f] :=
    Greedy.filter_key_eq (fills_nodup (hi.books _) e.nextOrderId accountId req) hf
  have htraded : tradedQty f.1.id t.matchResult.trades = f.2 := by
    rw [t.traded_other hs hlt.ne, hone, List.map_singleton, List.sum_singleton]
  have hrow : rowAfter f.1.id (placeEvents accountId req t.matchResult) (some r)
      = some { r with
          filledQty := (fillUpdate f).filledQty
          status := (fillUpdate f).status } := by
    rw [rowAfter, trailOf_placeEvents, t.updates_filter hs, hone, t.orderId_eq hs,
      if_neg hlt.ne', if_neg hlt.ne', List.append_nil]
    rfl
  have hleft := Order.units_shrink hfill.2.2.2.1
  have hfilled : (fillUpdate f).filledQty.toNat = n + f.2 := by
    have hle := shrink_remaining_le hfill.1.sized hfill.2.2.2.1
    have hrem : (f.1.shrink f.2).remainingSize.toNat = f.1.units - f.2 := hleft
    rw [fillUpdate, toNat_sub_of_le hle, hrem, ← hsize]
    omega
  rw [hrow, htraded]
  by_cases hall : f.2 = f.1.units
  · refine .filled ?_ (fun o' ho' => ((t.resting_maker hs hi hf).mp ho').1 hall) hfilled ?_ ?_
      hlive
    · exact lt_of_not_ge fun hle => not_lt_of_ge ((t.next_le_iff hnext hlt.ne).mp hle) hlt
    · show n + f.2 = r.size.toNat
      omega
    · show (fillUpdate f).status = _
      rw [fillUpdate, if_pos ((shrink_remaining_eq_zero hfill.2.2.2.1).mpr hall)]
  · refine .resting (f.1.shrink f.2) ((t.resting_maker hs hi hf).mpr ⟨hall, rfl⟩) hlimit hsize
      hfilled ?_ ?_ hlive
    · show n + f.2 + (f.1.shrink f.2).units = r.size.toNat
      omega
    · show (fillUpdate f).status = _
      have hpos := hfill.2.2.1
      rw [fillUpdate, if_neg ((shrink_remaining_eq_zero hfill.2.2.2.1).not.mpr hall),
        if_neg (by omega)]

/-- Everyone else lives on. -/
theorem PlaceTrace.life_untouched (hid : id ≠ e.nextOrderId)
    (hno : ∀ f ∈ (e.book req.pair).fills e.nextOrderId accountId req, f.1.id ≠ id)
    (h : OrderLife e id n c row) :
    OrderLife t.engine id (n + tradedQty id t.matchResult.trades) c
      (rowAfter id (placeEvents accountId req t.matchResult) row) := by
  have hnone : (((e.book req.pair).fills e.nextOrderId accountId req).filter
      fun f => f.1.id = id) = [] :=
    List.filter_eq_nil_iff.mpr fun f hf => by simpa using hno f hf
  rw [rowAfter, trailOf_placeEvents, t.updates_filter hs, t.traded_other hs hid, hnone,
    t.orderId_eq hs, if_neg hid.symm, if_neg hid.symm]
  exact h.frame (fun o' => t.resting_untouched hs hi hid hno) (t.next_le_iff hnext hid) Iff.rfl

/-- **An order, and every life.** -/
theorem PlaceTrace.life (h : OrderLife e id n c row) :
    OrderLife t.engine id (n + tradedQty id t.matchResult.trades) c
      (rowAfter id (placeEvents accountId req t.matchResult) row) := by
  by_cases hid : id = e.nextOrderId
  · subst hid
    exact t.life_taker hs hi hnext h
  · by_cases hmet : ∃ f ∈ (e.book req.pair).fills e.nextOrderId accountId req, f.1.id = id
    · obtain ⟨f, hf, rfl⟩ := hmet
      exact t.life_maker hs hi hnext hf h
    · exact t.life_untouched hs hi hnext hid (fun f hf heq => hmet ⟨f, hf, heq⟩) h

end Place

/-- **A cancel, and every life.** -/
theorem CancelTrace.life {b : Build} {o : Drains} {e : Engine} {accountId : AccountId}
    {req : CancelRequest} (t : CancelTrace b o e accountId req) (hs : e.Shape) (hi : e.Indexed)
    {filledQty : UInt64} (hqty : b.sub t.order.size t.order.remainingSize = .ok filledQty)
    {id : UInt64} {n : ℕ} {c : Prop} {row : Option OrderRow} (h : OrderLife e id n c row) :
    OrderLife t.engine id n (c ∨ req.orderId = id)
      (rowAfter id (cancelEvents req.orderId t.pair t.order filledQty t.bookDeltas) row) := by
  obtain ⟨hid, _, hperm⟩ := t.removed_order hi
  rw [rowAfter, trailOf_cancelEvents id req.orderId t.pair hid]
  by_cases hcancel : req.orderId = id
  · subst hcancel
    have hrests : e.Resting req.orderId t.order :=
      ⟨t.pair, hperm.mem_iff.mpr List.mem_cons_self, hid⟩
    obtain ⟨r, rfl, _, hsize, hfilled, hsum, _, _⟩ := h.of_resting hi hrests
    have hsized := (hrests.rests hs).sized
    have hpos := (hrests.rests hs).pos
    have hsub := (Build.sub_toNat hqty (.inr hsized)).2
    have hunits : t.order.units = t.order.remainingSize.toNat := rfl
    rw [if_pos rfl]
    refine .cancelled ?_ (fun o' ho' => ((t.resting_iff hi).mp ho').2 rfl) ?_ ?_ rfl
      (.inl (.inr rfl))
    · obtain ⟨pair, ho, heq⟩ := hrests
      exact heq ▸ hi.fresh pair _ ho
    · show filledQty.toNat = n
      rw [hsub, ← hsize]
      omega
    · show n < r.size.toNat
      omega
  · rw [if_neg hcancel]
    have hother : ∀ o', t.engine.Resting id o' ↔ e.Resting id o' := fun o' =>
      (t.resting_iff hi).trans (and_iff_left (Ne.symm hcancel))
    exact h.frame hother Iff.rfl (or_iff_left hcancel)

end MatchingEngine
