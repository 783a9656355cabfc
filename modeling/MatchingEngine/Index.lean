import MatchingEngine.Returns

/-!
# Index: ids, the per-book index and the routing map

Which orders rest where is written down three times: in the queues, in each
book's `order_index` and in the engine's `order_pair`. `Engine.Indexed` says
that the three agree and that ids rise with arrival. It is kept as long as
`next_order_id` does not wrap.
-/

namespace MatchingEngine

open RustArith HashModel

/-! ## One book -/

/-- Where an order stands, as the index records it. -/
def Order.location (o : Order) : OrderLocation where
  owner := o.accountId
  side := o.side
  price := o.price

/-- The index entry of an order. -/
def Order.stamp (o : Order) : UInt64 × OrderLocation := (o.id, o.location)

/-- The index is that of the orders that rest, and queues are in the order of
arrival. -/
structure OrderBook.Indexed (book : OrderBook) : Prop where
  queues : ∀ s, ∀ l ∈ (book.side s).entries, l.2.Pairwise fun o o' => o.id < o'.id
  nodup : (book.orders.map Order.id).Nodup
  index : ∀ id loc, book.orderIndex.lookup id = some loc ↔
    (id, loc) ∈ book.orders.map Order.stamp

theorem OrderBook.new_indexed : OrderBook.new.Indexed where
  queues s l hl := by cases s <;> cases hl
  nodup := List.nodup_nil
  index id loc := by
    constructor
    · intro h; cases h
    · intro h; cases h

theorem stamps_fst (os : List Order) : (os.map Order.stamp).map Prod.fst = os.map Order.id := by
  rw [List.map_map]; rfl

theorem OrderBook.Indexed.lookup_none {book : OrderBook} (h : book.Indexed) {id : UInt64} :
    book.orderIndex.lookup id = none ↔ ∀ o ∈ book.orders, o.id ≠ id := by
  constructor
  · rintro hnone o ho rfl
    have hsome := (h.index o.id o.location).mpr (List.mem_map.mpr ⟨o, ho, rfl⟩)
    rw [hnone] at hsome
    cases hsome
  · intro hno
    rw [Option.eq_none_iff_forall_ne_some]
    intro loc hsome
    obtain ⟨o, ho, hstamp⟩ := List.mem_map.mp ((h.index id loc).mp hsome)
    exact hno o ho (congrArg Prod.fst hstamp)

/-- The orders of a book, one side first. -/
theorem orders_perm (book : OrderBook) (s : Side) :
    book.orders.Perm (levelOrders (book.side s).entries
      ++ levelOrders (book.side s.opposite).entries) := by
  cases s with
  | bid => exact List.Perm.refl _
  | ask => exact List.perm_append_comm

/-! ## An order is placed -/

section Placed

variable {book : OrderBook} {orderId : UInt64} {accountId : AccountId} {req : OrderRequest}

theorem taker_stamp (book : OrderBook) (orderId : UInt64) (accountId : AccountId)
    (req : OrderRequest) : (book.taker orderId accountId req).stamp
      = (orderId, { owner := accountId, side := req.side, price := req.price }) := by
  obtain ⟨rem, h⟩ := taker_eq book orderId accountId req
  rw [h]; rfl

/-- **What a taker leaves of the opposite side**: some makers are used up, the
others keep their place, whatever is left of them. -/
theorem swept_stamps (book : OrderBook) (orderId : UInt64) (accountId : AccountId)
    (req : OrderRequest) (h : SideWF req.side.opposite (book.side req.side.opposite)) :
    ∃ used others,
      (levelOrders (book.side req.side.opposite).entries).Perm (used ++ others) ∧
      ((levelOrders (book.swept orderId accountId req).entries).map Order.stamp).Perm
        (others.map Order.stamp) ∧
      ∀ id, (∃ f ∈ book.fills orderId accountId req, f.1.id = id ∧ f.2 = f.1.units) ↔
        id ∈ used.map Order.id := by
  have hflat := bestFirst_orders_perm req.side
  set crosses := (req.toOrder orderId accountId).crosses with hcrosses
  set levels := bestFirst req.side (book.side req.side.opposite) with hlevels
  have hpos : ∀ m ∈ reach crosses levels, 0 < m.units := by
    intro m hm
    obtain ⟨l, hl, _, hm⟩ := mem_reach hm
    exact h.units_pos _ l hl m hm
  obtain ⟨used, left, hreach, hshape⟩ :=
    Greedy.walk_rest_shape Order.units Order.shrink (r := req.size.toNat) hpos
  refine ⟨used, left ++ levelOrders (beyond crosses levels), ?_, ?_, ?_⟩
  · rw [← List.append_assoc, ← hreach, reach_append_beyond]
    exact (hflat _).symm
  · refine ((hflat _).map Order.stamp).symm.trans ?_
    rw [OrderBook.swept, bestFirst_sweepSide, sweep_orders, List.map_append, List.map_append]
    refine List.Perm.append_right _ ?_
    rcases hshape with ⟨_, hrest⟩ | ⟨m, ms, q, hleft, _, _, _, hrest⟩
    · rw [hrest]
    · rw [hrest, hleft]
      exact List.Perm.refl _
  · intro id
    rw [OrderBook.fills_eq, ← hcrosses, ← hlevels]
    rcases hshape with ⟨hwalk, _⟩ | ⟨m, ms, q, _, _, hlt, hwalk, _⟩
    · rw [hwalk]
      simp [eq_comm]
    · -- the last maker is only partly filled
      rw [hwalk]
      constructor
      · rintro ⟨f, hf, hid, hfull⟩
        rcases List.mem_append.mp hf with hf | hf
        · obtain ⟨m', hm', rfl⟩ := List.mem_map.mp hf
          exact List.mem_map.mpr ⟨m', hm', hid⟩
        · rw [List.mem_singleton.mp hf] at hfull
          exact absurd hfull hlt.ne
      · intro hid
        obtain ⟨m', hm', hid⟩ := List.mem_map.mp hid
        exact ⟨(m', m'.units), List.mem_append_left _ (List.mem_map.mpr ⟨m', hm', rfl⟩), hid, rfl⟩

/-- **What an order leaves of a book**: the used makers are gone, and the
remainder has joined. -/
theorem placed_stamps (book : OrderBook) (orderId : UInt64) (accountId : AccountId)
    (req : OrderRequest) (h : book.WF) : ∃ used others,
    book.orders.Perm (used ++ others) ∧
    ((book.placed orderId accountId req).orders.map Order.stamp).Perm
      ((book.resting orderId accountId req ++ others).map Order.stamp) ∧
    ∀ id, (∃ f ∈ book.fills orderId accountId req, f.1.id = id ∧ f.2 = f.1.units) ↔
      id ∈ used.map Order.id := by
  obtain ⟨used, others, hold, hnew, hused⟩ :=
    swept_stamps book orderId accountId req (h.side req.side.opposite)
  refine ⟨used, levelOrders (book.side req.side).entries ++ others, ?_, ?_, hused⟩
  · refine (orders_perm book req.side).trans ((hold.append_left _).trans ?_)
    rw [← List.append_assoc, ← List.append_assoc]
    exact List.perm_append_comm.append_right _
  · refine ((orders_perm _ req.side).map Order.stamp).trans ?_
    rw [placed_own, placed_opposite, ← List.append_assoc, List.map_append, List.map_append]
    exact ((joined_orders_perm book orderId accountId req).map Order.stamp).append hnew

theorem placed_index (book : OrderBook) (orderId : UInt64) (accountId : AccountId)
    (req : OrderRequest) (id : UInt64) :
    (book.placed orderId accountId req).orderIndex.lookup id
      = if book.Stays orderId accountId req ∧ id = orderId then
          some { owner := accountId, side := req.side, price := req.price }
        else if ∃ f ∈ book.fills orderId accountId req, f.1.id = id ∧ f.2 = f.1.units then
          none
        else book.orderIndex.lookup id := by
  have hmatched : (book.matchedBook orderId accountId req).orderIndex.lookup id = _ :=
    (congrArg (Finmap.lookup id) (OrderBook.setSide_orderIndex _ _ _)).trans
      (recordAll_orderIndex req.pair _ (book.start orderId accountId req) id)
  by_cases hstay : book.Stays orderId accountId req
  · rw [placed_eq_of_stays _ _ _ _ hstay]
    dsimp only
    rw [lookup_insert_ite, hmatched]
    simp only [hstay, true_and]
    rfl
  · rw [placed_eq_of_not_stays _ _ _ _ hstay, hmatched]
    simp only [hstay, false_and, if_false]
    rfl

theorem placed_queues (h : book.Indexed) (hfresh : ∀ o ∈ book.orders, o.id < orderId) :
    ∀ s, ∀ l ∈ ((book.placed orderId accountId req).side s).entries,
      l.2.Pairwise fun o o' => o.id < o'.id := by
  intro s l hl
  rcases req.side.eq_or_opposite s with rfl | rfl
  · rw [placed_own] at hl
    rcases mem_joined hl with hl | ⟨_, _, hq⟩
    · exact h.queues _ l hl
    · -- the taker is the latest to arrive
      rw [hq]
      cases hget : (book.side req.side).get? req.price with
      | none => exact List.pairwise_singleton _ _
      | some queue =>
          have hmem := SortedMap.get?_eq_some.mp hget
          refine List.pairwise_append.mpr ⟨h.queues _ _ hmem, List.pairwise_singleton _ _, ?_⟩
          intro o ho t ht
          rw [List.mem_singleton.mp ht, taker_id]
          exact hfresh o (mem_orders.mpr ⟨_, _, hmem, ho⟩)
  · rw [placed_opposite, OrderBook.swept, ← mem_bestFirst (s := req.side),
      bestFirst_sweepSide] at hl
    rcases mem_sweep hl with hl | ⟨old, r', hold, _, _, _, hq⟩
    · exact h.queues _ l (mem_bestFirst.mp hl)
    · have hsuffix := Greedy.rest_map_suffix Order.units Order.shrink Order.id
        (fun _ _ => rfl) r' old
      have hold := List.pairwise_map.mpr (h.queues _ _ (mem_bestFirst.mp hold))
      rw [hq]
      exact List.pairwise_map.mp (hold.sublist hsuffix.sublist)

/-- **`add_order` keeps the index** when the id is new. -/
theorem placed_indexed (accountId : AccountId) (req : OrderRequest) (hwf : book.WF)
    (h : book.Indexed) (hfresh : ∀ o ∈ book.orders, o.id < orderId) :
    (book.placed orderId accountId req).Indexed := by
  obtain ⟨used, others, hold, hnew, hused⟩ :=
    placed_stamps book orderId accountId req hwf
  have hnd : ((used ++ others).map Order.id).Nodup := (hold.map Order.id).nodup_iff.mp h.nodup
  rw [List.map_append] at hnd
  have hothers : ∀ o ∈ others, o.id ≠ orderId := fun o ho =>
    (hfresh o (hold.mem_iff.mpr (List.mem_append_right _ ho))).ne
  constructor
  case queues => exact placed_queues h hfresh
  case nodup =>
    have hids := (hnew.map Prod.fst).nodup_iff
    rw [stamps_fst, stamps_fst, List.map_append] at hids
    rw [hids, OrderBook.resting]
    split
    · rw [List.map_singleton, List.singleton_append, taker_id, List.nodup_cons]
      refine ⟨fun hin => ?_, hnd.of_append_right⟩
      obtain ⟨o, ho, hid⟩ := List.mem_map.mp hin
      exact hothers o ho hid
    · exact hnd.of_append_right
  case index =>
    intro id loc
    rw [hnew.mem_iff, placed_index, List.map_append, List.mem_append, OrderBook.resting]
    have hin : (id, loc) ∈ others.map Order.stamp → id ∉ used.map Order.id := by
      intro hin huse
      have hid : id ∈ others.map Order.id := by
        rw [← stamps_fst]
        exact List.mem_map.mpr ⟨_, hin, rfl⟩
      exact List.disjoint_of_nodup_append hnd huse hid
    have hlookup : (if ∃ f ∈ book.fills orderId accountId req, f.1.id = id ∧ f.2 = f.1.units
        then none else book.orderIndex.lookup id) = some loc
          ↔ (id, loc) ∈ others.map Order.stamp := by
      split
      · rename_i hfull
        exact ⟨fun h => (by cases h), fun h => absurd ((hused id).mp hfull) (hin h)⟩
      · rename_i hnot
        rw [h.index, (hold.map Order.stamp).mem_iff, List.map_append, List.mem_append]
        constructor
        · rintro (huse | ho)
          · refine absurd ((hused id).mpr ?_) hnot
            rw [← stamps_fst]
            exact List.mem_map.mpr ⟨_, huse, rfl⟩
          · exact ho
        · exact .inr
    by_cases hstay : book.Stays orderId accountId req
    · simp only [hstay, true_and, if_true, List.map_singleton, taker_stamp,
        List.mem_singleton, Prod.mk.injEq]
      by_cases hid : id = orderId
      · subst hid
        simp only [if_true, true_and, Option.some.injEq]
        constructor
        · exact fun h => .inl h.symm
        · rintro (h | h)
          · exact h.symm
          · obtain ⟨o, ho, hstamp⟩ := List.mem_map.mp h
            exact absurd (congrArg Prod.fst hstamp) (hothers o ho)
      · simp only [hid, if_false, false_and, false_or]
        exact hlookup
    · simp only [hstay, false_and, if_false, List.map_nil, List.not_mem_nil, false_or]
      exact hlookup

/-- The ids of the placed book: the new one or old ones, and of the old ones
all that were not met. -/
theorem placed_ids (orderId : UInt64) (accountId : AccountId) (req : OrderRequest)
    (hwf : book.WF) (id : UInt64) :
    ((∃ o ∈ (book.placed orderId accountId req).orders, o.id = id) →
        id = orderId ∨ ∃ o ∈ book.orders, o.id = id) ∧
      ((∃ o ∈ book.orders, o.id = id) →
        (∃ o ∈ (book.placed orderId accountId req).orders, o.id = id) ∨
          id ∈ (book.fills orderId accountId req).map fun f => f.1.id) := by
  obtain ⟨used, others, hold, hnew, hused⟩ := placed_stamps book orderId accountId req hwf
  have hold := (hold.map Order.id).mem_iff (a := id)
  have hnew := (hnew.map Prod.fst).mem_iff (a := id)
  rw [List.map_append, List.mem_append] at hold
  rw [stamps_fst, stamps_fst, List.map_append, List.mem_append] at hnew
  simp only [← List.mem_map, hold, hnew]
  constructor
  · rintro (hrest | hin)
    · unfold OrderBook.resting at hrest
      split at hrest
      · rw [List.map_singleton, List.mem_singleton, taker_id] at hrest
        exact .inl hrest
      · cases hrest
    · exact .inr (.inr hin)
  · rintro (huse | hin)
    · obtain ⟨f, hf, hid, _⟩ := (hused id).mpr huse
      exact .inr (List.mem_map.mpr ⟨f, hf, hid⟩)
    · exact .inl (.inr hin)

end Placed

/-! ## An order is cancelled -/

/-- It takes one order out. -/
theorem removed_orders_perm {book : OrderBook} {side : Side} {price : UInt64}
    {pre post : List Order} {order : Order}
    (hqueue : (book.side side).get? price = some (pre ++ order :: post)) (id : UInt64) :
    book.orders.Perm (order :: (book.removed side price (pre ++ post) id).orders) := by
  refine (orders_perm book side).trans ?_
  refine ((putQueue_orders_perm hqueue).append_right _).trans ?_
  refine List.Perm.cons order ?_
  refine .trans ?_ (orders_perm _ side).symm
  rw [OrderBook.removed_side_self, OrderBook.removed_side_opposite]
  exact List.Perm.refl _

/-- **`cancel_order` keeps the index.** -/
theorem removed_indexed {book : OrderBook} (h : book.Indexed) {side : Side} {price : UInt64}
    {pre post : List Order} {order : Order}
    (hqueue : (book.side side).get? price = some (pre ++ order :: post)) :
    (book.removed side price (pre ++ post) order.id).Indexed ∧
      book.orders.Perm (order :: (book.removed side price (pre ++ post) order.id).orders) := by
  have hperm := removed_orders_perm hqueue order.id
  refine ⟨?_, hperm⟩
  have hnd := (hperm.map Order.id).nodup_iff.mp h.nodup
  rw [List.map_cons, List.nodup_cons] at hnd
  constructor
  case nodup => exact hnd.2
  case queues =>
    intro s l hl
    rcases side.eq_or_opposite s with rfl | rfl
    · rw [OrderBook.removed_side_self] at hl
      rcases mem_putQueue.mp hl with ⟨rfl, _⟩ | ⟨_, hl⟩
      · have hold := h.queues _ _ (SortedMap.get?_eq_some.mp hqueue)
        exact hold.sublist (List.Sublist.append_left (List.sublist_cons_self _ _) _)
      · exact h.queues _ l hl
    · rw [OrderBook.removed_side_opposite] at hl
      exact h.queues _ l hl
  case index =>
    intro id loc
    have hindex : (book.removed side price (pre ++ post) order.id).orderIndex
        = book.orderIndex.erase order.id := rfl
    rw [hindex, lookup_erase_ite]
    split
    · rename_i hid
      subst hid
      refine ⟨fun h => (nomatch h), fun hin => ?_⟩
      refine absurd ?_ hnd.1
      rw [← stamps_fst]
      exact List.mem_map.mpr ⟨_, hin, rfl⟩
    · rename_i hid
      rw [h.index, (hperm.map Order.stamp).mem_iff, List.map_cons, List.mem_cons]
      constructor
      · rintro (heq | hin)
        · exact absurd (congrArg Prod.fst heq) hid
        · exact hin
      · exact .inr

/-! ## The routing map -/

/-- Every book is indexed, ids are below the next one, and the routing map
has exactly the ids that rest, each with its market. -/
structure Engine.Indexed (e : Engine) : Prop where
  books : ∀ pair, (e.book pair).Indexed
  fresh : ∀ pair, ∀ o ∈ (e.book pair).orders, o.id < e.nextOrderId
  route : ∀ id pair, e.orderPair.lookup id = some pair ↔
    ∃ o ∈ (e.book pair).orders, o.id = id

theorem Engine.new_indexed (limits : Limits) : (Engine.new limits).Indexed where
  books _ := OrderBook.new_indexed
  fresh _ o ho := by cases ho
  route id pair := by
    constructor
    · intro h; cases h
    · rintro ⟨o, ho, _⟩; cases ho

/-- An id rests in one market. -/
theorem Engine.Indexed.pair_unique {e : Engine} (h : e.Indexed) {pair pair' : Pair}
    {o o' : Order} (ho : o ∈ (e.book pair).orders) (ho' : o' ∈ (e.book pair').orders)
    (hid : o.id = o'.id) : pair = pair' := by
  have hroute := (h.route o.id pair).mpr ⟨o, ho, rfl⟩
  have hroute' := (h.route o.id pair').mpr ⟨o', ho', hid.symm⟩
  rw [hroute] at hroute'
  exact Option.some.inj hroute'

theorem Engine.Indexed.of_books {e e' : Engine} (h : e.Indexed) (hbooks : e'.books = e.books)
    (hroute : e'.orderPair = e.orderPair) (hnext : e'.nextOrderId = e.nextOrderId) :
    e'.Indexed := by
  have hbook : ∀ pair, e'.book pair = e.book pair := by
    intro pair
    rw [Engine.book, hbooks]
    rfl
  constructor
  case books => intro pair; rw [hbook]; exact h.books pair
  case fresh => intro pair; rw [hbook, hnext]; exact h.fresh pair
  case route => intro id pair; rw [hbook, hroute]; exact h.route id pair

theorem routeOrder_lookup (m : HashMap UInt64 Pair) (book : OrderBook) (pair : Pair)
    (orderId : UInt64) (trades : List Trade) (id : UInt64) :
    (routeOrder m book pair orderId trades).lookup id
      = if id ∈ trades.map Trade.makerId ∧ id ∉ book.orderIndex then none
        else if orderId ∈ book.orderIndex ∧ id = orderId then some pair
        else m.lookup id := by
  unfold routeOrder
  dsimp only
  rw [lookup_foldl_erase]
  simp only [List.mem_filter, decide_eq_true_eq]
  split
  · rfl
  · by_cases hrested : orderId ∈ book.orderIndex
    · rw [if_pos hrested, lookup_insert_ite]
      simp only [hrested, true_and]
    · simp only [hrested, if_false, false_and]

theorem OrderBook.Indexed.mem_index {book : OrderBook} (h : book.Indexed) {id : UInt64} :
    id ∈ book.orderIndex ↔ ∃ o ∈ book.orders, o.id = id := by
  rw [← Finmap.lookup_isSome, Option.isSome_iff_ne_none, ne_eq, h.lookup_none]
  push Not
  rfl

/-- **The routing map after an order** still has what rests, when the new book
rests the new order or not, and of the others all but used up makers. -/
theorem routeOrder_routes {m : HashMap UInt64 Pair} {book : OrderBook} {pair : Pair}
    {orderId : UInt64} {trades : List Trade} {rests : Pair → UInt64 → Prop}
    (hm : ∀ id p, m.lookup id = some p ↔ rests p id) (hnew : ∀ p, ¬ rests p orderId)
    (hmaker : ∀ id ∈ trades.map Trade.makerId, rests pair id)
    (hkept : ∀ id, id ≠ orderId → id ∈ book.orderIndex → rests pair id)
    (hgone : ∀ id, rests pair id → id ∉ book.orderIndex → id ∈ trades.map Trade.makerId)
    (id : UInt64) (p : Pair) :
    (routeOrder m book pair orderId trades).lookup id = some p ↔
      if p = pair then id ∈ book.orderIndex else rests p id := by
  rw [routeOrder_lookup]
  by_cases hid : id = orderId
  · -- the new order
    subst hid
    rw [if_neg fun h => hnew pair (hmaker id h.1)]
    by_cases hrested : id ∈ book.orderIndex
    · simp [hrested, hnew p, eq_comm]
    · simp [hrested, hm, hnew p]
  · simp only [hid, and_false, if_false]
    split
    · -- a maker that was used up
      rename_i hused
      refine iff_of_false nofun fun hrests => ?_
      split at hrests
      · exact hused.2 hrests
      · rename_i hpair
        have hlookup := (hm id pair).mpr (hmaker id hused.1)
        rw [(hm id p).mpr hrests] at hlookup
        exact hpair (Option.some.inj hlookup)
    · rename_i hused
      rw [hm]
      split
      · rename_i hpair
        subst hpair
        refine ⟨fun hrests => ?_, hkept id hid⟩
        by_contra hout
        exact hused ⟨hgone id hrests hout, hout⟩
      · rfl

section Commands

variable {b : Build} {o : Drains} {e e' : Engine} {accountId : AccountId}

/-- An order gets the next id, and that one is used up. -/
theorem MatchTrace.nextOrderId_toNat {req : OrderRequest}
    (t : MatchTrace b o e accountId req)
    (hroom : b.Checks (e.nextOrderId.toNat + 1 < 2 ^ 64)) :
    t.nextOrderId.toNat = e.nextOrderId.toNat + 1 := Build.add_toNat t.numbered hroom

/-- **An order keeps the three accounts of what rests in step.** -/
theorem PlaceTrace.engine_indexed {req : OrderRequest} (t : PlaceTrace b o e accountId req)
    (hs : e.Shape) (h : e.Indexed) (hroom : b.Checks (e.nextOrderId.toNat + 1 < 2 ^ 64)) :
    t.engine.Indexed := by
  have hids := placed_ids e.nextOrderId accountId req (hs.wf req.pair)
  have hbook : t.book
      = ((e.book req.pair).placed e.nextOrderId accountId req).drained := (t.book_eq hs).1
  rw [← drained_orders, ← hbook] at hids
  have hindexed : t.book.Indexed := by
    have hplaced := placed_indexed accountId req (hs.wf _) (h.books req.pair) (h.fresh req.pair)
    rw [hbook]
    exact ⟨hplaced.queues, hplaced.nodup, hplaced.index⟩
  have hengine : ∀ pair, t.engine.book pair
      = if pair = req.pair then t.book else e.book pair := book_insert rfl
  constructor
  case books =>
    intro pair
    rw [hengine]
    split
    · exact hindexed
    · exact h.books pair
  case fresh =>
    intro pair o ho
    have hnext := t.nextOrderId_toNat hroom
    have hlt : ∀ id : UInt64, id ≤ e.nextOrderId → id < t.engine.nextOrderId := by
      intro id hid
      rw [UInt64.lt_iff_toNat_lt]
      rw [UInt64.le_iff_toNat_le] at hid
      show id.toNat < t.nextOrderId.toNat
      omega
    rw [hengine] at ho
    split at ho
    · rcases (hids o.id).1 ⟨o, ho, rfl⟩ with hid | ⟨m, hm, hid⟩
      · exact hlt _ hid.le
      · exact hlt _ (hid ▸ (h.fresh _ m hm).le)
    · exact hlt _ (h.fresh pair o ho).le
  case route =>
    intro id pair
    have hmakers : t.matchResult.trades.map Trade.makerId
        = ((e.book req.pair).fills e.nextOrderId accountId req).map fun f => f.1.id := by
      rw [t.trades_eq hs, List.map_map]
      rfl
    have hroute : t.engine.orderPair
        = routeOrder e.orderPair t.book req.pair e.nextOrderId t.matchResult.trades := rfl
    rw [hroute, routeOrder_routes h.route, hengine]
    · split
      · exact hindexed.mem_index
      · rfl
    · rintro p ⟨o, ho, hid⟩
      exact (h.fresh p o ho).ne hid
    · intro id hmaker
      rw [hmakers] at hmaker
      obtain ⟨f, hf, hid⟩ := List.mem_map.mp hmaker
      exact ⟨f.1, (mem_fills ((hs.wf _).side _) hf).2.2.2.2.2, hid⟩
    · intro id hid hin
      exact ((hids id).1 (hindexed.mem_index.mp hin)).resolve_left hid
    · intro id hold hout
      rw [hmakers]
      exact ((hids id).2 hold).resolve_left fun hin => hout (hindexed.mem_index.mpr hin)

/-- A cancel takes the one order it names out of its book. -/
theorem CancelTrace.removed_order {req : CancelRequest} (t : CancelTrace b o e accountId req)
    (h : e.Indexed) : t.order.id = req.orderId ∧ t.book.Indexed ∧
      (e.book t.pair).orders.Perm (t.order :: t.book.orders) := by
  obtain ⟨side, price, pre, post, _, hqueue, hid, hbook, _⟩ := t.book_eq
  rw [← hid] at hbook
  obtain ⟨hremoved, hperm⟩ := removed_indexed (h.books t.pair) hqueue
  rw [hbook]
  exact ⟨hid, ⟨hremoved.queues, hremoved.nodup, hremoved.index⟩, hperm⟩

/-- **A cancel keeps them in step.** -/
theorem CancelTrace.engine_indexed {req : CancelRequest} (t : CancelTrace b o e accountId req)
    (h : e.Indexed) : t.engine.Indexed := by
  obtain ⟨hid, hindexed, hperm⟩ := t.removed_order h
  have hgone : ∀ o ∈ t.book.orders, o.id ≠ req.orderId := by
    have hnd := (hperm.map Order.id).nodup_iff.mp (h.books t.pair).nodup
    rw [List.map_cons, List.nodup_cons] at hnd
    intro o ho hoid
    exact hnd.1 (List.mem_map.mpr ⟨o, ho, hoid.trans hid.symm⟩)
  have hengine : ∀ pair, t.engine.book pair
      = if pair = t.pair then t.book else e.book pair := book_insert rfl
  constructor
  case books =>
    intro pair
    rw [hengine]
    split
    · exact hindexed
    · exact h.books pair
  case fresh =>
    intro pair o ho
    rw [hengine] at ho
    split at ho
    · exact h.fresh t.pair o (hperm.mem_iff.mpr (List.mem_cons_of_mem _ ho))
    · exact h.fresh pair o ho
  case route =>
    intro id pair
    have hroute : t.engine.orderPair = e.orderPair.erase req.orderId := rfl
    rw [hroute, lookup_erase_ite, hengine]
    by_cases hcancelled : id = req.orderId
    · subst hcancelled
      rw [if_pos rfl]
      refine ⟨fun h => (nomatch h), fun hrests => ?_⟩
      by_cases hpair : pair = t.pair
      · rw [if_pos hpair] at hrests
        obtain ⟨o, ho, hoid⟩ := hrests
        exact absurd hoid (hgone o ho)
      · rw [if_neg hpair] at hrests
        obtain ⟨o, ho, hoid⟩ := hrests
        have horder := hperm.mem_iff.mpr List.mem_cons_self
        exact absurd (h.pair_unique ho horder (hoid.trans hid.symm)) hpair
    · rw [if_neg hcancelled, h.route]
      by_cases hpair : pair = t.pair
      · subst hpair
        rw [if_pos rfl]
        constructor
        · rintro ⟨o, ho, hoid⟩
          rcases List.mem_cons.mp (hperm.mem_iff.mp ho) with rfl | ho
          · exact absurd (hoid.symm.trans hid) hcancelled
          · exact ⟨o, ho, hoid⟩
        · rintro ⟨o, ho, hoid⟩
          exact ⟨o, hperm.mem_iff.mpr (List.mem_cons_of_mem _ ho), hoid⟩
      · rw [if_neg hpair]

/-! ## Every run -/

/-- Whether a command draws an order id. -/
def Command.isPlace : Command → Bool
  | .place _ => true
  | _ => false

/-- The number of `Place` commands of a run. -/
def places (h : List Record) : ℕ := h.countP fun r => r.command.isPlace

theorem places_snoc (h : List Record) (r : Record) :
    places (h ++ [r]) = places h + if r.command.isPlace = true then 1 else 0 := by
  rw [places, List.countP_append, List.countP_singleton]
  rfl

theorem dispatch_indexed {command : Command} {response : CommandResponse}
    {events : List Event} (hs : e.Shape) (hi : e.Indexed)
    (hroom : command.isPlace = true → b.Checks (e.nextOrderId.toNat + 1 < 2 ^ 64))
    (h : Engine.dispatch b o e accountId command = .ok (e', response, events)) :
    e'.Indexed ∧ e'.nextOrderId.toNat
      ≤ e.nextOrderId.toNat + if command.isPlace = true then 1 else 0 := by
  rcases dispatch_books h with ⟨hsame, _, _⟩ | ⟨req, rfl, t, rfl, _⟩ | ⟨req, rfl, t, _, rfl, _⟩
  · rw [hsame.nextOrderId]
    exact ⟨hi.of_books hsame.books hsame.orderPair hsame.nextOrderId, Nat.le_add_right _ _⟩
  · exact ⟨t.engine_indexed hs hi (hroom rfl), (t.nextOrderId_toNat (hroom rfl)).le⟩
  · exact ⟨t.engine_indexed hi, Nat.le_add_right _ _⟩

theorem apply_indexed {clientOrderId : UInt64} {command : Command}
    {response : CommandResponse} {batch : Option EventBatch} (hs : e.Shape) (hi : e.Indexed)
    (hroom : command.isPlace = true → b.Checks (e.nextOrderId.toNat + 1 < 2 ^ 64))
    (h : apply b o e accountId clientOrderId command = .ok (e', response, batch)) :
    e'.Indexed ∧ e'.nextOrderId.toNat
      ≤ e.nextOrderId.toNat + if command.isPlace = true then 1 else 0 := by
  rcases apply_ok h with ⟨rfl, _⟩ | ⟨dedup, e₁, events, bevs, _, hdispatch, _, hend⟩
  · exact ⟨hi, Nat.le_add_right _ _⟩
  · obtain ⟨hi₁, hnext⟩ := dispatch_indexed (e := { e with dedup := dedup })
      (hs.of_books rfl) (hi.of_books rfl rfl rfl) hroom hdispatch
    rcases hend with ⟨_, _, rfl⟩ | ⟨_, _, _, _, rfl⟩
    · exact ⟨hi₁.of_books rfl rfl rfl, hnext⟩
    · exact ⟨hi₁.of_books rfl rfl rfl, hnext⟩

end Commands

/-- **Every reachable engine is indexed** until the ids wrap. -/
theorem Reaches.indexed {b : Build} {limits : Limits} {h : List Record} {e : Engine}
    (hr : Reaches b limits h e) (hplaces : b.Checks (places h < 2 ^ 64)) :
    e.Indexed ∧ e.nextOrderId.toNat ≤ places h := by
  have hinv : e.Shape ∧ (b.Checks (places h < 2 ^ 64) →
      e.Indexed ∧ e.nextOrderId.toNat ≤ places h) := by
    refine hr.invariant (motive := fun h e => e.Shape ∧ (b.Checks (places h < 2 ^ 64) →
      e.Indexed ∧ e.nextOrderId.toNat ≤ places h))
      ⟨Engine.new_shape limits, fun _ => ⟨Engine.new_indexed limits, Nat.zero_le _⟩⟩ ?_
    intro h e o a cid cmd e' response batch ⟨hs, ih⟩ happly
    refine ⟨apply_shape hs happly, fun hplaces => ?_⟩
    rw [places_snoc] at hplaces ⊢
    dsimp only at hplaces ⊢
    obtain ⟨hi, hle⟩ := ih (hplaces.imp fun hlt => by omega)
    obtain ⟨hi', hle'⟩ := apply_indexed hs hi
      (fun hplace => hplaces.imp fun hlt => by rw [if_pos hplace] at hlt; omega) happly
    exact ⟨hi', by omega⟩
  exact hinv.2 hplaces

/-- **The representation invariant.** Every level is non-empty and holds limit
orders of its side and price that still want something, in the order of their
ids; ids are unique over all books and below the next one; each book's index
has exactly its orders, the routing map all of them; and no book is
crossed. -/
theorem books_consistent {b : Build} {limits : Limits} {h : List Record} {e : Engine}
    (hr : Reaches b limits h e) (hplaces : b.Checks (places h < 2 ^ 64)) :
    (∀ pair s, ∀ l ∈ ((e.book pair).side s).entries, l.2 ≠ [] ∧
      (∀ o ∈ l.2, o.orderType = .limit ∧ o.side = s ∧ o.price = l.1 ∧
        0 < o.remainingSize ∧ o.remainingSize ≤ o.size) ∧
      l.2.Pairwise fun o o' => o.id < o'.id) ∧
    (∀ pair, ((e.book pair).orders.map Order.id).Nodup ∧
      ∀ o ∈ (e.book pair).orders, o.id < e.nextOrderId) ∧
    (∀ pair pair', pair ≠ pair' → ∀ o ∈ (e.book pair).orders,
      ∀ o' ∈ (e.book pair').orders, o.id ≠ o'.id) ∧
    (∀ pair id loc, (e.book pair).orderIndex.lookup id = some loc ↔
      ∃ o ∈ (e.book pair).orders, o.id = id ∧
        loc = { owner := o.accountId, side := o.side, price := o.price }) ∧
    (∀ id pair, e.orderPair.lookup id = some pair ↔
      ∃ o ∈ (e.book pair).orders, o.id = id) ∧
    ∀ pair, ∀ bid ∈ (e.book pair).bids.entries, ∀ ask ∈ (e.book pair).asks.entries,
      bid.1 < ask.1 := by
  have hs := hr.shape
  have hi := (hr.indexed hplaces).1
  refine ⟨fun pair s l hl => ⟨((hs.wf pair).side s).nonempty l hl, fun o ho => ?_,
    (hi.books pair).queues s l hl⟩, fun pair => ⟨(hi.books pair).nodup, hi.fresh pair⟩,
    fun pair pair' hne o ho o' ho' hid => hne (hi.pair_unique ho ho' hid),
    fun pair id loc => ?_, hi.route, fun pair => (hs.wf pair).uncrossed⟩
  · have hrests := ((hs.wf pair).side s).rests l hl o ho
    exact ⟨hrests.limit, hrests.side, hrests.price, Order.units_pos.mp hrests.pos,
      hrests.sized⟩
  · rw [(hi.books pair).index, List.mem_map]
    simp only [Order.stamp, Order.location, Prod.mk.injEq, eq_comm]

/-- In the trading run a bid is left, and its id is below the next one. -/
theorem books_consistent_trading :
    ∃ o ∈ ((finish .default (runCalls .release .default tradingCalls)).1.book
      { base := .SOL, quote := .USD }).orders,
      o.id < (finish .default (runCalls .release .default tradingCalls)).1.nextOrderId := by
  obtain ⟨o, ho⟩ := List.exists_mem_of_length_pos
    (show 0 < ((finish .default (runCalls .release .default tradingCalls)).1.book
      { base := .SOL, quote := .USD }).orders.length by decide +kernel)
  exact ⟨o, ho, ((books_consistent (reaches_runCalls tradingCalls_returned)
    (.inr (by decide +kernel))).2.1 _).2 o ho⟩

/-! ## Ids that wrap -/

/-- An order of size 0. -/
def idleOrder (pair : Pair) : OrderRequest :=
  { pair := pair, orderType := .limit, side := .bid, price := 0, size := 0 }

/-- The engine `e₀`, after an account placed `n` orders of size 0. -/
structure Idles (e₀ : Engine) (a : AccountId) (n : ℕ) (e : Engine) : Prop where
  books : e.books = e₀.books
  nextOrderId : e.nextOrderId = e₀.nextOrderId + UInt64.ofNat n
  listedPairs : e.listedPairs = e₀.listedPairs
  seen : ∀ key ∈ e.dedup.seen, key ∈ e₀.dedup.seen ∨ (key.1 = a ∧ key.2.toNat < n)

section Idles

variable {h₀ : List Record} {e₀ : Engine} {pair : Pair} {a : AccountId}
  (hvalid : pair.isValid = true) (hlisted : pair ∈ e₀.listedPairs)
  (hbook : (e₀.books.lookup pair).isSome) (hfree : ∀ key ∈ e₀.dedup.seen, key.1 ≠ a)

include hvalid hlisted hbook hfree

/-- One more such order only uses up an id. -/
theorem Idles.step {n : ℕ} {h : List Record} {e : Engine} (hi : Idles e₀ a n e)
    (hr : Reaches .release .none h e) (hn : n < 2 ^ 64) :
    ∃ e' response batch, apply .release .sorted e a (UInt64.ofNat n) (.place (idleOrder pair))
      = .ok (e', response, batch) ∧ Idles e₀ a (n + 1) e' := by
  have hnew : (UInt64.ofNat n).toNat = n := UInt64.toNat_ofNat_of_lt' hn
  have hkey : (a, UInt64.ofNat n) ∉ e.dedup.seen := by
    intro hin
    rcases hi.seen _ hin with hold | ⟨_, hlt⟩
    · exact hfree _ hold rfl
    · rw [hnew] at hlt
      exact absurd hlt (lt_irrefl n)
  have hcheck : e.checkOrder a (idleOrder pair) = none :=
    checkOrder_unguarded hvalid (hi.listedPairs ▸ hlisted) (by rw [hr.limits_eq]; rfl)
      (by rw [hr.limits_eq]; rfl)
  have hquote : e.quoteAmount .release (idleOrder pair) = .ok (.ok 0) := by
    unfold Engine.quoteAmount
    rw [if_neg (by simp [idleOrder]), idleOrder, checkedMul_eq (by simp)]
    rfl
  obtain ⟨e', response, batch, happly, hbooks, hnext, hpairs, hseen⟩ :=
    apply_place_release (o := .sorted) hr.shape hr.dirtyHas hkey hcheck hquote (Nat.zero_le _)
  refine ⟨e', response, batch, happly, ?_, ?_, hpairs.trans hi.listedPairs, fun key hin => ?_⟩
  · -- the order leaves the book alone, and writing that back changes nothing
    have hlookup : e.books.lookup pair = some (e.book pair) := by
      obtain ⟨book, hbook⟩ := Option.isSome_iff_exists.mp hbook
      rw [Engine.book, hi.books, hbook]
      rfl
    rw [hbooks, placed_zero _ _ _ rfl, OrderBook.drained_of_clean (hr.shape.wf _).clean]
    exact (insert_lookup_self hlookup).trans hi.books
  · rw [hnext, hi.nextOrderId, UInt64.add_assoc, UInt64.ofNat_add n 1]
    rfl
  · rcases hseen key hin with rfl | hin
    · exact .inr ⟨rfl, by rw [hnew]; exact Nat.lt_succ_self n⟩
    · exact (hi.seen key hin).imp_right fun hkey => ⟨hkey.1, hkey.2.trans (Nat.lt_succ_self n)⟩

/-- **Any number of orders of size 0**, up to the wrap of the ids and beyond:
nothing is deposited, and each is an order of size 0 after some others. -/
theorem idles_run (hr₀ : Reaches .release .none h₀ e₀) (n : ℕ) (hn : n ≤ 2 ^ 64) :
    ∃ h e, Reaches .release .none (h₀ ++ h) e ∧ Idles e₀ a n e ∧ (∀ c, deposits h c = 0) ∧
      ∀ r ∈ h, ∃ h₁ e₁ e₂, ∃ i < n, Reaches .release .none h₁ e₁ ∧ Idles e₀ a i e₁ ∧
        apply .release .sorted e₁ r.accountId r.clientOrderId (.place (idleOrder pair))
          = .ok (e₂, r.response, r.batch) := by
  induction n with
  | zero =>
      have hnext : e₀.nextOrderId = e₀.nextOrderId + UInt64.ofNat 0 := by simp
      exact ⟨[], e₀, by rwa [List.append_nil], ⟨rfl, hnext, rfl, fun _ hkey => .inl hkey⟩,
        fun _ => rfl, fun _ hr => absurd hr List.not_mem_nil⟩
  | succ n ih =>
      obtain ⟨h, e, hr, hi, hdep, hall⟩ := ih (by omega)
      obtain ⟨e', response, batch, happly, hi'⟩ :=
        hi.step hvalid hlisted hbook hfree hr (by omega)
      let r : Record := ⟨a, UInt64.ofNat n, .place (idleOrder pair), response, batch⟩
      have hr' : Reaches .release .none (h₀ ++ (h ++ [r])) e' := by
        rw [← List.append_assoc]
        exact hr.snoc happly
      refine ⟨h ++ [r], e', hr', hi', fun c => ?_, fun r' hr'' => ?_⟩
      · rw [deposits_append, hdep]
        rfl
      · rcases List.mem_append.mp hr'' with hold | hnew
        · obtain ⟨h₁, e₁, e₂, i, hlt, hrun, hidles, happly'⟩ := hall r' hold
          exact ⟨h₁, e₁, e₂, i, hlt.trans (Nat.lt_succ_self n), hrun, hidles, happly'⟩
        · rw [List.mem_singleton.mp hnew]
          exact ⟨_, e, e', n, Nat.lt_succ_self n, hr, hi, happly⟩

end Idles

/-- A market, an order of size 0 (id 0), and a bid at price 0 that rests
(id 1). -/
def restedCalls : List (AccountId × UInt64 × Command) :=
  let market : Pair := { base := .SOL, quote := .USD }
  [(9, 0, .listPair market),
    (4, 0, limitOrder market .bid 0 0),
    (1, 0, limitOrder market .bid 0 1)]

/-- The engine after these. -/
def rested : Engine := (finish .none (runCalls .release .none restedCalls)).1

/-- The engine `rested`, after account 2 placed `n` orders of size 0. -/
structure Idle (n : ℕ) (e : Engine) : Prop where
  books : e.books = rested.books
  nextOrderId : e.nextOrderId = UInt64.ofNat (2 + n)
  listedPairs : e.listedPairs = rested.listedPairs
  seen : ∀ key ∈ e.dedup.seen, key.1 ≠ 3 ∧ (key.1 = 2 → key.2.toNat < n)

/-- Any number of them, up to the wrap and beyond: nothing is deposited. -/
theorem idle_run (n : ℕ) (hn : n ≤ 2 ^ 64) :
    ∃ h e, Reaches .release .none h e ∧ Idle n e ∧
      (finish .none (runCalls .release .none restedCalls)).2 <+: h ∧
      ∀ c, deposits h c = 0 := by
  let market : Pair := { base := .SOL, quote := .USD }
  have hr : Reaches .release .none
      (finish .none (runCalls .release .none restedCalls)).2 rested :=
    reaches_runCalls (by decide +kernel)
  have hseen : rested.dedup.seen = {(1, 0), (4, 0), (9, 0)} := by decide +kernel
  have hothers : ∀ key ∈ rested.dedup.seen, key.1 ≠ 2 ∧ key.1 ≠ 3 := by
    intro key hkey
    rw [hseen] at hkey
    simp only [Finset.mem_insert, Finset.mem_singleton] at hkey
    rcases hkey with rfl | rfl | rfl
    · exact ⟨show (1 : UInt64) ≠ 2 by decide, show (1 : UInt64) ≠ 3 by decide⟩
    · exact ⟨show (4 : UInt64) ≠ 2 by decide, show (4 : UInt64) ≠ 3 by decide⟩
    · exact ⟨show (9 : UInt64) ≠ 2 by decide, show (9 : UInt64) ≠ 3 by decide⟩
  obtain ⟨h, e, hr', hi, hdep, _⟩ := idles_run (show market.isValid = true by decide)
    (by decide +kernel) (by decide +kernel) (fun key hkey => (hothers key hkey).1) hr n hn
  have hnone : ∀ c, deposits (finish .none (runCalls .release .none restedCalls)).2 c = 0 :=
    fun c => by cases c <;> decide +kernel
  refine ⟨_, e, hr', ⟨hi.books, ?_, hi.listedPairs, fun key hkey => ?_⟩,
    List.prefix_append _ h, fun c => by rw [deposits_append, hdep, hnone]⟩
  · have hnext : rested.nextOrderId = UInt64.ofNat 2 := by decide +kernel
    rw [hi.nextOrderId, hnext, UInt64.ofNat_add]
  · rcases hi.seen key hkey with hold | ⟨htwo, hlt⟩
    · exact ⟨(hothers key hold).2, fun htwo => absurd htwo (hothers key hold).1⟩
    · exact ⟨htwo ▸ show (2 : UInt64) ≠ 3 by decide, fun _ => hlt⟩

/-- After `2 ^ 64` orders the next id is 0 again, and the bid with id 1 is not
below it. -/
theorem ids_wrap : ∃ h e, Reaches .release .none h e ∧
    ∃ pair, ∃ o ∈ (e.book pair).orders, ¬ o.id < e.nextOrderId := by
  obtain ⟨h, e, hr, hi, _⟩ := idle_run (2 ^ 64 - 2) (by omega)
  have hbook : ∀ pair, e.book pair = rested.book pair := by
    intro pair
    rw [Engine.book, hi.books]
    rfl
  have hnext : e.nextOrderId = 0 := hi.nextOrderId
  have horder : ∃ o ∈ (rested.book { base := .SOL, quote := .USD }).orders, o.id = 1 := by
    decide +kernel
  obtain ⟨o, ho, hid⟩ := horder
  refine ⟨h, e, hr, { base := .SOL, quote := .USD }, o, ?_, ?_⟩
  · rw [hbook]
    exact ho
  · rw [hid, hnext]
    decide

end MatchingEngine
