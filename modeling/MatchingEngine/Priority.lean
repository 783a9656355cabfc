import MatchingEngine.Index

/-!
# Priority: matching is price-time priority

The reference: list the opposite side's resting orders best price first and by
id within a price, keep those that cross, and fill them in that order until the
taker is exhausted. `add_order` agrees with it (`addOrder_priority`), trade by
trade and queue by queue.
-/

namespace MatchingEngine

open RustArith HashModel

/-! ## The reference -/

/-- The request trades at this price. -/
def OrderRequest.crosses (req : OrderRequest) (price : UInt64) : Bool :=
  match req.orderType, req.side with
  | .market, _ => true
  | .limit, .bid => price ≤ req.price
  | .limit, .ask => price ≥ req.price

/-- Whom a taker of side `s` meets first: the better price, then the lower
id. -/
def Side.Prior (s : Side) (x y : Order) : Prop :=
  s.Before x.price y.price ∨ (x.price = y.price ∧ x.id ≤ y.id)

instance (s : Side) : DecidableRel s.Prior := fun x y => by
  unfold Side.Prior Side.Before
  cases s <;> infer_instance

/-- The resting orders a request may trade with, in priority order. -/
def OrderBook.candidates (book : OrderBook) (req : OrderRequest) : List Order :=
  ((levelOrders (book.side req.side.opposite).entries).insertionSort req.side.Prior).filter
    fun maker => req.crosses maker.price

/-- Each maker gives what it has until the taker is exhausted. -/
def OrderBook.referenceFills (book : OrderBook) (req : OrderRequest) : List (Order × ℕ) :=
  Greedy.walk Order.units req.size.toNat (book.candidates req)

/-- What the fills leave of a resting order: nothing if they took all, else
the order less what they took. -/
def leftAfter (fs : List (Order × ℕ)) (o : Order) : Option Order :=
  Greedy.after Order.units Order.shrink Order.id fs o

/-- What `add_order` made of a request is what the reference says. -/
structure AgreesWithReference (book book' : OrderBook) (orderId : UInt64)
    (accountId : AccountId) (req : OrderRequest) (m : MatchResponse) : Prop where
  /-- the trades are the fills, in order, each at the maker's price -/
  trades : m.trades = (book.referenceFills req).map
    (fillTrade req.pair (req.toOrder orderId accountId))
  takerRemaining : m.takerRemaining.toNat
    = req.size.toNat - ((book.referenceFills req).map Prod.snd).sum
  /-- opposite queues lose what was filled, everything else keeps its place -/
  opposite : ∀ price, book'.queue req.side.opposite price
    = (book.queue req.side.opposite price).filterMap (leftAfter (book.referenceFills req))
  /-- a maker that was filled in part is the last one and heads its level -/
  partly : ∀ f ∈ book.referenceFills req, f.2 < f.1.units →
    (book.referenceFills req).getLast? = some f ∧
      (book'.queue req.side.opposite f.1.price).head? = some (f.1.shrink f.2)
  /-- the remainder of a limit order joins the back of its queue -/
  own : ∀ price, book'.queue req.side price = book.queue req.side price ++
    if price = req.price ∧ req.orderType = .limit ∧ 0 < m.takerRemaining then
      [{ req.toOrder orderId accountId with remainingSize := m.takerRemaining }]
    else []
  levels : ∀ s, ∀ l ∈ (book'.side s).entries, l.2 ≠ []
  lastTradePrice : book'.lastTradePrice
    = ((book.referenceFills req).getLast?.map fun f => f.1.price).or book.lastTradePrice

/-! ## Sorting by price and id is reading the levels -/

section Candidates

variable {book : OrderBook} {req : OrderRequest}

theorem crosses_toOrder (req : OrderRequest) (orderId : UInt64) (accountId : AccountId) :
    (req.toOrder orderId accountId).crosses = req.crosses := by
  funext price
  unfold Order.crosses OrderRequest.crosses OrderRequest.toOrder
  cases req.orderType <;> cases req.side <;> rfl

theorem Side.before_trans {s : Side} {p q r : UInt64} (h : s.Before p q) (h' : s.Before q r) :
    s.Before p r := by
  cases s with
  | bid => exact @lt_trans UInt64 _ _ _ _ h h'
  | ask => exact @lt_trans UInt64 _ _ _ _ h' h

theorem Side.before_irrefl {s : Side} {p : UInt64} : ¬ s.Before p p := by
  cases s <;> exact @lt_irrefl UInt64 _ p

theorem Side.before_total (s : Side) (p q : UInt64) : s.Before p q ∨ p = q ∨ s.Before q p := by
  cases s with
  | bid => exact lt_trichotomy p q
  | ask => exact (lt_trichotomy q p).imp_right (Or.imp_left Eq.symm)

instance (s : Side) : Std.Total s.Prior where
  total x y := by
    rcases s.before_total x.price y.price with h | h | h
    · exact .inl (.inl h)
    · exact (le_total x.id y.id).imp (fun hid => .inr ⟨h, hid⟩) fun hid => .inr ⟨h.symm, hid⟩
    · exact .inr (.inl h)

instance (s : Side) : IsTrans Order s.Prior where
  trans x y z hxy hyz := by
    rcases hxy with hxy | ⟨hxy, hid⟩
    · rcases hyz with hyz | ⟨hyz, _⟩
      · exact .inl (Side.before_trans hxy hyz)
      · exact .inl (hyz ▸ hxy)
    · rcases hyz with hyz | ⟨hyz, hid'⟩
      · exact .inl (hxy ▸ hyz)
      · exact .inr ⟨hxy.trans hyz, hid.trans hid'⟩

/-- Two orders each before the other have the same id. -/
theorem Side.Prior.id_eq {s : Side} {x y : Order} (hxy : s.Prior x y) (hyx : s.Prior y x) :
    x.id = y.id := by
  rcases hxy with hxy | ⟨hxy, hid⟩
  · rcases hyx with hyx | ⟨hyx, _⟩
    · exact absurd (Side.before_trans hxy hyx) Side.before_irrefl
    · exact absurd (hyx ▸ hxy) Side.before_irrefl
  · rcases hyx with hyx | ⟨_, hid'⟩
    · exact absurd (hxy ▸ hyx) Side.before_irrefl
    · exact le_antisymm hid hid'

/-- The orders of a side, best price first. -/
def OrderBook.inPriority (book : OrderBook) (s : Side) : List Order :=
  levelOrders (bestFirst s (book.side s.opposite))

theorem inPriority_perm (book : OrderBook) (s : Side) :
    (book.inPriority s).Perm (levelOrders (book.side s.opposite).entries) :=
  bestFirst_orders_perm s _

/-- Levels in price order, queues in id order: the whole side is in priority
order. -/
theorem inPriority_pairwise (hwf : book.WF) (hi : book.Indexed) (s : Side) :
    (book.inPriority s).Pairwise s.Prior := by
  have hprices : (bestFirst s (book.side s.opposite)).Pairwise fun x y => s.Before x.1 y.1 :=
    bestFirst_pairwise s _
  have hrests : ∀ l ∈ bestFirst s (book.side s.opposite), ∀ m ∈ l.2, m.price = l.1 :=
    fun l hl m hm => ((hwf.side _).rests l (mem_bestFirst.mp hl) m hm).price
  have hqueues : ∀ l ∈ bestFirst s (book.side s.opposite),
      l.2.Pairwise fun o o' => o.id < o'.id :=
    fun l hl => hi.queues _ l (mem_bestFirst.mp hl)
  unfold OrderBook.inPriority
  generalize bestFirst s (book.side s.opposite) = levels at *
  induction levels with
  | nil => exact List.Pairwise.nil
  | cons l levels ih =>
      have ⟨hfirst, hprices⟩ := List.pairwise_cons.mp hprices
      rw [levelOrders_cons, List.pairwise_append]
      refine ⟨?_, ih hprices (fun l hl => hrests l (List.mem_cons_of_mem _ hl))
        fun l hl => hqueues l (List.mem_cons_of_mem _ hl), ?_⟩
      · refine (hqueues l List.mem_cons_self).imp_of_mem fun hx hy hid => .inr ⟨?_, hid.le⟩
        rw [hrests l List.mem_cons_self _ hx, hrests l List.mem_cons_self _ hy]
      · intro x hx y hy
        obtain ⟨l', hl', hy⟩ := mem_levelOrders.mp hy
        refine .inl ?_
        rw [hrests l List.mem_cons_self x hx, hrests l' (List.mem_cons_of_mem _ hl') y hy]
        exact hfirst l' hl'

theorem inPriority_nodup (hi : book.Indexed) (s : Side) :
    ((book.inPriority s).map Order.id).Nodup := by
  have hall := ((orders_perm book s).map Order.id).nodup_iff.mp hi.nodup
  rw [List.map_append] at hall
  exact ((inPriority_perm book s).map Order.id).nodup_iff.mpr hall.of_append_right

theorem insertionSort_eq_inPriority (hwf : book.WF) (hi : book.Indexed) (s : Side) :
    (levelOrders (book.side s.opposite).entries).insertionSort s.Prior = book.inPriority s := by
  refine List.Perm.eq_of_pairwise (fun x y hx hy hxy hyx => ?_)
    (List.pairwise_insertionSort _ _) (inPriority_pairwise hwf hi s)
    ((List.perm_insertionSort _ _).trans (inPriority_perm book s).symm)
  have hx : x ∈ book.inPriority s :=
    (inPriority_perm book s).mem_iff.mpr ((List.mem_insertionSort _).mp hx)
  exact List.inj_on_of_nodup_map (inPriority_nodup hi s) hx hy (hxy.id_eq hyx)

/-- **The reference is what the loops reach.** -/
theorem candidates_eq (hwf : book.WF) (hi : book.Indexed) (req : OrderRequest) :
    book.candidates req
      = reach req.crosses (bestFirst req.side (book.side req.side.opposite)) := by
  have hreach := reach_eq_filter (req.toOrder 0 0) (book.side req.side.opposite)
  rw [crosses_toOrder] at hreach
  have hfilter : ∀ levels : List (UInt64 × List Order),
      (∀ l ∈ levels, ∀ m ∈ l.2, m.price = l.1) →
      (levelOrders levels).filter (fun m => req.crosses m.price)
        = levelOrders (levels.filter fun l => req.crosses l.1) := by
    intro levels hprice
    induction levels with
    | nil => rfl
    | cons l levels ih =>
        have ih := ih fun l hl => hprice l (List.mem_cons_of_mem _ hl)
        have hhead : l.2.filter (fun m => req.crosses m.price)
            = if req.crosses l.1 then l.2 else [] := by
          have hl := hprice l List.mem_cons_self
          split
          · rename_i hc
            exact List.filter_eq_self.mpr fun m hm => by rw [hl m hm]; exact hc
          · rename_i hc
            exact List.filter_eq_nil_iff.mpr fun m hm => by rw [hl m hm]; exact hc
        rw [levelOrders_cons, List.filter_append, ih, hhead, List.filter_cons]
        split <;> rfl
  unfold OrderBook.candidates
  rw [insertionSort_eq_inPriority hwf hi, OrderBook.inPriority, hfilter]
  · exact hreach.symm
  · exact fun l hl m hm => ((hwf.side _).rests l (mem_bestFirst.mp hl) m hm).price

theorem referenceFills_eq (hwf : book.WF) (hi : book.Indexed) (req : OrderRequest)
    (orderId : UInt64) (accountId : AccountId) :
    book.referenceFills req = book.fills orderId accountId req := by
  rw [OrderBook.referenceFills, candidates_eq hwf hi, OrderBook.fills_eq, crosses_toOrder]

end Candidates

/-! ## Queues are the side, filtered by price -/

section Queues

theorem filter_levelOrders_none {levels : List (UInt64 × List Order)} {p : UInt64}
    (hprice : ∀ l ∈ levels, ∀ m ∈ l.2, m.price = l.1) (hno : ∀ l ∈ levels, l.1 ≠ p) :
    (levelOrders levels).filter (fun m => m.price = p) = [] := by
  refine List.filter_eq_nil_iff.mpr fun m hm => ?_
  obtain ⟨l, hl, hm⟩ := mem_levelOrders.mp hm
  rw [hprice l hl m hm]
  simpa using hno l hl

theorem filter_levelOrders {levels : List (UInt64 × List Order)} {p : UInt64}
    {queue : List Order} (hprice : ∀ l ∈ levels, ∀ m ∈ l.2, m.price = l.1)
    (hkeys : levels.Pairwise fun x y => x.1 ≠ y.1) (h : (p, queue) ∈ levels) :
    (levelOrders levels).filter (fun m => m.price = p) = queue := by
  induction levels with
  | nil => cases h
  | cons l levels ih =>
      have ⟨hfirst, hkeys⟩ := List.pairwise_cons.mp hkeys
      have hprice' : ∀ l ∈ levels, ∀ m ∈ l.2, m.price = l.1 :=
        fun l hl => hprice l (List.mem_cons_of_mem _ hl)
      have hhead := hprice l List.mem_cons_self
      rw [levelOrders_cons, List.filter_append]
      rcases List.mem_cons.mp h with rfl | h
      · rw [filter_levelOrders_none hprice' fun l' hl' => (hfirst l' hl').symm,
          List.append_nil]
        exact List.filter_eq_self.mpr fun m hm => by simpa using hhead m hm
      · have hnone : l.2.filter (fun m => m.price = p) = [] :=
          List.filter_eq_nil_iff.mpr fun m hm => by
            rw [hhead m hm]
            simpa using hfirst _ h
        rw [hnone, List.nil_append]
        exact ih hprice' hkeys h

/-- A queue is the part of its side that stands at its price. -/
theorem getD_eq_filter {s' : Side} {levels : Levels} (h : SideWF s' levels) (s : Side)
    (price : UInt64) : (levels.get? price).getD []
      = (levelOrders (bestFirst s levels)).filter fun m => m.price = price := by
  have hprice : ∀ l ∈ bestFirst s levels, ∀ m ∈ l.2, m.price = l.1 :=
    fun l hl m hm => (h.rests l (mem_bestFirst.mp hl) m hm).price
  have hkeys : (bestFirst s levels).Pairwise fun x y => x.1 ≠ y.1 := by
    refine (bestFirst_pairwise s levels).imp fun {x y} hbefore heq => ?_
    rw [heq] at hbefore
    exact Side.before_irrefl hbefore
  cases hget : levels.get? price with
  | none =>
      refine (filter_levelOrders_none hprice fun l hl heq => ?_).symm
      exact SortedMap.get?_eq_none.mp hget l.2 (heq ▸ mem_bestFirst.mp hl)
  | some queue =>
      exact (filter_levelOrders hprice hkeys
        (mem_bestFirst.mpr (SortedMap.get?_eq_some.mp hget))).symm

theorem leftAfter_price {fs : List (Order × ℕ)} {o o' : Order} (h : leftAfter fs o = some o') :
    o'.price = o.price := by
  unfold leftAfter Greedy.after at h
  split at h
  · cases h
  · cases h
    rfl

theorem shrink_zero (o : Order) : o.shrink 0 = o := by
  have hzero : o.remainingSize - UInt64.ofNat 0 = o.remainingSize := UInt64.sub_zero _
  rw [Order.shrink, hzero]

/-- Taking from the orders and looking at one price commute. -/
theorem filter_filterMap_leftAfter (fs : List (Order × ℕ)) (price : UInt64)
    (os : List Order) :
    (os.filterMap (leftAfter fs)).filter (fun m => m.price = price)
      = (os.filter fun m => m.price = price).filterMap (leftAfter fs) := by
  induction os with
  | nil => rfl
  | cons o os ih =>
      cases hleft : leftAfter fs o with
      | none =>
          rw [List.filterMap_cons_none hleft, ih, List.filter_cons]
          split
          · rw [List.filterMap_cons_none hleft]
          · rfl
      | some o' =>
          rw [List.filterMap_cons_some hleft, List.filter_cons, List.filter_cons,
            leftAfter_price hleft, ih]
          split
          · rw [List.filterMap_cons_some hleft]
          · rfl

end Queues

/-! ## The placed book -/

section Placed

variable {book : OrderBook} {orderId : UInt64} {accountId : AccountId} {req : OrderRequest}

theorem swept_inPriority : levelOrders (bestFirst req.side (book.swept orderId accountId req))
    = Greedy.rest Order.units Order.shrink req.size.toNat
        (reach req.crosses (bestFirst req.side (book.side req.side.opposite)))
      ++ levelOrders (beyond req.crosses (bestFirst req.side (book.side req.side.opposite))) := by
  rw [OrderBook.swept, bestFirst_sweepSide, sweep_orders, crosses_toOrder]

theorem inPriority_split (book : OrderBook) (req : OrderRequest) : book.inPriority req.side
    = reach req.crosses (bestFirst req.side (book.side req.side.opposite))
      ++ levelOrders (beyond req.crosses (bestFirst req.side (book.side req.side.opposite))) :=
  (reach_append_beyond _ _).symm

variable (hwf : book.WF) (hi : book.Indexed)

include hwf hi

/-- **The opposite side afterwards**, order by order. -/
theorem swept_eq_filterMap :
    levelOrders (bestFirst req.side (book.swept orderId accountId req))
      = (book.inPriority req.side).filterMap (leftAfter (book.referenceFills req)) := by
  have hpos : ∀ m ∈ book.inPriority req.side, 0 < m.units := by
    intro m hm
    obtain ⟨l, hl, hm⟩ := mem_levelOrders.mp hm
    exact (hwf.side _).units_pos _ l hl m hm
  have hnd := inPriority_nodup hi req.side
  have hfills : book.referenceFills req = Greedy.walk Order.units req.size.toNat
      (reach req.crosses (bestFirst req.side (book.side req.side.opposite))) := by
    rw [OrderBook.referenceFills, candidates_eq hwf hi]
  rw [inPriority_split] at hnd hpos ⊢
  rw [List.map_append] at hnd
  have hbeyond : ∀ f ∈ book.referenceFills req, ∀ m ∈ levelOrders
      (beyond req.crosses (bestFirst req.side (book.side req.side.opposite))),
      f.1.id ≠ m.id := by
    intro f hf m hm heq
    rw [hfills] at hf
    exact List.disjoint_of_nodup_append hnd
      (List.mem_map.mpr ⟨f.1, (Greedy.mem_walk Order.units hf).1, rfl⟩)
      (heq ▸ List.mem_map.mpr ⟨m, hm, rfl⟩)
  have htail := Greedy.filterMap_after_of_not_filled Order.units Order.shrink Order.id
    shrink_zero (fun m hm => hpos m (List.mem_append_right _ hm)) hbeyond
  have hhead := Greedy.rest_eq_filterMap Order.units Order.shrink Order.id shrink_zero
    (r := req.size.toNat) (fun m hm => hpos m (List.mem_append_left _ hm)) hnd.of_append_left
  rw [← hfills] at hhead
  rw [swept_inPriority, List.filterMap_append, hhead]
  exact congrArg _ htail.symm

/-- **Price-time priority**: the placed book and the answer are what the
reference says. -/
theorem placed_agrees (orderId : UInt64) (accountId : AccountId) (req : OrderRequest)
    (deltas : List LevelDelta) :
    AgreesWithReference book (book.placed orderId accountId req).drained orderId accountId req
      (book.response orderId accountId req deltas) := by
  have hfills := referenceFills_eq hwf hi req orderId accountId
  have hopposite : (book.placed orderId accountId req).drained.side req.side.opposite
      = book.swept orderId accountId req := by
    rw [OrderBook.drained_side, placed_opposite]
  have hown : (book.placed orderId accountId req).drained.side req.side
      = book.joined orderId accountId req := by
    rw [OrderBook.drained_side, placed_own]
  have hswept : SideWF req.side.opposite (book.swept orderId accountId req) :=
    (hwf.side _).sweep _ _
  have hqueue : ∀ price,
      (book.placed orderId accountId req).drained.queue req.side.opposite price
        = (levelOrders (bestFirst req.side (book.swept orderId accountId req))).filter
            fun m => m.price = price := by
    intro price
    rw [OrderBook.queue, hopposite]
    exact getD_eq_filter hswept req.side price
  constructor
  case trades => rw [hfills]; rfl
  case takerRemaining =>
    have hsum := fills_sum book orderId accountId req
    have hrem : (book.response orderId accountId req deltas).takerRemaining.toNat
        = (book.taker orderId accountId req).units := rfl
    rw [hfills, hrem]
    omega
  case opposite =>
    intro price
    rw [hqueue, swept_eq_filterMap hwf hi, filter_filterMap_leftAfter]
    congr 1
    exact (getD_eq_filter (hwf.side _) req.side price).symm
  case partly =>
    intro f hf hlt
    have hpos : ∀ m ∈ book.candidates req, 0 < m.units := by
      intro m hm
      rw [candidates_eq hwf hi] at hm
      obtain ⟨l, hl, _, hm⟩ := mem_reach hm
      exact (hwf.side _).units_pos _ l hl m hm
    obtain ⟨used, left, hsplit, ⟨hwalk, _⟩ | ⟨m, ms, q, hleft, _, hq, hwalk, hrest⟩⟩ :=
      Greedy.walk_rest_shape Order.units Order.shrink (r := req.size.toNat) hpos
    · -- every maker was used up
      rw [OrderBook.referenceFills, hwalk] at hf
      obtain ⟨m, _, rfl⟩ := List.mem_map.mp hf
      exact absurd hlt (lt_irrefl _)
    · have heq : f = (m, q) := by
        rw [OrderBook.referenceFills, hwalk] at hf
        rcases List.mem_append.mp hf with hf | hf
        · obtain ⟨m', _, rfl⟩ := List.mem_map.mp hf
          exact absurd hlt (lt_irrefl _)
        · exact List.mem_singleton.mp hf
      subst heq
      refine ⟨by rw [OrderBook.referenceFills, hwalk, List.getLast?_concat], ?_⟩
      rw [hqueue, swept_inPriority, ← candidates_eq hwf hi, hrest, List.cons_append,
        List.filter_cons_of_pos (by simp [Order.shrink]), List.head?_cons]
  case own =>
    intro price
    obtain ⟨rem, htaker⟩ := taker_eq book orderId accountId req
    have hrem : (book.response orderId accountId req deltas).takerRemaining = rem :=
      congrArg Order.remainingSize htaker
    have hstays : book.Stays orderId accountId req ↔ req.orderType = .limit ∧ 0 < rem := by
      rw [OrderBook.Stays, Order.units_pos, htaker]
    rw [OrderBook.queue, hown, OrderBook.joined, hrem, OrderBook.queue]
    by_cases hstay : book.Stays orderId accountId req
    · rw [if_pos hstay, SortedMap.get?_insert, htaker]
      by_cases hprice : price = req.price
      · subst hprice
        rw [if_pos rfl, if_pos ⟨rfl, hstays.mp hstay⟩, Option.getD_some]
      · rw [if_neg hprice, if_neg fun h => hprice h.1, List.append_nil]
    · rw [if_neg hstay, if_neg fun h => hstay (hstays.mpr h.2), List.append_nil]
  case levels =>
    intro s l hl
    rcases req.side.eq_or_opposite s with rfl | rfl
    · rw [hown] at hl
      rcases mem_joined hl with hl | ⟨_, _, hq⟩
      · exact (hwf.side _).nonempty l hl
      · rw [hq]
        exact List.append_ne_nil_of_right_ne_nil _ (List.cons_ne_nil _ _)
    · rw [hopposite] at hl
      exact hswept.nonempty l hl
  case lastTradePrice =>
    have hmatched : (book.matchedBook orderId accountId req).lastTradePrice
        = ((book.fills orderId accountId req).getLast?.map fun f => f.1.price).or
            book.lastTradePrice :=
      (OrderBook.setSide_lastTradePrice _ _ _).trans
        (recordAll_lastTradePrice req.pair _ (book.start orderId accountId req))
    rw [hfills, ← hmatched]
    change (book.placed orderId accountId req).lastTradePrice = _
    by_cases hstay : book.Stays orderId accountId req
    · rw [placed_eq_of_stays _ _ _ _ hstay]
      exact OrderBook.setSide_lastTradePrice _ _ _
    · rw [placed_eq_of_not_stays _ _ _ _ hstay]

end Placed

/-- **Matching is price-time priority** in every reachable book, for every
request: what `add_order` returns is what the reference says, and it does
return, unless a debug build finds the aggregate of a level past a word. -/
theorem addOrder_priority {b : Build} {limits : Limits} {h : List Record} {e : Engine}
    (hr : Reaches b limits h e) (hplaces : b.Checks (places h < 2 ^ 64)) (pair : Pair)
    (orderId : UInt64) (accountId : AccountId) (req : OrderRequest)
    (o : DrainOrder (Side × UInt64)) :
    (∀ book' m, (e.book pair).addOrder b o orderId accountId req = .ok (book', m) →
      AgreesWithReference (e.book pair) book' orderId accountId req m) ∧
    (b.Room ((e.book pair).placed orderId accountId req).LevelsFit →
      ∃ r, (e.book pair).addOrder b o orderId accountId req = .ok r) := by
  have hwf := hr.shape.wf pair
  have hi := (hr.indexed hplaces).1.books pair
  refine ⟨fun book' m hadd => ?_, fun hfit => addOrder_returns (hwf.side _) hfit o⟩
  rw [addOrder_eq b o fun l hl m hm => ((hwf.side _).rests l hl m hm).sized] at hadd
  obtain ⟨⟨drained, deltas⟩, hdrain, heq⟩ := bind_ok.mp hadd
  cases heq
  obtain ⟨hbook, _⟩ := takeDirtyLevels_ok hdrain
  rw [hbook]
  exact placed_agrees hwf hi orderId accountId req deltas

/-- In the trading run a market sell of 3 would fill the one unit left at
11. -/
theorem addOrder_priority_trading :
    ∃ book' m, ((finish .default (runCalls .release .default tradingCalls)).1.book
        { base := .SOL, quote := .USD }).addOrder .release Drains.sorted.levels 9 1
          { pair := { base := .SOL, quote := .USD }, orderType := .market, side := .ask,
            price := 0, size := 3 } = .ok (book', m) ∧
      m.trades.map (fun t => (t.makerId, t.price, t.qty)) = [(1, 11, 1)] := by
  have hboth := addOrder_priority (reaches_runCalls tradingCalls_returned)
    (.inr (by decide +kernel)) { base := .SOL, quote := .USD } 9 1
    { pair := { base := .SOL, quote := .USD }, orderType := .market, side := .ask,
      price := 0, size := 3 } Drains.sorted.levels
  obtain ⟨⟨book', m⟩, hadd⟩ := hboth.2 (.inl rfl)
  refine ⟨book', m, hadd, ?_⟩
  rw [(hboth.1 book' m hadd).trades]
  decide +kernel

/-- A bid for one unit at price 0. -/
def freeBid : OrderRequest where
  pair := { base := .SOL, quote := .USD }
  orderType := .limit
  side := .bid
  price := 0
  size := 1

/-- After the ids have wrapped, such a bid of account 3 gets the id 0 a second
time. -/
theorem wrapped_run : ∃ h e, Reaches .release .none h e ∧
    e.book freeBid.pair = ((rested.book freeBid.pair).placed 0 3 freeBid).drained ∧
    (finish .none (runCalls .release .none restedCalls)).2 <+: h ∧
    ∀ c, deposits h c = 0 := by
  obtain ⟨h, e, hr, hi, hbegins, hdep⟩ := idle_run (2 ^ 64 - 2) (by omega)
  have hnext : e.nextOrderId = 0 := hi.nextOrderId
  have hbook : e.book freeBid.pair = rested.book freeBid.pair := by
    rw [Engine.book, hi.books]
    rfl
  have hlisted : freeBid.pair ∈ e.listedPairs := by
    rw [hi.listedPairs]
    decide +kernel
  have hcheck : e.checkOrder 3 freeBid = none :=
    checkOrder_unguarded (by decide) hlisted (by rw [hr.limits_eq]; rfl)
      (by rw [hr.limits_eq]; rfl)
  have hquote : e.quoteAmount .release freeBid = .ok (.ok 0) := by
    unfold Engine.quoteAmount
    rw [if_neg (by decide), checkedMul_eq (by decide)]
    rfl
  have hkey : ((3 : UInt64), (0 : UInt64)) ∉ e.dedup.seen := fun hin => (hi.seen _ hin).1 rfl
  obtain ⟨e', response, batch, happly, hbooks, _⟩ :=
    apply_place_release (o := .sorted) hr.shape hr.dirtyHas hkey hcheck hquote (Nat.zero_le _)
  refine ⟨_, e', hr.snoc happly, ?_, hbegins.trans (List.prefix_append h _), fun c => ?_⟩
  · rw [book_insert hbooks, if_pos rfl, hbook, hnext]
  · rw [deposits_append, hdep]
    rfl

/-- After the ids have wrapped, a bid that arrives later gets the lower id: an
ask fills the older bid, the reference the one with the lower id. -/
theorem wrapped_not_priority : ∃ h e, Reaches .release .none h e ∧
    ∃ pair req book' m,
      (e.book pair).addOrder .release Drains.sorted.levels 1 5 req = .ok (book', m) ∧
      ¬ AgreesWithReference (e.book pair) book' 1 5 req m := by
  let ask : OrderRequest :=
    { pair := { base := .SOL, quote := .USD }, orderType := .market, side := .ask,
      price := 0, size := 1 }
  obtain ⟨h, e, hr, hbook, _⟩ := wrapped_run
  obtain ⟨⟨book', m⟩, hadd, hm⟩ := okWith_iff.mp
    (show okWith (((rested.book freeBid.pair).placed 0 3 freeBid).drained.addOrder .release
      Drains.sorted.levels 1 5 ask) (fun r => r.2.trades.map Trade.makerId = [1]) = true by
        decide +kernel)
  refine ⟨h, e, hr, freeBid.pair, ask, book', m, ?_, fun hagrees => ?_⟩
  · rw [hbook]
    exact hadd
  · have hreference : (((rested.book freeBid.pair).placed 0 3 freeBid).drained.referenceFills
        ask).map (fun f => f.1.id) = [0] := by decide +kernel
    have htrades := congrArg (List.map Trade.makerId) hagrees.trades
    rw [hbook, of_decide_eq_true hm, List.map_map] at htrades
    have hzero : [(1 : UInt64)] = [0] := htrades.trans hreference
    exact absurd hzero (by decide)

end MatchingEngine
