import MatchingEngine.Sweep

/-!
# BookInvariant: what every reachable book looks like

`OrderBook.WF` is kept by `add_order` and by `cancel_order`, in either build
and whatever the ids are: levels are non-empty, the orders in a level are
limit orders of its side and price with something left, no level is dirty
between commands, and the two sides do not cross.
-/

namespace MatchingEngine

open RustArith HashModel

/-- The order may stand in the queue at `price` on side `s`. -/
structure Order.Rests (s : Side) (price : UInt64) (o : Order) : Prop where
  limit : o.orderType = .limit
  side : o.side = s
  price : o.price = price
  pos : 0 < o.units
  sized : o.Sized
  /-- what `place_order` checked of it -/
  value : o.price.toNat * o.size.toNat < 2 ^ 64

/-- One side of a book in good shape. -/
structure SideWF (s : Side) (levels : Levels) : Prop where
  rests : ∀ l ∈ levels.entries, ∀ m ∈ l.2, m.Rests s l.1
  nonempty : ∀ l ∈ levels.entries, l.2 ≠ []

/-- What every book a run reaches has, between two commands: well-formed sides that do
not cross, and no level marked as changed. -/
structure OrderBook.WF (book : OrderBook) : Prop where
  side : ∀ s, SideWF s (book.side s)
  clean : book.dirtyLevels = ∅
  uncrossed : ∀ bid ∈ book.bids.entries, ∀ ask ∈ book.asks.entries, bid.1 < ask.1

theorem OrderBook.new_wf : OrderBook.new.WF where
  side s := by
    cases s <;> exact ⟨(fun _ h => nomatch h), (fun _ h => nomatch h)⟩
  clean := rfl
  uncrossed := fun _ h => nomatch h

theorem Order.Rests.shrink {s : Side} {p : UInt64} {o : Order} (h : o.Rests s p) {q : ℕ}
    (hq : q < o.units) : (o.shrink q).Rests s p where
  limit := h.limit
  side := h.side
  price := h.price
  pos := by rw [Order.units_shrink hq.le]; omega
  sized := shrink_remaining_le h.sized hq.le
  value := h.value

/-- The book after its dirty levels were taken. -/
def OrderBook.drained (book : OrderBook) : OrderBook := { book with dirtyLevels := ∅ }

@[simp] theorem OrderBook.drained_side (book : OrderBook) (s : Side) :
    book.drained.side s = book.side s := by
  cases s <;> rfl

/-! ## The swept side -/

theorem SideWF.sweep {s : Side} {levels : Levels} (h : SideWF s.opposite levels)
    (crosses : UInt64 → Bool) (r : ℕ) :
    SideWF s.opposite (sweepSide s crosses r levels) := by
  have hold : ∀ l ∈ (sweepSide s crosses r levels).entries,
      l ∈ levels.entries ∨ ∃ old r', (l.1, old) ∈ levels.entries ∧ l.2 ≠ [] ∧
        crosses l.1 = true ∧ 0 < r' ∧
        l.2 = Greedy.rest Order.units Order.shrink r' old := by
    intro l hl
    rw [← mem_bestFirst (s := s), bestFirst_sweepSide] at hl
    rcases mem_sweep hl with hl | ⟨old, r', hold, hrest⟩
    · exact .inl (mem_bestFirst.mp hl)
    · exact .inr ⟨old, r', mem_bestFirst.mp hold, hrest⟩
  constructor
  · intro l hl m hm
    rcases hold l hl with hl | ⟨old, r', hold, _, _, _, hq⟩
    · exact h.rests l hl m hm
    · rw [hq] at hm
      rcases Greedy.mem_rest Order.units Order.shrink hm with hm | ⟨m', hm', q, _, hq, rfl⟩
      · exact h.rests _ hold m hm
      · exact (h.rests _ hold m' hm').shrink hq
  · intro l hl
    rcases hold l hl with hl | ⟨_, _, _, hne, _⟩
    · exact h.nonempty l hl
    · exact hne

/-- A price left on the swept side was there before. -/
theorem key_of_sweepSide {s : Side} {crosses : UInt64 → Bool} {r : ℕ} {levels : Levels}
    {l : UInt64 × List Order} (h : l ∈ (sweepSide s crosses r levels).entries) :
    ∃ queue, (l.1, queue) ∈ levels.entries := by
  rw [← mem_bestFirst (s := s), bestFirst_sweepSide] at h
  rcases mem_sweep h with hl | ⟨old, _, hold, _⟩
  · exact ⟨l.2, mem_bestFirst.mp hl⟩
  · exact ⟨old, mem_bestFirst.mp hold⟩

theorem SideWF.units_pos {s : Side} {levels : Levels} (h : SideWF s levels) (s' : Side) :
    ∀ l ∈ bestFirst s' levels, ∀ m ∈ l.2, 0 < m.units :=
  fun l hl m hm => (h.rests l (mem_bestFirst.mp hl) m hm).pos

/-- **No crossing is left** once an order has matched and still wants more. -/
theorem not_crosses_of_left {o : Order} {levels : Levels} (h : SideWF o.side.opposite levels)
    (hleft : Greedy.total Order.units (reach o.crosses (bestFirst o.side levels)) < o.units)
    {l : UInt64 × List Order}
    (hl : l ∈ (sweepSide o.side o.crosses o.units levels).entries) :
    o.crosses l.1 = false := by
  rw [← mem_bestFirst (s := o.side), bestFirst_sweepSide,
    sweep_of_total_le (h.units_pos _) (fun l hl => h.nonempty l (mem_bestFirst.mp hl))
      hleft.le] at hl
  exact not_crosses_of_beyond hl

/-! ## The parts of the placed book -/

section Placed

variable (book : OrderBook) (orderId : UInt64) (accountId : AccountId) (req : OrderRequest)

/-- Whether the incoming order stays in the book. -/
def OrderBook.Stays : Prop :=
  req.orderType = .limit ∧ 0 < (book.taker orderId accountId req).units

instance : Decidable (book.Stays orderId accountId req) := by
  unfold OrderBook.Stays; infer_instance

theorem taker_side : (book.taker orderId accountId req).side = req.side := by
  obtain ⟨rem, h⟩ := taker_eq book orderId accountId req
  rw [h]; rfl

theorem taker_orderType : (book.taker orderId accountId req).orderType = req.orderType := by
  obtain ⟨rem, h⟩ := taker_eq book orderId accountId req
  rw [h]; rfl

theorem taker_price : (book.taker orderId accountId req).price = req.price := by
  obtain ⟨rem, h⟩ := taker_eq book orderId accountId req
  rw [h]; rfl

/-- The opposite side after matching. -/
def OrderBook.swept : Levels :=
  sweepSide req.side (req.toOrder orderId accountId).crosses req.size.toNat
    (book.side req.side.opposite)

/-- The book after matching, before the incoming order rests. -/
def OrderBook.matchedBook : OrderBook :=
  ((book.start orderId accountId req).matched req.pair).book

theorem matchedBook_opposite :
    (book.matchedBook orderId accountId req).side req.side.opposite
      = book.swept orderId accountId req :=
  OrderBook.side_setSide _ _ _

theorem matchedBook_own :
    (book.matchedBook orderId accountId req).side req.side = book.side req.side := by
  have hother : ∀ (k : OrderBook) (s : Side) (lv : Levels),
      (k.setSide s.opposite lv).side s = k.side s := by
    intro k s lv; cases s <;> rfl
  exact (hother _ req.side _).trans
    (recordAll_side req.pair req.side _ (book.start orderId accountId req))

/-- The side of the incoming order, after it came to rest or did not. -/
def OrderBook.joined : Levels :=
  if book.Stays orderId accountId req then
    (book.side req.side).insert req.price
      (((book.side req.side).get? req.price).getD []
        ++ [book.taker orderId accountId req])
  else book.side req.side

theorem placed_eq_of_stays (h : book.Stays orderId accountId req) :
    book.placed orderId accountId req
      = { (book.matchedBook orderId accountId req).setSide req.side
            (book.joined orderId accountId req) with
          dirtyLevels := insert (req.side, req.price)
            (book.matchedBook orderId accountId req).dirtyLevels
          orderIndex := (book.matchedBook orderId accountId req).orderIndex.insert orderId
            { owner := accountId, side := req.side, price := req.price } } := by
  have hpos := Order.units_pos.mp h.2
  have hown := matchedBook_own book orderId accountId req
  unfold OrderBook.placed
  change OrderBook.indexTaker ((book.matchedBook orderId accountId req).rest _) _ _ = _
  rw [OrderBook.rest, if_pos hpos, taker_orderType, h.1]
  simp only [taker_side, taker_price, hown, OrderBook.indexTaker, taker_orderType, h.1,
    hpos, and_self, if_true, OrderBook.joined, h, taker_id]
  cases req.side <;> rfl

theorem placed_eq_of_not_stays (h : ¬ book.Stays orderId accountId req) :
    book.placed orderId accountId req = book.matchedBook orderId accountId req := by
  have hidx : ¬ ((book.taker orderId accountId req).orderType = .limit
      ∧ 0 < (book.taker orderId accountId req).remainingSize) := by
    rw [taker_orderType, ← Order.units_pos]
    exact h
  unfold OrderBook.placed
  change OrderBook.indexTaker ((book.matchedBook orderId accountId req).rest _) _ _ = _
  rw [OrderBook.indexTaker, if_neg hidx, OrderBook.rest]
  split
  · rename_i hpos
    split
    · rename_i hlim
      exact absurd ⟨hlim, hpos⟩ hidx
    · rfl
  · rfl

theorem placed_own : (book.placed orderId accountId req).side req.side
    = book.joined orderId accountId req := by
  by_cases h : book.Stays orderId accountId req
  · rw [placed_eq_of_stays _ _ _ _ h]
    cases req.side <;> rfl
  · rw [placed_eq_of_not_stays _ _ _ _ h, matchedBook_own, OrderBook.joined, if_neg h]

theorem placed_opposite : (book.placed orderId accountId req).side req.side.opposite
    = book.swept orderId accountId req := by
  rw [← matchedBook_opposite]
  by_cases h : book.Stays orderId accountId req
  · rw [placed_eq_of_stays _ _ _ _ h]
    cases req.side <;> rfl
  · rw [placed_eq_of_not_stays _ _ _ _ h]

end Placed

/-! ## `add_order` keeps the shape -/

section AddOrder

variable {book : OrderBook} {orderId : UInt64} {accountId : AccountId} {req : OrderRequest}

theorem taker_rests (hstay : book.Stays orderId accountId req)
    (hvalue : req.price.toNat * req.size.toNat < 2 ^ 64) :
    (book.taker orderId accountId req).Rests req.side req.price where
  limit := (taker_orderType ..).trans hstay.1
  side := taker_side ..
  price := taker_price ..
  pos := hstay.2
  sized := taker_sized
  value := by
    obtain ⟨rem, h⟩ := taker_eq book orderId accountId req
    rw [h]; exact hvalue

/-- A level of the taker's own side: an old one, or the taker's with the
taker at the back. -/
theorem mem_joined {l : UInt64 × List Order} :
    l ∈ (book.joined orderId accountId req).entries →
      l ∈ (book.side req.side).entries ∨
        (book.Stays orderId accountId req ∧ l.1 = req.price ∧
          l.2 = ((book.side req.side).get? req.price).getD []
            ++ [book.taker orderId accountId req]) := by
  intro hl
  unfold OrderBook.joined at hl
  split at hl
  · rename_i hstay
    rcases SortedMap.mem_insert.mp hl with ⟨hp, hq⟩ | ⟨_, hl⟩
    · exact .inr ⟨hstay, hp, hq⟩
    · exact .inl hl
  · exact .inl hl

theorem joined_wf (h : SideWF req.side (book.side req.side))
    (hvalue : req.orderType = .limit → req.price.toNat * req.size.toNat < 2 ^ 64) :
    SideWF req.side (book.joined orderId accountId req) := by
  constructor
  · intro l hl m hm
    rcases mem_joined hl with hl | ⟨hstay, hp, hq⟩
    · exact h.rests l hl m hm
    · rw [hq] at hm
      rcases List.mem_append.mp hm with hm | hm
      · cases hget : (book.side req.side).get? req.price with
        | none => rw [hget] at hm; cases hm
        | some queue =>
            rw [hget] at hm
            rw [hp]
            exact h.rests _ (SortedMap.get?_eq_some.mp hget) m hm
      · rw [List.mem_singleton.mp hm, hp]
        exact taker_rests hstay (hvalue hstay.1)
  · intro l hl
    rcases mem_joined hl with hl | ⟨_, _, hq⟩
    · exact h.nonempty l hl
    · rw [hq]
      exact List.append_ne_nil_of_right_ne_nil _ (List.cons_ne_nil _ _)

/-- An order that stays crosses nothing of what is left opposite it. -/
theorem not_crosses_of_stays (h : SideWF req.side.opposite (book.side req.side.opposite))
    (hstay : book.Stays orderId accountId req) {l : UInt64 × List Order}
    (hl : l ∈ (book.swept orderId accountId req).entries) :
    (req.toOrder orderId accountId).crosses l.1 = false := by
  refine not_crosses_of_left (o := req.toOrder orderId accountId) h ?_ hl
  have hpos := hstay.2
  rw [taker_units] at hpos
  exact Nat.lt_of_sub_pos hpos

theorem placed_uncrossed (h : book.WF) :
    ∀ bid ∈ (book.placed orderId accountId req).bids.entries,
      ∀ ask ∈ (book.placed orderId accountId req).asks.entries, bid.1 < ask.1 := by
  intro bid hbid ask hask
  have hown := placed_own book orderId accountId req
  have hopp := placed_opposite book orderId accountId req
  have hcross : book.Stays orderId accountId req →
      ∀ l ∈ (book.swept orderId accountId req).entries,
        (req.toOrder orderId accountId).crosses l.1 = false :=
    fun hstay l hl => not_crosses_of_stays (h.side req.side.opposite) hstay hl
  cases hs : req.side with
  | bid =>
      simp only [hs, OrderBook.side, Side.opposite] at hown hopp
      rw [hown] at hbid
      rw [hopp] at hask
      obtain ⟨queue, hold⟩ := key_of_sweepSide hask
      simp only [hs, OrderBook.side, Side.opposite] at hold
      rcases mem_joined hbid with hbid | ⟨hstay, hp, _⟩
      · simp only [hs, OrderBook.side] at hbid
        exact h.uncrossed bid hbid (ask.1, queue) hold
      · have := hcross hstay ask hask
        simp only [OrderRequest.toOrder, Order.crosses, hstay.1, hs,
          decide_eq_false_iff_not, not_le] at this
        rwa [hp]
  | ask =>
      simp only [hs, OrderBook.side, Side.opposite] at hown hopp
      rw [hown] at hask
      rw [hopp] at hbid
      obtain ⟨queue, hold⟩ := key_of_sweepSide hbid
      simp only [hs, OrderBook.side, Side.opposite] at hold
      rcases mem_joined hask with hask | ⟨hstay, hp, _⟩
      · simp only [hs, OrderBook.side] at hask
        exact h.uncrossed (bid.1, queue) hold ask hask
      · have := hcross hstay bid hbid
        simp only [OrderRequest.toOrder, Order.crosses, hstay.1, hs,
          decide_eq_false_iff_not, not_le] at this
        rwa [hp]

/-- The placed book between commands. -/
theorem placed_wf (h : book.WF)
    (hvalue : req.orderType = .limit → req.price.toNat * req.size.toNat < 2 ^ 64) :
    (book.placed orderId accountId req).drained.WF where
  side s := by
    rw [OrderBook.drained_side]
    rcases req.side.eq_or_opposite s with rfl | rfl
    · rw [placed_own]
      exact joined_wf (h.side _) hvalue
    · rw [placed_opposite]
      exact (h.side _).sweep _ _
  clean := rfl
  uncrossed := placed_uncrossed h

end AddOrder

/-- An order of size 0 leaves the book alone. -/
theorem placed_zero (book : OrderBook) (orderId : UInt64) (accountId : AccountId)
    {req : OrderRequest} (hsize : req.size = 0) : book.placed orderId accountId req = book := by
  have hzero : req.size.toNat = 0 := by rw [hsize]; rfl
  have hstay : ¬ book.Stays orderId accountId req := by
    rintro ⟨_, hpos⟩
    rw [taker_units, hzero] at hpos
    omega
  have hfills : book.fills orderId accountId req = [] := by
    rw [OrderBook.fills_eq, hzero, Greedy.walk_zero]
  have hswept : book.swept orderId accountId req = book.side req.side.opposite := by
    apply bestFirst_inj (s := req.side)
    rw [OrderBook.swept, bestFirst_sweepSide, hzero, sweep_zero]
  have hmatched : book.matchedBook orderId accountId req
      = (recordAll req.pair (book.start orderId accountId req)
          (book.fills orderId accountId req)).book.setSide req.side.opposite
        (book.swept orderId accountId req) := rfl
  rw [placed_eq_of_not_stays _ _ _ _ hstay, hmatched, hfills, recordAll_nil, hswept]
  exact OrderBook.setSide_self book req.side.opposite

/-- A book that was drained is not changed by another drain. -/
theorem OrderBook.drained_of_clean {book : OrderBook} (hclean : book.dirtyLevels = ∅) :
    book.drained = book := by
  rw [OrderBook.drained, ← hclean]

/-! ## Draining the dirty levels -/

/-- A drain that returned emptied the dirty set and nothing else; each delta
carries the aggregate of its level. -/
theorem takeDirtyLevels_ok {b : Build} {o : DrainOrder (Side × UInt64)}
    {book book' : OrderBook} {deltas : List LevelDelta}
    (h : book.takeDirtyLevels b o = .ok (book', deltas)) :
    book' = book.drained ∧
      List.Forall₂ (fun key d => d.1 = key.1 ∧ d.2.1 = key.2 ∧
        book'.levelQty b key.1 key.2 = .ok d.2.2) (o.toList book.dirtyLevels) deltas := by
  unfold OrderBook.takeDirtyLevels at h
  obtain ⟨deltas', hmap, h⟩ := bind_ok.mp h
  cases h
  refine ⟨rfl, ?_⟩
  refine (mapM_ok.mp hmap).imp fun key d hd => ?_
  obtain ⟨q, hq, hd⟩ := bind_ok.mp hd
  cases hd
  exact ⟨rfl, rfl, hq⟩

/-! ## `cancel_order` -/

/-- Levels with the queue at one price replaced, an empty queue dropping the
level. -/
def putQueue (levels : Levels) (price : UInt64) (queue : List Order) : Levels :=
  if queue.isEmpty then levels.erase price else levels.insert price queue

theorem mem_putQueue {levels : Levels} {price : UInt64} {queue : List Order}
    {l : UInt64 × List Order} :
    l ∈ (putQueue levels price queue).entries ↔
      (l = (price, queue) ∧ queue ≠ []) ∨ (l.1 ≠ price ∧ l ∈ levels.entries) := by
  obtain ⟨p, q⟩ := l
  unfold putQueue
  cases queue with
  | nil =>
      rw [if_pos List.isEmpty_nil, SortedMap.mem_erase]
      simp [and_comm]
  | cons m ms => simp [SortedMap.mem_insert]

theorem get?_putQueue (levels : Levels) (price : UInt64) (queue : List Order) (p : UInt64) :
    (putQueue levels price queue).get? p
      = if p = price then if queue = [] then none else some queue else levels.get? p := by
  unfold putQueue
  cases queue with
  | nil => rw [if_pos List.isEmpty_nil, SortedMap.get?_erase, if_pos rfl]
  | cons m ms =>
      rw [if_neg (by simp), SortedMap.get?_insert, if_neg (List.cons_ne_nil _ _)]

/-- The book after a queue lost the order `id`, before the drain. -/
def OrderBook.removed (book : OrderBook) (side : Side) (price : UInt64)
    (queue : List Order) (id : UInt64) : OrderBook :=
  { book.setSide side (putQueue (book.side side) price queue) with
    orderIndex := book.orderIndex.erase id
    dirtyLevels := insert (side, price) book.dirtyLevels }

/-- **A cancel that removed something** found it where the index says, in the
caller's name; what it leaves is `removed`, drained. -/
theorem cancelOrder_ok {b : Build} {o : DrainOrder (Side × UInt64)} {book book' : OrderBook}
    {accountId : AccountId} {id : UInt64} {order : Order} {deltas : List LevelDelta}
    (h : book.cancelOrder b o accountId id = .ok (book', some (order, deltas))) :
    ∃ side price pre post,
      book.orderIndex.lookup id = some { owner := accountId, side := side, price := price } ∧
      (book.side side).get? price = some (pre ++ order :: post) ∧ order.id = id ∧
      (book.removed side price (pre ++ post) id).takeDirtyLevels b o = .ok (book', deltas) := by
  unfold OrderBook.cancelOrder at h
  split at h
  · cases h
  · rename_i owner side price hindex
    split at h
    · cases h
    · rename_i howner
      rw [ne_eq, not_not] at howner
      subst howner
      split at h
      · cases h
      · rename_i queue hqueue
        split at h
        · cases h
        · rename_i i hi
          split at h
          · cases h
          · rename_i removed hremoved
            obtain ⟨⟨book₁, ds⟩, hdrain, h⟩ := bind_ok.mp h
            cases h
            obtain ⟨hlt, hget⟩ := List.getElem?_eq_some_iff.mp hremoved
            have hid : order.id = id := by
              have := (List.findIdx?_eq_some_iff_getElem.mp hi).2.1
              rw [hget] at this
              simpa using this
            refine ⟨side, price, queue.take i, queue.drop (i + 1), hindex, ?_, hid, ?_⟩
            · rw [hqueue, ← hget, List.getElem_cons_drop, List.take_append_drop]
            · rw [← List.eraseIdx_eq_take_drop_succ]
              cases side <;> exact hdrain

/-- **A cancel in one equation**, for the first order with its id in the queue
that the index names. -/
theorem cancelOrder_eq (b : Build) (o : DrainOrder (Side × UInt64)) {book : OrderBook}
    {accountId : AccountId} {side : Side} {price : UInt64} {pre post : List Order} {order : Order}
    (hindex : book.orderIndex.lookup order.id
      = some { owner := accountId, side := side, price := price })
    (hqueue : (book.side side).get? price = some (pre ++ order :: post))
    (hfirst : ∀ m ∈ pre, m.id ≠ order.id) :
    book.cancelOrder b o accountId order.id
      = (book.removed side price (pre ++ post) order.id).takeDirtyLevels b o >>= fun r =>
          .ok (r.1, some (order, r.2)) := by
  have hfind : (pre ++ order :: post).findIdx? (fun m => m.id = order.id) = some pre.length := by
    rw [List.findIdx?_append, List.findIdx?_eq_none_iff.mpr fun m hm => by simp [hfirst m hm],
      List.findIdx?_cons]
    simp
  have herase : (pre ++ order :: post).eraseIdx pre.length = pre ++ post := by
    rw [List.eraseIdx_append_of_length_le le_rfl, Nat.sub_self, List.eraseIdx_cons_zero]
  have hget : (pre ++ order :: post)[pre.length]? = some order := by
    rw [List.getElem?_append_right le_rfl, Nat.sub_self, List.getElem?_cons_zero]
  unfold OrderBook.cancelOrder
  rw [hindex]
  dsimp only
  rw [if_neg (by simp), hqueue]
  dsimp only
  rw [hfind]
  dsimp only
  rw [hget]
  dsimp only
  rw [herase]
  cases side <;> rfl

theorem OrderBook.removed_side_self (book : OrderBook) (side : Side) (price : UInt64)
    (queue : List Order) (id : UInt64) :
    (book.removed side price queue id).side side = putQueue (book.side side) price queue := by
  cases side <;> rfl

theorem OrderBook.removed_side_opposite (book : OrderBook) (side : Side) (price : UInt64)
    (queue : List Order) (id : UInt64) :
    (book.removed side price queue id).side side.opposite = book.side side.opposite := by
  cases side <;> rfl

theorem putQueue_wf {s : Side} {levels : Levels} (h : SideWF s levels) {price : UInt64}
    {pre post : List Order} {order : Order}
    (hqueue : levels.get? price = some (pre ++ order :: post)) :
    SideWF s (putQueue levels price (pre ++ post)) := by
  have hold := SortedMap.get?_eq_some.mp hqueue
  constructor
  · intro l hl m hm
    rcases mem_putQueue.mp hl with ⟨rfl, _⟩ | ⟨_, hl⟩
    · refine h.rests _ hold m ?_
      rcases List.mem_append.mp hm with hm | hm
      · exact List.mem_append_left _ hm
      · exact List.mem_append_right _ (List.mem_cons_of_mem _ hm)
    · exact h.rests l hl m hm
  · intro l hl
    rcases mem_putQueue.mp hl with ⟨rfl, hne⟩ | ⟨_, hl⟩
    · exact hne
    · exact h.nonempty l hl

theorem removed_wf {book : OrderBook} (h : book.WF) {side : Side} {price : UInt64}
    {pre post : List Order} {order : Order} {id : UInt64}
    (hqueue : (book.side side).get? price = some (pre ++ order :: post)) :
    (book.removed side price (pre ++ post) id).drained.WF where
  side s := by
    rw [OrderBook.drained_side]
    rcases side.eq_or_opposite s with rfl | rfl
    · rw [OrderBook.removed_side_self]
      exact putQueue_wf (h.side _) hqueue
    · rw [OrderBook.removed_side_opposite]
      exact h.side _
  clean := rfl
  uncrossed := by
    have hkey : ∀ l ∈ (putQueue (book.side side) price (pre ++ post)).entries,
        ∃ queue, (l.1, queue) ∈ (book.side side).entries := by
      intro l hl
      rcases mem_putQueue.mp hl with ⟨rfl, _⟩ | ⟨_, hl⟩
      · exact ⟨_, SortedMap.get?_eq_some.mp hqueue⟩
      · exact ⟨l.2, hl⟩
    intro bid hbid ask hask
    cases side with
    | bid =>
        obtain ⟨queue, hold⟩ := hkey bid hbid
        exact h.uncrossed (bid.1, queue) hold ask hask
    | ask =>
        obtain ⟨queue, hold⟩ := hkey ask hask
        exact h.uncrossed bid hbid (ask.1, queue) hold

end MatchingEngine
