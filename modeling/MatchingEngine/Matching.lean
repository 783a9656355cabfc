import MatchingEngine.Book
import MatchingEngine.Lib.Greedy

/-!
# Matching: the loops of `add_order` are a greedy walk

The two nested loops are reduced to `Greedy.walk` and `Greedy.rest`: the
inner loop serves the taker's remainder from one queue (`fillQueue_eq`), the
outer one from the levels it crosses, best first (`matchLoop_spec`). What the
loops write down besides is one `record` per fill.
-/

namespace MatchingEngine

open RustArith HashModel

/-! ## Orders as suppliers -/

/-- The units an order still offers. -/
def Order.units (o : Order) : ℕ := o.remainingSize.toNat

/-- The order after `q` of its units were taken. -/
def Order.shrink (o : Order) (q : ℕ) : Order :=
  { o with remainingSize := o.remainingSize - UInt64.ofNat q }

/-- The order offers no more than its size, so its filled quantity is a
word. -/
def Order.Sized (o : Order) : Prop := o.remainingSize ≤ o.size

theorem Order.units_pos {o : Order} : 0 < o.units ↔ 0 < o.remainingSize := by
  rw [units, UInt64.lt_iff_toNat_lt]; rfl

theorem toNat_ofNat_of_le {x : UInt64} {q : ℕ} (h : q ≤ x.toNat) :
    (UInt64.ofNat q).toNat = q :=
  UInt64.toNat_ofNat_of_lt' (h.trans_lt (toNat_lt x))

theorem ofNat_le {x : UInt64} {q : ℕ} (h : q ≤ x.toNat) : UInt64.ofNat q ≤ x := by
  rwa [UInt64.le_iff_toNat_le, toNat_ofNat_of_le h]

theorem Order.units_shrink {o : Order} {q : ℕ} (h : q ≤ o.units) :
    (o.shrink q).units = o.units - q := by
  rw [units, shrink, toNat_sub_of_le (ofNat_le h), toNat_ofNat_of_le h, units]

/-! ## What the loops write down -/

/-- The trade of one fill. -/
def fillTrade (pair : Pair) (taker : Order) (f : Order × ℕ) : Trade where
  pair := pair
  price := f.1.price
  qty := UInt64.ofNat f.2
  makerId := f.1.id
  takerId := taker.id
  takerSide := taker.side
  makerAccount := f.1.accountId
  takerAccount := taker.accountId

/-- The maker's update of one fill. -/
def fillUpdate (f : Order × ℕ) : OrderUpdate where
  orderId := f.1.id
  accountId := f.1.accountId
  filledQty := f.1.size - (f.1.shrink f.2).remainingSize
  remainingSize := (f.1.shrink f.2).remainingSize
  status := if (f.1.shrink f.2).remainingSize = 0 then .filled else .partiallyFilled

/-- One fill, written down: everything but the queues. -/
def record (pair : Pair) (st : Matching) (f : Order × ℕ) : Matching where
  book :=
    { st.book with
      lastTradePrice := some f.1.price
      dirtyLevels := insert (f.1.side, f.1.price) st.book.dirtyLevels
      orderIndex :=
        if f.2 = f.1.units then st.book.orderIndex.erase f.1.id
        else st.book.orderIndex }
  order := st.order.shrink f.2
  trades := st.trades ++ [fillTrade pair st.order f]
  updates := st.updates ++ [fillUpdate f]

/-- Fills, written down in order. -/
def recordAll (pair : Pair) (st : Matching) (fs : List (Order × ℕ)) : Matching :=
  fs.foldl (record pair) st

@[simp] theorem recordAll_nil (pair : Pair) (st : Matching) :
    recordAll pair st [] = st := rfl

@[simp] theorem recordAll_cons (pair : Pair) (st : Matching) (f : Order × ℕ)
    (fs : List (Order × ℕ)) :
    recordAll pair st (f :: fs) = recordAll pair (record pair st f) fs := rfl

theorem recordAll_append (pair : Pair) (st : Matching) (fs gs : List (Order × ℕ)) :
    recordAll pair st (fs ++ gs) = recordAll pair (recordAll pair st fs) gs :=
  List.foldl_append

/-! ## The inner loop -/

theorem fillSizes_eq (b : Build) (best order : Order) :
    fillSizes b best order
      = .ok (best.shrink (min order.units best.units),
          order.shrink (min order.units best.units)) := by
  unfold fillSizes
  split
  · rename_i hle
    have hle' : order.units ≤ best.units := UInt64.le_iff_toNat_le.mp hle
    rw [Build.sub_eq hle, ok_bind, min_eq_left hle']
    simp [Order.shrink, Order.units, pure_eq_ok]
  · rename_i hgt
    have hle : best.remainingSize ≤ order.remainingSize := le_of_not_ge hgt
    have hle' : best.units ≤ order.units := UInt64.le_iff_toNat_le.mp hle
    rw [Build.sub_eq hle, ok_bind, min_eq_right hle']
    simp [Order.shrink, Order.units, pure_eq_ok]

theorem ofNat_min_units (o m : Order) :
    UInt64.ofNat (min o.units m.units) = min o.remainingSize m.remainingSize := by
  rw [min_def, min_def, Order.units, Order.units]
  split
  · rename_i h; rw [if_pos (UInt64.le_iff_toNat_le.mpr h), UInt64.ofNat_toNat]
  · rename_i h
    rw [if_neg (fun h' => h (UInt64.le_iff_toNat_le.mp h')), UInt64.ofNat_toNat]

theorem shrink_remaining_le {m : Order} {q : ℕ} (hs : m.Sized) (hq : q ≤ m.units) :
    (m.shrink q).remainingSize ≤ m.size := by
  have := Order.units_shrink hq
  unfold Order.units at this
  rw [UInt64.le_iff_toNat_le, this]
  have := UInt64.le_iff_toNat_le.mp hs
  omega

theorem shrink_remaining_eq_zero {m : Order} {q : ℕ} (hq : q ≤ m.units) :
    (m.shrink q).remainingSize = 0 ↔ q = m.units := by
  have := Order.units_shrink hq
  unfold Order.units at this hq ⊢
  rw [← UInt64.toNat_inj, this]
  simp only [UInt64.toNat_zero]
  omega

/-- One round of the inner loop: the front order is shrunk, the fill is
recorded; the index entry goes in the pop that follows. -/
theorem fillFront_eq (b : Build) (pair : Pair) (st : Matching) {best : Order}
    (hs : best.Sized) :
    fillFront b pair st best
      = .ok (best.shrink (min st.order.units best.units),
          { record pair st (best, min st.order.units best.units) with
            book :=
              { (record pair st (best, min st.order.units best.units)).book with
                orderIndex := st.book.orderIndex } }) := by
  have hq : min st.order.units best.units ≤ best.units := min_le_right _ _
  unfold fillFront
  rw [fillSizes_eq, ok_bind]
  simp only
  have hsub : b.sub (best.shrink (min st.order.units best.units)).size
      (best.shrink (min st.order.units best.units)).remainingSize
      = .ok (best.size - (best.shrink (min st.order.units best.units)).remainingSize) :=
    Build.sub_eq (shrink_remaining_le hs hq)
  rw [hsub, ok_bind, pure_eq_ok]
  simp only [record, fillTrade, fillUpdate, ofNat_min_units]
  rfl

/-- **The inner loop** serves the taker from one queue: the queue becomes
its `rest`, and the fills of its `walk` are recorded. -/
theorem fillQueue_eq (b : Build) (pair : Pair) {queue : List Order}
    (hs : ∀ m ∈ queue, m.Sized) : ∀ st : Matching,
    fillQueue b pair queue st
      = .ok (Greedy.rest Order.units Order.shrink st.order.units queue,
          recordAll pair st (Greedy.walk Order.units st.order.units queue)) := by
  induction queue with
  | nil => intro st; simp [fillQueue, pure_eq_ok]
  | cons best queue ih =>
      intro st
      have ih := ih fun m hm => hs m (List.mem_cons_of_mem _ hm)
      unfold fillQueue
      split
      · rename_i hpos
        have hr : st.order.units ≠ 0 := (Order.units_pos.mpr hpos).ne'
        rw [fillFront_eq b pair st (hs best List.mem_cons_self), ok_bind]
        dsimp only
        simp only [shrink_remaining_eq_zero (min_le_right st.order.units best.units)]
        by_cases hle : best.units ≤ st.order.units
        · -- the front order is used up and popped
          have hmin : min st.order.units best.units = best.units := min_eq_right hle
          have hu : (record pair st (best, best.units)).order.units
              = st.order.units - best.units := Order.units_shrink hle
          rw [hmin, if_pos rfl]
          refine (congrArg (fillQueue b pair queue) ?_).trans
            ((ih (record pair st (best, best.units))).trans ?_)
          · simp [record, Order.shrink]
          · simp only [Greedy.walk, Greedy.rest, hr, if_false, hle, if_true, hmin,
              recordAll_cons, hu]
        · -- the taker is used up: both loops are over
          have hlt : st.order.units < best.units := by omega
          have hmin : min st.order.units best.units = st.order.units :=
            min_eq_left hlt.le
          have h0 : st.order.units - best.units = 0 := by omega
          rw [hmin, if_neg hlt.ne, pure_eq_ok]
          simp only [Greedy.walk, Greedy.rest, hr, if_false, hle, hmin, h0,
            Greedy.walk_zero, recordAll_cons, recordAll_nil]
          simp [record, hlt.ne]
      · rename_i hpos
        have hr : st.order.units = 0 := by
          by_contra h
          exact hpos (Order.units_pos.mp (Nat.pos_of_ne_zero h))
        simp [hr, pure_eq_ok]

/-! ## The opposite side, best level first -/

/-- The side a taker trades with. -/
def Side.opposite : Side → Side
  | .bid => .ask
  | .ask => .bid

theorem Side.eq_or_opposite (s s' : Side) : s' = s ∨ s' = s.opposite := by
  cases s <;> cases s' <;> simp [Side.opposite]

/-- One side's levels in the order a taker of side `s` meets them: asks from
the lowest price up, bids from the highest down. -/
def bestFirst (s : Side) (levels : Levels) : List (UInt64 × List Order) :=
  match s with
  | .bid => levels.entries
  | .ask => levels.entries.reverse

/-- Whether an order trades at a price of the opposite side. -/
def Order.crosses (o : Order) (price : UInt64) : Bool :=
  match o.orderType, o.side with
  | .market, _ => true
  | .limit, .bid => price ≤ o.price
  | .limit, .ask => o.price ≤ price

@[simp] theorem Order.crosses_shrink (o : Order) (q : ℕ) :
    (o.shrink q).crosses = o.crosses := rfl

/-- Levels after a demand of `r` from a taker that crosses some of them. -/
def sweep (crosses : UInt64 → Bool) : ℕ → List (UInt64 × List Order) →
    List (UInt64 × List Order)
  | _, [] => []
  | r, (p, queue) :: levels =>
      if r = 0 ∨ crosses p = false then (p, queue) :: levels
      else
        match Greedy.rest Order.units Order.shrink r queue with
        | [] => sweep crosses (r - Greedy.total Order.units queue) levels
        | m :: ms => (p, m :: ms) :: levels

/-- The orders a taker can reach, best level first, in queue order. -/
def reach (crosses : UInt64 → Bool) (levels : List (UInt64 × List Order)) : List Order :=
  (levels.takeWhile fun l => crosses l.1).flatMap Prod.snd

/-- The levels of one side change. -/
def Matching.setSide (st : Matching) (s : Side) (levels : Levels) : Matching :=
  { st with book := st.book.setSide s levels }

@[simp] theorem OrderBook.side_setSide (book : OrderBook) (s : Side) (levels : Levels) :
    (book.setSide s levels).side s = levels := by
  cases s <;> rfl

@[simp] theorem OrderBook.setSide_setSide (book : OrderBook) (s : Side) (l l' : Levels) :
    (book.setSide s l).setSide s l' = book.setSide s l' := by
  cases s <;> rfl

@[simp] theorem OrderBook.setSide_orderIndex (book : OrderBook) (s : Side) (levels : Levels) :
    (book.setSide s levels).orderIndex = book.orderIndex := by
  cases s <;> rfl

@[simp] theorem OrderBook.setSide_dirtyLevels (book : OrderBook) (s : Side) (levels : Levels) :
    (book.setSide s levels).dirtyLevels = book.dirtyLevels := by
  cases s <;> rfl

@[simp] theorem OrderBook.setSide_lastTradePrice (book : OrderBook) (s : Side)
    (levels : Levels) : (book.setSide s levels).lastTradePrice = book.lastTradePrice := by
  cases s <;> rfl

theorem OrderBook.setSide_self (book : OrderBook) (s : Side) :
    book.setSide s (book.side s) = book := by
  cases s <;> rfl

@[simp] theorem record_side (pair : Pair) (st : Matching) (f : Order × ℕ) (s : Side) :
    (record pair st f).book.side s = st.book.side s := by
  cases s <;> rfl

theorem recordAll_side (pair : Pair) (s : Side) (fs : List (Order × ℕ)) :
    ∀ st, (recordAll pair st fs).book.side s = st.book.side s := by
  induction fs with
  | nil => intro st; rfl
  | cons f fs ih => intro st; rw [recordAll_cons, ih, record_side]

/-- Recording fills commutes with replacing a side. -/
theorem recordAll_setSide (pair : Pair) (s : Side) (levels : Levels)
    (fs : List (Order × ℕ)) : ∀ st,
    recordAll pair (st.setSide s levels) fs = (recordAll pair st fs).setSide s levels := by
  induction fs with
  | nil => intro st; rfl
  | cons f fs ih =>
      intro st
      have hrec : record pair (st.setSide s levels) f
          = (record pair st f).setSide s levels := by
        cases s <;> rfl
      rw [recordAll_cons, recordAll_cons, hrec, ih]

theorem bestPriceQueue_eq (book : OrderBook) (o : Order) :
    book.bestPriceQueue o
      = match bestFirst o.side (book.side o.side.opposite) with
        | [] => none
        | (p, queue) :: _ => if o.crosses p then some (p, queue) else none := by
  unfold OrderBook.bestPriceQueue Order.crosses
  cases hs : o.side with
  | bid =>
      simp only [bestFirst, Side.opposite, OrderBook.side, SortedMap.firstKeyValue?]
      cases book.asks.entries with
      | nil => rfl
      | cons l ls =>
          rcases lt_or_ge o.price l.1 with h | h
          · cases o.orderType <;> simp [h, not_le_of_gt h]
          · cases o.orderType <;> simp [h, not_lt_of_ge h]
  | ask =>
      simp only [bestFirst, Side.opposite, OrderBook.side, SortedMap.lastKeyValue?]
      rw [← List.head?_reverse]
      cases book.bids.entries.reverse with
      | nil => rfl
      | cons l ls =>
          rcases lt_or_ge l.1 o.price with h | h
          · cases o.orderType <;> simp [h, not_le_of_gt h]
          · cases o.orderType <;> simp [h, not_lt_of_ge h]

/-- Writing the best queue back replaces the first level, or drops it when
the queue is empty. -/
theorem putBestQueue_eq {book : OrderBook} {s : Side} {p : UInt64}
    {queue : List Order} {levels : List (UInt64 × List Order)}
    (h : bestFirst s (book.side s.opposite) = (p, queue) :: levels) (queue' : List Order) :
    ∃ lv : Levels, book.putBestQueue s p queue' = book.setSide s.opposite lv ∧
      bestFirst s lv = if queue' = [] then levels else (p, queue') :: levels := by
  cases s with
  | bid =>
      have hent : book.asks.entries = (p, queue) :: levels := h
      have hins := SortedMap.insert_first hent queue'
      refine ⟨_, rfl, ?_⟩
      cases queue' with
      | nil => simp [bestFirst, SortedMap.popFirst, hins]
      | cons m ms => simpa [bestFirst] using hins
  | ask =>
      have hrev : book.bids.entries = levels.reverse ++ [(p, queue)] := by
        have := congrArg List.reverse (show book.bids.entries.reverse = _ from h)
        simpa using this
      have hins := SortedMap.insert_last hrev queue'
      refine ⟨_, rfl, ?_⟩
      cases queue' with
      | nil => simp [bestFirst, SortedMap.popLast, hins]
      | cons m ms => simp [bestFirst, hins]

/-! ## The outer loop -/

theorem recordAll_units (pair : Pair) {r : ℕ} {l : List Order} : ∀ {st : Matching},
    st.order.units = r →
      (recordAll pair st (Greedy.walk Order.units r l)).order.units
        = r - Greedy.total Order.units l := by
  induction l generalizing r with
  | nil => intro st h; simp [h]
  | cons m ms ih =>
      intro st h
      by_cases hr : r = 0
      · simp [hr, h]
      · simp only [Greedy.walk, hr, if_false, recordAll_cons, Greedy.total_cons]
        have hu : (record pair st (m, min r m.units)).order.units = r - m.units := by
          have := Order.units_shrink (o := st.order) (q := min r m.units)
            (h ▸ min_le_left _ _)
          rw [h] at this
          rw [record, this]
          omega
        rw [ih hu, Nat.sub_sub]

theorem recordAll_static (pair : Pair) (fs : List (Order × ℕ)) : ∀ st : Matching,
    ∃ rem, (recordAll pair st fs).order = { st.order with remainingSize := rem } := by
  induction fs with
  | nil => intro st; exact ⟨st.order.remainingSize, rfl⟩
  | cons f fs ih =>
      intro st
      obtain ⟨rem, h⟩ := ih (record pair st f)
      exact ⟨rem, by rw [recordAll_cons, h]; rfl⟩

/-- The levels a taker meets, best first. -/
def Matching.levels (st : Matching) : List (UInt64 × List Order) :=
  bestFirst st.order.side (st.book.side st.order.side.opposite)

/-- The fills a taker gets from the orders it can reach. -/
def Matching.fills (st : Matching) : List (Order × ℕ) :=
  Greedy.walk Order.units st.order.units (reach st.order.crosses st.levels)

theorem matchLoop_done (b : Build) (pair : Pair) (fuel : ℕ) {st : Matching}
    (h : st.order.units = 0) : matchLoop b pair fuel st = .ok st := by
  cases fuel with
  | zero => rfl
  | succ fuel =>
      have hpos : ¬ 0 < st.order.remainingSize := fun hp => by
        have := Order.units_pos.mpr hp
        omega
      rw [matchLoop, if_neg hpos, pure_eq_ok]

theorem sweep_zero (crosses : UInt64 → Bool) (levels : List (UInt64 × List Order)) :
    sweep crosses 0 levels = levels := by
  cases levels <;> simp [sweep]

theorem reach_cons (crosses : UInt64 → Bool) (p : UInt64) (queue : List Order)
    (levels : List (UInt64 × List Order)) :
    reach crosses ((p, queue) :: levels)
      = if crosses p then queue ++ reach crosses levels else [] := by
  by_cases hc : crosses p <;> simp [reach, hc]

/-- **The outer loop** serves the taker from the levels it crosses: with
enough fuel it returns, the opposite side is swept, and the fills of the
walk over the reachable orders are recorded. -/
theorem matchLoop_spec (b : Build) (pair : Pair) : ∀ (fuel : ℕ) (st : Matching),
    st.levels.length < fuel → (∀ l ∈ st.levels, ∀ m ∈ l.2, m.Sized) →
    ∃ lv : Levels,
      bestFirst st.order.side lv = sweep st.order.crosses st.order.units st.levels ∧
      matchLoop b pair fuel st
        = .ok ((recordAll pair st st.fills).setSide st.order.side.opposite lv) := by
  intro fuel
  induction fuel with
  | zero => intro st h; omega
  | succ fuel ih =>
      intro st hfuel hsized
      have hself : st.setSide st.order.side.opposite
          (st.book.side st.order.side.opposite) = st := by
        rw [Matching.setSide, OrderBook.setSide_self]
      by_cases hr : st.order.units = 0
      · -- nothing left to trade
        refine ⟨st.book.side st.order.side.opposite, ?_, ?_⟩
        · rw [hr, sweep_zero]; rfl
        · rw [matchLoop_done b pair _ hr, Matching.fills, hr, Greedy.walk_zero,
            recordAll_nil, hself]
      have hpos : 0 < st.order.remainingSize :=
        Order.units_pos.mp (Nat.pos_of_ne_zero hr)
      rw [matchLoop, if_pos hpos, bestPriceQueue_eq]
      have hlevels : bestFirst st.order.side (st.book.side st.order.side.opposite)
          = st.levels := rfl
      cases hbest : st.levels with
      | nil =>
          refine ⟨st.book.side st.order.side.opposite, by rw [hlevels, hbest]; rfl, ?_⟩
          simp [hlevels, hbest, Matching.fills, reach, hself, pure_eq_ok]
      | cons l levels =>
          obtain ⟨p, queue⟩ := l
          rw [hlevels, hbest]
          by_cases hc : st.order.crosses p
          case neg =>
            refine ⟨st.book.side st.order.side.opposite, ?_, ?_⟩
            · simp [hlevels, hbest, sweep, hc]
            · simp [hbest, Matching.fills, reach, hc, hself, pure_eq_ok]
          case pos =>
            have hqueue : ∀ m ∈ queue, m.Sized :=
              hsized (p, queue) (hbest ▸ List.mem_cons_self)
            simp only [hc, if_true]
            rw [fillQueue_eq b pair hqueue, ok_bind]
            dsimp only
            set w := Greedy.walk Order.units st.order.units queue with hw
            obtain ⟨rem, hord⟩ := recordAll_static pair w st
            have hside : (recordAll pair st w).order.side = st.order.side := by rw [hord]
            have hcross : (recordAll pair st w).order.crosses = st.order.crosses := by
              rw [hord]; rfl
            have hunits : (recordAll pair st w).order.units
                = st.order.units - Greedy.total Order.units queue :=
              recordAll_units pair rfl
            have hbest' : bestFirst st.order.side ((recordAll pair st w).book.side
                st.order.side.opposite) = (p, queue) :: levels := by
              rw [recordAll_side, hlevels, hbest]
            obtain ⟨lv, hput, hlv⟩ := putBestQueue_eq hbest'
              (Greedy.rest Order.units Order.shrink st.order.units queue)
            rw [hside, hput]
            have hst : ∀ lv', { recordAll pair st w with
                book := (recordAll pair st w).book.setSide st.order.side.opposite lv' }
                = (recordAll pair st w).setSide st.order.side.opposite lv' := fun _ => rfl
            rw [hst]
            have hfills : st.fills = w ++ Greedy.walk Order.units
                (st.order.units - Greedy.total Order.units queue)
                (reach st.order.crosses levels) := by
              rw [Matching.fills, hbest, reach_cons, if_pos hc, Greedy.walk_append]
            have hstLevels : ((recordAll pair st w).setSide
                st.order.side.opposite lv).levels = bestFirst st.order.side lv := by
              simp [Matching.levels, Matching.setSide, hside]
            cases hrest : Greedy.rest Order.units Order.shrink st.order.units queue with
            | nil =>
                -- the level is popped and the loop goes on
                rw [hrest, if_pos rfl] at hlv
                have hlen : levels.length < fuel := by
                  rw [hbest] at hfuel; simpa using hfuel
                obtain ⟨lv', hlv', hloop⟩ := ih ((recordAll pair st w).setSide
                  st.order.side.opposite lv) (by rw [hstLevels, hlv]; exact hlen)
                  (by rw [hstLevels, hlv]
                      exact fun l hl => hsized l (hbest ▸ List.mem_cons_of_mem _ hl))
                refine ⟨lv', ?_, ?_⟩
                · simpa [Matching.setSide, hside, hcross, hunits, hstLevels, hlv, sweep,
                    hr, hc, hrest, Matching.levels] using hlv'
                · rw [hloop, Matching.fills, hstLevels, hlv, recordAll_setSide, hfills,
                    recordAll_append]
                  simp only [Matching.setSide, hside, hcross, hunits,
                    OrderBook.setSide_setSide]
            | cons m ms =>
                -- the front order outlives the taker
                rw [hrest, if_neg (List.cons_ne_nil m ms)] at hlv
                have hle := Greedy.le_total_of_rest Order.units Order.shrink
                  (hrest ▸ List.cons_ne_nil m ms)
                have h0 : st.order.units - Greedy.total Order.units queue = 0 := by omega
                refine ⟨lv, ?_, ?_⟩
                · simp [hlv, sweep, hr, hc, hrest]
                · rw [matchLoop_done b pair fuel (by
                    rw [← h0, ← hunits]; rfl), hfills, h0, Greedy.walk_zero,
                    List.append_nil]

end MatchingEngine
