import MatchingEngine.Matching

/-!
# Placement: `add_order` as one equation

The matching loops collapse to `Matching.matched`; `add_order` is then a pure
function of the book and the request (`OrderBook.placed`), followed by the
drain of the dirty levels, which is the only part that can panic
(`addOrder_eq`). The rest of the module reads the parts of that result off:
the levels of both sides, the index, the trades, the dirty levels.
-/

namespace MatchingEngine

open RustArith HashModel

/-! ## The swept side as a map -/

theorem sweep_keys (crosses : UInt64 → Bool) (levels : List (UInt64 × List Order)) :
    ∀ r, (sweep crosses r levels).map Prod.fst <:+ levels.map Prod.fst := by
  induction levels with
  | nil => intro r; exact List.suffix_refl _
  | cons l levels ih =>
      intro r
      obtain ⟨p, queue⟩ := l
      rw [sweep]
      split
      · exact List.suffix_refl _
      · split
        · exact (ih _).trans (List.suffix_cons _ _)
        · exact List.suffix_refl _

/-- The opposite side after a demand of `r` by a taker of side `s`. -/
def sweepSide (s : Side) (crosses : UInt64 → Bool) (r : ℕ) (levels : Levels) : Levels :=
  match s with
  | .bid =>
      ⟨sweep crosses r levels.entries, List.pairwise_map.mp
        ((List.pairwise_map.mpr levels.sorted).sublist (sweep_keys _ _ r).sublist)⟩
  | .ask =>
      ⟨(sweep crosses r levels.entries.reverse).reverse, by
        rw [List.pairwise_reverse]
        exact List.pairwise_map.mp
          ((List.pairwise_map (f := Prod.fst) (R := fun x y => y < x)).mpr
            (List.pairwise_reverse.mpr levels.sorted) |>.sublist
              (sweep_keys _ _ r).sublist)⟩

@[simp] theorem bestFirst_sweepSide (s : Side) (crosses : UInt64 → Bool) (r : ℕ)
    (levels : Levels) :
    bestFirst s (sweepSide s crosses r levels) = sweep crosses r (bestFirst s levels) := by
  cases s <;> simp [bestFirst, sweepSide]

theorem bestFirst_inj {s : Side} {lv lv' : Levels} (h : bestFirst s lv = bestFirst s lv') :
    lv = lv' := by
  cases s with
  | bid => exact SortedMap.ext h
  | ask => exact SortedMap.ext (List.reverse_injective h)

theorem mem_bestFirst {s : Side} {lv : Levels} {l : UInt64 × List Order} :
    l ∈ bestFirst s lv ↔ l ∈ lv.entries := by
  cases s <;> simp [bestFirst]

/-! ## The matching loops in closed form -/

/-- The state after matching. -/
def Matching.matched (pair : Pair) (st : Matching) : Matching :=
  (recordAll pair st st.fills).setSide st.order.side.opposite
    (sweepSide st.order.side st.order.crosses st.order.units
      (st.book.side st.order.side.opposite))

theorem matchLoop_eq (b : Build) (pair : Pair) {fuel : ℕ} {st : Matching}
    (hfuel : st.levels.length < fuel) (hs : ∀ l ∈ st.levels, ∀ m ∈ l.2, m.Sized) :
    matchLoop b pair fuel st = .ok (st.matched pair) := by
  obtain ⟨lv, hlv, hloop⟩ := matchLoop_spec b pair fuel st hfuel hs
  have : lv = sweepSide st.order.side st.order.crosses st.order.units
      (st.book.side st.order.side.opposite) := by
    apply bestFirst_inj (s := st.order.side)
    rw [hlv, bestFirst_sweepSide]
    rfl
  rw [hloop, this]
  rfl

/-- The state `add_order` starts matching in. -/
def OrderBook.start (book : OrderBook) (orderId : UInt64) (accountId : AccountId)
    (req : OrderRequest) : Matching where
  book := book
  order := req.toOrder orderId accountId
  trades := []
  updates := []

/-- The incoming order after matching. -/
def OrderBook.taker (book : OrderBook) (orderId : UInt64) (accountId : AccountId)
    (req : OrderRequest) : Order :=
  ((book.start orderId accountId req).matched req.pair).order

/-- The book after matching and resting, its dirty levels not yet drained. -/
def OrderBook.placed (book : OrderBook) (orderId : UInt64) (accountId : AccountId)
    (req : OrderRequest) : OrderBook :=
  ((((book.start orderId accountId req).matched req.pair).book.rest
    (book.taker orderId accountId req)).indexTaker accountId
      (book.taker orderId accountId req))

/-- The taker's own update, if it gets one. -/
def takerUpdate (order : Order) : List OrderUpdate :=
  match takerStatus order (order.size - order.remainingSize) with
  | some status =>
      [{ orderId := order.id
         accountId := order.accountId
         filledQty := order.size - order.remainingSize
         remainingSize := order.remainingSize
         status := status }]
  | none => []

/-- The fills an order gets on arrival. -/
def OrderBook.fills (book : OrderBook) (orderId : UInt64) (accountId : AccountId)
    (req : OrderRequest) : List (Order × ℕ) :=
  (book.start orderId accountId req).fills

theorem OrderBook.fills_eq (book : OrderBook) (orderId : UInt64) (accountId : AccountId)
    (req : OrderRequest) : book.fills orderId accountId req
      = Greedy.walk Order.units req.size.toNat
          (reach (req.toOrder orderId accountId).crosses
            (bestFirst req.side (book.side req.side.opposite))) := rfl

theorem recordAll_trades (pair : Pair) (fs : List (Order × ℕ)) : ∀ st : Matching,
    (recordAll pair st fs).trades = st.trades ++ fs.map (fillTrade pair st.order) := by
  induction fs with
  | nil => intro st; simp
  | cons f fs ih =>
      intro st
      have hrec : fillTrade pair (record pair st f).order = fillTrade pair st.order := rfl
      rw [recordAll_cons, ih, hrec]
      simp [record]

theorem recordAll_updates (pair : Pair) (fs : List (Order × ℕ)) : ∀ st : Matching,
    (recordAll pair st fs).updates = st.updates ++ fs.map fillUpdate := by
  induction fs with
  | nil => intro st; simp
  | cons f fs ih =>
      intro st
      rw [recordAll_cons, ih]
      simp [record]

/-- What the fills write into the book does not depend on who takes them. -/
theorem recordAll_book (pair : Pair) (fs : List (Order × ℕ)) : ∀ {st st' : Matching},
    st.book = st'.book → (recordAll pair st fs).book = (recordAll pair st' fs).book := by
  induction fs with
  | nil => exact fun h => h
  | cons f fs ih =>
      intro st st' h
      refine ih ?_
      rw [record, record, h]

theorem recordAll_dirtyLevels (pair : Pair) (fs : List (Order × ℕ)) : ∀ (st : Matching) x,
    x ∈ (recordAll pair st fs).book.dirtyLevels ↔
      x ∈ st.book.dirtyLevels ∨ ∃ f ∈ fs, x = (f.1.side, f.1.price) := by
  induction fs with
  | nil => intro st x; simp
  | cons f fs ih =>
      intro st x
      rw [recordAll_cons, ih]
      simp only [record, Finset.mem_insert, List.mem_cons, exists_eq_or_imp]
      tauto

theorem recordAll_lastTradePrice (pair : Pair) (fs : List (Order × ℕ)) :
    ∀ st : Matching, (recordAll pair st fs).book.lastTradePrice
      = (fs.getLast?.map fun f => f.1.price).or st.book.lastTradePrice := by
  induction fs using List.reverseRecOn with
  | nil => intro st; rfl
  | append_singleton fs f ih =>
      intro st
      rw [recordAll_append]
      simp [record]

/-- Recording drops the index entries of the orders that were used up. -/
theorem recordAll_orderIndex (pair : Pair) (fs : List (Order × ℕ)) :
    ∀ (st : Matching) (id : UInt64), (recordAll pair st fs).book.orderIndex.lookup id
      = if ∃ f ∈ fs, f.1.id = id ∧ f.2 = f.1.units then none
        else st.book.orderIndex.lookup id := by
  induction fs with
  | nil => intro st id; simp
  | cons f fs ih =>
      intro st id
      rw [recordAll_cons, ih]
      by_cases hfs : ∃ f' ∈ fs, f'.1.id = id ∧ f'.2 = f'.1.units
      · have hcons : ∃ f' ∈ f :: fs, f'.1.id = id ∧ f'.2 = f'.1.units := by
          obtain ⟨f', hf', h⟩ := hfs
          exact ⟨f', List.mem_cons_of_mem _ hf', h⟩
        rw [if_pos hfs, if_pos hcons]
      · rw [if_neg hfs]
        simp only [record]
        by_cases hf : f.2 = f.1.units
        · rw [if_pos hf, lookup_erase_ite]
          by_cases hid : id = f.1.id
          · rw [if_pos hid, if_pos ⟨f, List.mem_cons_self, hid.symm, hf⟩]
          · rw [if_neg hid, if_neg]
            rintro ⟨f', hf', hid', hu⟩
            rcases List.mem_cons.mp hf' with rfl | hf'
            · exact hid hid'.symm
            · exact hfs ⟨f', hf', hid', hu⟩
        · rw [if_neg hf, if_neg]
          rintro ⟨f', hf', hid', hu⟩
          rcases List.mem_cons.mp hf' with rfl | hf'
          · exact hf hu
          · exact hfs ⟨f', hf', hid', hu⟩

/-! ## `add_order` -/

section AddOrder

variable {book : OrderBook} {orderId : UInt64} {accountId : AccountId} {req : OrderRequest}

/-- What `add_order` answers, given the drained deltas. -/
def OrderBook.response (book : OrderBook) (orderId : UInt64) (accountId : AccountId)
    (req : OrderRequest) (bookDeltas : List LevelDelta) : MatchResponse where
  orderId := orderId
  trades := (book.fills orderId accountId req).map
    (fillTrade req.pair (req.toOrder orderId accountId))
  updates := (book.fills orderId accountId req).map fillUpdate ++
    takerUpdate (book.taker orderId accountId req)
  takerRemaining := (book.taker orderId accountId req).remainingSize
  bookDeltas := bookDeltas

/-- Matching changes nothing of the incoming order but its remaining size. -/
theorem taker_eq (book : OrderBook) (orderId : UInt64) (accountId : AccountId)
    (req : OrderRequest) : ∃ rem, book.taker orderId accountId req
      = { req.toOrder orderId accountId with remainingSize := rem } :=
  recordAll_static req.pair _ (book.start orderId accountId req)

@[simp] theorem taker_id : (book.taker orderId accountId req).id = orderId := by
  obtain ⟨rem, h⟩ := taker_eq book orderId accountId req
  rw [h]; rfl

/-- What is left of the incoming order: its size less what it could reach. -/
theorem taker_units (book : OrderBook) (orderId : UInt64) (accountId : AccountId)
    (req : OrderRequest) : (book.taker orderId accountId req).units
      = req.size.toNat - Greedy.total Order.units
          (reach (req.toOrder orderId accountId).crosses
            (bestFirst req.side (book.side req.side.opposite))) :=
  recordAll_units req.pair (rfl : (book.start orderId accountId req).order.units = _)

theorem taker_sized : (book.taker orderId accountId req).Sized := by
  obtain ⟨rem, h⟩ := taker_eq book orderId accountId req
  have hu := taker_units book orderId accountId req
  rw [h] at hu ⊢
  rw [Order.Sized, UInt64.le_iff_toNat_le]
  change rem.toNat = _ at hu
  change rem.toNat ≤ req.size.toNat
  omega

/-- **`add_order` in one equation**: the placed book, then the drain of its
dirty levels. -/
theorem addOrder_eq (b : Build) (o : DrainOrder (Side × UInt64))
    (hs : ∀ l ∈ (book.side req.side.opposite).entries, ∀ m ∈ l.2, m.Sized) :
    book.addOrder b o orderId accountId req
      = (book.placed orderId accountId req).takeDirtyLevels b o >>= fun r =>
          .ok (r.1, book.response orderId accountId req r.2) := by
  have hlen : (book.start orderId accountId req).levels.length
      < book.bids.entries.length + book.asks.entries.length + 1 := by
    change (bestFirst req.side (book.side req.side.opposite)).length < _
    cases req.side <;> simp only [bestFirst, Side.opposite, OrderBook.side,
      List.length_reverse] <;> omega
  have hloop := matchLoop_eq b req.pair hlen fun l hl => hs l (mem_bestFirst.mp hl)
  unfold OrderBook.addOrder
  change matchLoop b req.pair _ (book.start orderId accountId req) >>= _ = _
  rw [hloop, ok_bind]
  dsimp only
  have hsub : b.sub (book.taker orderId accountId req).size
      (book.taker orderId accountId req).remainingSize
      = .ok ((book.taker orderId accountId req).size
          - (book.taker orderId accountId req).remainingSize) :=
    Build.sub_eq taker_sized
  change b.sub (book.taker orderId accountId req).size
    (book.taker orderId accountId req).remainingSize >>= _ = _
  rw [hsub, ok_bind]
  have htrades : ((book.start orderId accountId req).matched req.pair).trades
      = (book.fills orderId accountId req).map
          (fillTrade req.pair (req.toOrder orderId accountId)) :=
    (recordAll_trades req.pair _ (book.start orderId accountId req)).trans
      (List.nil_append _)
  have hupdates : ((book.start orderId accountId req).matched req.pair).updates
      = (book.fills orderId accountId req).map fillUpdate :=
    (recordAll_updates req.pair _ (book.start orderId accountId req)).trans
      (List.nil_append _)
  rw [htrades, hupdates]
  change (book.placed orderId accountId req).takeDirtyLevels b o >>= _ = _
  refine congrArg _ (funext fun r => ?_)
  have hresp : book.response orderId accountId req r.2
      = { book.response orderId accountId req r.2 with
          orderId := (book.taker orderId accountId req).id } := by
    rw [taker_id]; rfl
  rw [pure_eq_ok, hresp]
  rfl

end AddOrder

end MatchingEngine
