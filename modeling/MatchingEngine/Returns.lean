import MatchingEngine.Safety

/-!
# Returns: when a command returns

What has to fit for each function to return. Where a bound is `Build.Room` a
release build does not need it. In a release build only the two `expect`s and
the map lookups could stop a command, and they never do: an order that passes
the checks and is covered by its account goes through
(`placeOrder_release`).
-/

namespace MatchingEngine

open RustArith HashModel Bank

/-! ## The book -/

/-- The aggregate of every level is a word. -/
def OrderBook.LevelsFit (book : OrderBook) : Prop :=
  ∀ s, ∀ l ∈ (book.side s).entries, Greedy.total Order.units l.2 < 2 ^ 64

theorem levelQty_returns {b : Build} {book : OrderBook} (h : b.Room book.LevelsFit)
    (s : Side) (price : UInt64) : ∃ q, book.levelQty b s price = .ok q := by
  unfold OrderBook.levelQty
  split
  · rename_i queue hqueue
    refine Build.sum_returns (h.imp fun hfit => ?_)
    rw [exactSum_units]
    exact hfit s _ (SortedMap.get?_eq_some.mp hqueue)
  · exact ⟨0, rfl⟩

theorem takeDirtyLevels_returns {b : Build} {book : OrderBook} (h : b.Room book.LevelsFit)
    (o : DrainOrder (Side × UInt64)) : ∃ r, book.takeDirtyLevels b o = .ok r := by
  have hdrained : b.Room book.drained.LevelsFit := h.imp fun hfit s l hl => by
    rw [OrderBook.drained_side] at hl
    exact hfit s l hl
  have hmap : ∃ ds, (o.toList book.dirtyLevels).mapM (fun key : Side × UInt64 =>
      book.drained.levelQty b key.1 key.2 >>= fun q => pure (key.1, key.2, q)) = .ok ds := by
    refine mapM_returns fun key _ => ?_
    obtain ⟨q, hq⟩ := levelQty_returns hdrained key.1 key.2
    exact ⟨(key.1, key.2, q), by rw [hq]; rfl⟩
  obtain ⟨ds, hds⟩ := hmap
  unfold OrderBook.takeDirtyLevels
  exact ⟨_, bind_ok.mpr ⟨ds, hds, rfl⟩⟩

theorem addOrder_returns {b : Build} {book : OrderBook} {orderId : UInt64}
    {accountId : AccountId} {req : OrderRequest}
    (hs : SideWF req.side.opposite (book.side req.side.opposite))
    (h : b.Room (book.placed orderId accountId req).LevelsFit)
    (o : DrainOrder (Side × UInt64)) :
    ∃ r, book.addOrder b o orderId accountId req = .ok r := by
  obtain ⟨r, hr⟩ := takeDirtyLevels_returns h o
  rw [addOrder_eq b o fun l hl m hm => (hs.rests l hl m hm).sized, hr]
  exact ⟨_, rfl⟩

theorem walkAsks_returns {b : Build} {levels : List (UInt64 × List Order)} :
    b.Room (∀ l ∈ levels, Greedy.total Order.units l.2 < 2 ^ 64) →
    ∀ remaining cost, ∃ r, walkAsks b levels remaining cost = .ok r := by
  induction levels with
  | nil => intro _ remaining cost; exact ⟨_, rfl⟩
  | cons l levels ih =>
      intro h remaining cost
      obtain ⟨p, queue⟩ := l
      have ih := ih (h.imp fun hall l hl => hall l (List.mem_cons_of_mem _ hl))
      have hfit : b.Room (exactSum (queue.map Order.remainingSize) < 2 ^ 64) :=
        h.imp fun hall => by
          rw [exactSum_units]
          exact hall (p, queue) List.mem_cons_self
      obtain ⟨levelQty, hsum⟩ := Build.sum_returns hfit
      unfold walkAsks
      split
      · exact ⟨_, rfl⟩
      · rw [hsum, ok_bind]
        dsimp only
        split
        · exact ⟨_, rfl⟩
        · split
          · exact ⟨_, rfl⟩
          · rw [Build.sub_eq (min_le_left _ _), ok_bind]
            exact ih _ _

theorem OrderBook.LevelsFit.removed {book : OrderBook} (h : book.LevelsFit) {side : Side}
    {price : UInt64} {queue queue' : List Order} (id : UInt64)
    (hqueue : (book.side side).get? price = some queue)
    (hle : Greedy.total Order.units queue' ≤ Greedy.total Order.units queue) :
    (book.removed side price queue' id).LevelsFit := by
  intro s l hl
  rcases side.eq_or_opposite s with rfl | rfl
  · rw [OrderBook.removed_side_self] at hl
    rcases mem_putQueue.mp hl with ⟨rfl, _⟩ | ⟨_, hl⟩
    · exact hle.trans_lt (h _ _ (SortedMap.get?_eq_some.mp hqueue))
    · exact h _ l hl
  · rw [OrderBook.removed_side_opposite] at hl
    exact h _ l hl

theorem cancelOrder_returns {b : Build} {book : OrderBook} (h : b.Room book.LevelsFit)
    (o : DrainOrder (Side × UInt64)) (accountId : AccountId) (id : UInt64) :
    ∃ r, book.cancelOrder b o accountId id = .ok r := by
  unfold OrderBook.cancelOrder
  split
  · exact ⟨_, rfl⟩
  · rename_i owner side price _
    split
    · exact ⟨_, rfl⟩
    · split
      · exact ⟨_, rfl⟩
      · rename_i queue hqueue
        split
        · exact ⟨_, rfl⟩
        · rename_i i _
          split
          · exact ⟨_, rfl⟩
          · have hle : Greedy.total Order.units (queue.eraseIdx i)
                ≤ Greedy.total Order.units queue :=
              ((List.eraseIdx_sublist queue i).map _).sum_le_sum fun _ _ => Nat.zero_le _
            obtain ⟨r, hr⟩ := takeDirtyLevels_returns
              (h.imp fun hfit => hfit.removed id hqueue hle) o
            refine ⟨_, bind_ok.mpr ⟨r, ?_, rfl⟩⟩
            cases side <;> exact hr

/-! ## An order, in a release build -/

section Ledger

variable {l : Ledger} {a : AccountId} {c : Currency} {x : UInt64}

theorem credit_release : ∃ l', l.modify a c (Balance.credit .release x) = .ok l' := by
  unfold Ledger.modify Balance.credit
  rw [Build.add_returns (.inl rfl)]
  exact ⟨_, rfl⟩

theorem spend_release : ∃ l', l.modify a c (Balance.spend .release x) = .ok l' := by
  unfold Ledger.modify Balance.spend
  rw [Build.sub_returns (.inl rfl)]
  exact ⟨_, rfl⟩

theorem reserve_release (h : x.toNat ≤ l.bank.avail a c) :
    ∃ l', l.reserve .release a c x = .ok (l', .ok ()) := by
  have hge : ¬ (l.balance a c).available < x := by
    rw [UInt64.lt_iff_toNat_lt]
    exact not_lt.mpr h
  unfold Ledger.reserve
  dsimp only
  rw [if_neg hge, Build.sub_returns (.inl rfl), ok_bind, Build.add_returns (.inl rfl)]
  exact ⟨_, rfl⟩

theorem release_release : ∃ r, l.release .release a c x = .ok r := by
  unfold Ledger.release
  dsimp only
  split
  · exact ⟨_, rfl⟩
  · rw [Build.sub_returns (.inl rfl), ok_bind, Build.add_returns (.inl rfl)]
    exact ⟨_, rfl⟩

theorem settleBalances_release (l : Ledger) (currency quote : Currency) (t : Trade)
    (cost : UInt64) : ∃ l', l.settleBalances .release currency quote t cost = .ok l' := by
  unfold Ledger.settleBalances
  cases t.takerSide with
  | bid =>
      obtain ⟨l₁, h₁⟩ := spend_release (l := l) (a := t.takerAccount) (c := quote) (x := cost)
      obtain ⟨l₂, h₂⟩ :=
        credit_release (l := l₁) (a := t.takerAccount) (c := currency) (x := t.qty)
      obtain ⟨l₃, h₃⟩ := credit_release (l := l₂) (a := t.makerAccount) (c := quote) (x := cost)
      obtain ⟨l₄, h₄⟩ :=
        spend_release (l := l₃) (a := t.makerAccount) (c := currency) (x := t.qty)
      exact ⟨l₄, bind_ok.mpr ⟨l₁, h₁, bind_ok.mpr ⟨l₂, h₂, bind_ok.mpr ⟨l₃, h₃, h₄⟩⟩⟩⟩
  | ask =>
      obtain ⟨l₁, h₁⟩ := credit_release (l := l) (a := t.takerAccount) (c := quote) (x := cost)
      obtain ⟨l₂, h₂⟩ :=
        spend_release (l := l₁) (a := t.takerAccount) (c := currency) (x := t.qty)
      obtain ⟨l₃, h₃⟩ := spend_release (l := l₂) (a := t.makerAccount) (c := quote) (x := cost)
      obtain ⟨l₄, h₄⟩ :=
        credit_release (l := l₃) (a := t.makerAccount) (c := currency) (x := t.qty)
      exact ⟨l₄, bind_ok.mpr ⟨l₁, h₁, bind_ok.mpr ⟨l₂, h₂, bind_ok.mpr ⟨l₃, h₃, h₄⟩⟩⟩⟩

/-- Whatever multiplies to a word settles. -/
theorem settleTrades_release {pair : Pair} {ts : List Trade} : ∀ {l : Ledger},
    (∀ t ∈ ts, t.cost < 2 ^ 64) → ∃ l', settleTrades .release pair ts l = .ok l' := by
  induction ts with
  | nil => intro l _; exact ⟨l, rfl⟩
  | cons t ts ih =>
      intro l hword
      obtain ⟨cost, hcost, _⟩ := tradeCost_eq (hword t List.mem_cons_self)
      obtain ⟨l₁, h₁⟩ := settleBalances_release l pair.base pair.quote t cost
      have hsettle : ∃ l₂, l.settle .release pair t = .ok l₂ :=
        ⟨_, bind_ok.mpr ⟨cost, hcost, bind_ok.mpr ⟨l₁, h₁, rfl⟩⟩⟩
      obtain ⟨l₂, h₂⟩ := hsettle
      obtain ⟨l', h'⟩ := ih (l := l₂) fun t' ht' => hword t' (List.mem_cons_of_mem _ ht')
      exact ⟨l', bind_ok.mpr ⟨l₂, h₂, h'⟩⟩

theorem releaseMarketSell_release (req : OrderRequest) (rem : UInt64) :
    ∃ r, releaseMarketSell .release l a req rem = .ok r := by
  unfold releaseMarketSell
  split
  · exact release_release
  · exact ⟨_, rfl⟩

theorem tradeSurplus_release (req : OrderRequest) (t : Trade) :
    ∃ s, tradeSurplus .release req t = .ok s :=
  ⟨_, bind_ok.mpr ⟨_, Build.sub_returns (.inl rfl), Build.mul_returns (.inl rfl)⟩⟩

theorem releaseSurplus_release (req : OrderRequest) (ts : List Trade) :
    ∃ r, releaseSurplus .release l a req ts = .ok r := by
  unfold releaseSurplus
  split
  · obtain ⟨xs, hxs⟩ := mapM_returns fun t (_ : t ∈ ts) => tradeSurplus_release req t
    have hsum : ∃ s, Build.release.sum xs = .ok s := Build.sum_returns (.inl rfl)
    obtain ⟨s, hs⟩ := hsum
    rw [hxs, ok_bind, hs, ok_bind]
    split
    · exact release_release
    · exact ⟨_, rfl⟩
  · exact ⟨_, rfl⟩

end Ledger

theorem placeResponse_release (m : MatchResponse) :
    ∃ p, placeResponse .release m = .ok p := by
  have hsum : ∀ xs, ∃ z, Build.release.sum xs = .ok z := fun _ => Build.sum_returns (.inl rfl)
  obtain ⟨filledQty, hqty⟩ := hsum (m.trades.map Trade.qty)
  obtain ⟨costs, hcosts⟩ := mapM_returns fun t (_ : t ∈ m.trades) =>
    (⟨_, Build.mul_returns (.inl rfl)⟩ : ∃ c, Build.release.mul t.qty t.price = .ok c)
  obtain ⟨totalCost, htotal⟩ := hsum costs
  exact ⟨_, bind_ok.mpr ⟨filledQty, hqty, bind_ok.mpr ⟨costs, hcosts,
    bind_ok.mpr ⟨totalCost, htotal, rfl⟩⟩⟩⟩

/-- A trace is the whole of `place_order`. -/
theorem PlaceTrace.placeOrder_eq {b : Build} {o : Drains} {e : Engine} {accountId : AccountId}
    {req : OrderRequest} (t : PlaceTrace b o e accountId req) :
    e.placeOrder b o accountId req = .ok (t.engine, t.result) := by
  unfold Engine.placeOrder
  rw [t.checked]
  dsimp only
  rw [t.quoted, ok_bind]
  dsimp only
  rw [t.reserve, ok_bind]
  dsimp only
  have hmatch : Engine.matchAndSettle b o { e with ledger := t.reserved } accountId req
      = .ok (t.engine, t.result) := by
    refine bind_ok.mpr ⟨_, t.numbered, bind_ok.mpr ⟨_, t.matched, bind_ok.mpr
      ⟨_, t.settle, bind_ok.mpr ⟨_, t.sell, bind_ok.mpr ⟨_, t.refund, ?_⟩⟩⟩⟩⟩
    unfold PlaceTrace.result
    cases hres : t.refundedResult <;> rfl
  exact hmatch

/-- A trace is the whole of `cancel_order`. -/
theorem CancelTrace.cancelOrder_eq {b : Build} {o : Drains} {e : Engine}
    {accountId : AccountId} {req : CancelRequest} (t : CancelTrace b o e accountId req) :
    e.cancelOrder b o accountId req = .ok (t.engine, some (t.pair, t.order, t.bookDeltas)) := by
  unfold Engine.cancelOrder
  rw [t.routed]
  dsimp only
  rw [t.found]
  exact bind_ok.mpr ⟨_, t.removed, bind_ok.mpr ⟨_, t.refund, bind_ok.mpr ⟨_, t.release, rfl⟩⟩⟩

/-- **An admitted order goes through** in a release build. -/
theorem placeOrder_release {o : Drains} {e : Engine} {accountId : AccountId}
    {req : OrderRequest} {q : UInt64} (hs : e.Shape)
    (hcheck : e.checkOrder accountId req = none)
    (hquote : e.quoteAmount .release req = .ok (.ok q))
    (havail : (req.amount q).toNat ≤ e.ledger.bank.avail accountId req.currency) :
    ∃ t : PlaceTrace .release o e accountId req, t.quoteAmount = q := by
  obtain ⟨reserved, hreserve⟩ := reserve_release havail
  rw [← reserveOrder_eq] at hreserve
  have hadd : ∃ r, (e.book req.pair).addOrder .release o.levels e.nextOrderId accountId req
      = .ok r := addOrder_returns ((hs.wf req.pair).side _) (.inl rfl) o.levels
  obtain ⟨⟨book, m⟩, hmatched⟩ := hadd
  let t : MatchTrace .release o e accountId req :=
    ⟨q, reserved, e.nextOrderId + 1, book, m, hcheck, hquote, hreserve,
      Build.add_returns (.inl rfl), hmatched⟩
  have hsettle : ∃ l, settleTrades .release req.pair m.trades reserved = .ok l :=
    settleTrades_release (t.cost_lt hs)
  obtain ⟨settled, hsettled⟩ := hsettle
  obtain ⟨⟨sold, soldResult⟩, hsold⟩ := releaseMarketSell_release (l := settled)
    (a := accountId) req m.takerRemaining
  obtain ⟨⟨refunded, refundedResult⟩, hrefunded⟩ := releaseSurplus_release (l := sold)
    (a := accountId) req m.trades
  exact ⟨⟨t, settled, sold, soldResult, refunded, refundedResult, hsettled, hsold, hrefunded⟩,
    rfl⟩

/-! ## `apply` -/

/-- A new key is recorded. -/
theorem Dedup.insert_fresh {d : Dedup} {accountId : AccountId} {clientOrderId : UInt64}
    (h : (accountId, clientOrderId) ∉ d.seen) :
    ∃ d', d.insert accountId clientOrderId = .ok (d', true) ∧
      ∀ key ∈ d'.seen, key = (accountId, clientOrderId) ∨ key ∈ d.seen := by
  unfold Dedup.insert
  rw [if_neg h]
  dsimp only
  split
  · -- the window has just been added to, so it has a front
    cases hrecent : (d.order.lookup accountId).getD [] ++ [clientOrderId] with
    | nil => exact absurd hrecent (List.append_ne_nil_of_right_ne_nil _ (List.cons_ne_nil _ _))
    | cons evicted recent =>
        exact ⟨_, rfl, fun key hkey => Finset.mem_insert.mp (Finset.mem_of_mem_erase hkey)⟩
  · exact ⟨_, rfl, fun key hkey => Finset.mem_insert.mp hkey⟩

/-- **`apply` returns** when the command does and the batch can be
numbered. -/
theorem apply_eq {b : Build} {o : Drains} {e e₁ : Engine} {accountId : AccountId}
    {clientOrderId : UInt64} {command : Command} {response : CommandResponse}
    {events : List Event} {dedup : Dedup}
    (hdedup : e.dedup.insert accountId clientOrderId = .ok (dedup, true))
    (hdispatch : Engine.dispatch b o (e.keyed dedup) accountId command
      = .ok (e₁, response, events))
    (hdirty : e₁.ledger.DirtyHas) (hseq : b.Room (e₁.nextSeq.toNat + 1 < 2 ^ 64)) :
    ∃ nextSeq batch, apply b o e accountId clientOrderId command
      = .ok ({ e₁ with ledger := { e₁.ledger with dirty := ∅ }, nextSeq := nextSeq },
          response, batch) := by
  obtain ⟨bevs, hbevs⟩ := mapM_returns fun key (hkey : key ∈ o.dirty.toList e₁.ledger.dirty) =>
    balanceEvent_eq (l := { e₁.ledger with dirty := ∅ })
      (hdirty key ((o.dirty.mem_toList _ _).mp hkey))
  unfold apply
  rw [hdedup, ok_bind]
  dsimp only
  have hdispatch' : Engine.dispatch b o { e with dedup := dedup } accountId command = _ :=
    hdispatch
  rw [hdispatch', ok_bind]
  dsimp only [Ledger.takeDirty]
  rw [hbevs, ok_bind]
  split
  · exact ⟨e₁.nextSeq, none, rfl⟩
  · rw [Build.add_returns hseq, ok_bind]
    exact ⟨_, _, rfl⟩

/-- Without a price band and a self-trade guard, only the market is checked. -/
theorem checkOrder_unguarded {e : Engine} {accountId : AccountId} {req : OrderRequest}
    (hvalid : req.pair.isValid = true) (hlisted : req.pair ∈ e.listedPairs)
    (hband : e.limits.priceBandBps = none) (hself : e.limits.preventSelfTrade = false) :
    e.checkOrder accountId req = none := by
  unfold Engine.checkOrder
  rw [if_neg (by simp [hvalid, hlisted])]
  cases e.books.lookup req.pair with
  | none => rfl
  | some book => cases req.orderType <;> simp [hband, hself]

/-- **An admitted order is applied** in a release build, and answered. -/
theorem apply_trace_release {o : Drains} {e : Engine} {accountId : AccountId}
    {clientOrderId : UInt64} {req : OrderRequest} {q : UInt64} (hs : e.Shape)
    (hd : e.ledger.DirtyHas) (hkey : (accountId, clientOrderId) ∉ e.dedup.seen)
    (hcheck : e.checkOrder accountId req = none)
    (hquote : e.quoteAmount .release req = .ok (.ok q))
    (havail : (req.amount q).toNat ≤ e.ledger.bank.avail accountId req.currency) :
    ∃ dedup n, ∃ t : PlaceTrace .release o (e.keyed dedup) accountId req,
      ∃ response events batch,
        apply .release o e accountId clientOrderId (.place req)
          = .ok ({ t.engine with ledger := { t.engine.ledger with dirty := ∅ }, nextSeq := n },
              response, batch) ∧
        PlaceAnswer .release accountId req t.result response events ∧
        ∀ key ∈ dedup.seen, key = (accountId, clientOrderId) ∨ key ∈ e.dedup.seen := by
  obtain ⟨dedup, hdedup, hseen⟩ := Dedup.insert_fresh hkey
  have hs' : (e.keyed dedup).Shape := hs.of_books rfl
  obtain ⟨t, _⟩ := placeOrder_release (o := o) (e := e.keyed dedup) hs' hcheck hquote havail
  have hplace := t.placeOrder_eq
  have hdispatch : ∃ response events, Engine.dispatch .release o (e.keyed dedup) accountId
      (.place req) = .ok (t.engine, response, events) ∧
        PlaceAnswer .release accountId req t.result response events := by
    unfold Engine.dispatch
    dsimp only
    rw [hplace, ok_bind]
    cases t.result with
    | error reason => exact ⟨_, _, rfl, rfl, rfl⟩
    | ok m =>
        obtain ⟨p, hp⟩ := placeResponse_release m
        exact ⟨_, _, bind_ok.mpr ⟨p, hp, rfl⟩, p, hp, rfl, rfl⟩
  obtain ⟨response, events, hdispatch, hanswer⟩ := hdispatch
  obtain ⟨nextSeq, batch, happly⟩ := apply_eq (o := o) hdedup hdispatch
    (dispatch_dirtyHas (e := e.keyed dedup) hd hdispatch) (.inl rfl)
  exact ⟨dedup, nextSeq, t, response, events, batch, happly, hanswer, hseen⟩

/-- What it leaves of the book and of the ids. -/
theorem apply_place_release {o : Drains} {e : Engine} {accountId : AccountId}
    {clientOrderId : UInt64} {req : OrderRequest} {q : UInt64} (hs : e.Shape)
    (hd : e.ledger.DirtyHas) (hkey : (accountId, clientOrderId) ∉ e.dedup.seen)
    (hcheck : e.checkOrder accountId req = none)
    (hquote : e.quoteAmount .release req = .ok (.ok q))
    (havail : (req.amount q).toNat ≤ e.ledger.bank.avail accountId req.currency) :
    ∃ e' response batch,
      apply .release o e accountId clientOrderId (.place req) = .ok (e', response, batch) ∧
      e'.books = e.books.insert req.pair
        ((e.book req.pair).placed e.nextOrderId accountId req).drained ∧
      e'.nextOrderId = e.nextOrderId + 1 ∧ e'.listedPairs = e.listedPairs ∧
      ∀ key ∈ e'.dedup.seen, key = (accountId, clientOrderId) ∨ key ∈ e.dedup.seen := by
  obtain ⟨dedup, n, t, response, _, batch, happly, _, hseen⟩ :=
    apply_trace_release (o := o) hs hd hkey hcheck hquote havail
  have hs' : (e.keyed dedup).Shape := hs.of_books rfl
  refine ⟨_, response, batch, happly, ?_, Build.add_ok t.numbered, rfl, hseen⟩
  exact congrArg (e.books.insert req.pair) (t.book_eq hs').1

/-- **A cancel that found its order is applied** in a release build. -/
theorem apply_cancel_release {o : Drains} {e : Engine} {accountId : AccountId}
    {clientOrderId : UInt64} {req : CancelRequest} {pair : Pair} {before book : OrderBook}
    {order : Order} {bookDeltas : List LevelDelta} (hd : e.ledger.DirtyHas)
    (hkey : (accountId, clientOrderId) ∉ e.dedup.seen)
    (hroute : e.orderPair.lookup req.orderId = some pair)
    (hbook : e.books.lookup pair = some before)
    (hcancel : before.cancelOrder .release o.levels accountId req.orderId
      = .ok (book, some (order, bookDeltas))) :
    ∃ e' batch, apply .release o e accountId clientOrderId (.cancel req)
      = .ok (e', .cancel true, batch) ∧ e'.books = e.books.insert pair book := by
  obtain ⟨dedup, hdedup, _⟩ := Dedup.insert_fresh hkey
  have hrefund : ∃ r, cancelRefund .release pair order = .ok r := by
    unfold cancelRefund
    cases order.side with
    | bid => exact ⟨_, bind_ok.mpr ⟨_, Build.mul_returns (.inl rfl), rfl⟩⟩
    | ask => exact ⟨_, rfl⟩
  obtain ⟨⟨currency, amount⟩, hrefund⟩ := hrefund
  obtain ⟨⟨l, r⟩, hrelease⟩ := release_release (l := e.ledger) (a := order.accountId)
    (c := currency) (x := amount)
  let t : CancelTrace .release o (e.keyed dedup) accountId req :=
    ⟨pair, before, book, order, bookDeltas, currency, amount, l, r, hroute, hbook, hcancel,
      hrefund, hrelease⟩
  have hdispatch : ∃ events, Engine.dispatch .release o (e.keyed dedup) accountId (.cancel req)
      = .ok (t.engine, .cancel true, events) :=
    ⟨_, bind_ok.mpr ⟨_, t.cancelOrder_eq, bind_ok.mpr ⟨_, Build.sub_returns (.inl rfl), rfl⟩⟩⟩
  obtain ⟨events, hdispatch⟩ := hdispatch
  obtain ⟨nextSeq, batch, happly⟩ := apply_eq (o := o) hdedup hdispatch
    (dispatch_dirtyHas (e := e.keyed dedup) hd hdispatch) (.inl rfl)
  exact ⟨_, batch, happly, rfl⟩

end MatchingEngine
