import MatchingEngine.Returns

/-!
# SelfTrade: the guard covers the match loop

`would_self_trade` scans the levels the match loop is going to take from, in
the same order, and stops where the order is used up. So when it answers no,
none of the fills has a maker of the taker's account (`scan_walk`), and with
the guard on no account ever trades with itself (`no_self_trade`). When it
answers yes some fill has (`scan_true`), but for an order of size 0: the scan
looks at one maker before it asks whether anything is left to trade
(`self_trade_precise_iff`).
-/

namespace MatchingEngine

open RustArith HashModel

/-! ## The scan and the walk -/

section Scan

variable {accountId : AccountId}

/-- **One queue**: a scan that found nothing either went through the whole
queue, or stopped where the demand was met. -/
theorem scanQueue_walk {queue : List Order} : ∀ {remaining : UInt64} (rest : List Order),
    match scanQueue accountId queue remaining with
    | .error true => True
    | .error false =>
        ∀ f ∈ Greedy.walk Order.units remaining.toNat (queue ++ rest), f.1.accountId ≠ accountId
    | .ok left => left.toNat = remaining.toNat - Greedy.total Order.units queue ∧
        ∀ m ∈ queue, m.accountId ≠ accountId := by
  induction queue with
  | nil =>
      intro remaining rest
      exact ⟨rfl, fun m hm => nomatch hm⟩
  | cons m queue ih =>
      intro remaining rest
      unfold scanQueue
      by_cases hown : m.accountId = accountId
      · simp [hown]
      · rw [if_neg hown]
        dsimp only
        have hleft := saturatingSub_toNat remaining m.remainingSize
        by_cases hzero : saturatingSub remaining m.remainingSize = 0
        · rw [if_pos hzero]
          -- the demand is met here: nobody behind this order is asked
          intro f hf
          have hmet : remaining.toNat - m.units = 0 := by
            rw [hzero] at hleft
            exact hleft.symm
          rw [List.cons_append, Greedy.walk] at hf
          split at hf
          · cases hf
          · rw [hmet, Greedy.walk_zero, List.mem_singleton] at hf
            rw [hf]
            exact hown
        · rw [if_neg hzero]
          have ih := @ih (saturatingSub remaining m.remainingSize) rest
          split
          · trivial
          · rename_i hscan
            rw [hscan] at ih
            intro f hf
            rw [List.cons_append, Greedy.walk] at hf
            split at hf
            · cases hf
            · rcases List.mem_cons.mp hf with rfl | hf
              · exact hown
              · exact ih f (by rw [hleft]; exact hf)
          · rename_i left hscan
            rw [hscan] at ih
            obtain ⟨hunits, hothers⟩ := ih
            refine ⟨?_, fun x hx => ?_⟩
            · rw [hunits, hleft, Greedy.total_cons, Nat.sub_sub]
              rfl
            · rcases List.mem_cons.mp hx with rfl | hx
              · exact hown
              · exact hothers x hx

/-- **A scan that answers no** covers every fill of the walk. -/
theorem scan_walk {crosses : UInt64 → Bool} {levels : List (UInt64 × List Order)} :
    ∀ {remaining : UInt64}, scan accountId crosses levels remaining = false →
    ∀ f ∈ Greedy.walk Order.units remaining.toNat (reach crosses levels),
      f.1.accountId ≠ accountId := by
  induction levels with
  | nil =>
      intro remaining _ f hf
      rw [show reach crosses [] = [] from rfl, Greedy.walk_nil] at hf
      cases hf
  | cons l levels ih =>
      intro remaining h f hf
      obtain ⟨price, level⟩ := l
      rw [reach_cons] at hf
      rw [scan] at h
      cases hcross : crosses price with
      | false =>
          rw [hcross, if_neg Bool.false_ne_true, Greedy.walk_nil] at hf
          cases hf
      | true =>
          rw [hcross] at hf h
          rw [if_pos rfl] at hf
          have hqueue := @scanQueue_walk accountId level remaining (reach crosses levels)
          simp only [Bool.not_true, Bool.false_eq_true, if_false] at h
          cases hscan : scanQueue accountId level remaining with
          | error found =>
              rw [hscan] at h hqueue
              cases found with
              | true => cases h
              | false => exact hqueue f hf
          | ok left =>
              rw [hscan] at h hqueue
              rw [Greedy.walk_append, List.mem_append] at hf
              rcases hf with hf | hf
              · exact hqueue.2 f.1 (Greedy.mem_walk Order.units hf).1
              · exact ih h f (by rw [hqueue.1]; exact hf)

/-- Who leaves something of the demand leaves more than nothing. -/
theorem scanQueue_left {queue : List Order} : ∀ {remaining left : UInt64}, 0 < remaining.toNat →
    scanQueue accountId queue remaining = .ok left → 0 < left.toNat := by
  induction queue with
  | nil =>
      intro remaining left hpos h
      cases h
      exact hpos
  | cons m queue ih =>
      intro remaining left hpos h
      unfold scanQueue at h
      split at h
      · cases h
      · dsimp only at h
        split at h
        · cases h
        · rename_i hne
          refine ih (Nat.pos_of_ne_zero fun hzero => hne ?_) h
          exact UInt64.toNat_inj.mp hzero

/-- **One queue**: a scan that found an order of the account found one that is
asked for. -/
theorem scanQueue_true {queue : List Order} : ∀ {remaining : UInt64} (rest : List Order),
    0 < remaining.toNat → scanQueue accountId queue remaining = .error true →
    ∃ f ∈ Greedy.walk Order.units remaining.toNat (queue ++ rest), f.1.accountId = accountId := by
  induction queue with
  | nil =>
      intro remaining rest _ h
      cases h
  | cons m queue ih =>
      intro remaining rest hpos h
      unfold scanQueue at h
      rw [List.cons_append, Greedy.walk, if_neg hpos.ne']
      by_cases hown : m.accountId = accountId
      · exact ⟨_, List.mem_cons_self, hown⟩
      · rw [if_neg hown] at h
        dsimp only at h
        split at h
        · cases h
        · rename_i hne
          have hleft := saturatingSub_toNat remaining m.remainingSize
          have hpos' : 0 < (saturatingSub remaining m.remainingSize).toNat :=
            Nat.pos_of_ne_zero fun hzero => hne (UInt64.toNat_inj.mp hzero)
          obtain ⟨f, hf, hmaker⟩ := ih rest hpos' h
          rw [hleft] at hf
          exact ⟨f, List.mem_cons_of_mem _ hf, hmaker⟩

/-- **A scan that answers yes** for an order that asks for something names a
fill of the walk. -/
theorem scan_true {crosses : UInt64 → Bool} {levels : List (UInt64 × List Order)} :
    ∀ {remaining : UInt64}, 0 < remaining.toNat → scan accountId crosses levels remaining = true →
    ∃ f ∈ Greedy.walk Order.units remaining.toNat (reach crosses levels),
      f.1.accountId = accountId := by
  induction levels with
  | nil => exact fun _ h => nomatch h
  | cons l levels ih =>
      intro remaining hpos h
      obtain ⟨price, level⟩ := l
      rw [reach_cons]
      rw [scan] at h
      cases hcross : crosses price with
      | false => rw [hcross] at h; cases h
      | true =>
          rw [hcross] at h
          rw [if_pos rfl]
          simp only [Bool.not_true, Bool.false_eq_true, if_false] at h
          cases hscan : scanQueue accountId level remaining with
          | error found =>
              rw [hscan] at h
              cases found with
              | true => exact scanQueue_true (reach crosses levels) hpos hscan
              | false => cases h
          | ok left =>
              rw [hscan] at h
              have hqueue := @scanQueue_walk accountId level remaining (reach crosses levels)
              rw [hscan] at hqueue
              obtain ⟨f, hf, hmaker⟩ := ih (scanQueue_left hpos hscan) h
              rw [Greedy.walk_append]
              exact ⟨f, List.mem_append_right _ (hqueue.1 ▸ hf), hmaker⟩

/-- An order that asks for nothing is stopped by the first maker alone. -/
theorem scan_zero {crosses : UInt64 → Bool} {levels : List (UInt64 × List Order)}
    (hne : ∀ l ∈ levels, l.2 ≠ []) : scan accountId crosses levels 0 = true
      ↔ ∃ m, (reach crosses levels).head? = some m ∧ m.accountId = accountId := by
  cases levels with
  | nil => simp [scan, reach]
  | cons l levels =>
      obtain ⟨price, level⟩ := l
      rw [scan, reach_cons]
      cases hcross : crosses price with
      | false => simp
      | true =>
          cases level with
          | nil => exact absurd rfl (hne _ List.mem_cons_self)
          | cons m queue =>
              have hleft : saturatingSub 0 m.remainingSize = 0 := by
                rw [← UInt64.toNat_inj, saturatingSub_toNat]
                exact Nat.zero_sub _
              by_cases hown : m.accountId = accountId
              · simp [scanQueue, hown]
              · simp [scanQueue, hown, hleft]

end Scan

/-- The guard looks at the levels that are crossed, best first. -/
theorem wouldSelfTrade_eq (book : OrderBook) (accountId : AccountId) (orderId : UInt64)
    (req : OrderRequest) : book.wouldSelfTrade accountId req
      = scan accountId (req.toOrder orderId accountId).crosses
          (bestFirst req.side (book.side req.side.opposite)) req.size := by
  unfold OrderBook.wouldSelfTrade
  dsimp only
  cases hside : req.side with
  | bid =>
      have hcross : (fun p => decide (req.orderType = .market) || decide (p ≤ req.price))
          = (req.toOrder orderId accountId).crosses := by
        funext p
        cases htype : req.orderType <;> simp [OrderRequest.toOrder, Order.crosses, hside, htype]
      rw [hcross]
      rfl
  | ask =>
      have hcross : (fun p => decide (req.orderType = .market) || decide (p ≥ req.price))
          = (req.toOrder orderId accountId).crosses := by
        funext p
        cases htype : req.orderType <;> simp [OrderRequest.toOrder, Order.crosses, hside, htype]
      rw [hcross]
      rfl

/-! ## The guard -/

/-- An order that is let through by the guard would not trade with itself. -/
theorem wouldSelfTrade_of_checked {e : Engine} {accountId : AccountId} {req : OrderRequest}
    (hguard : e.limits.preventSelfTrade = true) (hcheck : e.checkOrder accountId req = none)
    {book : OrderBook} (hbook : e.books.lookup req.pair = some book) :
    book.wouldSelfTrade accountId req = false := by
  by_contra hself
  rw [Bool.not_eq_false] at hself
  unfold Engine.checkOrder at hcheck
  rw [hbook] at hcheck
  simp only [hguard, hself, and_self, if_true] at hcheck
  -- whichever check comes first, the order is refused
  split_ifs at hcheck

/-- **No fill of an admitted order is the taker's own.** -/
theorem MatchTrace.fills_others {b : Build} {o : Drains} {e : Engine} {accountId : AccountId}
    {req : OrderRequest} (t : MatchTrace b o e accountId req)
    (hguard : e.limits.preventSelfTrade = true) :
    ∀ f ∈ t.fills, f.1.accountId ≠ accountId := by
  intro f hf
  rw [MatchTrace.fills, OrderBook.fills_eq] at hf
  cases hbook : e.books.lookup req.pair with
  | none =>
      -- there is no book yet, so there is nobody to trade with
      have hempty : bestFirst req.side ((e.book req.pair).side req.side.opposite) = [] := by
        rw [Engine.book, hbook]
        cases req.side <;> rfl
      rw [hempty, show reach _ [] = [] from rfl, Greedy.walk_nil] at hf
      cases hf
  | some book =>
      have hscan := wouldSelfTrade_of_checked hguard t.checked hbook
      rw [wouldSelfTrade_eq book accountId e.nextOrderId] at hscan
      rw [book_of_lookup hbook] at hf
      exact scan_walk hscan f hf

/-! ## The trades of a batch -/

section Trades

variable {b : Build} {o : Drains} {e e' : Engine} {accountId : AccountId}

/-- The trades among the events of a command are those of an admitted order. -/
theorem dispatch_trades {command : Command} {response : CommandResponse} {events : List Event}
    (h : Engine.dispatch b o e accountId command = .ok (e', response, events)) :
    events.filterMap Event.trade? = [] ∨ ∃ req, command = .place req ∧
      ∃ t : PlaceTrace b o e accountId req,
        events.filterMap Event.trade? = t.matchResult.trades := by
  rcases dispatch_books h with
    ⟨_, _, rfl⟩ | ⟨req, rfl, t, _, hanswer⟩ | ⟨req, rfl, t, _, _, _, _, rfl⟩
  · exact .inl rfl
  · unfold PlaceTrace.result at hanswer
    cases hres : t.refundedResult with
    | error reason =>
        rw [hres] at hanswer
        exact .inl (by rw [hanswer.2]; rfl)
    | ok _ =>
        rw [hres] at hanswer
        obtain ⟨_, _, _, hevents⟩ := hanswer
        exact .inr ⟨req, rfl, t, by rw [hevents, placeEvents_trades]⟩
  · exact .inl (cancelEvents_trades _ _ _ _ _)

/-- So are the trades of a batch. -/
theorem apply_trades {clientOrderId : UInt64} {command : Command} {response : CommandResponse}
    {batch : Option EventBatch}
    (h : apply b o e accountId clientOrderId command = .ok (e', response, batch)) :
    batchTrades batch = [] ∨ ∃ dedup req, command = .place req ∧
      ∃ t : PlaceTrace b o (e.keyed dedup) accountId req,
        batchTrades batch = t.matchResult.trades := by
  rcases apply_ok h with ⟨_, _, rfl⟩ | ⟨dedup, e₁, events, bevs, _, hdispatch, hbevs, hend⟩
  · exact .inl rfl
  · rcases hend with ⟨_, rfl, _⟩ | ⟨_, _, _, rfl, _⟩
    · exact .inl rfl
    · have hevents : batchTrades (some { seq := e₁.nextSeq, events := events ++ bevs })
          = events.filterMap Event.trade? := by
        rw [batchTrades, List.filterMap_append, balanceEvents_trades hbevs, List.append_nil]
      rw [hevents]
      rcases dispatch_trades hdispatch with hnil | ⟨req, rfl, t, ht⟩
      · exact .inl hnil
      · exact .inr ⟨dedup, req, rfl, t, ht⟩

end Trades

/-- **No account trades with itself** while the guard is on, in any run of
either build, whatever the other limits are. -/
theorem no_self_trade {b : Build} {limits : Limits} {h : List Record} {e : Engine}
    (hr : Reaches b limits h e) (hguard : limits.preventSelfTrade = true) :
    ∀ t ∈ tradesOf h, t.makerAccount ≠ t.takerAccount := by
  have hboth : (e.Shape ∧ e.limits = limits) ∧
      ∀ t ∈ tradesOf h, t.makerAccount ≠ t.takerAccount := by
    refine hr.invariant (motive := fun h e => (e.Shape ∧ e.limits = limits) ∧
      ∀ t ∈ tradesOf h, t.makerAccount ≠ t.takerAccount)
      ⟨⟨Engine.new_shape limits, rfl⟩, fun t ht => nomatch ht⟩ ?_
    intro h e o a cid cmd e' response batch ih happly
    obtain ⟨⟨hs, hlimits⟩, hold⟩ := ih
    refine ⟨⟨apply_shape hs happly, (apply_limits happly).trans hlimits⟩, fun t ht => ?_⟩
    have hsplit : tradesOf (h ++ [⟨a, cid, cmd, response, batch⟩])
        = tradesOf h ++ batchTrades batch := by simp [tradesOf, Record.trades]
    rw [hsplit, List.mem_append] at ht
    rcases ht with ht | ht
    · exact hold t ht
    · rcases apply_trades happly with hnil | ⟨dedup, req, _, p, htrades⟩
      · rw [hnil] at ht
        cases ht
      · have hkeyed : (e.keyed dedup).limits.preventSelfTrade = true := by
          rw [show (e.keyed dedup).limits = limits from hlimits]
          exact hguard
        rw [htrades, p.trades_eq_fills (hs.of_books rfl)] at ht
        obtain ⟨f, hf, rfl⟩ := List.mem_map.mp ht
        exact p.fills_others hkeyed f hf
  exact hboth.2

/-- The trading run has two trades, and the guard is on by default. -/
theorem no_self_trade_trading :
    (tradesOf (finish .default (runCalls .release .default tradingCalls)).2).length = 2 ∧
      ∀ t ∈ tradesOf (finish .default (runCalls .release .default tradingCalls)).2,
        t.makerAccount ≠ t.takerAccount :=
  ⟨by decide +kernel, no_self_trade (reaches_runCalls tradingCalls_returned) rfl⟩

/-! ## The other way round -/

/-- The order a request meets first: the front of the best level it crosses. -/
def OrderBook.frontMaker (book : OrderBook) (req : OrderRequest) : Option Order :=
  (book.bestPriceQueue (req.toOrder 0 0)).bind fun best => best.2.head?

/-- What `add_order` trades: it returns, unless a debug build cannot sum a level
it changed, and some trade is with an order of the account itself. -/
def OrderBook.TradesOwn (b : Build) (o : DrainOrder (Side × UInt64)) (book : OrderBook)
    (orderId : UInt64) (accountId : AccountId) (req : OrderRequest) : Prop :=
  (b.Room (book.placed orderId accountId req).LevelsFit →
      ∃ r, book.addOrder b o orderId accountId req = .ok r) ∧
    ∀ book' m, book.addOrder b o orderId accountId req = .ok (book', m) →
      ∃ t ∈ m.trades, t.makerAccount = accountId

section Precise

variable {b : Build} {o : DrainOrder (Side × UInt64)} {book : OrderBook} {orderId : UInt64}
  {accountId : AccountId} {req : OrderRequest}

theorem frontMaker_eq (h : SideWF req.side.opposite (book.side req.side.opposite)) :
    book.frontMaker req = (reach (req.toOrder orderId accountId).crosses
      (bestFirst req.side (book.side req.side.opposite))).head? := by
  have hcross : (req.toOrder 0 0).crosses = (req.toOrder orderId accountId).crosses := rfl
  have hside : (req.toOrder 0 0).side = req.side := rfl
  have hbest := bestPriceQueue_eq book (req.toOrder 0 0)
  rw [hside] at hbest
  rw [OrderBook.frontMaker, hbest]
  cases hlevels : bestFirst req.side (book.side req.side.opposite) with
  | nil => rfl
  | cons l levels =>
      obtain ⟨price, queue⟩ := l
      have hqueue : queue ≠ [] :=
        h.nonempty (price, queue) (mem_bestFirst.mp (hlevels ▸ List.mem_cons_self))
      rw [reach_cons, ← hcross]
      by_cases hc : (req.toOrder 0 0).crosses price = true
      · obtain ⟨m, ms, rfl⟩ := List.exists_cons_of_ne_nil hqueue
        simp [hc]
      · simp [hc]

/-- The trades of `add_order` are its fills. -/
theorem tradesOwn_iff (h : SideWF req.side.opposite (book.side req.side.opposite)) :
    book.TradesOwn b o orderId accountId req ↔
      ((∃ r, book.addOrder b o orderId accountId req = .ok r) →
        ∃ f ∈ book.fills orderId accountId req, f.1.accountId = accountId) := by
  have hsized : ∀ l ∈ (book.side req.side.opposite).entries, ∀ m ∈ l.2, m.Sized :=
    fun l hl m hm => (h.rests l hl m hm).sized
  have htrades : ∀ book' m, book.addOrder b o orderId accountId req = .ok (book', m) →
      m.trades = (book.fills orderId accountId req).map
        (fillTrade req.pair (req.toOrder orderId accountId)) := by
    intro book' m hadd
    rw [addOrder_eq b o hsized] at hadd
    obtain ⟨_, _, hadd⟩ := bind_ok.mp hadd
    cases hadd
    rfl
  constructor
  · rintro ⟨_, hown⟩ ⟨⟨book', m⟩, hadd⟩
    obtain ⟨t, ht, hmaker⟩ := hown book' m hadd
    rw [htrades book' m hadd] at ht
    obtain ⟨f, hf, rfl⟩ := List.mem_map.mp ht
    exact ⟨f, hf, hmaker⟩
  · refine fun hown => ⟨fun hfit => addOrder_returns h hfit o, fun book' m hadd => ?_⟩
    obtain ⟨f, hf, hmaker⟩ := hown ⟨_, hadd⟩
    rw [htrades book' m hadd]
    exact ⟨_, List.mem_map_of_mem hf, hmaker⟩

/-- An order of size 0 goes through `add_order`, and trades nothing. -/
theorem addOrder_zero (hwf : book.WF) (hsize : req.size = 0) :
    (∃ r, book.addOrder b o orderId accountId req = .ok r) ∧
      book.fills orderId accountId req = [] := by
  have hfills : book.fills orderId accountId req = [] := by
    rw [OrderBook.fills_eq, hsize]
    exact Greedy.walk_zero _ _
  have hsized : ∀ l ∈ (book.side req.side.opposite).entries, ∀ m ∈ l.2, m.Sized :=
    fun l hl m hm => ((hwf.side _).rests l hl m hm).sized
  have hdrain : book.takeDirtyLevels b o = .ok (book.drained, []) := by
    unfold OrderBook.takeDirtyLevels
    rw [hwf.clean, DrainOrder.toList_empty]
    rfl
  rw [addOrder_eq b o hsized, placed_zero book orderId accountId hsize, hdrain]
  exact ⟨⟨_, rfl⟩, hfills⟩

/-- **The guard is precise** but for orders of size 0 that meet an order of
their own account. -/
theorem wouldSelfTrade_iff (hwf : book.WF) :
    (book.wouldSelfTrade accountId req = true → book.TradesOwn b o orderId accountId req)
      ↔ 0 < req.size ∨ ∀ m, book.frontMaker req = some m → m.accountId ≠ accountId := by
  have hside := hwf.side req.side.opposite
  have hne : ∀ l ∈ bestFirst req.side (book.side req.side.opposite), l.2 ≠ [] :=
    fun l hl => hside.nonempty l (mem_bestFirst.mp hl)
  rw [wouldSelfTrade_eq book accountId orderId req, tradesOwn_iff hside]
  constructor
  · intro hprecise
    by_contra hno
    rw [not_or, not_forall] at hno
    obtain ⟨hsize, m, hfront⟩ := hno
    rw [Classical.not_imp, not_not] at hfront
    have hzero : req.size = 0 := by
      rw [← UInt64.toNat_inj]
      exact Nat.eq_zero_of_not_pos fun hpos => hsize (UInt64.lt_iff_toNat_lt.mpr hpos)
    rw [frontMaker_eq hside] at hfront
    obtain ⟨hreturns, hnone⟩ := @addOrder_zero b o book orderId accountId req hwf hzero
    obtain ⟨f, hf, _⟩ := hprecise (by rw [hzero]; exact (scan_zero hne).mpr ⟨m, hfront⟩) hreturns
    rw [hnone] at hf
    cases hf
  · rintro hcond hscan _
    rw [OrderBook.fills_eq]
    rcases hcond with hpos | hfront
    · exact scan_true (UInt64.lt_iff_toNat_lt.mp hpos) hscan
    · by_cases hpos : 0 < req.size.toNat
      · exact scan_true hpos hscan
      · have hzero : req.size = 0 := UInt64.toNat_inj.mp (Nat.eq_zero_of_not_pos hpos)
        rw [hzero] at hscan
        obtain ⟨m, hm, hown⟩ := (scan_zero hne).mp hscan
        exact absurd hown (hfront m ((frontMaker_eq hside).trans hm))

end Precise

/-- What is refused as a self-trade is what the guard answered yes to. -/
theorem placeOrder_selfTrade {b : Build} {o : Drains} {e e' : Engine} {accountId : AccountId}
    {req : OrderRequest} (h : e.placeOrder b o accountId req = .ok (e', .error .selfTrade)) :
    (e.book req.pair).wouldSelfTrade accountId req = true := by
  have hcheck : e.checkOrder accountId req = some .selfTrade := by
    rcases placeOrder_refused h with hcheck | hreason | hreason
    · exact hcheck
    · cases hreason
    · cases hreason
  by_contra hno
  unfold Engine.checkOrder at hcheck
  cases hbook : e.books.lookup req.pair with
  | none =>
      rw [hbook] at hcheck
      split_ifs at hcheck
      all_goals cases hcheck
  | some book =>
      -- a guard that says no leaves the other two reasons
      rw [book_of_lookup hbook] at hno
      rw [hbook] at hcheck
      simp only [hno, and_false, if_false] at hcheck
      split_ifs at hcheck
      all_goals cases hcheck

/-- **When the guard is precise**: in every reachable state it answers yes only
to an order that `add_order` would match with one of its own account, and so
does the engine when it refuses one, if and only if the order asks for something
or does not meet an order of its own account first. -/
theorem self_trade_precise_iff {b : Build} {limits : Limits} {h : List Record} {e : Engine}
    (hr : Reaches b limits h e) (o : Drains) (pair : Pair) (orderId : UInt64)
    (accountId : AccountId) (req : OrderRequest) :
    (((e.book pair).wouldSelfTrade accountId req = true →
        (e.book pair).TradesOwn b o.levels orderId accountId req)
      ↔ 0 < req.size ∨ ∀ m, (e.book pair).frontMaker req = some m → m.accountId ≠ accountId) ∧
    ∀ e', e.placeOrder b o accountId req = .ok (e', .error .selfTrade) →
      ((e.book req.pair).TradesOwn b o.levels e.nextOrderId accountId req
        ↔ 0 < req.size ∨
          ∀ m, (e.book req.pair).frontMaker req = some m → m.accountId ≠ accountId) := by
  refine ⟨wouldSelfTrade_iff (hr.shape.wf pair), fun e' hplace => ?_⟩
  rw [← @wouldSelfTrade_iff b o.levels _ e.nextOrderId accountId req (hr.shape.wf req.pair)]
  exact ⟨fun hown _ => hown, fun hprecise => hprecise (placeOrder_selfTrade hplace)⟩

/-- What account 2 offers against its own bid. -/
def sellBack (size : UInt64) : OrderRequest :=
  { pair := { base := .SOL, quote := .USD }, orderType := .limit, side := .ask, price := 11,
    size := size }

/-- One unit would be taken from the account's own bid. -/
theorem self_trade_precise_trading :
    ((finish .default (runCalls .release .default tradingCalls)).1.book
        { base := .SOL, quote := .USD }).TradesOwn .release Drains.sorted.levels 4 2 (sellBack 1) :=
  (self_trade_precise_iff (reaches_runCalls tradingCalls_returned) .sorted
    { base := .SOL, quote := .USD } 4 2 (sellBack 1)).1.mpr (.inl (by decide)) (by decide +kernel)

/-- No unit would be taken from anybody, and is refused as a self-trade. -/
theorem self_trade_of_nothing :
    Reaches .release .default (finish .default (runCalls .release .default tradingCalls)).2
        (finish .default (runCalls .release .default tradingCalls)).1 ∧
      okWith (apply .release .sorted
        (finish .default (runCalls .release .default tradingCalls)).1 2 4 (.place (sellBack 0)))
        (fun r => r.2.1 = .place (.error .selfTrade)) = true ∧
      ((finish .default (runCalls .release .default tradingCalls)).1.book
        { base := .SOL, quote := .USD }).wouldSelfTrade 2 (sellBack 0) = true ∧
      okWith (((finish .default (runCalls .release .default tradingCalls)).1.book
          { base := .SOL, quote := .USD }).addOrder .release Drains.sorted.levels 4 2 (sellBack 0))
        (fun r => r.2.trades = []) = true :=
  ⟨reaches_runCalls tradingCalls_returned, by decide +kernel, by decide +kernel,
    by decide +kernel⟩

end MatchingEngine
