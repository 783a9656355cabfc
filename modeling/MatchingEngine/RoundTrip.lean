import MatchingEngine.Cancellation
import MatchingEngine.SelfTrade

/-!
# RoundTrip: place and cancel is placing what filled

A limit order that comes to rest has taken all it could reach. An order of the
size that filled takes the same (`fills_sized`), passes the same checks
(`checkOrder_sized`), and leaves the book that is left when the remainder is
cancelled (`removed_placed`); what the larger one reserved in excess is what
the cancel releases (`Accounts.release_excess`).
-/

namespace MatchingEngine

open RustArith HashModel Bank

/-- The same request for another size. -/
def OrderRequest.sized (req : OrderRequest) (q : UInt64) : OrderRequest := { req with size := q }

/-- What a limit order gets back depends on its fills alone. -/
theorem givenBack_sized {req : OrderRequest} (hlimit : req.orderType = .limit)
    (fs : List (Order × ℕ)) (q : UInt64) (rem rem' : ℕ) :
    (req.sized q).givenBack fs rem' = req.givenBack fs rem := by
  obtain ⟨pair, orderType, side, price, size⟩ := req
  subst hlimit
  cases side <;> rfl

/-- An order that is filled keeps nothing reserved. -/
theorem kept_zero (req : OrderRequest) : req.kept 0 = 0 := by
  unfold OrderRequest.kept
  split
  · exact Nat.mul_zero _
  · rfl
  · rfl

/-! ## The book -/

section Book

variable {book : OrderBook} {orderId : UInt64} {accountId : AccountId} {req : OrderRequest}
  {q : UInt64}

/-- What an order that stays has filled is all it could reach. -/
theorem total_reach_of_stays (hstay : book.Stays orderId accountId req)
    (hq : q.toNat = ((book.fills orderId accountId req).map Prod.snd).sum) :
    Greedy.total Order.units (reach (req.toOrder orderId accountId).crosses
        (bestFirst req.side (book.side req.side.opposite))) = q.toNat ∧
      q.toNat < req.size.toNat := by
  have hleft := hstay.2
  rw [taker_units] at hleft
  rw [hq, OrderBook.fills_eq, Greedy.sum_walk, min_eq_right (by omega)]
  exact ⟨rfl, by omega⟩

section Sized

variable (hwf : book.WF) (hstay : book.Stays orderId accountId req)
  (hq : q.toNat = ((book.fills orderId accountId req).map Prod.snd).sum)

include hwf hstay hq

theorem fills_sized : book.fills orderId accountId (req.sized q)
    = book.fills orderId accountId req := by
  obtain ⟨htotal, hlt⟩ := total_reach_of_stays hstay hq
  have hpos : ∀ m ∈ reach (req.toOrder orderId accountId).crosses
      (bestFirst req.side (book.side req.side.opposite)), 0 < m.units := by
    intro m hm
    obtain ⟨l, hl, _, hm⟩ := mem_reach hm
    exact (hwf.side _).units_pos _ l hl m hm
  rw [OrderBook.fills_eq, OrderBook.fills_eq, Greedy.walk_of_total_le Order.units hpos (by omega)]
  exact Greedy.walk_of_total_le Order.units hpos htotal.le

theorem swept_sized : book.swept orderId accountId (req.sized q)
    = book.swept orderId accountId req := by
  obtain ⟨htotal, hlt⟩ := total_reach_of_stays hstay hq
  have hpos := (hwf.side req.side.opposite).units_pos req.side
  have hne : ∀ l ∈ bestFirst req.side (book.side req.side.opposite), l.2 ≠ [] :=
    fun l hl => (hwf.side _).nonempty l (mem_bestFirst.mp hl)
  apply bestFirst_inj (s := req.side)
  rw [OrderBook.swept, OrderBook.swept]
  change bestFirst req.side (sweepSide req.side _ q.toNat _) = _
  rw [bestFirst_sweepSide, bestFirst_sweepSide, sweep_of_total_le hpos hne (by omega)]
  exact sweep_of_total_le hpos hne htotal.le

omit hwf in
theorem not_stays_sized : ¬ book.Stays orderId accountId (req.sized q) := by
  rintro ⟨_, hpos⟩
  rw [taker_units] at hpos
  have htotal := (total_reach_of_stays hstay hq).1
  change 0 < q.toNat - Greedy.total Order.units (reach (req.toOrder orderId accountId).crosses
    (bestFirst req.side (book.side req.side.opposite))) at hpos
  omega

/-- **The smaller order leaves what the larger one matched.** -/
theorem placed_sized : book.placed orderId accountId (req.sized q)
    = book.matchedBook orderId accountId req := by
  have hbook : (recordAll req.pair (book.start orderId accountId (req.sized q))
        (book.fills orderId accountId req)).book
      = (recordAll req.pair (book.start orderId accountId req)
        (book.fills orderId accountId req)).book := recordAll_book req.pair _ rfl
  have hmatched : book.matchedBook orderId accountId (req.sized q)
      = (recordAll req.pair (book.start orderId accountId (req.sized q))
          (book.fills orderId accountId (req.sized q))).book.setSide req.side.opposite
        (book.swept orderId accountId (req.sized q)) := rfl
  rw [placed_eq_of_not_stays _ _ _ _ (not_stays_sized hstay hq), hmatched,
    fills_sized hwf hstay hq, swept_sized hwf hstay hq, hbook]
  rfl

/-- The guard has nothing against the smaller order either. -/
theorem wouldSelfTrade_sized (hself : book.wouldSelfTrade accountId req = false) :
    book.wouldSelfTrade accountId (req.sized q) = false := by
  obtain ⟨htotal, _⟩ := total_reach_of_stays hstay hq
  have hfills := fills_sized hwf hstay hq
  rw [wouldSelfTrade_eq book accountId orderId] at hself ⊢
  by_contra hscan
  rw [Bool.not_eq_false] at hscan
  by_cases hpos : 0 < q.toNat
  · obtain ⟨f, hf, hown⟩ := scan_true hpos hscan
    rw [OrderBook.fills_eq, OrderBook.fills_eq] at hfills
    exact scan_walk hself f (hfills ▸ hf) hown
  · -- nothing is reached, so there is no front order to object to
    have hzero : q = 0 := UInt64.toNat_inj.mp (Nat.eq_zero_of_not_pos hpos)
    have hne : ∀ l ∈ bestFirst req.side (book.side req.side.opposite), l.2 ≠ [] :=
      fun l hl => (hwf.side _).nonempty l (mem_bestFirst.mp hl)
    rw [show (req.sized q).size = 0 from hzero] at hscan
    obtain ⟨m, hm, _⟩ := (scan_zero hne).mp hscan
    have hmem := List.mem_of_mem_head? hm
    obtain ⟨l, hl, _, hml⟩ := mem_reach hmem
    have hunits := (hwf.side _).units_pos _ l hl m hml
    have hle : m.units ≤ Greedy.total Order.units _ :=
      List.le_sum_of_mem (List.mem_map_of_mem hmem)
    exact absurd (hle.trans htotal.le) (by omega)

end Sized

/-! ### The remainder -/

variable (hindex : book.orderIndex.lookup orderId = none)

include hindex

theorem matchedBook_fresh : (book.matchedBook orderId accountId req).orderIndex.lookup orderId
    = none := by
  have hlookup : (book.matchedBook orderId accountId req).orderIndex.lookup orderId = _ :=
    (congrArg (Finmap.lookup orderId) (OrderBook.setSide_orderIndex _ _ _)).trans
      (recordAll_orderIndex req.pair _ (book.start orderId accountId req) orderId)
  rw [hlookup]
  split
  · rfl
  · exact hindex

/-- **Without its remainder** the larger order leaves what it matched. -/
theorem removed_placed (hwf : book.WF) (hstay : book.Stays orderId accountId req) :
    ((book.placed orderId accountId req).drained.removed req.side req.price
        (book.queue req.side req.price ++ []) orderId).drained
      = (book.matchedBook orderId accountId req).drained := by
  have hlevels : putQueue (book.joined orderId accountId req) req.price
      (book.queue req.side req.price) = book.side req.side := by
    apply SortedMap.ext_get?
    intro p
    rw [get?_putQueue, OrderBook.joined, if_pos hstay, OrderBook.queue]
    split
    · rename_i hp
      subst hp
      cases hqueue : (book.side req.side).get? req.price with
      | none => rfl
      | some queue =>
          have hne := (hwf.side req.side).nonempty _ (SortedMap.get?_eq_some.mp hqueue)
          rw [Option.getD_some, if_neg hne]
    · rename_i hp
      rw [SortedMap.get?_insert, if_neg hp]
  have herase : ((book.matchedBook orderId accountId req).orderIndex.insert orderId
        { owner := accountId, side := req.side, price := req.price }).erase orderId
      = (book.matchedBook orderId accountId req).orderIndex := by
    apply Finmap.ext_lookup
    intro id
    rw [lookup_erase_ite, lookup_insert_ite]
    split
    · rename_i hid
      rw [hid, matchedBook_fresh hindex]
    · rfl
  have hown := matchedBook_own book orderId accountId req
  rw [List.append_nil, OrderBook.removed, OrderBook.drained_side, placed_own, hlevels, ← hown,
    placed_eq_of_stays _ _ _ _ hstay]
  dsimp only [OrderBook.drained]
  rw [herase]
  cases req.side <;> rfl

end Book

/-! ## The two orders -/

section Place

variable {b : Build} {o : Drains} {e : Engine} {accountId : AccountId} {req : OrderRequest}
  {q : UInt64}

/-- **The checks** that let the larger order through let the smaller one
through. -/
theorem checkOrder_sized (hs : e.Shape)
    (hstay : (e.book req.pair).Stays e.nextOrderId accountId req)
    (hq : q.toNat = (((e.book req.pair).fills e.nextOrderId accountId req).map Prod.snd).sum)
    (hcheck : e.checkOrder accountId req = none) :
    e.checkOrder accountId (req.sized q) = none := by
  have hpair : (req.sized q).pair = req.pair := rfl
  unfold Engine.checkOrder at hcheck ⊢
  rw [hpair]
  cases hbook : e.books.lookup req.pair with
  | none =>
      rw [hbook] at hcheck
      exact hcheck
  | some book =>
      rw [hbook] at hcheck
      have hwf := hs.wf req.pair
      rw [book_of_lookup hbook] at hstay hq hwf
      dsimp only at hcheck ⊢
      split_ifs at hcheck with hlisted hband hself
      refine (if_neg hlisted).trans ((if_neg hband).trans (if_neg ?_))
      rintro ⟨hguard, hsized⟩
      by_cases hlarge : book.wouldSelfTrade accountId req = true
      · exact hself ⟨hguard, hlarge⟩
      · rw [Bool.not_eq_true] at hlarge
        rw [wouldSelfTrade_sized hwf hstay hq hlarge] at hsized
        cases hsized

variable (t : MatchTrace b o e accountId req)

theorem MatchTrace.stays (hlimit : req.orderType = .limit)
    (hlt : (t.fills.map Prod.snd).sum < req.size.toNat) :
    (e.book req.pair).Stays e.nextOrderId accountId req := by
  have hsum := t.fills_add_left
  exact ⟨hlimit, show 0 < t.left by omega⟩

/-- **The smaller order goes through**, under any other key, and fills the
same. -/
theorem MatchTrace.resized (hs : e.Shape) (hb : e.Backed)
    (htotal : ∀ c, e.ledger.bank.total c < 2 ^ 64)
    (hfit : b.Room (e.book req.pair).LevelsFit) (hlimit : req.orderType = .limit)
    (hq : q.toNat = (t.fills.map Prod.snd).sum) (hlt : q.toNat < req.size.toNat) (o' : Drains)
    (dedup : Dedup) : ∃ t' : PlaceTrace b o' (e.keyed dedup) accountId (req.sized q),
      t'.fills = t.fills ∧ t'.matchResult.trades = t.matchResult.trades := by
  have hwf := hs.wf req.pair
  have hstay := t.stays hlimit (hq ▸ hlt)
  have hmul : req.price.toNat * q.toNat < 2 ^ 64 :=
    (Nat.mul_le_mul_left _ hlt.le).trans_lt (t.limit_value_lt hlimit)
  have hquote : (e.keyed dedup).quoteAmount b (req.sized q) = .ok (.ok (req.price * q)) := by
    unfold Engine.quoteAmount
    rw [if_neg (by simp [OrderRequest.sized, hlimit]),
      show checkedMul (req.sized q).price (req.sized q).size = _ from checkedMul_eq hmul]
    rfl
  have havail : ((req.sized q).amount (req.price * q)).toNat
      ≤ e.ledger.bank.avail accountId req.currency := by
    refine le_trans ?_ t.reserved_ok.1
    unfold MatchTrace.amount OrderRequest.amount
    have hside : (req.sized q).side = req.side := rfl
    rw [hside]
    cases req.side with
    | bid =>
        have hvalue := t.value_lt (by simp [hlimit])
        dsimp only
        rw [hvalue, toNat_mul_of_lt hmul]
        exact Nat.mul_le_mul_left _ hlt.le
    | ask => exact hlt.le
  obtain ⟨l, r, hreserve, hok, _⟩ := reserveOrder_returns (b := b) (e := e) htotal accountId
    (req.sized q) (req.price * q)
  rw [hok.mpr havail] at hreserve
  have hplaced :
      b.Room ((e.book req.pair).placed e.nextOrderId accountId (req.sized q)).LevelsFit :=
    hfit.imp fun hfit => hfit.placed hwf (fun _ => hmul) (not_stays_sized hstay hq)
  obtain ⟨⟨book, m⟩, hmatched⟩ := addOrder_returns (hwf.side _) hplaced o'.levels
  have hcheck : e.checkOrder accountId (req.sized q) = none :=
    checkOrder_sized hs hstay hq t.checked
  let t' : MatchTrace b o' (e.keyed dedup) accountId (req.sized q) :=
    ⟨req.price * q, l, t.nextOrderId, book, m, hcheck, hquote, hreserve, t.numbered, hmatched⟩
  have hs' : (e.keyed dedup).Shape := hs.of_books rfl
  obtain ⟨p, hp, _⟩ := t'.completes hs' hb htotal
  have hfills : p.fills = t.fills := fills_sized hwf hstay hq
  refine ⟨p, hfills, ?_⟩
  rw [p.trades_eq_fills hs', t.trades_eq_fills hs, hfills]
  rfl

end Place

/-! ## Place and cancel -/

/-- The next id is in no index. -/
theorem Engine.Indexed.index_fresh {e : Engine} (hi : e.Indexed) (pair : Pair) :
    (e.book pair).orderIndex.lookup e.nextOrderId = none :=
  (hi.books pair).lookup_none.mpr fun o ho hid => (hi.fresh pair o ho).ne hid

/-- It is not routed. -/
theorem Engine.Indexed.route_fresh {e : Engine} (hi : e.Indexed) :
    e.orderPair.lookup e.nextOrderId = none := by
  rw [Option.eq_none_iff_forall_ne_some]
  intro pair hroute
  obtain ⟨o, ho, hid⟩ := (hi.route _ _).mp hroute
  exact absurd hid (hi.fresh pair o ho).ne

section RoundTrip

variable {b : Build} {o o' o'' : Drains} {e e₁ : Engine} {dedup : Dedup} {accountId : AccountId}
  {req : OrderRequest} {cancel : CancelRequest} {q : UInt64}
  (t : PlaceTrace b o e accountId req)
  (t' : PlaceTrace b o' (e.keyed dedup) accountId (req.sized q))
  (c : CancelTrace b o'' e₁ accountId cancel)

/-- **An order that stays is located** afterwards, at the back of its level. -/
theorem PlaceTrace.locates (hs : e.Shape) (hi : e.Indexed)
    (hstay : (e.book req.pair).Stays e.nextOrderId accountId req) :
    t.engine.Locates req.pair ((e.book req.pair).taker e.nextOrderId accountId req)
      ((e.book req.pair).queue req.side req.price) [] := by
  have hbook : t.engine.book req.pair
      = ((e.book req.pair).placed e.nextOrderId accountId req).drained := by
    rw [book_insert rfl, if_pos rfl]
    exact (t.book_eq hs).1
  have hindex : (t.engine.book req.pair).orderIndex.lookup e.nextOrderId
      = some { owner := accountId, side := req.side, price := req.price } := by
    rw [hbook]
    change ((e.book req.pair).placed e.nextOrderId accountId req).orderIndex.lookup _ = _
    rw [placed_index, if_pos ⟨hstay, rfl⟩]
  have hstamp := taker_stamp (e.book req.pair) e.nextOrderId accountId req
  have hid : ((e.book req.pair).taker e.nextOrderId accountId req).id = e.nextOrderId :=
    congrArg Prod.fst hstamp
  have hlocation : ((e.book req.pair).taker e.nextOrderId accountId req).location = _ :=
    congrArg Prod.snd hstamp
  constructor
  case route =>
    have hrested : e.nextOrderId ∈ t.book.orderIndex := by
      rw [← Finmap.lookup_isSome]
      have hbook' : t.engine.book req.pair = t.book := by rw [book_insert rfl, if_pos rfl]
      rw [← hbook', hindex]
      rfl
    rw [hid]
    change (routeOrder _ _ _ _ _).lookup _ = _
    rw [routeOrder_lookup, if_neg fun hgone => hgone.2 hrested, if_pos ⟨hrested, rfl⟩]
  case index => rw [hid, hindex, hlocation]
  case queue =>
    rw [hbook, OrderBook.drained_side, taker_side, taker_price, placed_own, OrderBook.joined,
      if_pos hstay, SortedMap.get?_insert, if_pos rfl]
    rfl
  case first =>
    intro m hm
    rw [OrderBook.queue] at hm
    rw [hid]
    cases hqueue : ((e.book req.pair).side req.side).get? req.price with
    | none =>
        rw [hqueue] at hm
        cases hm
    | some queue =>
        rw [hqueue] at hm
        exact (hi.fresh req.pair m
          (mem_orders.mpr ⟨req.side, _, SortedMap.get?_eq_some.mp hqueue, hm⟩)).ne

/-- The book after the smaller order. -/
theorem PlaceTrace.book_sized (hs : e.Shape) (hlimit : req.orderType = .limit)
    (hq : q.toNat = (t.fills.map Prod.snd).sum) (hlt : q.toNat < req.size.toNat) :
    t'.book = ((e.book req.pair).matchedBook e.nextOrderId accountId req).drained := by
  have hs' : (e.keyed dedup).Shape := hs.of_books rfl
  rw [(t'.book_eq hs').1]
  exact congrArg OrderBook.drained (placed_sized (hs.wf req.pair) (t.stays hlimit (hq ▸ hlt)) hq)

section Same

variable (hs : e.Shape) (hi : e.Indexed) (hbooks : e₁.books = t.engine.books)
  (hroute : e₁.orderPair = t.engine.orderPair) (hid : cancel.orderId = e.nextOrderId)
  (hlimit : req.orderType = .limit) (hq : q.toNat = (t.fills.map Prod.snd).sum)
  (hlt : q.toNat < req.size.toNat)

include hs hi hbooks hroute hid hlimit hq hlt

/-- The cancel takes the order just placed. -/
theorem CancelTrace.removes_placed : c.pair = req.pair ∧
    c.order = (e.book req.pair).taker e.nextOrderId accountId req ∧
    c.book = ((e.book req.pair).matchedBook e.nextOrderId accountId req).drained := by
  have hstay := t.stays hlimit (hq ▸ hlt)
  have hl := t.locates hs hi hstay
  have hlocates : e₁.Locates req.pair ((e.book req.pair).taker e.nextOrderId accountId req)
      ((e.book req.pair).queue req.side req.price) [] := hl.of_books hbooks hroute
  have hstamp := taker_stamp (e.book req.pair) e.nextOrderId accountId req
  have htid : ((e.book req.pair).taker e.nextOrderId accountId req).id = e.nextOrderId :=
    congrArg Prod.fst hstamp
  have howner : ((e.book req.pair).taker e.nextOrderId accountId req).accountId = accountId :=
    congrArg (fun x => x.2.owner) hstamp
  obtain ⟨hpair, horder, hremoved⟩ := hlocates.removes c howner (htid.trans hid.symm)
  refine ⟨hpair, horder, ?_⟩
  have hplaced : e₁.book req.pair
      = ((e.book req.pair).placed e.nextOrderId accountId req).drained := by
    rw [Engine.book, hbooks]
    change t.engine.book req.pair = _
    rw [book_insert rfl, if_pos rfl]
    exact (t.book_eq hs).1
  rw [hremoved, hplaced, taker_side, taker_price, htid]
  exact removed_placed (hi.index_fresh req.pair) (hs.wf req.pair) hstay

/-- **The same books.** -/
theorem CancelTrace.book_sized (pair : Pair) : c.engine.book pair = t'.engine.book pair := by
  obtain ⟨hpair, _, hbook⟩ := c.removes_placed t hs hi hbooks hroute hid hlimit hq hlt
  have hold : e₁.book pair = t.engine.book pair := by
    rw [Engine.book, hbooks]
    rfl
  have hcancelled : c.engine.book pair = if pair = c.pair then c.book else e₁.book pair :=
    book_insert rfl pair
  have hsized : t'.engine.book pair = if pair = req.pair then t'.book else e.book pair :=
    book_insert (e := e.keyed dedup) rfl pair
  rw [hcancelled, hsized, hpair, hbook, t.book_sized t' hs hlimit hq hlt]
  split
  · rfl
  · rename_i hne
    rw [hold, book_insert rfl, if_neg hne]

omit hbooks in
/-- **The same routes.** -/
theorem CancelTrace.orderPair_sized (htrades : t'.matchResult.trades = t.matchResult.trades) :
    c.engine.orderPair = t'.engine.orderPair := by
  have hstay := t.stays hlimit (hq ▸ hlt)
  have hfresh : ((e.book req.pair).matchedBook e.nextOrderId accountId req).orderIndex.lookup
      e.nextOrderId = none := matchedBook_fresh (hi.index_fresh req.pair)
  have hindex : t.book.orderIndex = ((e.book req.pair).matchedBook e.nextOrderId accountId
      req).orderIndex.insert e.nextOrderId
        { owner := accountId, side := req.side, price := req.price } := by
    rw [(t.book_eq hs).1, OrderBook.drained, placed_eq_of_stays _ _ _ _ hstay]
  have hindex' : t'.book.orderIndex
      = ((e.book req.pair).matchedBook e.nextOrderId accountId req).orderIndex := by
    rw [t.book_sized t' hs hlimit hq hlt]
    rfl
  have hout : e.nextOrderId ∉ t'.book.orderIndex := by
    rw [← Finmap.lookup_isSome, hindex', hfresh]
    exact Bool.false_ne_true
  apply Finmap.ext_lookup
  intro id
  change (e₁.orderPair.erase cancel.orderId).lookup id
    = (routeOrder e.orderPair t'.book req.pair e.nextOrderId t'.matchResult.trades).lookup id
  rw [hroute, hid, lookup_erase_ite, routeOrder_lookup, htrades]
  change (if id = _ then none else
    (routeOrder e.orderPair t.book req.pair e.nextOrderId t.matchResult.trades).lookup id) = _
  rw [routeOrder_lookup]
  by_cases hnew : id = e.nextOrderId
  · rw [if_pos hnew, hnew, hi.route_fresh]
    simp [hout]
  · have hmem : id ∈ t.book.orderIndex ↔ id ∈ t'.book.orderIndex := by
      rw [hindex, hindex', Finmap.mem_insert]
      simp [hnew]
    simp [hnew, hmem]

variable (hb : e.Backed) (hfit : e.Fits b) (hb₁ : e₁.Backed) (hs₁ : e₁.Shape)
  (hfit₁ : e₁.Fits b) (hbank : e₁.ledger.bank = t.refunded.bank)

include hb hfit hb₁ hs₁ hfit₁ hbank

/-- **The same balances**: what the larger order reserved in excess is released. -/
theorem CancelTrace.bank_sized (hfills : t'.fills = t.fills)
    (htrades : t'.matchResult.trades = t.matchResult.trades) :
    c.released.bank = t'.refunded.bank := by
  have hs' : (e.keyed dedup).Shape := hs.of_books rfl
  have hb' : (e.keyed dedup).Backed := hb
  have hfit' : (e.keyed dedup).Fits b := hfit
  obtain ⟨hpair, horder, _⟩ := c.removes_placed t hs hi hbooks hroute hid hlimit hq hlt
  obtain ⟨hcurrency, hamount⟩ := c.refund_eq hs₁
  have hstamp := taker_stamp (e.book req.pair) e.nextOrderId accountId req
  have howner : ((e.book req.pair).taker e.nextOrderId accountId req).accountId = accountId :=
    congrArg (fun x => x.2.owner) hstamp
  rw [hpair, horder, taker_side] at hcurrency
  rw [horder] at hamount
  have hkept : c.amount.toNat = req.kept t.left := by
    rw [hamount]
    unfold Order.unitWorth OrderRequest.kept
    rw [hlimit, taker_side, taker_price]
    cases req.side with
    | bid => rfl
    | ask => exact Nat.one_mul _
  -- the two reserves differ by what the larger order keeps
  have hleft : t'.left = 0 := by
    have hsum := t'.fills_add_left
    rw [show t'.toMatchTrace.fills = t.fills from hfills, ← hq] at hsum
    change q.toNat + t'.left = q.toNat at hsum
    omega
  have hback : (req.sized q).givenBack t'.fills t'.left = req.givenBack t.fills t.left := by
    rw [hfills, givenBack_sized hlimit]
  have hsplit := t.amount_split hs hb hfit
  have hsplit' := t'.amount_split hs' hb' hfit'
  have hexcess : t.amount = t'.amount + req.kept t.left := by
    rw [hsplit, hsplit', hback, hleft, kept_zero, hfills]
    rfl
  have hcover := t'.covers hs' hb' hfit' accountId req.currency
  have hgiven : (req.sized q).givenBack t'.fills t'.left
      ≤ (t'.reserved.bank.transferAll t'.legs).resv accountId req.currency :=
    t'.givenBack_le hs' hb' hfit'
  have hle := t.reserved_ok.1
  have hlegs : t'.legs = t.legs := by
    rw [MatchTrace.legs, MatchTrace.legs, htrades]
    rfl
  have hreserved : t'.reserved.bank = e.ledger.bank.reserve accountId req.currency t'.amount :=
    t'.reserved_bank hfit'
  rw [(c.released_bank hs₁ hb₁ hfit₁).2, hbank, (t.refunded_bank hs hb hfit).2.2,
    t.reserved_bank hfit, horder, howner, hcurrency, hkept, hexcess]
  rw [(t'.refunded_bank hs' hb' hfit').2.2, hback, hlegs, hreserved]
  rw [hback, hlegs, hreserved, Accounts.resv_transferAll] at hgiven
  rw [hlegs, hreserved] at hcover
  rw [hexcess] at hle
  refine Accounts.release_excess hle ?_
  have hresv : (e.ledger.bank.reserve accountId req.currency t'.amount).resv accountId req.currency
      = e.ledger.bank.resv accountId req.currency + t'.amount := by
    rw [Accounts.resv_reserve, if_pos ⟨rfl, rfl⟩]
  omega

end Same

end RoundTrip

/-! ## The same engine -/

/-- The books, the routes and the balances are the same; an absent book counts
as empty, an absent balance as zero. -/
structure Engine.Same (e e' : Engine) : Prop where
  book : ∀ pair, e.book pair = e'.book pair
  orderPair : e.orderPair = e'.orderPair
  balance : ∀ a c, e.ledger.balance a c = e'.ledger.balance a c

theorem Engine.Same.trans {e e' e'' : Engine} (h : e.Same e') (h' : e'.Same e'') : e.Same e'' where
  book pair := (h.book pair).trans (h'.book pair)
  orderPair := h.orderPair.trans h'.orderPair
  balance a c := (h.balance a c).trans (h'.balance a c)

/-- The exact amounts determine the balances. -/
theorem balance_of_bank {l l' : Ledger} (h : l.bank = l'.bank) (a : AccountId) (c : Currency) :
    l.balance a c = l'.balance a c := by
  have havail : (l.balance a c).available = (l'.balance a c).available :=
    UInt64.toNat_inj.mp (congrFun (congrFun (congrArg Accounts.avail h) a) c)
  have hresv : (l.balance a c).reserved = (l'.balance a c).reserved :=
    UInt64.toNat_inj.mp (congrFun (congrFun (congrArg Accounts.resv h) a) c)
  cases hbal : l.balance a c
  cases hbal' : l'.balance a c
  rw [hbal, hbal'] at havail hresv
  cases havail
  cases hresv
  rfl

section Accepted

variable {b : Build} {o : Drains} {e e' : Engine} {accountId : AccountId} {req : OrderRequest}

/-- **A limit order of size 0** changes no book and no balance. -/
theorem PlaceTrace.same_of_zero (t : PlaceTrace b o e accountId req) (hs : e.Shape)
    (hb : e.Backed) (hfit : e.Fits b) (hi : e.Indexed) (hlimit : req.orderType = .limit)
    (hsize : req.size = 0) : t.engine.Same e := by
  have hzero : req.size.toNat = 0 := by rw [hsize]; rfl
  have hfills : t.fills = [] := by
    change (e.book req.pair).fills e.nextOrderId accountId req = []
    rw [OrderBook.fills_eq, hzero, Greedy.walk_zero]
  have htrades : t.matchResult.trades = [] := by rw [t.trades_eq_fills hs, hfills]; rfl
  have hbook : t.book = e.book req.pair := by
    rw [(t.book_eq hs).1, placed_zero _ _ _ hsize, OrderBook.drained_of_clean (hs.wf _).clean]
  have hout : e.nextOrderId ∉ t.book.orderIndex := by
    rw [hbook, ← Finmap.lookup_isSome, hi.index_fresh]
    exact Bool.false_ne_true
  constructor
  case book =>
    intro pair
    rw [book_insert rfl]
    split
    · rename_i hpair
      rw [hbook, hpair]
    · rfl
  case orderPair =>
    apply Finmap.ext_lookup
    intro id
    change (routeOrder e.orderPair t.book req.pair e.nextOrderId t.matchResult.trades).lookup id = _
    rw [routeOrder_lookup, htrades, if_neg (by simp), if_neg fun h => hout h.1]
  case balance =>
    apply balance_of_bank
    change t.refunded.bank = e.ledger.bank
    have hback : req.givenBack t.fills t.left = 0 := by
      rw [hfills]
      unfold OrderRequest.givenBack
      rw [hlimit]
      cases req.side <;> rfl
    have hamount : t.amount = 0 := by
      have hleft : t.left = 0 := by
        have hsum := t.fills_add_left
        omega
      rw [t.amount_split hs hb hfit, hback, hleft, kept_zero, hfills]
      simp [charge]
    rw [(t.refunded_bank hs hb hfit).2.2, hback, MatchTrace.legs, htrades,
      t.reserved_bank hfit, hamount]
    simp [legs]

/-- The quantity in the response is what was filled. -/
theorem PlaceTrace.filledQty_eq (t : PlaceTrace b o e accountId req) (hs : e.Shape)
    {p : PlaceOrderResponse} (hp : placeResponse b t.matchResult = .ok p) :
    p.filledQty.toNat = (t.fills.map Prod.snd).sum := by
  obtain ⟨_, hfilled, _⟩ := placeResponse_ok hp
  have hsum : exactSum (t.matchResult.trades.map Trade.qty) = (t.fills.map Prod.snd).sum := by
    rw [exactSum, t.trades_eq_fills hs, List.map_map, List.map_map]
    refine congrArg List.sum (List.map_congr_left fun f hf => ?_)
    exact UInt64.toNat_ofNat_of_lt' ((t.mem_fills hs hf).2.2.2.2.1.trans_lt (toNat_lt _))
  have hle := t.fills_add_left
  have hword := toNat_lt req.size
  rw [Build.sum_toNat hfilled (.inr (by omega)), hsum]

/-- The batch of an accepted order was numbered. -/
theorem apply_accepted_room {clientOrderId : UInt64} {p : PlaceOrderResponse}
    {batch : Option EventBatch}
    (h : apply b o e accountId clientOrderId (.place req) = .ok (e', .place (.ok p), batch)) :
    b.Room (e.nextSeq.toNat + 1 < 2 ^ 64) := by
  rcases apply_ok h with ⟨_, habsurd, _⟩ | ⟨dedup, e₁, events, bevs, _, hdispatch, _, hend⟩
  · cases habsurd
  · obtain ⟨r, _, hanswer⟩ := dispatch_ok hdispatch
    cases r with
    | error reason => cases hanswer.1
    | ok m =>
        obtain ⟨_, _, _, rfl⟩ := hanswer
        rcases hend with ⟨hnil, _⟩ | ⟨n, _, hadd, _⟩
        · simp [placeEvents] at hnil
        · rw [(dispatch_frame hdispatch).2.1] at hadd
          cases b with
          | debug => exact .inr ((Build.check_ok hadd).2 rfl)
          | release => exact .inl rfl

/-- **A traced order is applied** and accepted. -/
theorem PlaceTrace.applies {dedup : Dedup} (t : PlaceTrace b o (e.keyed dedup) accountId req)
    (hs : e.Shape) (hb : e.Backed) (hd : e.ledger.DirtyHas) (hfit : e.Fits b)
    (hseq : b.Room (e.nextSeq.toNat + 1 < 2 ^ 64)) {clientOrderId : UInt64}
    (hdedup : e.dedup.insert accountId clientOrderId = .ok (dedup, true))
    {p : PlaceOrderResponse} (hp : placeResponse b t.matchResult = .ok p) :
    ∃ n batch, apply b o e accountId clientOrderId (.place req)
      = .ok ({ t.engine with ledger := { t.engine.ledger with dirty := ∅ }, nextSeq := n },
          .place (.ok p), batch) := by
  have hs' : (e.keyed dedup).Shape := hs.of_books rfl
  have hplace := t.placeOrder_eq
  rw [t.result_eq hs' hb hfit] at hplace
  have hdispatch : Engine.dispatch b o (e.keyed dedup) accountId (.place req)
      = .ok (t.engine, .place (.ok p), placeEvents accountId req t.matchResult) :=
    bind_ok.mpr ⟨_, hplace, bind_ok.mpr ⟨p, hp, rfl⟩⟩
  exact apply_eq hdedup hdispatch (dispatch_dirtyHas (e := e.keyed dedup) hd hdispatch) hseq

end Accepted

/-! ## Every run -/

/-- **Place then cancel is placing only what filled**, in every reachable
engine whose net deposits are words; a release build needs them to have been
words all along, and its ids not to have wrapped. -/
theorem place_cancel_eq {b : Build} {limits : Limits} {h : List Record} {e e₁ : Engine}
    (hr : Reaches b limits h e) (hnow : ∀ c, netDeposits h c < 2 ^ 64)
    (hnet : b.Checks (NetBelow h)) (hplaces : b.Checks (places h < 2 ^ 64))
    {o : Drains} (o' o'' : Drains) {accountId : AccountId}
    {placeId cancelId sizedId : UInt64} {req : OrderRequest} (hlimit : req.orderType = .limit)
    {p : PlaceOrderResponse} {batch : Option EventBatch}
    (happly : apply b o e accountId placeId (.place req) = .ok (e₁, .place (.ok p), batch))
    (hlt : p.filledQty < req.size) (hcancelId : (accountId, cancelId) ∉ e₁.dedup.seen)
    (hsizedId : (accountId, sizedId) ∉ e.dedup.seen) :
    (b.Room (e₁.nextSeq.toNat + 1 < 2 ^ 64) → ∃ r,
      apply b o' e₁ accountId cancelId (.cancel { orderId := p.orderId }) = .ok r) ∧
    ∃ e₃ batch₃, apply b o'' e accountId sizedId (.place (req.sized p.filledQty))
        = .ok (e₃, .place (.ok p), batch₃) ∧
      ∀ e₂ response batch₂,
        apply b o' e₁ accountId cancelId (.cancel { orderId := p.orderId })
          = .ok (e₂, response, batch₂) →
        response = .cancel true ∧ e₂.Same e₃ ∧ e₂.nextOrderId = e₃.nextOrderId ∧
          (p.filledQty = 0 → e₂.Same e) := by
  have hacc := hr.accounted hnet
  have hi := (hr.indexed hplaces).1
  have htotal := hacc.total_lt hnow
  have hr₁ := hr.snoc happly
  have hroom := apply_accepted_room happly
  have hfit₀ : b.Room (e.book req.pair).LevelsFit := by
    cases b with
    | debug => exact .inr (hr.levelsFit req.pair)
    | release => exact .inl rfl
  have hfit₁ : ∀ pair, b.Room (e₁.book pair).LevelsFit := fun pair => by
    cases b with
    | debug => exact .inr (hr₁.levelsFit pair)
    | release => exact .inl rfl
  have hdirty₁ := hr₁.dirtyHas
  obtain ⟨dedup, n, t, _, hp, _, he₁⟩ := apply_accepted happly
  have hs : (e.keyed dedup).Shape := hacc.shape.of_books rfl
  have hb : (e.keyed dedup).Backed := hacc.backed
  have hfits : (e.keyed dedup).Fits b := .inr htotal
  have hi' : (e.keyed dedup).Indexed := hi.of_books rfl rfl rfl
  have hq := t.filledQty_eq hs hp
  have hlt' : p.filledQty.toNat < req.size.toNat := UInt64.lt_iff_toNat_lt.mp hlt
  have hid : p.orderId = e.nextOrderId := by
    obtain ⟨horder, _⟩ := placeResponse_ok hp
    rw [horder, (t.book_eq hs).2.1]
    rfl
  -- the engine between the two commands
  have hs₁ : e₁.Shape := by
    rw [he₁]
    exact (t.engine_shape hs).of_books rfl
  have hb₁ : e₁.Backed := by
    rw [he₁]
    exact t.backed hs hb hfits
  have hbank₁ : e₁.ledger.bank = t.refunded.bank := by rw [he₁]; rfl
  have htotal₁ : ∀ c, e₁.ledger.bank.total c < 2 ^ 64 := fun c => by
    rw [hbank₁, t.refunded_total hs hb hfits]
    exact htotal c
  refine ⟨fun hseq => apply_cancel_returns hs₁ hb₁ hdirty₁ htotal₁ hfit₁ hcancelId hseq o' _, ?_⟩
  -- the smaller order
  obtain ⟨dedup', hdedup', _⟩ := Dedup.insert_fresh hsizedId
  have hs' : (e.keyed dedup').Shape := hacc.shape.of_books rfl
  obtain ⟨t', hfills, htrades⟩ : ∃ t' : PlaceTrace b o'' (e.keyed dedup') accountId
      (req.sized p.filledQty), t'.fills = t.fills ∧ t'.matchResult.trades = t.matchResult.trades :=
    t.toMatchTrace.resized hs hb htotal hfit₀ hlimit hq hlt' o'' dedup'
  have horder : t'.matchResult.orderId = t.matchResult.orderId := by
    rw [(t'.book_eq hs').2.1, (t.book_eq hs).2.1]
    rfl
  have hanswer : placeResponse b t'.matchResult = .ok p := by
    rw [← hp]
    unfold placeResponse
    rw [htrades, horder]
  obtain ⟨n', batch', happly'⟩ := t'.applies hacc.shape hacc.backed hr.dirtyHas (.inr htotal)
    hroom hdedup' hanswer
  refine ⟨_, batch', happly', fun e₂ response batch₂ happly₂ => ?_⟩
  -- the cancel finds the order that stayed
  have hbooks₁ : e₁.books = t.engine.books := by rw [he₁]
  have hroute₁ : e₁.orderPair = t.engine.orderPair := by rw [he₁]
  have hstay := t.stays hlimit (hq ▸ hlt')
  have hyes : response = .cancel true := by
    have hl := (t.locates hs hi' hstay).of_books hbooks₁ hroute₁
    have hstamp := taker_stamp (e.book req.pair) e.nextOrderId accountId req
    exact hl.answered (congrArg (fun x => x.2.owner) hstamp)
      ((congrArg Prod.fst hstamp).trans hid.symm) hcancelId happly₂
  subst hyes
  obtain ⟨dedup₂, n₂, c, _, rfl⟩ := apply_cancelled happly₂
  have hs₂ : (e₁.keyed dedup₂).Shape := hs₁.of_books rfl
  have hb₂ : (e₁.keyed dedup₂).Backed := hb₁
  have hsame : c.engine.Same t'.engine := by
    constructor
    case book => exact c.book_sized t t' hs hi' hbooks₁ hroute₁ hid hlimit hq hlt'
    case orderPair => exact c.orderPair_sized t t' hs hi' hroute₁ hid hlimit hq hlt' htrades
    case balance =>
      exact balance_of_bank (c.bank_sized t t' hs hi' hbooks₁ hroute₁ hid hlimit hq hlt' hb hfits
        hb₂ hs₂ (.inr htotal₁) hbank₁ hfills htrades)
  have hids : c.engine.nextOrderId = t'.engine.nextOrderId := by
    change e₁.nextOrderId = t'.nextOrderId
    rw [he₁, Build.add_ok t'.numbered]
    exact Build.add_ok t.numbered
  refine ⟨rfl, ⟨hsame.book, hsame.orderPair, hsame.balance⟩, hids, fun hzero => ?_⟩
  have hnothing := t'.same_of_zero hs' hacc.backed (.inr htotal)
    (hi.of_books rfl rfl rfl) hlimit hzero
  have h₂ := hsame.trans hnothing
  exact ⟨h₂.book, h₂.orderPair, h₂.balance⟩

/-- In the trading run account 2 bids for 8, gets the 5 there are, and cancels
the rest. -/
theorem place_cancel_eq_trading :
    let e := (finish .default (runCalls .release .default (tradingCalls.take 4))).1
    let req : OrderRequest :=
      { pair := { base := .SOL, quote := .USD }, orderType := .limit, side := .bid, price := 11,
        size := 8 }
    ∃ e₁ p batch, apply .release .sorted e 2 2 (.place req) = .ok (e₁, .place (.ok p), batch) ∧
      ∃ e₂ batch₂, apply .release .sorted e₁ 2 3 (.cancel { orderId := p.orderId })
          = .ok (e₂, .cancel true, batch₂) ∧
        ∃ e₃ batch₃, apply .release .sorted e 2 2 (.place (req.sized p.filledQty))
            = .ok (e₃, .place (.ok p), batch₃) ∧ e₂.Same e₃ := by
  intro e req
  have hr : Reaches .release .default
      (finish .default (runCalls .release .default (tradingCalls.take 4))).2 e :=
    reaches_runCalls (by decide +kernel)
  have hnet : NetBelow (finish .default (runCalls .release .default (tradingCalls.take 4))).2 :=
    netBelow_of_deposits fun c => by cases c <;> decide +kernel
  have hplace : okWith (apply .release .sorted e 2 2 (.place req)) (fun r =>
      r.2.1.placed?.any fun p => decide
        (p.filledQty < 8 ∧ ((2 : AccountId), (3 : UInt64)) ∉ r.1.dedup.seen)) = true := by
    decide +kernel
  obtain ⟨⟨e₁, response, batch⟩, happly, hanswer⟩ := okWith_iff.mp hplace
  cases response with
  | place answer =>
      cases answer with
      | error reason => cases hanswer
      | ok p =>
          obtain ⟨hlt, hkey⟩ := of_decide_eq_true hanswer
          obtain ⟨hreturns, e₃, batch₃, hsized, hall⟩ := place_cancel_eq hr hnet.now (.inr hnet)
            (.inr (by decide +kernel)) .sorted .sorted rfl happly hlt hkey
            (show ((2 : AccountId), (2 : UInt64)) ∉ e.dedup.seen by decide +kernel)
          obtain ⟨⟨e₂, response₂, batch₂⟩, hcancel⟩ := hreturns (.inl rfl)
          obtain ⟨rfl, hsame, _⟩ := hall e₂ response₂ batch₂ hcancel
          exact ⟨e₁, p, batch, happly, e₂, batch₂, hcancel, e₃, batch₃, hsized, hsame⟩
  | _ => cases hanswer

/-- Two orders that fill nothing and leave something when they are cancelled:
one under an id that account 1's order has, and account 3's bid in the
overdrawn run, whose reserve of ten is gone. -/
theorem round_trip_differs :
    (∃ h e, Reaches .release .none h e ∧ (∀ c, netDeposits h c < 2 ^ 64) ∧
      (3, 0) ∉ e.dedup.seen ∧ ∃ e₁ p batch,
        apply .release .sorted e 3 0 (.place worthlessBid) = .ok (e₁, .place (.ok p), batch) ∧
        p.filledQty = 0 ∧ (3, 1) ∉ e₁.dedup.seen ∧ ∃ e₂ batch₂,
          apply .release .sorted e₁ 3 1 (.cancel { orderId := p.orderId })
            = .ok (e₂, .cancel true, batch₂) ∧
          e₂.book worthlessBid.pair ≠ e.book worthlessBid.pair) ∧
    let h := (finish .none (runCalls .release .none overdrawnCalls.dropLast)).2
    let e := (finish .none (runCalls .release .none overdrawnCalls.dropLast)).1
    Reaches .release .none h e ∧ (∀ c, netDeposits h c < 2 ^ 64) ∧
      okWith (apply .release .sorted e 3 3 (limitOrder { base := .SOL, quote := .USD } .bid 1 10))
        (fun r => (r.2.1 = .place (.ok { orderId := 5, filledQty := 0, totalCost := 0 }) : Bool) &&
          okWith (apply .release .sorted r.1 3 4 (.cancel { orderId := 5 })) (fun r' =>
            r'.2.1 = .cancel true ∧
              (r'.1.ledger.balance 3 .USD).available ≠ (e.ledger.balance 3 .USD).available))
        = true := by
  refine ⟨?_, reaches_runCalls (by decide +kernel), fun c => by cases c <;> decide +kernel,
    by decide +kernel⟩
  obtain ⟨h, e, hr, hdep, hbook, hkey, e₁, p, batch, happly, hid, hfilled, hkey₁, _, e₂, batch₂,
    hcancel, hleft⟩ := reused_id
  have hnet : NetBelow h := netBelow_of_deposits fun c => by rw [hdep]; exact Nat.two_pow_pos 64
  refine ⟨h, e, hr, hnet.now, hkey, e₁, p, batch, happly, hfilled, hkey₁, e₂, batch₂, ?_, ?_⟩
  · rw [hid]
    exact hcancel
  · intro hsame
    rw [hsame, hbook] at hleft
    exact absurd hleft (by decide +kernel)

end MatchingEngine
