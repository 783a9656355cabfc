import MatchingEngine.Overflow

/-!
# Cancellation: a cancel undoes the rest of one order

`cancel_order` goes through the routing map, the book's index and a search of
the queue. While ids are unique the three name the same order
(`Engine.Indexed.locates`), so a cancel finds exactly what its caller owns
(`Engine.Locates.cancel_found`, `CancelTrace.owner`). What it leaves differs by
that order and by its reserve (`CancelTrace.cancelled`).
-/

namespace MatchingEngine

open RustArith HashModel Bank

/-- The engines differ by one order that rests in the first. -/
structure Engine.Cancelled (e e' : Engine) (pair : Pair) (order : Order) : Prop where
  /-- it is gone from its level, and the level with it if nobody else is there -/
  level : ∃ pre post,
    ((e.book pair).side order.side).get? order.price = some (pre ++ order :: post) ∧
    ((e'.book pair).side order.side).get? order.price
      = if pre ++ post = [] then none else some (pre ++ post)
  levels : ∀ s p, (s, p) ≠ (order.side, order.price) →
    ((e'.book pair).side s).get? p = ((e.book pair).side s).get? p
  orderIndex : (e'.book pair).orderIndex = (e.book pair).orderIndex.erase order.id
  lastTradePrice : (e'.book pair).lastTradePrice = (e.book pair).lastTradePrice
  dirtyLevels : (e'.book pair).dirtyLevels = (e.book pair).dirtyLevels
  books : ∀ pair', pair' ≠ pair → e'.books.lookup pair' = e.books.lookup pair'
  orderPair : e'.orderPair = e.orderPair.erase order.id
  /-- what its remainder is worth is available again -/
  available : ∀ a c, (e'.ledger.balance a c).available.toNat
    = (e.ledger.balance a c).available.toNat
      + if a = order.accountId ∧ c = pair.reserves order.side then
          order.unitWorth * order.remainingSize.toNat
        else 0
  reserved : ∀ a c, (e'.ledger.balance a c).reserved.toNat
      + (if a = order.accountId ∧ c = pair.reserves order.side then
          order.unitWorth * order.remainingSize.toNat
        else 0)
    = (e.ledger.balance a c).reserved.toNat
  listedPairs : e'.listedPairs = e.listedPairs
  nextOrderId : e'.nextOrderId = e.nextOrderId
  limits : e'.limits = e.limits

/-! ## The order is found -/

/-- The two maps and the search of the queue name the order. -/
structure Engine.Locates (e : Engine) (pair : Pair) (order : Order) (pre post : List Order) :
    Prop where
  route : e.orderPair.lookup order.id = some pair
  index : (e.book pair).orderIndex.lookup order.id = some order.location
  queue : ((e.book pair).side order.side).get? order.price = some (pre ++ order :: post)
  first : ∀ m ∈ pre, m.id ≠ order.id

/-- **An order that rests is located.** -/
theorem Engine.Indexed.locates {e : Engine} (h : e.Indexed) (hs : e.Shape) {pair : Pair}
    {order : Order} (ho : order ∈ (e.book pair).orders) :
    ∃ pre post, e.Locates pair order pre post := by
  have hbook := h.books pair
  obtain ⟨s, l, hl, hm⟩ := mem_orders.mp ho
  have hrests := ((hs.wf pair).side s).rests l hl order hm
  have hqueue := hbook.queues s l hl
  obtain ⟨pre, post, hsplit⟩ := List.append_of_mem hm
  refine ⟨pre, post, (h.route order.id pair).mpr ⟨order, ho, rfl⟩,
    (hbook.index order.id order.location).mpr (List.mem_map_of_mem ho), ?_, fun m hpre => ?_⟩
  · rw [hrests.side, hrests.price, ← hsplit]
    exact SortedMap.get?_eq_some.mpr hl
  · -- ids rise along the queue
    rw [hsplit] at hqueue
    exact ((List.pairwise_append.mp hqueue).2.2 m hpre order List.mem_cons_self).ne

section Cancel

variable {b : Build} {o : Drains} {e : Engine} {pair : Pair} {order : Order}
  {pre post : List Order}

/-- Only the books and the routes are looked at. -/
theorem Engine.Locates.of_books {e' : Engine} (h : e.Locates pair order pre post)
    (hbooks : e'.books = e.books) (hroute : e'.orderPair = e.orderPair) :
    e'.Locates pair order pre post := by
  have hbook : e'.book pair = e.book pair := by rw [Engine.book, Engine.book, hbooks]
  exact ⟨hroute ▸ h.route, hbook ▸ h.index, hbook ▸ h.queue, h.first⟩

theorem Engine.Locates.found (h : e.Locates pair order pre post) :
    e.books.lookup pair = some (e.book pair) := by
  cases hbook : e.books.lookup pair with
  | none =>
      have hindex := h.index
      rw [Engine.book, hbook] at hindex
      cases hindex
  | some book => rw [book_of_lookup hbook]

variable {accountId : AccountId} {req : CancelRequest}

/-- **The owner's cancel finds the order.** -/
theorem Engine.Locates.cancel_found (h : e.Locates pair order pre post)
    (howner : order.accountId = accountId) (hid : order.id = req.orderId) {e' : Engine} :
    e.cancelOrder b o accountId req ≠ .ok (e', none) := by
  intro hcancel
  subst howner
  unfold Engine.cancelOrder at hcancel
  rw [← hid, h.route] at hcancel
  dsimp only at hcancel
  rw [h.found] at hcancel
  dsimp only at hcancel
  rw [cancelOrder_eq b o.levels h.index h.queue h.first] at hcancel
  obtain ⟨_, hbook, hcancel⟩ := bind_ok.mp hcancel
  obtain ⟨_, _, heq⟩ := bind_ok.mp hbook
  cases heq
  obtain ⟨_, _, hcancel⟩ := bind_ok.mp hcancel
  obtain ⟨_, _, hcancel⟩ := bind_ok.mp hcancel
  cases hcancel

/-- It is answered yes. -/
theorem Engine.Locates.answered (h : e.Locates pair order pre post)
    (howner : order.accountId = accountId) (hid : order.id = req.orderId)
    {clientOrderId : UInt64} (hkey : (accountId, clientOrderId) ∉ e.dedup.seen) {e' : Engine}
    {response : CommandResponse} {batch : Option EventBatch}
    (happly : apply b o e accountId clientOrderId (.cancel req) = .ok (e', response, batch)) :
    response = .cancel true := by
  obtain ⟨dedup, hdedup, _⟩ := Dedup.insert_fresh hkey
  obtain ⟨e₁, events, hdispatch⟩ := apply_fresh_ok hdedup happly
  obtain ⟨r, hcancel, hanswer⟩ := dispatch_ok hdispatch
  cases r with
  | none =>
      have hkeyed : (e.keyed dedup).Locates pair order pre post := h.of_books rfl rfl
      exact absurd hcancel (hkeyed.cancel_found howner hid)
  | some found =>
      obtain ⟨_, _, hresponse, _⟩ := hanswer
      exact hresponse

variable (t : CancelTrace b o e accountId req)

/-- It takes that order, and no other. -/
theorem Engine.Locates.removes (h : e.Locates pair order pre post)
    (howner : order.accountId = accountId) (hid : order.id = req.orderId) :
    t.pair = pair ∧ t.order = order ∧
      t.book = ((e.book pair).removed order.side order.price (pre ++ post) order.id).drained := by
  have hpair : pair = t.pair := Option.some.inj (h.route.symm.trans (hid ▸ t.routed))
  subst hpair
  have hbefore : e.book t.pair = t.before := book_of_lookup t.found
  have hremoved := t.removed
  subst howner
  rw [← hbefore, ← hid] at hremoved
  rw [cancelOrder_eq b o.levels h.index h.queue h.first] at hremoved
  obtain ⟨⟨book, deltas⟩, hdrain, heq⟩ := bind_ok.mp hremoved
  obtain ⟨hbook, hout⟩ := Prod.mk.inj (Except.ok.inj heq)
  obtain ⟨horder, _⟩ := Prod.mk.inj (Option.some.inj hout)
  refine ⟨rfl, horder.symm, ?_⟩
  rw [← hbook]
  exact (takeDirtyLevels_ok hdrain).1

/-- It belongs to the caller. -/
theorem CancelTrace.owner (hi : e.Indexed) : t.order.accountId = accountId := by
  obtain ⟨htid, _, hperm⟩ := t.removed_order hi
  have hmem : t.order ∈ (e.book t.pair).orders := hperm.mem_iff.mpr List.mem_cons_self
  obtain ⟨side, price, _, _, hindex, _⟩ := t.book_eq
  have hlocation := ((hi.books t.pair).index t.order.id t.order.location).mpr
    (List.mem_map_of_mem hmem)
  rw [htid, hindex] at hlocation
  exact (congrArg OrderLocation.owner (Option.some.inj hlocation)).symm

/-- **What a cancel leaves.** -/
theorem CancelTrace.cancelled (hs : e.Shape) (hb : e.Backed) (hfit : e.Fits b) :
    e.Cancelled t.engine t.pair t.order := by
  obtain ⟨side, price, pre, post, _, hqueue, hid, hbook, _⟩ := t.book_eq
  have hrests := ((hs.wf t.pair).side side).rests _ (SortedMap.get?_eq_some.mp hqueue)
    t.order (List.mem_append_right _ List.mem_cons_self)
  have hside := hrests.side
  have hprice := hrests.price
  subst hside hprice
  have hnew : t.engine.book t.pair
      = ((e.book t.pair).removed t.order.side t.order.price (pre ++ post) t.order.id).drained := by
    rw [book_insert rfl, if_pos rfl, hbook, hid]
  obtain ⟨hcurrency, hamount⟩ := t.refund_eq hs
  have hbank := (t.released_bank hs hb hfit).2
  have hle := t.amount_le hs hb
  rw [hcurrency, hamount] at hbank hle
  constructor
  case level =>
    refine ⟨pre, post, hqueue, ?_⟩
    rw [hnew, OrderBook.drained_side, OrderBook.removed_side_self, get?_putQueue, if_pos rfl]
  case levels =>
    intro s p hne
    rw [hnew, OrderBook.drained_side]
    rcases t.order.side.eq_or_opposite s with rfl | rfl
    · rw [OrderBook.removed_side_self, get?_putQueue,
        if_neg fun hp => hne (by rw [hp])]
    · rw [OrderBook.removed_side_opposite]
  case orderIndex => rw [hnew]; rfl
  case lastTradePrice =>
    rw [hnew]
    cases t.order.side <;> rfl
  case dirtyLevels => rw [hnew, (hs.wf t.pair).clean]; rfl
  case books =>
    intro pair' hne
    exact Finmap.lookup_insert_of_ne _ hne
  case orderPair => rw [hid]; rfl
  case available =>
    intro a c
    have havail : t.released.bank.avail a c = _ := congrFun (congrFun (congrArg _ hbank) a) c
    rw [Accounts.avail_release] at havail
    exact havail
  case reserved =>
    intro a c
    have hresv : t.released.bank.resv a c = _ := congrFun (congrFun (congrArg _ hbank) a) c
    rw [Accounts.resv_release] at hresv
    change t.released.bank.resv a c + _ = e.ledger.bank.resv a c
    rw [hresv]
    change _ - _ + (if a = _ ∧ c = _ then t.order.unitWorth * t.order.units else 0) = _
    split
    · rename_i hac
      rw [hac.1, hac.2]
      omega
    · omega
  case listedPairs => rfl
  case nextOrderId => rfl
  case limits => rfl

/-- A cancel is answered by either build. -/
theorem apply_cancel_returns {clientOrderId : UInt64} (hs : e.Shape) (hb : e.Backed)
    (hd : e.ledger.DirtyHas) (htotal : ∀ c, e.ledger.bank.total c < 2 ^ 64)
    (hfit : ∀ pair, b.Room (e.book pair).LevelsFit)
    (hkey : (accountId, clientOrderId) ∉ e.dedup.seen)
    (hseq : b.Room (e.nextSeq.toNat + 1 < 2 ^ 64)) (o : Drains) (req : CancelRequest) :
    ∃ r, apply b o e accountId clientOrderId (.cancel req) = .ok r := by
  obtain ⟨dedup, hdedup, _⟩ := Dedup.insert_fresh hkey
  have hs' : (e.keyed dedup).Shape := hs.of_books rfl
  have hb' : (e.keyed dedup).Backed := hb
  obtain ⟨⟨e₁, response, events⟩, hdispatch⟩ := cancel_returns o accountId req hs' hb' htotal hfit
  have hseq₁ : e₁.nextSeq = e.nextSeq := (dispatch_frame hdispatch).2.1
  obtain ⟨nextSeq, batch, happly⟩ := apply_eq hdedup hdispatch
    (dispatch_dirtyHas (e := e.keyed dedup) hd hdispatch) (by rw [hseq₁]; exact hseq)
  exact ⟨_, happly⟩

end Cancel

/-! ## Every run -/

/-- **A cancel succeeds exactly for the owner of a resting order and undoes
exactly its remainder**, in every reachable engine whose net deposits are
words; a release build needs them to have been words all along, and its ids
not to have wrapped. -/
theorem cancel_exact {b : Build} {limits : Limits} {h : List Record} {e : Engine}
    (hr : Reaches b limits h e) (hnow : ∀ c, netDeposits h c < 2 ^ 64)
    (hnet : b.Checks (NetBelow h)) (hplaces : b.Checks (places h < 2 ^ 64)) (o : Drains)
    {accountId : AccountId} {clientOrderId : UInt64}
    (hkey : (accountId, clientOrderId) ∉ e.dedup.seen) (orderId : UInt64) :
    (b.Room (e.nextSeq.toNat + 1 < 2 ^ 64) →
      ∃ r, apply b o e accountId clientOrderId (.cancel { orderId := orderId }) = .ok r) ∧
    ∀ e' response batch,
      apply b o e accountId clientOrderId (.cancel { orderId := orderId })
        = .ok (e', response, batch) →
      (response = .cancel true ↔ ∃ pair, ∃ order ∈ (e.book pair).orders,
        order.id = orderId ∧ order.accountId = accountId) ∧
      ∀ pair, ∀ order ∈ (e.book pair).orders, order.id = orderId →
        order.accountId = accountId →
        e.Cancelled e' pair order ∧ e'.ledger.dirty = e.ledger.dirty := by
  have hacc := hr.accounted hnet
  have htotal := hacc.total_lt hnow
  have hi := (hr.indexed hplaces).1
  have hfit : ∀ pair, b.Room (e.book pair).LevelsFit := fun pair => by
    cases b with
    | debug => exact .inr (hr.levelsFit pair)
    | release => exact .inl rfl
  refine ⟨fun hseq => apply_cancel_returns hacc.shape hacc.backed hr.dirtyHas htotal hfit hkey
    hseq o _, fun e' response batch happly => ?_⟩
  -- the owner is never told that there is nothing to cancel
  have hfound : ∀ pair, ∀ order ∈ (e.book pair).orders, order.id = orderId →
      order.accountId = accountId → response = .cancel true := by
    intro pair order ho hid howner
    obtain ⟨pre, post, hlocates⟩ := hi.locates hacc.shape ho
    exact hlocates.answered howner hid hkey happly
  refine ⟨⟨?_, fun ⟨pair, order, ho, hid, howner⟩ => hfound pair order ho hid howner⟩, ?_⟩
  · rintro rfl
    obtain ⟨dedup, n, t, _, _⟩ := apply_cancelled happly
    have hi' : (e.keyed dedup).Indexed := hi.of_books rfl rfl rfl
    obtain ⟨hid, _, hperm⟩ := t.removed_order hi'
    exact ⟨t.pair, t.order, hperm.mem_iff.mpr List.mem_cons_self, hid, t.owner hi'⟩
  · rintro pair order ho rfl rfl
    rw [hfound pair order ho rfl rfl] at happly
    obtain ⟨dedup, n, t, _, rfl⟩ := apply_cancelled happly
    have hi' : (e.keyed dedup).Indexed := hi.of_books rfl rfl rfl
    have hs' : (e.keyed dedup).Shape := hacc.shape.of_books rfl
    have hb' : (e.keyed dedup).Backed := hacc.backed
    obtain ⟨pre, post, hlocates⟩ := hi'.locates hs' ho
    obtain ⟨hpair, horder, _⟩ := hlocates.removes t rfl rfl
    have hc := t.cancelled hs' hb' (.inr htotal)
    rw [hpair, horder] at hc
    refine ⟨⟨hc.level, hc.levels, hc.orderIndex, hc.lastTradePrice, hc.dirtyLevels, hc.books,
      hc.orderPair, hc.available, hc.reserved, hc.listedPairs, hc.nextOrderId, hc.limits⟩, ?_⟩
    exact hr.clean.symm

/-- In the trading run account 2 cancels the bid it has left. -/
theorem cancel_exact_trading :
    let e := (finish .default (runCalls .release .default tradingCalls)).1
    ∃ e' batch order, apply .release .sorted e 2 3 (.cancel { orderId := 1 })
        = .ok (e', .cancel true, batch) ∧
      e.Cancelled e' { base := .SOL, quote := .USD } order := by
  intro e
  have hr : Reaches .release .default (finish .default (runCalls .release .default tradingCalls)).2
      e := reaches_runCalls tradingCalls_returned
  obtain ⟨hreturns, hall⟩ := cancel_exact hr tradingCalls_net.now (.inr tradingCalls_net)
    (.inr (by decide +kernel)) .sorted
    (show ((2 : AccountId), (3 : UInt64)) ∉ e.dedup.seen by decide +kernel) 1
  obtain ⟨⟨e', response, batch⟩, happly⟩ := hreturns (.inl rfl)
  obtain ⟨order, ho, hid, howner⟩ :
      ∃ order ∈ (e.book { base := .SOL, quote := .USD }).orders, order.id = 1 ∧
        order.accountId = 2 := by decide +kernel
  obtain ⟨hanswer, hcancelled⟩ := hall e' response batch happly
  rw [hanswer.mpr ⟨_, order, ho, hid, howner⟩] at happly
  exact ⟨e', batch, order, happly, (hcancelled _ order ho hid howner).1⟩

/-! ## Ids given twice, and reserves that are gone -/

/-- A bid at price 0: it reserves nothing. -/
def worthlessBid : OrderRequest :=
  { pair := { base := .SOL, quote := .USD }, orderType := .limit, side := .bid, price := 0,
    size := 1 }

/-- The book of `rested`, in which account 1 has a bid with id 1, after account 3
placed one under the same id. -/
def reusedBook : OrderBook := ((rested.book worthlessBid.pair).placed 1 3 worthlessBid).drained

/-- After `2 ^ 64` orders the id 1 is given again: account 3 gets it, cancels
it, and takes account 1's order out of the book. -/
theorem reused_id : ∃ h e, Reaches .release .none h e ∧ (∀ c, deposits h c = 0) ∧
    e.book worthlessBid.pair = rested.book worthlessBid.pair ∧ (3, 0) ∉ e.dedup.seen ∧
    ∃ e₁ p batch,
      apply .release .sorted e 3 0 (.place worthlessBid) = .ok (e₁, .place (.ok p), batch) ∧
      p.orderId = 1 ∧ p.filledQty = 0 ∧ (3, 1) ∉ e₁.dedup.seen ∧
      e₁.book worthlessBid.pair = reusedBook ∧
      ∃ e₂ batch₂, apply .release .sorted e₁ 3 1 (.cancel { orderId := 1 })
          = .ok (e₂, .cancel true, batch₂) ∧
        (e₂.book worthlessBid.pair).orders.map (fun order => (order.id, order.accountId))
          = [(1, 3)] := by
  obtain ⟨h, e, hr, hi, _, hdep⟩ := idle_run (2 ^ 64 - 1) (by omega)
  have hnet : NetBelow h := netBelow_of_deposits fun c => by rw [hdep]; decide
  have hbook : e.book worthlessBid.pair = rested.book worthlessBid.pair := by
    rw [Engine.book, hi.books]
    rfl
  have hnext : e.nextOrderId = 1 := hi.nextOrderId
  have hkey : ∀ cid, (3, cid) ∉ e.dedup.seen := fun cid hin => (hi.seen _ hin).1 rfl
  have hacc := hr.accounted (.inr hnet)
  have hlisted : worthlessBid.pair ∈ e.listedPairs := by
    rw [hi.listedPairs]
    decide +kernel
  have hcheck : e.checkOrder 3 worthlessBid = none :=
    checkOrder_unguarded (by decide) hlisted (by rw [hr.limits_eq]; rfl) (by rw [hr.limits_eq]; rfl)
  have hquote : e.quoteAmount .release worthlessBid = .ok (.ok 0) := by
    unfold Engine.quoteAmount
    rw [if_neg (by decide), checkedMul_eq (by decide)]
    rfl
  obtain ⟨dedup, n, t, response, events, batch, happly, hanswer, hseen⟩ :=
    apply_trace_release (o := .sorted) hacc.shape hr.dirtyHas (hkey 0) hcheck hquote
      (Nat.zero_le _)
  have hs : (e.keyed dedup).Shape := hacc.shape.of_books rfl
  have hb : (e.keyed dedup).Backed := hacc.backed
  rw [t.result_eq hs hb (.inr (hacc.total_lt hnet.now))] at hanswer
  obtain ⟨p, hp, rfl, _⟩ := hanswer
  obtain ⟨horderId, hfilled, _⟩ := placeResponse_ok hp
  have hnone : t.matchResult.trades = [] := by
    rw [t.trades_eq hs, show (e.keyed dedup).book worthlessBid.pair = _ from hbook,
      show (e.keyed dedup).nextOrderId = 1 from hnext]
    decide +kernel
  have hid : t.matchResult.orderId = 1 := by
    rw [(t.book_eq hs).2.1]
    exact hnext
  have hplaced : t.book = reusedBook := by
    rw [(t.book_eq hs).1, show (e.keyed dedup).book worthlessBid.pair = _ from hbook,
      show (e.keyed dedup).nextOrderId = 1 from hnext]
    rfl
  rw [hnone] at hfilled
  -- the second order with the id is the one that is routed
  have hroute : t.engine.orderPair.lookup 1 = some worthlessBid.pair := by
    have hrested : (1 : UInt64) ∈ t.book.orderIndex := by
      rw [hplaced]
      decide +kernel
    change (routeOrder _ _ _ _ _).lookup 1 = _
    rw [routeOrder_lookup, if_neg fun hgone => hgone.2 hrested,
      show (e.keyed dedup).nextOrderId = 1 from hnext, if_pos ⟨hrested, rfl⟩]
  obtain ⟨⟨book, out⟩, hcancel, hleft⟩ := okWith_iff.mp
    (show okWith (reusedBook.cancelOrder .release Drains.sorted.levels 3 1) (fun r =>
      r.2.isSome && decide (r.1.orders.map (fun order => (order.id, order.accountId)) = [(1, 3)]))
        = true by decide +kernel)
  rw [Bool.and_eq_true, decide_eq_true_eq] at hleft
  obtain ⟨⟨order, deltas⟩, rfl⟩ := Option.isSome_iff_exists.mp hleft.1
  have hkey₁ : (3, 1) ∉ dedup.seen := by
    intro hin
    rcases hseen _ hin with habsurd | hin
    · exact absurd (congrArg Prod.snd habsurd) (show (1 : UInt64) ≠ 0 by decide)
    · exact hkey 1 hin
  have hfound : t.engine.books.lookup worthlessBid.pair = some reusedBook := by
    rw [← hplaced]
    exact Finmap.lookup_insert _
  refine ⟨h, e, hr, hdep, hbook, hkey 0, _, p, batch, happly, horderId.trans hid,
    (Except.ok.inj hfilled).symm, hkey₁, ?_, ?_⟩
  · exact book_of_lookup hfound
  · let e₁ : Engine :=
      { t.engine with ledger := { t.engine.ledger with dirty := ∅ }, nextSeq := n }
    have hdirty : e₁.ledger.DirtyHas := fun key hkey => absurd hkey (Finset.notMem_empty key)
    obtain ⟨e₂, batch₂, hcancelled, hbooks⟩ :=
      @apply_cancel_release .sorted e₁ 3 1 { orderId := 1 } _ _ _ _ _ hdirty hkey₁ hroute hfound
        hcancel
    refine ⟨e₂, batch₂, hcancelled, ?_⟩
    rw [book_insert hbooks, if_pos rfl]
    exact hleft.2

/-- Two cancels that are answered yes and do not undo an order of their caller:
account 3's own order is the one that stays when ids were given twice, and its
bid in `overdrawn` gives nothing back. -/
theorem cancels_not_exact :
    (∃ h e, Reaches .release .none h e ∧ (∀ c, netDeposits h c < 2 ^ 64) ∧
      (3, 1) ∉ e.dedup.seen ∧ ∃ order ∈ (e.book worthlessBid.pair).orders,
        order.id = 1 ∧ order.accountId = 3 ∧
        ∃ e' batch, apply .release .sorted e 3 1 (.cancel { orderId := 1 })
            = .ok (e', .cancel true, batch) ∧
          ∃ order' ∈ (e'.book worthlessBid.pair).orders, order'.id = 1 ∧ order'.accountId = 3) ∧
    Reaches .release .none (finish .none (runCalls .release .none overdrawnCalls)).2 overdrawn ∧
      (∀ c, netDeposits (finish .none (runCalls .release .none overdrawnCalls)).2 c
        < 2 ^ 64) ∧
      (∃ order ∈ (overdrawn.book worthlessBid.pair).orders, order.id = 5 ∧
        order.accountId = 3 ∧ order.price * order.remainingSize = 10) ∧
      okWith (apply .release .sorted overdrawn 3 4 (.cancel { orderId := 5 })) (fun r =>
        r.2.1 = .cancel true ∧
          (r.1.ledger.balance 3 .USD).available = (overdrawn.ledger.balance 3 .USD).available)
      = true := by
  refine ⟨?_, reaches_runCalls (by decide +kernel), fun c => by cases c <;> decide +kernel,
    by decide +kernel, by decide +kernel⟩
  obtain ⟨h, e, hr, hdep, _, _, e₁, p, batch, happly, _, _, hkey, hbook, e₂, batch₂, hcancel,
    hleft⟩ := reused_id
  have hnet : NetBelow (h ++ [⟨3, 0, .place worthlessBid, .place (.ok p), batch⟩]) :=
    netBelow_of_deposits fun c => by
      rw [deposits_append, hdep]
      exact Nat.two_pow_pos 64
  obtain ⟨order, ho, hid, howner⟩ : ∃ order ∈ reusedBook.orders, order.id = 1 ∧
      order.accountId = 3 := by decide +kernel
  obtain ⟨order', ho', hstays⟩ := List.mem_map.mp
    (show (1, 3) ∈ (e₂.book worthlessBid.pair).orders.map
      (fun order => (order.id, order.accountId)) by rw [hleft]; exact List.mem_cons_self)
  exact ⟨_, e₁, hr.snoc happly, hnet.now, hkey, order, hbook ▸ ho, hid, howner, e₂, batch₂,
    hcancel, order', ho', congrArg Prod.fst hstays, congrArg Prod.snd hstays⟩

end MatchingEngine
