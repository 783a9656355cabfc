import MatchingEngine.Settlement
import MatchingEngine.OpenOrders

/-!
# Transition: what a command that returned went through

One inversion lemma per function of `engine.rs`. An order that got past the
checks leaves a `PlaceTrace`, a cancel that found its order a `CancelTrace`:
every intermediate result with the equation that produced it. The state and
the answer are then functions of the trace, and nothing below unfolds
`place_order`, `cancel_order` or `apply` again.
-/

namespace MatchingEngine

open RustArith HashModel Bank

/-! ## `place_order` -/

/-- The stages of an order that was admitted, reserved for and matched. -/
structure MatchTrace (b : Build) (o : Drains) (e : Engine) (accountId : AccountId)
    (req : OrderRequest) where
  quoteAmount : UInt64
  /-- the ledger after the reserve -/
  reserved : Ledger
  nextOrderId : UInt64
  book : OrderBook
  matchResult : MatchResponse
  checked : e.checkOrder accountId req = none
  quoted : e.quoteAmount b req = .ok (.ok quoteAmount)
  reserve : reserveOrder b e.ledger accountId req quoteAmount = .ok (reserved, .ok ())
  numbered : b.add e.nextOrderId 1 = .ok nextOrderId
  matched : (e.book req.pair).addOrder b o.levels e.nextOrderId accountId req
    = .ok (book, matchResult)

/-- The stages of an order that was settled as well. -/
structure PlaceTrace (b : Build) (o : Drains) (e : Engine) (accountId : AccountId)
    (req : OrderRequest) extends MatchTrace b o e accountId req where
  /-- the ledger after the trades -/
  settled : Ledger
  /-- the ledger after a market sell's remainder was given back -/
  sold : Ledger
  soldResult : Except RejectReason Unit
  /-- the ledger after the surplus was given back -/
  refunded : Ledger
  refundedResult : Except RejectReason Unit
  settle : settleTrades b req.pair matchResult.trades reserved = .ok settled
  sell : releaseMarketSell b settled accountId req matchResult.takerRemaining
    = .ok (sold, soldResult)
  refund : releaseSurplus b sold accountId req matchResult.trades
    = .ok (refunded, refundedResult)

namespace PlaceTrace

variable {b : Build} {o : Drains} {e : Engine} {accountId : AccountId} {req : OrderRequest}

/-- The engine an order leaves. -/
def engine (t : PlaceTrace b o e accountId req) : Engine :=
  { e with
    nextOrderId := t.nextOrderId
    books := e.books.insert req.pair t.book
    orderPair := routeOrder e.orderPair t.book req.pair e.nextOrderId t.matchResult.trades
    ledger := t.refunded }

/-- The answer to an order. -/
def result (t : PlaceTrace b o e accountId req) : Except RejectReason MatchResponse :=
  match t.refundedResult with
  | .error reason => .error reason
  | .ok _ => .ok t.matchResult

end PlaceTrace

/-- The same ledger, but for entries of zeros. -/
structure Ledger.Quiet (l l' : Ledger) : Prop where
  balance : ∀ a c, l'.balance a c = l.balance a c
  dirty : l'.dirty = l.dirty
  has : ∀ key, l.Has key → l'.Has key

theorem Ledger.Quiet.refl (l : Ledger) : l.Quiet l := ⟨fun _ _ => rfl, rfl, fun _ h => h⟩

theorem Ledger.quiet_put_self (l : Ledger) (a : AccountId) (c : Currency) :
    l.Quiet (l.put a c (l.balance a c)) :=
  ⟨fun a' c' => balance_put_self l a a' c c', rfl, fun _ h => h.put ..⟩

theorem Ledger.Quiet.bank {l l' : Ledger} (h : l.Quiet l') : l'.bank = l.bank := by
  refine Accounts.ext (fun a c => ?_) (fun a c => ?_)
  · simp only [Ledger.bank, h.balance]
  · simp only [Ledger.bank, h.balance]

section Place

variable {b : Build} {o : Drains} {e e' : Engine} {accountId : AccountId}
  {req : OrderRequest}

/-- The currency an order reserves. -/
def OrderRequest.currency (req : OrderRequest) : Currency :=
  match req.side with
  | .bid => req.pair.quote
  | .ask => req.pair.base

/-- The amount an order reserves, given the walked or multiplied quote. -/
def OrderRequest.amount (req : OrderRequest) (quoteAmount : UInt64) : UInt64 :=
  match req.side with
  | .bid => quoteAmount
  | .ask => req.size

theorem reserveOrder_eq (b : Build) (l : Ledger) (accountId : AccountId)
    (req : OrderRequest) (q : UInt64) :
    reserveOrder b l accountId req q
      = l.reserve b accountId req.currency (req.amount q) := by
  unfold reserveOrder OrderRequest.currency OrderRequest.amount
  cases req.side <;> rfl

/-- **`place_order`, inverted**: it refused with the ledger as it was, or it
left a trace. -/
theorem placeOrder_ok {r : Except RejectReason MatchResponse}
    (h : e.placeOrder b o accountId req = .ok (e', r)) :
    (∃ reason l, r = .error reason ∧ e' = { e with ledger := l } ∧ e.ledger.Quiet l) ∨
      ∃ t : PlaceTrace b o e accountId req, e' = t.engine ∧ r = t.result := by
  unfold Engine.placeOrder at h
  split at h
  · rename_i reason _
    cases h
    exact .inl ⟨reason, e.ledger, rfl, rfl, .refl _⟩
  · rename_i hcheck
    obtain ⟨q, hquote, h⟩ := bind_ok.mp h
    cases q with
    | error reason =>
        cases h
        exact .inl ⟨reason, e.ledger, rfl, rfl, .refl _⟩
    | ok q =>
        obtain ⟨⟨l, res⟩, hreserve, h⟩ := bind_ok.mp h
        cases res with
        | error reason =>
            cases h
            refine .inl ⟨reason, l, rfl, rfl, ?_⟩
            rw [reserveOrder_eq] at hreserve
            rcases reserve_ok hreserve with ⟨_, _, rfl⟩ | ⟨habsurd, _⟩
            · exact Ledger.quiet_put_self ..
            · cases habsurd
        | ok _ =>
            unfold Engine.matchAndSettle at h
            obtain ⟨n, hn, h⟩ := bind_ok.mp h
            obtain ⟨⟨book, m⟩, hm, h⟩ := bind_ok.mp h
            obtain ⟨l₁, h₁, h⟩ := bind_ok.mp h
            obtain ⟨⟨l₂, r₂⟩, h₂, h⟩ := bind_ok.mp h
            obtain ⟨⟨l₃, r₃⟩, h₃, h⟩ := bind_ok.mp h
            refine .inr ⟨⟨⟨q, l, n, book, m, hcheck, hquote, hreserve, hn, hm⟩, l₁, l₂, r₂,
              l₃, r₃, h₁, h₂, h₃⟩, ?_⟩
            cases r₃ with
            | error reason => cases h; exact ⟨rfl, rfl⟩
            | ok _ => cases h; exact ⟨rfl, rfl⟩

/-- Why an order is refused: by a check, by a product that does not fit, or for
lack of funds. -/
theorem placeOrder_refused {reason : RejectReason}
    (h : e.placeOrder b o accountId req = .ok (e', .error reason)) :
    e.checkOrder accountId req = some reason ∨ reason = .invalidAmount ∨
      reason = .insufficientFunds := by
  unfold Engine.placeOrder at h
  split at h
  · rename_i checked hcheck
    cases h
    exact .inl hcheck
  · obtain ⟨q, hquote, h⟩ := bind_ok.mp h
    cases q with
    | error quoted =>
        cases h
        refine .inr (.inl ?_)
        unfold Engine.quoteAmount at hquote
        split at hquote
        · split at hquote
          · obtain ⟨cost, _, hcost⟩ := bind_ok.mp hquote
            cases cost with
            | none => cases hcost; rfl
            | some cost => cases hcost
          · cases hquote
        · split at hquote
          · cases hquote
          · cases hquote; rfl
    | ok q =>
        obtain ⟨⟨l, res⟩, hreserve, h⟩ := bind_ok.mp h
        cases res with
        | error reserved =>
            cases h
            rw [reserveOrder_eq] at hreserve
            rcases reserve_ok hreserve with ⟨hres, _, _⟩ | ⟨habsurd, _⟩
            · cases hres
              exact .inr (.inr rfl)
            · cases habsurd
        | ok _ =>
            unfold Engine.matchAndSettle at h
            obtain ⟨_, _, h⟩ := bind_ok.mp h
            obtain ⟨_, _, h⟩ := bind_ok.mp h
            obtain ⟨_, _, h⟩ := bind_ok.mp h
            obtain ⟨_, _, h⟩ := bind_ok.mp h
            obtain ⟨⟨l', refunded⟩, hrefund, h⟩ := bind_ok.mp h
            -- the surplus is the one refund whose result is returned
            cases refunded with
            | ok _ => cases h
            | error refused =>
                cases h
                unfold releaseSurplus at hrefund
                split at hrefund
                · obtain ⟨_, _, hrefund⟩ := bind_ok.mp hrefund
                  obtain ⟨_, _, hrefund⟩ := bind_ok.mp hrefund
                  split at hrefund
                  · rcases release_ok hrefund with ⟨hres, _, _⟩ | ⟨habsurd, _⟩
                    · cases hres
                      exact .inr (.inl rfl)
                    · cases habsurd
                  · cases hrefund
                · cases hrefund

end Place

/-! ## `cancel_order` -/

/-- The stages of a cancel that found its order. -/
structure CancelTrace (b : Build) (o : Drains) (e : Engine) (accountId : AccountId)
    (req : CancelRequest) where
  pair : Pair
  before : OrderBook
  book : OrderBook
  order : Order
  bookDeltas : List LevelDelta
  currency : Currency
  amount : UInt64
  released : Ledger
  releasedResult : Except RejectReason Unit
  routed : e.orderPair.lookup req.orderId = some pair
  found : e.books.lookup pair = some before
  removed : before.cancelOrder b o.levels accountId req.orderId
    = .ok (book, some (order, bookDeltas))
  refund : cancelRefund b pair order = .ok (currency, amount)
  release : e.ledger.release b order.accountId currency amount = .ok (released, releasedResult)

/-- The engine a cancel leaves. -/
def CancelTrace.engine {b : Build} {o : Drains} {e : Engine} {accountId : AccountId}
    {req : CancelRequest} (t : CancelTrace b o e accountId req) : Engine :=
  { e with
    books := e.books.insert t.pair t.book
    ledger := t.released
    orderPair := e.orderPair.erase req.orderId }

/-- **`cancel_order`, inverted**: it found nothing and did nothing, or it left
a trace. -/
theorem engineCancel_ok {b : Build} {o : Drains} {e e' : Engine} {accountId : AccountId}
    {req : CancelRequest} {r : Option (Pair × Order × List LevelDelta)}
    (h : e.cancelOrder b o accountId req = .ok (e', r)) :
    (r = none ∧ e' = e) ∨ ∃ t : CancelTrace b o e accountId req,
      r = some (t.pair, t.order, t.bookDeltas) ∧ e' = t.engine := by
  unfold Engine.cancelOrder at h
  split at h
  · cases h
    exact .inl ⟨rfl, rfl⟩
  · rename_i pair hpair
    split at h
    · cases h
      exact .inl ⟨rfl, rfl⟩
    · rename_i before hbook
      obtain ⟨⟨book, out⟩, hcancel, h⟩ := bind_ok.mp h
      cases out with
      | none =>
          cases h
          exact .inl ⟨rfl, rfl⟩
      | some out =>
          obtain ⟨order, deltas⟩ := out
          obtain ⟨⟨currency, amount⟩, hrefund, h⟩ := bind_ok.mp h
          obtain ⟨⟨l, res⟩, hrelease, h⟩ := bind_ok.mp h
          cases h
          exact .inr ⟨⟨pair, before, book, order, deltas, currency, amount, l, res, hpair,
            hbook, hcancel, hrefund, hrelease⟩, rfl, rfl⟩

/-! ## `deposit` -/

/-- **`deposit`, inverted**: it refused, or it credited an amount that fits on
top of what is held. -/
theorem engineDeposit_ok {b : Build} {e e' : Engine} {accountId : AccountId}
    {req : DepositRequest} {r : Except RejectReason UInt64}
    (h : e.deposit b accountId req = .ok (e', r)) :
    (∃ reason, r = .error reason ∧ e' = e) ∨
      ∃ held l y, e.ledger.held b accountId req.currency = .ok held ∧
        held.toNat + req.amount.toNat < 2 ^ 64 ∧
        held.toNat + req.amount.toNat ≤ (e.limits.depositCeiling req.currency).toNat ∧
        e.ledger.deposit b req.currency accountId req.amount = .ok (l, y) ∧
        r = .ok y ∧ e' = { e with ledger := l } := by
  unfold Engine.deposit at h
  obtain ⟨held, hheld, h⟩ := bind_ok.mp h
  split at h
  · cases h
    exact .inl ⟨_, rfl, rfl⟩
  · rename_i after hafter
    split at h
    · cases h
      exact .inl ⟨_, rfl, rfl⟩
    · rename_i hceiling
      obtain ⟨⟨l, y⟩, hl, h⟩ := bind_ok.mp h
      cases h
      have hsum := checkedAdd_some hafter
      have hle := UInt64.le_iff_toNat_le.mp (le_of_not_gt hceiling)
      have := toNat_lt after
      exact .inr ⟨held, l, y, hheld, by omega, by omega, hl, rfl, rfl⟩

/-! ## `apply` -/

/-- The response and events of an accepted order and of a cancel. -/
def PlaceAnswer (b : Build) (accountId : AccountId) (req : OrderRequest)
    (r : Except RejectReason MatchResponse) (response : CommandResponse)
    (events : List Event) : Prop :=
  match r with
  | .error reason => response = .place (.error reason) ∧ events = []
  | .ok m => ∃ p, placeResponse b m = .ok p ∧ response = .place (.ok p) ∧
      events = placeEvents accountId req m

/-- **`PlaceOrderResponse`, inverted.** -/
theorem placeResponse_ok {b : Build} {m : MatchResponse} {p : PlaceOrderResponse}
    (h : placeResponse b m = .ok p) :
    p.orderId = m.orderId ∧ b.sum (m.trades.map Trade.qty) = .ok p.filledQty ∧
      ∃ costs, (m.trades.mapM fun t => b.mul t.qty t.price) = .ok costs ∧
        b.sum costs = .ok p.totalCost := by
  obtain ⟨filledQty, hfilled, h⟩ := bind_ok.mp h
  obtain ⟨costs, hcosts, h⟩ := bind_ok.mp h
  obtain ⟨totalCost, htotal, h⟩ := bind_ok.mp h
  cases h
  exact ⟨rfl, hfilled, costs, hcosts, htotal⟩

/-- The engine `apply` dispatches on: the same, with the new key recorded. -/
def Engine.keyed (e : Engine) (dedup : Dedup) : Engine := { e with dedup := dedup }

/-- **`apply`, inverted**: a duplicate changed nothing; any other command was
dispatched, the dirty entries were reported, and a batch was numbered when
there was anything to report. -/
theorem apply_ok {b : Build} {o : Drains} {e e' : Engine} {accountId : AccountId}
    {clientOrderId : UInt64} {command : Command} {response : CommandResponse}
    {batch : Option EventBatch}
    (h : apply b o e accountId clientOrderId command = .ok (e', response, batch)) :
    (e' = e ∧ response = .duplicate ∧ batch = none) ∨
      ∃ dedup e₁ events balanceEvents,
        e.dedup.insert accountId clientOrderId = .ok (dedup, true) ∧
        Engine.dispatch b o { e with dedup := dedup } accountId command
          = .ok (e₁, response, events) ∧
        (o.dirty.toList e₁.ledger.dirty).mapM
          (balanceEvent { e₁.ledger with dirty := ∅ }) = .ok balanceEvents ∧
        ((events ++ balanceEvents = [] ∧ batch = none ∧
            e' = { e₁ with ledger := { e₁.ledger with dirty := ∅ } }) ∨
          ∃ nextSeq, events ++ balanceEvents ≠ [] ∧ b.add e₁.nextSeq 1 = .ok nextSeq ∧
            batch = some { seq := e₁.nextSeq, events := events ++ balanceEvents } ∧
            e' = { e₁ with
              ledger := { e₁.ledger with dirty := ∅ }, nextSeq := nextSeq }) := by
  unfold apply at h
  obtain ⟨⟨dedup, fresh⟩, hdedup, h⟩ := bind_ok.mp h
  cases fresh with
  | false =>
      cases h
      exact .inl ⟨rfl, rfl, rfl⟩
  | true =>
      obtain ⟨⟨e₁, response₁, events⟩, hdispatch, h⟩ := bind_ok.mp h
      obtain ⟨balanceEvents, hbal, h⟩ := bind_ok.mp h
      refine .inr ⟨dedup, e₁, events, balanceEvents, hdedup, ?_⟩
      dsimp only at h
      split at h
      · rename_i hnil
        cases h
        exact ⟨hdispatch, hbal, .inl ⟨List.isEmpty_iff.mp hnil, rfl, rfl⟩⟩
      · rename_i hne
        obtain ⟨n, hn, h⟩ := bind_ok.mp h
        cases h
        refine ⟨hdispatch, hbal, .inr ⟨n, fun hnil => hne (List.isEmpty_iff.mpr hnil), hn,
          rfl, rfl⟩⟩

/-- The answer to a new key is that of the command. -/
theorem apply_fresh_ok {b : Build} {o : Drains} {e e' : Engine} {accountId : AccountId}
    {clientOrderId : UInt64} {command : Command} {response : CommandResponse}
    {batch : Option EventBatch} {dedup : Dedup}
    (hdedup : e.dedup.insert accountId clientOrderId = .ok (dedup, true))
    (h : apply b o e accountId clientOrderId command = .ok (e', response, batch)) :
    ∃ e₁ events, Engine.dispatch b o (e.keyed dedup) accountId command
      = .ok (e₁, response, events) := by
  unfold apply at h
  rw [hdedup, ok_bind] at h
  obtain ⟨⟨e₁, response₁, events⟩, hdispatch, h⟩ := bind_ok.mp h
  obtain ⟨balanceEvents, _, h⟩ := bind_ok.mp h
  dsimp only at h
  split at h
  · cases h
    exact ⟨e₁, events, hdispatch⟩
  · obtain ⟨n, _, h⟩ := bind_ok.mp h
    cases h
    exact ⟨e₁, events, hdispatch⟩

/-- **The `match command` of `apply`, inverted**, one case per command. -/
theorem dispatch_ok {b : Build} {o : Drains} {e e' : Engine} {accountId : AccountId}
    {command : Command} {response : CommandResponse} {events : List Event}
    (h : Engine.dispatch b o e accountId command = .ok (e', response, events)) :
    match command with
    | .place req => ∃ r, e.placeOrder b o accountId req = .ok (e', r) ∧
        PlaceAnswer b accountId req r response events
    | .cancel req => ∃ r, e.cancelOrder b o accountId req = .ok (e', r) ∧
        match r with
        | none => response = .cancel false ∧ events = []
        | some (pair, order, bookDeltas) => ∃ filledQty,
            b.sub order.size order.remainingSize = .ok filledQty ∧
            response = .cancel true ∧
            events = cancelEvents req.orderId pair order filledQty bookDeltas
    | .deposit req => ∃ r, e.deposit b accountId req = .ok (e', r) ∧
        response = .deposit r ∧ events = []
    | .withdraw req => ∃ l r,
        e.ledger.withdraw b accountId req.currency req.amount = .ok (l, r) ∧
        e' = { e with ledger := l } ∧ response = .withdraw r ∧ events = []
    | .listPair pair => events = [] ∧
        ((pair.isValid = false ∧ e' = e ∧ response = .listPair (.error .invalidPair)) ∨
          (pair.isValid = true ∧ e' = { e with listedPairs := insert pair e.listedPairs } ∧
            response = .listPair (.ok (pair ∉ e.listedPairs))))
    | .delistPair pair => events = [] ∧
        e' = { e with listedPairs := e.listedPairs.erase pair } ∧
        response = .delistPair (pair ∈ e.listedPairs) := by
  cases command with
  | place req =>
      obtain ⟨⟨e₁, r⟩, hplace, h⟩ := bind_ok.mp h
      cases r with
      | error reason =>
          cases h
          exact ⟨_, hplace, rfl, rfl⟩
      | ok m =>
          obtain ⟨p, hp, h⟩ := bind_ok.mp h
          cases h
          exact ⟨_, hplace, p, hp, rfl, rfl⟩
  | cancel req =>
      obtain ⟨⟨e₁, r⟩, hcancel, h⟩ := bind_ok.mp h
      cases r with
      | none =>
          cases h
          exact ⟨_, hcancel, rfl, rfl⟩
      | some r =>
          obtain ⟨pair, order, deltas⟩ := r
          obtain ⟨q, hq, h⟩ := bind_ok.mp h
          cases h
          exact ⟨_, hcancel, q, hq, rfl, rfl⟩
  | deposit req =>
      obtain ⟨⟨e₁, r⟩, hdeposit, h⟩ := bind_ok.mp h
      cases h
      exact ⟨r, hdeposit, rfl, rfl⟩
  | withdraw req =>
      obtain ⟨⟨l, r⟩, hwithdraw, h⟩ := bind_ok.mp h
      cases h
      exact ⟨l, r, hwithdraw, rfl, rfl, rfl⟩
  | listPair pair =>
      unfold Engine.dispatch at h
      by_cases hv : pair.isValid = true
      · simp only [hv, Bool.not_true, Bool.false_eq_true, if_false, pure_ok,
          Prod.mk.injEq] at h
        obtain ⟨rfl, rfl, rfl⟩ := h
        exact ⟨rfl, .inr ⟨hv, rfl, rfl⟩⟩
      · rw [Bool.not_eq_true] at hv
        simp only [hv, Bool.not_false, if_true, pure_ok, Prod.mk.injEq] at h
        obtain ⟨rfl, rfl, rfl⟩ := h
        exact ⟨rfl, .inl ⟨hv, rfl, rfl⟩⟩
  | delistPair pair =>
      cases h
      exact ⟨rfl, rfl, rfl⟩

/-- Everything but the ledger and the listed pairs is as it was. -/
structure Engine.SameBooks (e e' : Engine) : Prop where
  books : e'.books = e.books
  orderPair : e'.orderPair = e.orderPair
  nextOrderId : e'.nextOrderId = e.nextOrderId
  nextSeq : e'.nextSeq = e.nextSeq
  limits : e'.limits = e.limits
  dedup : e'.dedup = e.dedup

/-- **Only orders and cancels touch a book**, and only they have events: every
other command, and every order or cancel without a trace, leaves all but the
ledger and the listed pairs. -/
theorem dispatch_books {b : Build} {o : Drains} {e e' : Engine} {accountId : AccountId}
    {command : Command} {response : CommandResponse} {events : List Event}
    (h : Engine.dispatch b o e accountId command = .ok (e', response, events)) :
    (e.SameBooks e' ∧ response ≠ .cancel true ∧ events = []) ∨
      (∃ req, command = .place req ∧ ∃ t : PlaceTrace b o e accountId req,
        e' = t.engine ∧ PlaceAnswer b accountId req t.result response events) ∨
      ∃ req, command = .cancel req ∧ ∃ (t : CancelTrace b o e accountId req) (filledQty : UInt64),
        e' = t.engine ∧ b.sub t.order.size t.order.remainingSize = .ok filledQty ∧
          response = .cancel true ∧
          events = cancelEvents req.orderId t.pair t.order filledQty t.bookDeltas := by
  have hsame : ∀ l, e.SameBooks { e with ledger := l } := fun _ => ⟨rfl, rfl, rfl, rfl, rfl, rfl⟩
  have hself : e.SameBooks e := hsame e.ledger
  have h := dispatch_ok h
  cases command with
  | place req =>
      obtain ⟨r, hplace, hanswer⟩ := h
      rcases placeOrder_ok hplace with ⟨reason, l, rfl, rfl, _⟩ | ⟨t, rfl, rfl⟩
      · obtain ⟨rfl, rfl⟩ := hanswer
        exact .inl ⟨hsame l, nofun, rfl⟩
      · exact .inr (.inl ⟨req, rfl, t, rfl, hanswer⟩)
  | cancel req =>
      obtain ⟨r, hcancel, hanswer⟩ := h
      rcases engineCancel_ok hcancel with ⟨rfl, rfl⟩ | ⟨t, rfl, rfl⟩
      · obtain ⟨rfl, rfl⟩ := hanswer
        exact .inl ⟨hself, nofun, rfl⟩
      · obtain ⟨filledQty, hqty, rfl, rfl⟩ := hanswer
        exact .inr (.inr ⟨req, rfl, t, filledQty, rfl, hqty, rfl, rfl⟩)
  | deposit req =>
      obtain ⟨r, hdeposit, rfl, rfl⟩ := h
      rcases engineDeposit_ok hdeposit with ⟨_, _, rfl⟩ | ⟨_, l, _, _, _, _, _, _, rfl⟩
      · exact .inl ⟨hself, nofun, rfl⟩
      · exact .inl ⟨hsame l, nofun, rfl⟩
  | withdraw req =>
      obtain ⟨l, r, _, rfl, rfl, rfl⟩ := h
      exact .inl ⟨hsame l, nofun, rfl⟩
  | listPair pair =>
      obtain ⟨rfl, ⟨_, rfl, rfl⟩ | ⟨_, rfl, rfl⟩⟩ := h
      · exact .inl ⟨hself, nofun, rfl⟩
      · exact .inl ⟨⟨rfl, rfl, rfl, rfl, rfl, rfl⟩, nofun, rfl⟩
  | delistPair pair =>
      obtain ⟨rfl, rfl, rfl⟩ := h
      exact .inl ⟨⟨rfl, rfl, rfl, rfl, rfl, rfl⟩, nofun, rfl⟩

theorem step_ok {b : Build} {e e' : Engine} {s : Submission} {r : Record} :
    Engine.step b e s = .ok (e', r) ↔ ∃ response batch,
      apply b s.drains e s.accountId s.clientOrderId s.command = .ok (e', response, batch) ∧
        r = ⟨s.accountId, s.clientOrderId, s.command, response, batch⟩ := by
  unfold Engine.step
  rw [bind_ok]
  constructor
  · rintro ⟨⟨e₁, response, batch⟩, happly, h⟩
    cases h
    exact ⟨response, batch, happly, rfl⟩
  · rintro ⟨response, batch, happly, rfl⟩
    exact ⟨_, happly, rfl⟩

/-- **The invariant rule for runs of the engine**: what holds of `Engine.new`
and is kept by every `apply` that returns, together with the history. -/
theorem Reaches.invariant {b : Build} {limits : Limits}
    {motive : List Record → Engine → Prop} (init : motive [] (Engine.new limits))
    (kept : ∀ h e (o : Drains) a cid cmd e' response batch, motive h e →
      apply b o e a cid cmd = .ok (e', response, batch) →
      motive (h ++ [⟨a, cid, cmd, response, batch⟩]) e')
    {h : List Record} {e : Engine} (hr : Reaches b limits h e) : motive h e := by
  obtain ⟨subs, hrun⟩ := hr
  refine run_invariant init (fun ws s i s' w hm hstep => ?_) hrun
  obtain ⟨response, batch, happly, rfl⟩ := step_ok.mp hstep
  exact kept ws s i.drains i.accountId i.clientOrderId i.command _ _ _ hm happly

/-- A run is a run of one step less, and that step. -/
theorem Reaches.snoc {b : Build} {limits : Limits} {h : List Record} {e e' : Engine}
    (hr : Reaches b limits h e) {o : Drains} {a : AccountId} {cid : UInt64} {cmd : Command}
    {response : CommandResponse} {batch : Option EventBatch}
    (happly : apply b o e a cid cmd = .ok (e', response, batch)) :
    Reaches b limits (h ++ [⟨a, cid, cmd, response, batch⟩]) e' := by
  obtain ⟨subs, hrun⟩ := hr
  refine ⟨subs ++ [⟨a, cid, cmd, o⟩], run_snoc.mpr ⟨e, h, _, hrun, ?_, rfl⟩⟩
  rw [Engine.step, happly]
  rfl

theorem ReachesAlong.reaches {b : Build} {limits : Limits} {C : Engine → Submission → Prop}
    {h : List Record} {e : Engine} (hr : ReachesAlong b limits C h e) : Reaches b limits h e :=
  hr.imp fun _ h => h.1

/-- The invariant rule for runs along a condition. -/
theorem ReachesAlong.invariant {b : Build} {limits : Limits} {C : Engine → Submission → Prop}
    {motive : List Record → Engine → Prop} (init : motive [] (Engine.new limits))
    (kept : ∀ h e (o : Drains) a cid cmd e' response batch, Reaches b limits h e →
      motive h e → C e ⟨a, cid, cmd, o⟩ →
      apply b o e a cid cmd = .ok (e', response, batch) →
      motive (h ++ [⟨a, cid, cmd, response, batch⟩]) e')
    {h : List Record} {e : Engine} (hr : ReachesAlong b limits C h e) : motive h e := by
  obtain ⟨subs, hrun, halong⟩ := hr
  have hboth : Reaches b limits h e ∧ motive h e := by
    refine run_invariant_along (motive := fun h e => Reaches b limits h e ∧ motive h e)
      ⟨⟨[], rfl⟩, init⟩ (fun ws s i s' w hm hC hstep => ?_) halong hrun
    obtain ⟨response, batch, happly, rfl⟩ := step_ok.mp hstep
    exact ⟨hm.1.snoc happly,
      kept ws s i.drains i.accountId i.clientOrderId i.command _ _ _ hm.1 hm.2 hC happly⟩
  exact hboth.2

end MatchingEngine
