import MatchingEngine.Acceptance
import MatchingEngine.Balances
import MatchingEngine.Lib.MapSum
import MatchingEngine.OrderHistory

/-!
# Audit: the tables agree with each other

What Postgres says of the balances and of the orders comes from different
events, and nothing in the schema ties the two together. They agree all the
same (`tables_audit`): what a row of `balances` has reserved is what the open
rows of `orders` still want, and all of `balances` together is what was
deposited less what was withdrawn. Orders rest with the columns they were
accepted with (`Reaches.acceptedAs`), so an open row is worth what its order is.
-/

namespace MatchingEngine

open RustArith HashModel Bank

/-! ## What rests was accepted as it is -/

/-- The event that accepts an order. -/
def Order.acceptance (pair : Pair) (o : Order) : Event :=
  .orderAccepted o.id o.accountId pair o.side o.orderType o.price o.size

/-- Orders rest with the columns they were accepted with. -/
def AcceptedAs (h : List Record) (e : Engine) : Prop :=
  ∀ pair, ∀ o ∈ (e.book pair).orders, o.acceptance pair ∈ eventsOf h

section Steps

variable {b : Build} {o : Drains} {e e' : Engine} {accountId : AccountId}

/-- What is left of an order has its columns. -/
theorem leftAfter_acceptance {fs : List (Order × ℕ)} {o o' : Order} (pair : Pair)
    (h : leftAfter fs o = some o') : o'.acceptance pair = o.acceptance pair := by
  unfold leftAfter Greedy.after at h
  split at h
  · cases h
  · cases h
    rfl

/-- The new order rests with the columns of the request. -/
theorem resting_acceptance {book : OrderBook} {orderId : UInt64} {req : OrderRequest} {o' : Order}
    (h : o' ∈ book.resting orderId accountId req) : o'.acceptance req.pair
      = .orderAccepted orderId accountId req.pair req.side req.orderType req.price req.size := by
  unfold OrderBook.resting at h
  split at h
  · obtain ⟨rem, htaker⟩ := taker_eq book orderId accountId req
    rw [List.mem_singleton.mp h, htaker]
    rfl
  · cases h

/-- **Who rests after a call** rested before with the same columns, or the call
accepted it with them. -/
theorem apply_acceptance {clientOrderId : UInt64} {command : Command} {response : CommandResponse}
    {batch : Option EventBatch} (hs : e.Shape) (hi : e.Indexed) (hb : e.Backed) (hfit : e.Fits b)
    (happly : apply b o e accountId clientOrderId command = .ok (e', response, batch))
    {pair : Pair} {o' : Order} (ho : o' ∈ (e'.book pair).orders) :
    (∃ o ∈ (e.book pair).orders, o.acceptance pair = o'.acceptance pair) ∨
      o'.acceptance pair ∈ batchEvents batch := by
  rcases apply_events happly with
    ⟨rfl, rfl⟩ | ⟨dedup, e₁, events, bevs, hdispatch, _, hbatch, hbooks, _⟩
  · exact .inl ⟨o', ho, rfl⟩
  have hs' : (e.keyed dedup).Shape := hs.of_books rfl
  have hi' : (e.keyed dedup).Indexed := hi.of_books rfl rfl rfl
  have hb' : (e.keyed dedup).Backed := hb
  have hfit' : (e.keyed dedup).Fits b := hfit
  rw [Engine.book, hbooks, ← Engine.book] at ho
  rcases dispatch_books hdispatch with
    ⟨hsame, _, _⟩ | ⟨req, _, t, rfl, hanswer⟩ | ⟨req, _, t, q, rfl, _, _, _⟩
  · rw [Engine.book, hsame.books] at ho
    exact .inl ⟨o', ho, rfl⟩
  · rw [book_insert rfl] at ho
    split at ho
    · rename_i hpair
      subst hpair
      rw [(t.book_eq hs').1, drained_orders, mem_placed (hi'.books _) (hs'.wf _)] at ho
      rcases ho with hnew | ⟨m, hm, hleft⟩
      · -- the reserve was found, so the order was accepted
        rw [t.result_eq hs' hb' hfit'] at hanswer
        obtain ⟨_, _, _, rfl⟩ := hanswer
        refine .inr ?_
        rw [hbatch, resting_acceptance hnew, ← t.orderId_eq hs']
        exact List.mem_append_left _ List.mem_cons_self
      · exact .inl ⟨m, hm, (leftAfter_acceptance req.pair hleft).symm⟩
    · exact .inl ⟨o', ho, rfl⟩
  · rw [book_insert rfl] at ho
    split at ho
    · rename_i hpair
      obtain ⟨_, _, hperm⟩ := t.removed_order hi'
      exact .inl ⟨o', hpair ▸ hperm.mem_iff.mpr (List.mem_cons_of_mem _ ho), rfl⟩
    · exact .inl ⟨o', ho, rfl⟩

end Steps

theorem Reaches.acceptedAs {b : Build} {limits : Limits} {h : List Record} {e : Engine}
    (hr : Reaches b limits h e) (hnet : b.Checks (NetBelow h))
    (hplaces : b.Checks (places h < 2 ^ 64)) : AcceptedAs h e := by
  have hboth : Reaches b limits h e ∧ (b.Checks (NetBelow h) → b.Checks (places h < 2 ^ 64) →
      AcceptedAs h e) := by
    refine hr.invariant (motive := fun h e => Reaches b limits h e ∧
      (b.Checks (NetBelow h) → b.Checks (places h < 2 ^ 64) → AcceptedAs h e))
      ⟨⟨[], rfl⟩, fun _ _ _ o ho => (nomatch ho)⟩ ?_
    intro h e o a cid cmd e' response batch ⟨hr, ih⟩ happly
    refine ⟨hr.snoc happly, fun hnet hplaces pair o' ho => ?_⟩
    have hnet₀ := hnet.imp fun hnet => hnet.of_prefix (List.prefix_append h _)
    rw [places_snoc] at hplaces
    have hplaces₀ := hplaces.imp fun hlt => (Nat.le_add_right (places h) _).trans_lt hlt
    have hacc := hr.accounted hnet₀
    rw [eventsOf_append, eventsOf_singleton, List.mem_append]
    rcases apply_acceptance hacc.shape (hr.indexed hplaces₀).1 hacc.backed (hacc.fits hnet₀) happly
      ho with ⟨m, hm, heq⟩ | hnew
    · exact .inl (heq ▸ ih hnet₀ hplaces₀ pair m hm)
    · exact .inr hnew
  exact hboth.2 hnet hplaces

/-! ## The rows of the open orders -/

/-- The row is of an order that may rest. -/
def OrderRow.live (row : OrderRow) : Bool := row.status = .open ∨ row.status = .partiallyFilled

/-- What a row of `orders` says account `a` has reserved of currency `c`: the
unfilled rest of a bid at its price, the unfilled rest of an ask. -/
def OrderRow.reserved (row : OrderRow) (a : AccountId) (c : Currency) : ℕ :=
  if row.accountId = a ∧ row.live then
    match row.side with
    | .bid => if row.pair.quote = c then
        row.price.toNat * (row.size.toNat - row.filledQty.toNat) else 0
    | .ask => if row.pair.base = c then row.size.toNat - row.filledQty.toNat else 0
  else 0

/-- What `orders` says an account has reserved. -/
def Tables.reserved (tables : Tables) (a : AccountId) (c : Currency) : ℕ :=
  sumRows tables.orders fun _ row => row.reserved a c

/-- What `balances` says all accounts hold. -/
def Tables.held (tables : Tables) (c : Currency) : ℕ :=
  sumRows tables.balances fun key balance =>
    if key.2 = c then balance.available.toNat + balance.reserved.toNat else 0

/-- The rows as they come from the events, and the engine they describe. -/
structure Described (h : List Record) (e : Engine) : Prop where
  shape : e.Shape
  indexed : e.Indexed
  orders : OrdersSound h e
  acceptedAs : AcceptedAs h e

section Rows

variable {h : List Record} {e : Engine}

/-- An order is accepted by one event. -/
theorem OrdersSound.accepted_unique (hsound : OrdersSound h e) {id : UInt64} {x y : Event}
    (hx : x ∈ eventsOf h) (hy : y ∈ eventsOf h) (hxid : x.accepted? = some id)
    (hyid : y.accepted? = some id) : x = y := by
  let apart : Event → Event → Prop := fun x y =>
    ∀ id, x.accepted? = some id → ∀ id', y.accepted? = some id' → id ≠ id'
  have hsymm : Std.Symm apart := ⟨fun x y hxy id hid id' hid' => (hxy id' hid' id hid).symm⟩
  have hpairs : (eventsOf h).Pairwise apart := List.pairwise_filterMap.mp hsound.acceptedOnce
  by_contra hne
  exact hpairs.forall hx hy hne id hxid id hyid rfl

theorem Described.matches (hd : Described h e) {id : UInt64} {row : OrderRow}
    (hrow : (orderRows h).lookup id = some row) : row.Matches h e id := by
  have hlife := hd.orders.life id
  rw [hrow] at hlife
  exact hlife.matches hd.shape hd.indexed (orderRows_acceptance hrow)

/-- A row is live while its order rests. -/
theorem Described.live_iff (hd : Described h e) {id : UInt64} {row : OrderRow}
    (hrow : (orderRows h).lookup id = some row) :
    row.live = true ↔ ∃ o, e.Resting id o := by
  have hmatches := hd.matches hrow
  rw [OrderRow.live, decide_eq_true_eq, hmatches.open_iff, hmatches.partiallyFilled_iff]
  constructor
  · rintro (⟨o, ho, _⟩ | ⟨o, ho, _⟩) <;> exact ⟨o, ho⟩
  · rintro ⟨o, ho⟩
    have hrests := ho.rests hd.shape
    have hpos : 0 < o.remainingSize.toNat := hrests.pos
    have hle := UInt64.le_iff_toNat_le.mp hrests.sized
    by_cases hall : o.remainingSize = o.size
    · exact .inl ⟨o, ho, hall⟩
    · refine .inr ⟨o, ho, UInt64.lt_iff_toNat_lt.mpr hpos, UInt64.lt_iff_toNat_lt.mpr ?_⟩
      have hne : o.remainingSize.toNat ≠ o.size.toNat := fun heq => hall (UInt64.toNat_inj.mp heq)
      omega

/-- **The row of an open order** has its columns. -/
theorem Described.columns (hd : Described h e) {pair : Pair} {o : Order}
    (ho : o ∈ (e.book pair).orders) : ∃ row, (orderRows h).lookup o.id = some row ∧
      row.accountId = o.accountId ∧ row.pair = pair ∧ row.side = o.side ∧ row.price = o.price ∧
      row.live = true ∧ row.size = o.size ∧
      row.filledQty.toNat + o.remainingSize.toNat = o.size.toNat := by
  have haccepted := hd.acceptedAs pair o ho
  obtain ⟨row, hrow⟩ := Option.isSome_iff_exists.mp
    ((orderRows_isSome h o.id).mpr (List.mem_filterMap.mpr ⟨_, haccepted, rfl⟩))
  have hcolumns := hd.orders.accepted_unique (orderRows_acceptance hrow) haccepted rfl rfl
  injection hcolumns with _ haccount hpair hside _ hprice _
  have hlive := (hd.live_iff hrow).mpr ⟨o, pair, ho, rfl⟩
  obtain ⟨hsize, hfilled⟩ := (hd.matches hrow).resting o ⟨pair, ho, rfl⟩
  exact ⟨row, hrow, haccount, hpair, hside, hprice, hlive, hsize, hfilled⟩

/-- It is worth what the order is. -/
theorem Described.row (hd : Described h e) {pair : Pair} {o : Order}
    (ho : o ∈ (e.book pair).orders) (a : AccountId) (c : Currency) :
    rowValue (orderRows h) (fun _ row => row.reserved a c) o.id = o.rate pair a c * o.units := by
  obtain ⟨row, hrow, haccount, hpair, hside, hprice, hlive, hsize, hfilled⟩ := hd.columns ho
  have hleft : row.size.toNat - row.filledQty.toNat = o.units := by
    have hunits : o.units = o.remainingSize.toNat := rfl
    rw [hsize, hunits]
    omega
  rw [rowValue_some hrow, OrderRow.reserved, Order.rate, haccount, hpair, hside, hprice, hlive,
    hleft]
  by_cases ha : o.accountId = a
  · rw [if_pos ⟨ha, rfl⟩, if_pos ha]
    cases o.side with
    | bid =>
        dsimp only
        split
        · rfl
        · rw [Nat.zero_mul]
    | ask =>
        dsimp only
        split
        · rw [Nat.one_mul]
        · rw [Nat.zero_mul]
  · rw [if_neg fun hof => ha hof.1, if_neg ha, Nat.zero_mul]

/-- **The open rows are worth the open orders.** -/
theorem Described.reserved_eq (hd : Described h e) (a : AccountId) (c : Currency) :
    sumRows (orderRows h) (fun _ row => row.reserved a c) = e.committed a c := by
  let ids : Pair → Finset UInt64 := fun pair => ((e.book pair).orders.map Order.id).toFinset
  have hmem : ∀ {pair id}, id ∈ ids pair ↔ ∃ o ∈ (e.book pair).orders, o.id = id := by
    intro pair id
    rw [List.mem_toFinset, List.mem_map]
  have hdisjoint : Set.PairwiseDisjoint (Finset.univ : Finset Pair) ids := by
    intro pair _ pair' _ hne
    refine Finset.disjoint_left.mpr fun id hid hid' => hne ?_
    obtain ⟨o, ho, hid⟩ := hmem.mp hid
    obtain ⟨o', ho', hid'⟩ := hmem.mp hid'
    exact hd.indexed.pair_unique ho ho' (hid.trans hid'.symm)
  have hrows : ∀ id row, (orderRows h).lookup id = some row → row.reserved a c ≠ 0 →
      id ∈ Finset.univ.biUnion ids := by
    intro id row hrow hne
    have hlive : row.live = true := by
      by_contra hdead
      exact hne (if_neg fun hof => hdead hof.2)
    obtain ⟨o, pair, ho, hid⟩ := (hd.live_iff hrow).mp hlive
    exact Finset.mem_biUnion.mpr ⟨pair, Finset.mem_univ pair, hmem.mpr ⟨o, ho, hid⟩⟩
  rw [sumRows_eq hrows, Finset.sum_biUnion hdisjoint, Engine.committed]
  refine Finset.sum_congr rfl fun pair _ => ?_
  rw [committed_eq_worth (hd.shape.wf pair), worth,
    List.sum_toFinset _ (hd.indexed.books pair).nodup, List.map_map]
  exact congrArg List.sum (List.map_congr_left fun o ho => hd.row ho a c)

end Rows

/-! ## The rows of the balances -/

/-- A row of `balances` is the entry of the ledger, and an entry without one is
empty. -/
theorem Reaches.balanceRow {b : Build} {limits : Limits} {h : List Record} {e : Engine}
    (hr : Reaches b limits h e) (a : AccountId) (c : Currency) :
    ((balanceRows h).lookup (a, c)).getD {} = e.ledger.balance a c := by
  have hrows : e.Shape ∧ ((balanceRows h).lookup (a, c)).getD {} = e.ledger.balance a c := by
    refine hr.invariant (motive := fun h e => e.Shape ∧
      ((balanceRows h).lookup (a, c)).getD {} = e.ledger.balance a c)
      ⟨Engine.new_shape limits, rfl⟩ ?_
    intro h e o accountId cid cmd e' response batch ⟨hs, ih⟩ happly
    refine ⟨apply_shape hs happly, ?_⟩
    obtain ⟨keys, _, hreport, hframe⟩ := apply_balances hs happly
    rw [balanceRows, eventsOf_append, List.foldl_append, ← balanceRows, eventsOf_singleton,
      foldl_balanceStep, hreport, lookup_foldl_insert_keys]
    by_cases hkey : (a, c) ∈ keys
    · rw [if_pos hkey, Option.getD_some]
    · rw [if_neg hkey, ih, hframe a c hkey]
  exact hrows.2

/-- What the rows hold of a currency is what the ledger does. -/
theorem Reaches.rows_held {b : Build} {limits : Limits} {h : List Record} {e : Engine}
    (hr : Reaches b limits h e) (c : Currency) :
    (sumRows (balanceRows h) fun key balance =>
      if key.2 = c then balance.available.toNat + balance.reserved.toNat else 0) = e.total c := by
  have hvalue : ∀ a, rowValue (balanceRows h) (fun key balance =>
      if key.2 = c then balance.available.toNat + balance.reserved.toNat else 0) (a, c)
        = e.held a c := by
    intro a
    have hrow := hr.balanceRow a c
    have hheld : e.held a c
        = (e.ledger.balance a c).available.toNat + (e.ledger.balance a c).reserved.toNat := rfl
    rw [hheld, ← hrow]
    cases hlookup : (balanceRows h).lookup (a, c) with
    | none => exact rowValue_none hlookup _
    | some balance =>
        rw [rowValue_some hlookup]
        exact if_pos rfl
  rw [Engine.total, Accounts.total, sumRows_eq (s := Finset.univ ×ˢ {c}), Finset.sum_product]
  · exact Finset.sum_congr rfl fun a _ => by rw [Finset.sum_singleton, hvalue a, Engine.held]
  · rintro ⟨a, c'⟩ balance _ hne
    rw [Finset.mem_product, Finset.mem_singleton]
    refine ⟨Finset.mem_univ a, ?_⟩
    by_contra hother
    exact hne (if_neg hother)

/-! ## The audit -/

/-- The rows describe every engine that is reached. -/
theorem Reaches.described {b : Build} {limits : Limits} {h : List Record} {e : Engine}
    (hr : Reaches b limits h e) (hnet : b.Checks (NetBelow h))
    (hplaces : b.Checks (places h < 2 ^ 64)) : Described h e :=
  ⟨(hr.accounted hnet).shape, (hr.indexed hplaces).1, hr.ordersSound hnet hplaces,
    hr.acceptedAs hnet hplaces⟩

/-- **The tables pass an audit** after every run, as they are staged: what an
account has reserved by its row of `balances` is what its open rows of `orders`
still want, and the rows of `balances` hold exactly what was deposited and not
withdrawn. -/
theorem tables_audit {b : Build} {limits : Limits} {h : List Record} {e : Engine}
    (hr : Reaches b limits h e) (hnet : b.Checks (NetBelow h))
    (hplaces : b.Checks (places h < 2 ^ 64)) {clock : ℕ → ℕ → ℤ} {tables : Tables}
    (hstage : Tables.empty.stageAll clock (h.filterMap Record.batch) = some tables) :
    (∀ a c, ((tables.balances.lookup (a, c)).getD {}).reserved.toNat = tables.reserved a c) ∧
      ∀ c, (tables.held c : ℤ) = netDeposits h c := by
  obtain ⟨hbalances, horders⟩ := stageAll_rows hstage
  have hacc := hr.accounted hnet
  have hdescribed := hr.described hnet hplaces
  constructor
  · intro a c
    rw [Tables.reserved, hbalances, horders, hr.balanceRow a c, hdescribed.reserved_eq a c]
    exact hacc.backed a c
  · intro c
    have htotal := hacc.total c
    rw [Tables.held, hbalances, hr.rows_held c, netDeposits]
    omega

/-- After the trading run the row of account 1 has reserved the asset of the ask
that is still open. -/
theorem tables_audit_trading :
    ∃ tables, Tables.empty.stageAll (fun _ _ => 0)
        ((finish .default (runCalls .release .default tradingCalls)).2.filterMap Record.batch)
          = some tables ∧
      ((tables.balances.lookup (1, .SOL)).getD {}).reserved.toNat = tables.reserved 1 .SOL ∧
      (tables.held .SOL : ℤ)
        = netDeposits (finish .default (runCalls .release .default tradingCalls)).2 .SOL := by
  obtain ⟨tables, hstage⟩ := Option.isSome_iff_exists.mp
    (show (Tables.empty.stageAll (fun _ _ => 0) ((finish .default
      (runCalls .release .default tradingCalls)).2.filterMap Record.batch)).isSome = true by
        decide +kernel)
  have haudit := tables_audit (reaches_runCalls tradingCalls_returned) (.inr tradingCalls_net)
    (.inr (by decide +kernel)) hstage
  exact ⟨tables, hstage, haudit.1 1 .SOL, haudit.2 .SOL⟩

end MatchingEngine
