import MatchingEngine.Audit
import MatchingEngine.MarketFeed
import MatchingEngine.PrivateFeed
import MatchingEngine.Retention

/-!
# Portfolio: what an account is shown

`GET /balances` and `GET /orders` read the tables of the writer, which deletes old rows.
What an account is shown is its part of an engine that was there: its balances, all of
its open orders, and in them what it has reserved (`portfolio_exact`).
-/

namespace MatchingEngine

open RustArith HashModel SystemModel

/-- `get_balances`: the rows of an account, `ORDER BY currency`. -/
def getBalances (rows : HashMap (AccountId × Currency) Balance) (accountId : AccountId) :
    List (Currency × Balance) :=
  [Currency.SOL, Currency.USD].filterMap fun currency =>
    ((boundAccount accountId).bind fun owner => rows.lookup (owner, currency)).map (currency, ·)

section Answer

variable {a : AccountId} (ha : a.toNat < 2 ^ 63)

include ha

theorem mem_getBalances {rows : HashMap (AccountId × Currency) Balance} {c : Currency}
    {balance : Balance} :
    (c, balance) ∈ getBalances rows a ↔ rows.lookup (a, c) = some balance := by
  simp only [getBalances, boundAccount_of_lt ha, Option.bind_some, List.mem_filterMap]
  constructor
  · rintro ⟨c', _, hrow⟩
    obtain ⟨balance', hlookup, heq⟩ := Option.map_eq_some_iff.mp hrow
    cases heq
    exact hlookup
  · intro hlookup
    exact ⟨c, by cases c <;> decide, by rw [hlookup]; rfl⟩

/-- **What the answer has reserved** is what the table has. -/
theorem sum_getOrders (rows : HashMap UInt64 OrderRow) (c : Currency) :
    ((getOrders rows a).map fun r => r.2.reserved a c).sum
      = sumRows rows fun _ row => row.reserved a c := by
  have hids : ∀ ids : List UInt64,
      ((ids.filterMap fun id => ((rows.lookup id).filter fun row => row.accountId = a).map
        (id, ·)).map fun r : UInt64 × OrderRow => r.2.reserved a c).sum
        = (ids.map (rowValue rows fun _ row => row.reserved a c)).sum := by
    intro ids
    induction ids with
    | nil => rfl
    | cons id ids ih =>
        rw [List.map_cons, List.sum_cons, ← ih, List.filterMap_cons]
        cases hlookup : rows.lookup id with
        | none =>
            rw [rowValue_none hlookup, Nat.zero_add]
            rfl
        | some row =>
            rw [rowValue_some hlookup]
            by_cases hown : row.accountId = a
            · rw [Option.filter_some, if_pos (decide_eq_true hown)]
              rfl
            · have hzero : row.reserved a c = 0 := if_neg fun hof => hown hof.1
              rw [Option.filter_some, if_neg (by simpa using hown), hzero, Nat.zero_add]
              rfl
  rw [getOrders_eq ha, hids, sumRows, ← List.sum_toFinset _ (Finset.sort_nodup _ _),
    Finset.sort_toFinset]

end Answer

/-- **The portfolio is exact**, whatever the environment says and was deleted: there is a
prefix of the commands, those that made the committed batches, after which the engine
has the balances of every account as shown (none shown is none had), its open orders
are the open rows shown, and what these have reserved is what the balances say. -/
theorem portfolio_exact {b : Build} {limits : Limits} {h : List Record} {e : Engine}
    (hr : Reaches b limits h e) (hnet : b.Checks (NetBelow h))
    (hplaces : b.Checks (places h < 2 ^ 64))
    (hlen : b.Checks ((h.filterMap Record.batch).length ≤ 2 ^ 64))
    {env : String → Option Text} {r : Retention} (henv : r = Retention.fromEnv env) {x : Ingest}
    (hruns : Runs (Ingest.step r (h.filterMap Record.batch)) (fun _ _ => True) .init x) :
    ∃ h' e', h' <+: h ∧ Reaches b limits h' e' ∧
      h'.filterMap Record.batch = x.delivered.map Delivery.batch ∧
      ∀ a : AccountId, a.toNat < 2 ^ 63 →
        (∀ c balance, (c, balance) ∈ getBalances x.pg.tables.balances a →
          balance = e'.ledger.balance a c) ∧
        (∀ c, (∀ balance, (c, balance) ∉ getBalances x.pg.tables.balances a) →
          e'.ledger.balance a c = {}) ∧
        (∀ id row, (id, row) ∈ getOrders x.pg.tables.orders a → row.live = true →
          ∃ pair, ∃ o ∈ (e'.book pair).orders, o.id = id ∧ o.accountId = a) ∧
        (∀ pair, ∀ o ∈ (e'.book pair).orders, o.accountId = a →
          ∃ row, (o.id, row) ∈ getOrders x.pg.tables.orders a ∧ row.live = true ∧
            row.pair = pair ∧ row.side = o.side ∧ row.price = o.price ∧ row.size = o.size ∧
            row.filledQty.toNat + o.remainingSize.toNat = o.size.toNat) ∧
        ∀ c, ((getOrders x.pg.tables.orders a).map fun r => r.2.reserved a c).sum
          = (e'.ledger.balance a c).reserved.toNat := by
  have hdays : 0 ≤ r.candle1sDays := henv ▸ Retention.fromEnv_nonneg env
  obtain ⟨full, hx⟩ := Ingest.retained hr hlen hnet hplaces hdays hruns
  obtain ⟨h', e', hprefix, hr', hbatches⟩ := hr.upTo hx.count
  have hnet' := hnet.imp fun hnet => hnet.of_prefix hprefix
  have hplaces' : b.Checks (places h' < 2 ^ 64) :=
    hplaces.imp fun hlt => hprefix.sublist.countP_le.trans_lt hlt
  have hdescribed := hr'.described hnet' hplaces'
  have hevents : deliveredEvents x.delivered = eventsOf h' := by
    rw [deliveredEvents, hx.delivered, ← hbatches, eventsOf_eq]
  obtain ⟨hbalances, horders⟩ := deliver_rows hx.deliver
  rw [hevents] at hbalances horders
  have hbalances' : x.pg.tables.balances = balanceRows h' := hx.balances.trans hbalances
  have horders' : full.orders = orderRows h' := horders
  -- an open order is not deleted
  have hkept : ∀ id row, (orderRows h').lookup id = some row → row.live = true →
      x.pg.tables.orders.lookup id = some row := by
    intro id row hrow hlive
    rw [← horders'] at hrow
    refine (hx.orders.same fun row' hrow' hgone => ?_).trans hrow
    cases hrow.symm.trans hrow'
    rw [hgone.ended] at hlive
    cases hlive
  refine ⟨h', e', hprefix, hr', hbatches.trans hx.delivered.symm, fun a ha =>
    ⟨?_, ?_, ?_, ?_, ?_⟩⟩
  · intro c balance hin
    have hrow := hr'.balanceRow a c
    rw [← hbalances', (mem_getBalances ha).mp hin] at hrow
    exact hrow
  · intro c hnone
    have hrow := hr'.balanceRow a c
    cases hlookup : (balanceRows h').lookup (a, c) with
    | none =>
        rw [hlookup] at hrow
        exact hrow.symm
    | some balance =>
        refine absurd ((mem_getBalances ha).mpr ?_) (hnone balance)
        rw [hbalances', hlookup]
  · intro id row hin hlive
    obtain ⟨hlookup, hown⟩ := (mem_getOrders ha).mp hin
    have hrow := hx.orders.kept hlookup
    rw [horders'] at hrow
    obtain ⟨o, pair, ho, rfl⟩ := (hdescribed.live_iff hrow).mp hlive
    obtain ⟨row', hrow', haccount, _⟩ := hdescribed.columns ho
    cases hrow.symm.trans hrow'
    exact ⟨pair, o, ho, rfl, haccount.symm.trans hown⟩
  · intro pair o ho hown
    obtain ⟨row, hrow, haccount, hpair, hside, hprice, hlive, hsize, hfilled⟩ :=
      hdescribed.columns ho
    have hin := (mem_getOrders ha).mpr ⟨hkept o.id row hrow hlive, haccount.trans hown⟩
    exact ⟨row, hin, hlive, hpair, hside, hprice, hsize, hfilled⟩
  · intro c
    have hworth : sumRows x.pg.tables.orders (fun _ row => row.reserved a c)
        = sumRows full.orders fun _ row => row.reserved a c := by
      refine hx.orders.sumRows_eq fun id row _ hgone => if_neg ?_
      rintro ⟨_, hlive⟩
      rw [hgone.ended] at hlive
      cases hlive
    rw [sum_getOrders ha, hworth, horders', hdescribed.reserved_eq a c]
    exact ((hr'.accounted hnet').backed a c).symm

/-- A week later the ask that was filled is gone, and the bid is not. -/
theorem portfolio_exact_week : ∃ (x : Ingest) (balance : Balance),
    (∀ row, (0, row) ∉ getOrders x.pg.tables.orders 1) ∧
    (.USD, balance) ∈ getBalances x.pg.tables.balances 2 ∧ balance.reserved = 11 ∧
    ((getOrders x.pg.tables.orders 2).map fun r => r.2.reserved 2 .USD).sum
      = balance.reserved.toNat := by
  have hcheck : (exec (Ingest.step (Retention.fromEnv fun _ => none) tradingBatches)
      (fun _ _ => true) .init weekRun).any (fun x =>
        (x.pg.tables.orders.lookup 0).isNone ∧
        (x.pg.tables.balances.lookup (2, .USD)).any fun balance => balance.reserved = 11)
      = true := by decide +kernel
  obtain ⟨x, hruns, hx⟩ := exists_run (C := fun _ _ => True) (fun _ _ _ => trivial) hcheck
  obtain ⟨hgone, hheld⟩ := of_decide_eq_true hx
  obtain ⟨balance, hlookup, hreserved⟩ := (Option.any_eq_true _ _).mp hheld
  obtain ⟨h', e', _, _, _, hshown⟩ := portfolio_exact
    (reaches_runCalls tradingCalls_returned) (.inr tradingCalls_net) (.inr (by decide +kernel))
    (.inr (by decide +kernel)) rfl hruns
  have htwo : (2 : AccountId).toNat < 2 ^ 63 := by decide
  obtain ⟨hbalances, _, _, _, hsum⟩ := hshown 2 htwo
  have hin := (mem_getBalances htwo).mpr hlookup
  refine ⟨x, balance, fun row hrow => ?_, hin, of_decide_eq_true hreserved, ?_⟩
  · have hone : (1 : AccountId).toNat < 2 ^ 63 := by decide
    rw [((mem_getOrders hone).mp hrow).1] at hgone
    cases hgone
  · rw [hbalances .USD balance hin]
    exact hsum .USD

end MatchingEngine
