import MatchingEngine.Backing

/-!
# Conservation: what accounts hold, by the history

One command moves what it deposits, withdraws and trades, and leaves reserves
that back the open orders (`dispatch_moved`). Along a run whose net deposits
stay words this adds up: reserves are exactly the open orders
(`reserved_eq_committed`), and every balance is accounted for by the history
(`held_eq_history`).
-/

namespace MatchingEngine

open RustArith HashModel Bank

/-- What an account holds of a currency. -/
def Engine.held (e : Engine) (a : AccountId) (c : Currency) : ℕ :=
  e.ledger.bank.avail a c + e.ledger.bank.resv a c

/-- What all accounts hold of a currency. -/
def Engine.total (e : Engine) (c : Currency) : ℕ := e.ledger.bank.total c

/-- A command of account `a₀` deposited `inn`, withdrew `out` and traded
`ts`. -/
structure Moved (e e' : Engine) (a₀ : AccountId) (inn out : Currency → ℕ)
    (ts : List Trade) : Prop where
  backed : e'.Backed
  held : ∀ a c, e'.held a c + (if a = a₀ then out c else 0) + losses ts a c
    = e.held a c + (if a = a₀ then inn c else 0) + gains ts a c
  total : ∀ c, e'.total c + out c = e.total c + inn c

/-- A command that changed neither balances nor books moved nothing. -/
theorem Moved.still {e e' : Engine} (hb : e.Backed) (a₀ : AccountId)
    (hbank : e'.ledger.bank = e.ledger.bank) (hbooks : e'.books = e.books) :
    Moved e e' a₀ (fun _ => 0) (fun _ => 0) [] where
  backed a c := by rw [hbank, hb, committed_of_books hbooks]
  held a c := by simp [Engine.held, hbank, losses, gains]
  total c := by simp [Engine.total, hbank]

theorem Moved.deposit {e e' : Engine} (hb : e.Backed) {a₀ : AccountId} {c₀ : Currency}
    {x : ℕ} (hbank : e'.ledger.bank = e.ledger.bank.credit a₀ c₀ x)
    (hbooks : e'.books = e.books) :
    Moved e e' a₀ (fun c => if c = c₀ then x else 0) (fun _ => 0) [] where
  backed a c := by
    rw [hbank, committed_of_books hbooks]
    exact hb a c
  held a c := by
    have havail : e'.ledger.bank.avail a c
        = e.ledger.bank.avail a c + if a = a₀ ∧ c = c₀ then x else 0 := by
      rw [hbank, Accounts.avail_credit]
    have hresv : e'.ledger.bank.resv a c = e.ledger.bank.resv a c := by rw [hbank]; rfl
    simp only [Engine.held, havail, hresv, losses, gains, List.map_nil, List.sum_nil]
    by_cases ha : a = a₀
    · by_cases hc : c = c₀
      · simp only [ha, hc, and_self, if_true]; omega
      · simp [ha, hc]
    · simp [ha]
  total c := by
    rw [Engine.total, hbank, Accounts.total_credit, Nat.add_zero, Engine.total]

theorem Moved.withdraw {e e' : Engine} (hb : e.Backed) {a₀ : AccountId} {c₀ : Currency}
    {x : ℕ} (hle : x ≤ e.ledger.bank.avail a₀ c₀)
    (hbank : e'.ledger.bank = e.ledger.bank.withdraw a₀ c₀ x)
    (hbooks : e'.books = e.books) :
    Moved e e' a₀ (fun _ => 0) (fun c => if c = c₀ then x else 0) [] where
  backed a c := by
    rw [hbank, committed_of_books hbooks]
    exact hb a c
  held a c := by
    have havail : e'.ledger.bank.avail a c
        = e.ledger.bank.avail a c - if a = a₀ ∧ c = c₀ then x else 0 := by
      rw [hbank, Accounts.avail_withdraw]
    have hresv : e'.ledger.bank.resv a c = e.ledger.bank.resv a c := by rw [hbank]; rfl
    simp only [Engine.held, havail, hresv, losses, gains, List.map_nil, List.sum_nil]
    by_cases ha : a = a₀
    · by_cases hc : c = c₀
      · subst ha hc
        simp only [and_self, if_true]; omega
      · simp [ha, hc]
    · simp [ha]
  total c := by
    rw [Engine.total, hbank, Accounts.total_withdraw _ hle, Nat.add_zero, Engine.total]

section Trades

variable {pair : Pair} {ts : List Trade} (hpair : ∀ t ∈ ts, t.pair = pair)

include hpair

theorem credits_eq_gains (a : AccountId) (c : Currency) :
    credits (legs pair ts) a c = gains ts a c := by
  induction ts with
  | nil => rfl
  | cons t ts ih =>
      have ht : t.pair = pair := hpair t List.mem_cons_self
      have hts := ih fun t' ht' => hpair t' (List.mem_cons_of_mem _ ht')
      have happ : credits (legs pair (t :: ts)) a c
          = credits (t.legs pair) a c + credits (legs pair ts) a c := by
        simp [legs_cons, credits]
      rw [happ, hts, ← ht, credits_legs]
      simp [gains]

theorem debits_eq_losses (a : AccountId) (c : Currency) :
    debits (legs pair ts) a c = losses ts a c := by
  induction ts with
  | nil => rfl
  | cons t ts ih =>
      have ht : t.pair = pair := hpair t List.mem_cons_self
      have hts := ih fun t' ht' => hpair t' (List.mem_cons_of_mem _ ht')
      rw [legs_cons, debits_append, hts, ← ht, debits_legs]
      simp [losses]

end Trades

/-! ## One command -/

/-- The trades among the events of an accepted order. -/
theorem placeEvents_trades (accountId : AccountId) (req : OrderRequest)
    (m : MatchResponse) : (placeEvents accountId req m).filterMap Event.trade? = m.trades := by
  have hupdates : (m.updates.map (OrderUpdate.toEvent req.pair)).filterMap Event.trade?
      = [] := by
    rw [List.filterMap_map]
    exact List.filterMap_eq_nil_iff.mpr fun _ _ => rfl
  have hdeltas : (m.bookDeltas.map (deltaEvent req.pair)).filterMap Event.trade? = [] := by
    rw [List.filterMap_map]
    exact List.filterMap_eq_nil_iff.mpr fun _ _ => rfl
  have htrades : (m.trades.map Event.trade).filterMap Event.trade? = m.trades := by
    rw [List.filterMap_map]
    exact List.filterMap_some
  rw [placeEvents, List.filterMap_cons_none rfl, List.filterMap_append,
    List.filterMap_append, hupdates, hdeltas, htrades, List.append_nil, List.append_nil]

theorem cancelEvents_trades (orderId : UInt64) (pair : Pair) (order : Order)
    (filledQty : UInt64) (bookDeltas : List LevelDelta) :
    (cancelEvents orderId pair order filledQty bookDeltas).filterMap Event.trade? = [] := by
  rw [cancelEvents, List.filterMap_cons_none rfl, List.filterMap_cons_none rfl,
    List.filterMap_map]
  exact List.filterMap_eq_nil_iff.mpr fun _ _ => rfl

theorem balanceEvents_trades {l : Ledger} {keys : List (AccountId × Currency)}
    {events : List Event} (h : keys.mapM (balanceEvent l) = .ok events) :
    events.filterMap Event.trade? = [] := by
  refine List.filterMap_eq_nil_iff.mpr fun ev hev => ?_
  obtain ⟨key, _, hkey⟩ := mapM_mem h hev
  unfold balanceEvent at hkey
  split at hkey
  · cases hkey
  · split at hkey
    · cases hkey
    · cases hkey
      rfl

section Command

variable {b : Build} {o : Drains} {e e' : Engine} {accountId : AccountId}

theorem PlaceTrace.moved {req : OrderRequest} (t : PlaceTrace b o e accountId req)
    (hs : e.Shape) (hb : e.Backed) (hfit : e.Fits b) :
    Moved e t.engine accountId (fun _ => 0) (fun _ => 0) t.matchResult.trades where
  backed := t.backed hs hb hfit
  held a c := by
    have hpair : ∀ tr ∈ t.matchResult.trades, tr.pair = req.pair := by
      rw [t.trades_eq_fills hs]
      intro tr htr
      obtain ⟨f, _, rfl⟩ := List.mem_map.mp htr
      rfl
    have hheld := t.refunded_held hs hb hfit a c
    rw [MatchTrace.legs, debits_eq_losses hpair, credits_eq_gains hpair] at hheld
    have hledger : t.engine.ledger = t.refunded := rfl
    simpa [Engine.held, hledger] using hheld
  total c := by
    rw [Nat.add_zero, Nat.add_zero]
    exact t.refunded_total hs hb hfit c

theorem CancelTrace.moved {req : CancelRequest} (t : CancelTrace b o e accountId req)
    (hs : e.Shape) (hb : e.Backed) (hfit : e.Fits b) :
    Moved e t.engine accountId (fun _ => 0) (fun _ => 0) [] where
  backed := t.backed hs hb hfit
  held a c := by
    have hle := t.amount_le hs hb
    have hbank : t.engine.ledger.bank = _ := (t.released_bank hs hb hfit).2
    simp only [Engine.held, hbank, Accounts.avail_release, Accounts.resv_release, losses,
      gains, List.map_nil, List.sum_nil, ite_self, Nat.add_zero]
    by_cases hac : a = t.order.accountId ∧ c = t.currency
    · obtain ⟨rfl, rfl⟩ := hac
      simp only [and_self, if_true]
      omega
    · simp only [if_neg hac]
      omega
  total c := by
    have hbank : t.engine.ledger.bank = _ := (t.released_bank hs hb hfit).2
    rw [Engine.total, hbank, Accounts.total_release _ (t.amount_le hs hb), Engine.total]

/-- **One command** moves what its answer and its events say. -/
theorem dispatch_moved {command : Command} {response : CommandResponse}
    {events : List Event} (hs : e.Shape) (hb : e.Backed) (hfit : e.Fits b)
    (h : Engine.dispatch b o e accountId command = .ok (e', response, events)) :
    Moved e e' accountId (depositedBy command response) (withdrawnBy command response)
      (events.filterMap Event.trade?) := by
  have h := dispatch_ok h
  cases command with
  | place req =>
      obtain ⟨r, hplace, hanswer⟩ := h
      rcases placeOrder_ok hplace with ⟨reason, l, rfl, rfl, hquiet⟩ | ⟨t, rfl, rfl⟩
      · obtain ⟨_, rfl⟩ := hanswer
        exact Moved.still hb accountId hquiet.bank rfl
      · rw [t.result_eq hs hb hfit] at hanswer
        obtain ⟨p, _, _, rfl⟩ := hanswer
        rw [placeEvents_trades]
        exact t.moved hs hb hfit
  | cancel req =>
      obtain ⟨r, hcancel, hanswer⟩ := h
      rcases engineCancel_ok hcancel with ⟨rfl, rfl⟩ | ⟨t, rfl, rfl⟩
      · obtain ⟨_, rfl⟩ := hanswer
        exact Moved.still hb accountId rfl rfl
      · obtain ⟨q, _, _, rfl⟩ := hanswer
        rw [cancelEvents_trades]
        exact t.moved hs hb hfit
  | deposit req =>
      obtain ⟨r, hdeposit, rfl, rfl⟩ := h
      rcases engineDeposit_ok hdeposit with
        ⟨reason, rfl, rfl⟩ | ⟨held, l, y, hheld, hlt, _, hl, rfl, rfl⟩
      · exact Moved.still hb accountId rfl rfl
      · have hexact := held_toNat hheld (hfit.held accountId req.currency)
        exact Moved.deposit hb (deposit_bank hl (.inr (by omega))) rfl
  | withdraw req =>
      obtain ⟨l, r, hwithdraw, rfl, rfl, rfl⟩ := h
      rcases withdraw_ok hwithdraw with ⟨rfl, _, rfl⟩ | ⟨rfl, hle, _, _, hbank⟩
      · exact Moved.still hb accountId (bank_put_self _ _ _) rfl
      · exact Moved.withdraw hb hle hbank rfl
  | listPair pair =>
      rcases h.2 with ⟨_, rfl, rfl⟩ | ⟨_, rfl, rfl⟩
      · rw [h.1]
        exact Moved.still hb accountId rfl rfl
      · rw [h.1]
        exact Moved.still hb accountId rfl rfl
  | delistPair pair =>
      obtain ⟨rfl, rfl, rfl⟩ := h
      exact Moved.still hb accountId rfl rfl

/-- **One `apply`.** -/
theorem apply_moved {clientOrderId : UInt64} {command : Command}
    {response : CommandResponse} {batch : Option EventBatch}
    (hs : e.Shape) (hb : e.Backed) (hfit : e.Fits b)
    (h : apply b o e accountId clientOrderId command = .ok (e', response, batch)) :
    Moved e e' accountId (depositedBy command response) (withdrawnBy command response)
      (batchTrades batch) := by
  rcases apply_ok h with ⟨rfl, rfl, rfl⟩ |
    ⟨dedup, e₁, events, bevs, _, hdispatch, hbev, hend⟩
  · have hzero : depositedBy command .duplicate = fun _ => 0 := by
      funext c; cases command <;> rfl
    have hzero' : withdrawnBy command .duplicate = fun _ => 0 := by
      funext c; cases command <;> rfl
    rw [hzero, hzero']
    exact Moved.still hb accountId rfl rfl
  · have hmoved := dispatch_moved (e := { e with dedup := dedup }) (hs.of_books rfl) hb hfit
      hdispatch
    have htrades : (events ++ bevs).filterMap Event.trade? = events.filterMap Event.trade? := by
      rw [List.filterMap_append, balanceEvents_trades hbev, List.append_nil]
    rw [← htrades] at hmoved
    rcases hend with ⟨hnil, rfl, rfl⟩ | ⟨n, _, _, rfl, rfl⟩
    · rw [hnil] at hmoved
      exact ⟨hmoved.backed, hmoved.held, hmoved.total⟩
    · exact ⟨hmoved.backed, hmoved.held, hmoved.total⟩

/-- **An accepted order, inverted**: its trace is the call, but for the dirty
set and the sequence number, and its batch the order's events and balances. -/
theorem apply_accepted_events {clientOrderId : UInt64} {req : OrderRequest}
    {p : PlaceOrderResponse} {batch : Option EventBatch}
    (h : apply b o e accountId clientOrderId (.place req) = .ok (e', .place (.ok p), batch)) :
    ∃ dedup n, ∃ t : PlaceTrace b o (e.keyed dedup) accountId req,
      e.dedup.insert accountId clientOrderId = .ok (dedup, true) ∧
      placeResponse b t.matchResult = .ok p ∧
      (∃ l bevs, ∃ keys : List _, keys.mapM (balanceEvent l) = .ok bevs ∧
        batchEvents batch = placeEvents accountId req t.matchResult ++ bevs) ∧
      e' = { t.engine with
        ledger := { t.engine.ledger with dirty := ∅ }, nextSeq := n } := by
  rcases apply_ok h with ⟨_, habsurd, _⟩ | ⟨dedup, e₁, events, bevs, hdedup, hdispatch, hbev, hend⟩
  · cases habsurd
  · obtain ⟨r, hplace, hanswer⟩ := dispatch_ok hdispatch
    rcases placeOrder_ok hplace with ⟨reason, _, rfl, _⟩ | ⟨t, rfl, rfl⟩
    · exact absurd hanswer.1 nofun
    · unfold PlaceTrace.result at hanswer
      cases hres : t.refundedResult with
      | error reason =>
          rw [hres] at hanswer
          exact absurd hanswer.1 nofun
      | ok _ =>
          rw [hres] at hanswer
          obtain ⟨_, hp, hresponse, rfl⟩ := hanswer
          cases hresponse
          rcases hend with ⟨hnil, _, _⟩ | ⟨n, _, _, rfl, rfl⟩
          · cases hnil
          · exact ⟨dedup, n, t, hdedup, hp, ⟨_, _, _, hbev, rfl⟩, rfl⟩

/-- The trades of the batch are those of the trace. -/
theorem apply_accepted {clientOrderId : UInt64} {req : OrderRequest} {p : PlaceOrderResponse}
    {batch : Option EventBatch}
    (h : apply b o e accountId clientOrderId (.place req) = .ok (e', .place (.ok p), batch)) :
    ∃ dedup n, ∃ t : PlaceTrace b o (e.keyed dedup) accountId req,
      e.dedup.insert accountId clientOrderId = .ok (dedup, true) ∧
      placeResponse b t.matchResult = .ok p ∧ batchTrades batch = t.matchResult.trades ∧
      e' = { t.engine with
        ledger := { t.engine.ledger with dirty := ∅ }, nextSeq := n } := by
  obtain ⟨dedup, n, t, hdedup, hp, ⟨_, bevs, _, hbev, hbatch⟩, he⟩ := apply_accepted_events h
  refine ⟨dedup, n, t, hdedup, hp, ?_, he⟩
  have htrades : batchTrades batch = (batchEvents batch).filterMap Event.trade? := by
    cases batch <;> rfl
  rw [htrades, hbatch, List.filterMap_append, balanceEvents_trades hbev, List.append_nil,
    placeEvents_trades]

/-- **A cancel that found its order, inverted.** -/
theorem apply_cancelled {clientOrderId : UInt64} {req : CancelRequest}
    {batch : Option EventBatch}
    (h : apply b o e accountId clientOrderId (.cancel req) = .ok (e', .cancel true, batch)) :
    ∃ dedup n, ∃ t : CancelTrace b o (e.keyed dedup) accountId req,
      e.dedup.insert accountId clientOrderId = .ok (dedup, true) ∧
      e' = { t.engine with
        ledger := { t.engine.ledger with dirty := ∅ }, nextSeq := n } := by
  rcases apply_ok h with ⟨_, habsurd, _⟩ | ⟨dedup, e₁, events, bevs, hdedup, hdispatch, hbev, hend⟩
  · cases habsurd
  · obtain ⟨r, hcancel, hanswer⟩ := dispatch_ok hdispatch
    rcases engineCancel_ok hcancel with ⟨rfl, rfl⟩ | ⟨t, rfl, rfl⟩
    · exact absurd hanswer.1 nofun
    · obtain ⟨filledQty, _, _, rfl⟩ := hanswer
      rcases hend with ⟨hnil, _, _⟩ | ⟨n, _, _, _, rfl⟩
      · cases hnil
      · exact ⟨dedup, n, t, hdedup, rfl⟩

end Command

/-! ## Every run -/

/-- What holds after a run with history `h`. -/
structure Accounted (h : List Record) (e : Engine) : Prop where
  shape : e.Shape
  backed : e.Backed
  held : ∀ a c, e.held a c + withdrawals (callsOf h a) c + losses (tradesOf h) a c
    = deposits (callsOf h a) c + gains (tradesOf h) a c
  total : ∀ c, e.total c + withdrawals h c = deposits h c

theorem Accounted.new (limits : Limits) : Accounted [] (Engine.new limits) where
  shape := Engine.new_shape limits
  backed := Engine.new_backed limits
  held _ _ := rfl
  total c := by
    have hzero : ∀ a, (Engine.new limits).ledger.bank.avail a c
        + (Engine.new limits).ledger.bank.resv a c = 0 := fun _ => rfl
    have htotal : (Engine.new limits).total c = 0 := by
      rw [Engine.total, Accounts.total, Finset.sum_congr rfl fun a _ => hzero a,
        Finset.sum_const_zero]
    rw [htotal]
    rfl

/-- Totals are words while the net deposits are. -/
theorem Accounted.total_lt {h : List Record} {e : Engine} (hacc : Accounted h e)
    (hnow : ∀ c, netDeposits h c < 2 ^ 64) (c : Currency) : e.ledger.bank.total c < 2 ^ 64 := by
  have hnow := hnow c
  have htotal : e.ledger.bank.total c + withdrawals h c = deposits h c := hacc.total c
  unfold netDeposits at hnow
  omega

/-- A run whose net deposits are words has totals that are words. -/
theorem Accounted.fits {b : Build} {h : List Record} {e : Engine} (hacc : Accounted h e)
    (hnet : b.Checks (NetBelow h)) : e.Fits b :=
  hnet.imp fun hnet => hacc.total_lt hnet.now

/-- The accounting of a longer history. -/
theorem Accounted.step {h : List Record} {e e' : Engine} (hacc : Accounted h e)
    (hs' : e'.Shape) {r : Record}
    (hmoved : Moved e e' r.accountId r.deposited r.withdrawn r.trades) :
    Accounted (h ++ [r]) e' where
  shape := hs'
  backed := hmoved.backed
  held a c := by
    have hold := hacc.held a c
    have hnew := hmoved.held a c
    have htrades : tradesOf (h ++ [r]) = tradesOf h ++ r.trades := by simp [tradesOf]
    have hlosses : losses (tradesOf (h ++ [r])) a c
        = losses (tradesOf h) a c + losses r.trades a c := by simp [htrades, losses]
    have hgains : gains (tradesOf (h ++ [r])) a c
        = gains (tradesOf h) a c + gains r.trades a c := by simp [htrades, gains]
    have hdep : deposits (callsOf (h ++ [r]) a) c
        = deposits (callsOf h a) c + if a = r.accountId then r.deposited c else 0 := by
      by_cases ha : r.accountId = a
      · simp [callsOf, deposits, ha]
      · simp [callsOf, deposits, ha, Ne.symm ha]
    have hwith : withdrawals (callsOf (h ++ [r]) a) c
        = withdrawals (callsOf h a) c + if a = r.accountId then r.withdrawn c else 0 := by
      by_cases ha : r.accountId = a
      · simp [callsOf, withdrawals, ha]
      · simp [callsOf, withdrawals, ha, Ne.symm ha]
    rw [hlosses, hgains, hdep, hwith]
    omega
  total c := by
    have hold := hacc.total c
    have hnew := hmoved.total c
    have hdep : deposits (h ++ [r]) c = deposits h c + r.deposited c := by simp [deposits]
    have hwith : withdrawals (h ++ [r]) c = withdrawals h c + r.withdrawn c := by
      simp [withdrawals]
    rw [hdep, hwith]
    omega

/-- **Every run is accounted for** while its net deposits stay words; a debug
build, which panics rather than wrap, always. -/
theorem Reaches.accounted {b : Build} {limits : Limits} {h : List Record} {e : Engine}
    (hr : Reaches b limits h e) (hnet : b.Checks (NetBelow h)) : Accounted h e := by
  refine hr.invariant (motive := fun h e => b.Checks (NetBelow h) → Accounted h e)
    (fun _ => Accounted.new limits) ?_ hnet
  intro h e o a cid cmd e' response batch ih happly hnet
  have hacc := ih (hnet.imp fun hnet => hnet.of_prefix (List.prefix_append _ _))
  have hfit := hacc.fits (hnet.imp fun hnet => hnet.of_prefix (List.prefix_append _ _))
  exact hacc.step (apply_shape hacc.shape happly)
    (apply_moved hacc.shape hacc.backed hfit happly)

/-! ## The two accounting theorems -/

/-- **Reserves are exactly the open orders.** -/
theorem reserved_eq_committed {b : Build} {limits : Limits} {h : List Record} {e : Engine}
    (hr : Reaches b limits h e) (hnet : NetBelow h) (a : AccountId) (c : Currency) :
    (e.ledger.balance a c).reserved.toNat = e.committed a c :=
  (hr.accounted (.inr hnet)).backed a c

/-- Two accounts trade with a price improvement and at market. -/
def tradingCalls : List (AccountId × UInt64 × Command) :=
  let market : Pair := { base := .SOL, quote := .USD }
  [(9, 1, .listPair market),
    (1, 1, .deposit { amount := 20, currency := .SOL }),
    (2, 1, .deposit { amount := 1000, currency := .USD }),
    (1, 2, limitOrder market .ask 10 5),
    (2, 2, limitOrder market .bid 11 8),
    (1, 3, marketOrder market .ask 2)]

theorem tradingCalls_returned : returned (runCalls .release .default tradingCalls) = true := by
  decide +kernel

theorem tradingCalls_net :
    NetBelow (finish .default (runCalls .release .default tradingCalls)).2 := by
  refine netBelow_of_deposits fun c => ?_
  cases c <;> decide +kernel

/-- One unit of the bid at 11 is left, and backed. -/
theorem reserved_eq_committed_trading :
    (finish .default (runCalls .release .default tradingCalls)).1.committed 2 .USD = 11 := by
  rw [← reserved_eq_committed (reaches_runCalls tradingCalls_returned) tradingCalls_net 2 .USD]
  decide +kernel

/-- **Every balance is accounted for**, and so is every currency's total:
deposits less withdrawals, plus what the trades gave, less what they took. -/
theorem held_eq_history {b : Build} {limits : Limits} {h : List Record} {e : Engine}
    (hr : Reaches b limits h e) (hnet : NetBelow h) :
    (∀ a c, ((e.ledger.balance a c).available.toNat + (e.ledger.balance a c).reserved.toNat : ℤ)
        = (deposits (callsOf h a) c : ℤ) - withdrawals (callsOf h a) c
          + gains (tradesOf h) a c - losses (tradesOf h) a c) ∧
      ∀ c, (∑ a, ((e.ledger.balance a c).available.toNat
          + (e.ledger.balance a c).reserved.toNat) : ℤ) = netDeposits h c := by
  have hacc := hr.accounted (.inr hnet)
  constructor
  · intro a c
    have hheld : (e.ledger.balance a c).available.toNat
        + (e.ledger.balance a c).reserved.toNat + withdrawals (callsOf h a) c
        + losses (tradesOf h) a c
        = deposits (callsOf h a) c + gains (tradesOf h) a c := hacc.held a c
    omega
  · intro c
    have htotal : (∑ a, ((e.ledger.balance a c).available.toNat
        + (e.ledger.balance a c).reserved.toNat)) + withdrawals h c = deposits h c :=
      hacc.total c
    rw [netDeposits, ← htotal]
    push_cast
    omega

/-- The buyer holds what it deposited less what it paid, 5 at 10 and 2 at 11. -/
theorem held_eq_history_trading :
    let h := (finish .default (runCalls .release .default tradingCalls)).2
    ((deposits (callsOf h 2) .USD : ℤ) - withdrawals (callsOf h 2) .USD
      + gains (tradesOf h) 2 .USD - losses (tradesOf h) 2 .USD) = 928 := by
  intro h
  rw [← (held_eq_history (reaches_runCalls tradingCalls_returned) tradingCalls_net).1 2 .USD]
  decide +kernel

end MatchingEngine
