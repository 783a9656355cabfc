import MatchingEngine.EngineBooks

/-!
# Builds: a release build agrees with a debug build that returned

A debug build checks every addition, subtraction and multiplication. So where
it returns, each of them had an exact result, and the release build computes
the same. One lemma per function, `apply_agrees` at the end.
-/

namespace MatchingEngine

open RustArith HashModel

/-- What a debug build returns a release build returns, too. -/
def Agrees {α : Type} (x : Build → Exec α) : Prop :=
  ∀ r, x .debug = .ok r → x .release = .ok r

namespace Agrees

variable {α β : Type}

/-- A computation that does not look at the build. -/
theorem const (x : Exec α) : Agrees fun _ => x := fun _ h => h

theorem bind {x : Build → Exec α} {f : Build → α → Exec β} (hx : Agrees x)
    (hf : ∀ a, Agrees fun b => f b a) : Agrees fun b => x b >>= f b := by
  intro r h
  obtain ⟨a, ha, h⟩ := bind_ok.mp h
  exact bind_ok.mpr ⟨a, hx a ha, hf a r h⟩

theorem ite {p : Prop} [Decidable p] {x y : Build → Exec α} (hx : Agrees x) (hy : Agrees y) :
    Agrees fun b => if p then x b else y b := by
  by_cases h : p
  · simpa only [if_pos h] using hx
  · simpa only [if_neg h] using hy

/-! ## The operators -/

theorem check (p : Prop) [Decidable p] (z : UInt64) :
    Agrees fun b => b.check (decide p) z := by
  intro r h
  have hz : r = z := (Build.check_ok h).1
  subst hz
  exact Build.check_returns r (.inl rfl)

theorem add (x y : UInt64) : Agrees fun b => b.add x y := check _ _

theorem sub (x y : UInt64) : Agrees fun b => b.sub x y := check _ _

theorem mul (x y : UInt64) : Agrees fun b => b.mul x y := check _ _

theorem sum (xs : List UInt64) : Agrees fun b => b.sum xs := by
  have hfold : ∀ (xs : List UInt64) (acc : UInt64), Agrees fun b => xs.foldlM b.add acc := by
    intro xs
    induction xs with
    | nil => intro acc; exact const _
    | cons x xs ih =>
        intro acc
        simp only [List.foldlM_cons]
        exact bind (add acc x) ih
  exact hfold xs 0

theorem mapM {f : Build → α → Exec β} (hf : ∀ a, Agrees fun b => f b a) (xs : List α) :
    Agrees fun b => xs.mapM (f b) := by
  intro ys h
  exact mapM_ok.mpr ((mapM_ok.mp h).imp fun x y hxy => hf x y hxy)

end Agrees

/-! ## The book -/

theorem levelQty_agrees (book : OrderBook) (s : Side) (price : UInt64) :
    Agrees fun b => book.levelQty b s price := by
  unfold OrderBook.levelQty
  cases (book.side s).get? price with
  | none => exact .const _
  | some queue => exact .sum _

theorem takeDirtyLevels_agrees (o : DrainOrder (Side × UInt64)) (book : OrderBook) :
    Agrees fun b => book.takeDirtyLevels b o := by
  unfold OrderBook.takeDirtyLevels
  refine .bind (.mapM (fun key => ?_) _) fun deltas => .const _
  exact .bind (levelQty_agrees _ key.1 key.2) fun _ => .const _

theorem addOrder_agrees {book : OrderBook} {req : OrderRequest}
    (hs : ∀ l ∈ (book.side req.side.opposite).entries, ∀ m ∈ l.2, m.Sized)
    (o : DrainOrder (Side × UInt64)) (orderId : UInt64) (accountId : AccountId) :
    Agrees fun b => book.addOrder b o orderId accountId req := by
  simp only [addOrder_eq _ o hs]
  exact .bind (takeDirtyLevels_agrees o _) fun _ => .const _

theorem walkAsks_agrees (levels : List (UInt64 × List Order)) : ∀ remaining cost : UInt64,
    Agrees fun b => walkAsks b levels remaining cost := by
  induction levels with
  | nil => intro remaining cost; exact .const _
  | cons l levels ih =>
      intro remaining cost
      obtain ⟨price, queue⟩ := l
      unfold walkAsks
      refine .ite (.const _) (.bind (.sum _) fun levelQty => ?_)
      dsimp only
      cases checkedMul price (min remaining levelQty) with
      | none => exact .const _
      | some levelCost =>
          dsimp only
          cases checkedAdd cost levelCost with
          | none => exact .const _
          | some cost => exact .bind (.sub _ _) fun remaining => ih remaining cost

theorem marketBuyCost_agrees (book : OrderBook) (size : UInt64) :
    Agrees fun b => book.marketBuyCost b size :=
  .bind (walkAsks_agrees _ _ _) fun _ => .const _

theorem bookCancel_agrees (o : DrainOrder (Side × UInt64)) (book : OrderBook)
    (accountId : AccountId) (orderId : UInt64) :
    Agrees fun b => book.cancelOrder b o accountId orderId := by
  unfold OrderBook.cancelOrder
  cases book.orderIndex.lookup orderId with
  | none => exact .const _
  | some loc =>
      refine .ite (.const _) ?_
      cases (book.side loc.side).get? loc.price with
      | none => exact .const _
      | some queue =>
          dsimp only
          cases queue.findIdx? fun order => order.id = orderId with
          | none => exact .const _
          | some i =>
              dsimp only
              cases queue[i]? with
              | none => exact .const _
              | some removed => exact .bind (takeDirtyLevels_agrees o _) fun _ => .const _

/-! ## The ledger -/

section Ledger

variable (l : Ledger) (a : AccountId) (c : Currency) (x : UInt64)

theorem credit_agrees : Agrees fun b => l.modify a c (Balance.credit b x) :=
  .bind (.bind (.add _ _) fun _ => .const _) fun _ => .const _

theorem spend_agrees : Agrees fun b => l.modify a c (Balance.spend b x) :=
  .bind (.bind (.sub _ _) fun _ => .const _) fun _ => .const _

theorem deposit_agrees : Agrees fun b => l.deposit b c a x :=
  .bind (credit_agrees l a c x) fun _ => .const _

theorem held_agrees : Agrees fun b => l.held b a c := by
  unfold Ledger.held
  cases (l.balances.lookup a).bind fun balances => balances.lookup c with
  | none => exact .const _
  | some balance => exact .add _ _

theorem withdraw_agrees : Agrees fun b => l.withdraw b a c x :=
  .ite (.const _) (.bind (.sub _ _) fun _ => .const _)

theorem reserve_agrees : Agrees fun b => l.reserve b a c x :=
  .ite (.const _) (.bind (.sub _ _) fun _ => .bind (.add _ _) fun _ => .const _)

theorem release_agrees : Agrees fun b => l.release b a c x :=
  .ite (.const _) (.bind (.sub _ _) fun _ => .bind (.add _ _) fun _ => .const _)

theorem settle_agrees (pair : Pair) (t : Trade) : Agrees fun b => l.settle b pair t := by
  refine .bind (.const _) fun cost => .bind ?_ fun _ => .const _
  unfold Ledger.settleBalances
  cases t.takerSide with
  | bid =>
      exact .bind (spend_agrees _ _ _ _) fun _ => .bind (credit_agrees _ _ _ _) fun _ =>
        .bind (credit_agrees _ _ _ _) fun _ => spend_agrees _ _ _ _
  | ask =>
      exact .bind (credit_agrees _ _ _ _) fun _ => .bind (spend_agrees _ _ _ _) fun _ =>
        .bind (spend_agrees _ _ _ _) fun _ => credit_agrees _ _ _ _

theorem settleTrades_agrees (pair : Pair) (ts : List Trade) : ∀ l : Ledger,
    Agrees fun b => settleTrades b pair ts l := by
  induction ts with
  | nil => intro l; exact .const _
  | cons t ts ih => intro l; exact .bind (settle_agrees l pair t) ih

theorem releaseMarketSell_agrees (req : OrderRequest) (rem : UInt64) :
    Agrees fun b => releaseMarketSell b l a req rem :=
  .ite (release_agrees _ _ _ _) (.const _)

theorem releaseSurplus_agrees (req : OrderRequest) (ts : List Trade) :
    Agrees fun b => releaseSurplus b l a req ts := by
  have hsurplus : ∀ t, Agrees fun b => tradeSurplus b req t :=
    fun t => .bind (.sub _ _) fun _ => .mul _ _
  exact .ite (.bind (.mapM hsurplus ts) fun _ => .bind (.sum _) fun _ =>
    .ite (release_agrees _ _ _ _) (.const _)) (.const _)

end Ledger

/-! ## The engine -/

section Engine

variable {o : Drains} {e : Engine} {accountId : AccountId}

theorem quoteAmount_agrees (e : Engine) (req : OrderRequest) :
    Agrees fun b => e.quoteAmount b req := by
  unfold Engine.quoteAmount
  refine .ite ?_ (.const _)
  cases e.books.lookup req.pair with
  | none => exact .const _
  | some book => exact marketBuyCost_agrees book req.size

theorem matchAndSettle_agrees (hs : e.Shape) (o : Drains) (accountId : AccountId)
    (req : OrderRequest) : Agrees fun b => e.matchAndSettle b o accountId req := by
  refine .bind (.add _ _) fun _ => .bind (addOrder_agrees (fun l hl m hm =>
    (((hs.wf req.pair).side _).rests l hl m hm).sized) _ _ _) fun r => ?_
  refine .bind (settleTrades_agrees _ _ _) fun _ =>
    .bind (releaseMarketSell_agrees _ _ _ _) fun _ =>
      .bind (releaseSurplus_agrees _ _ _ _) fun _ => .const _

theorem placeOrder_agrees (hs : e.Shape) (o : Drains) (accountId : AccountId)
    (req : OrderRequest) : Agrees fun b => e.placeOrder b o accountId req := by
  unfold Engine.placeOrder
  cases e.checkOrder accountId req with
  | some reason => exact .const _
  | none =>
      refine .bind (quoteAmount_agrees e req) fun q => ?_
      cases q with
      | error reason => exact .const _
      | ok q =>
          simp only [reserveOrder_eq]
          refine .bind (reserve_agrees _ _ _ _) fun r => ?_
          obtain ⟨l, res⟩ := r
          cases res with
          | error reason => exact .const _
          | ok _ =>
              have hs' : { e with ledger := l : Engine }.Shape := hs.of_books rfl
              exact matchAndSettle_agrees hs' o accountId req

theorem placeResponse_agrees (m : MatchResponse) : Agrees fun b => placeResponse b m :=
  .bind (.sum _) fun _ => .bind (.mapM (fun _ => .mul _ _) _) fun _ =>
    .bind (.sum _) fun _ => .const _

theorem engineCancel_agrees (e : Engine) (o : Drains) (accountId : AccountId)
    (req : CancelRequest) : Agrees fun b => e.cancelOrder b o accountId req := by
  unfold Engine.cancelOrder
  cases e.orderPair.lookup req.orderId with
  | none => exact .const _
  | some pair =>
      dsimp only
      cases e.books.lookup pair with
      | none => exact .const _
      | some book =>
          refine .bind (bookCancel_agrees _ _ _ _) fun r => ?_
          obtain ⟨book, out⟩ := r
          cases out with
          | none => exact .const _
          | some out =>
              have hrefund : Agrees fun b => cancelRefund b pair out.1 := by
                unfold cancelRefund
                cases out.1.side with
                | bid => exact .bind (.mul _ _) fun _ => .const _
                | ask => exact .const _
              exact .bind hrefund fun _ => .bind (release_agrees _ _ _ _) fun _ => .const _

theorem engineDeposit_agrees (e : Engine) (accountId : AccountId) (req : DepositRequest) :
    Agrees fun b => e.deposit b accountId req := by
  refine .bind (held_agrees _ _ _) fun held => ?_
  cases checkedAdd held req.amount with
  | none => exact .const _
  | some after =>
      exact .ite (.const _) (.bind (deposit_agrees _ _ _ _) fun _ => .const _)

theorem dispatch_agrees (hs : e.Shape) (o : Drains) (accountId : AccountId)
    (command : Command) : Agrees fun b => Engine.dispatch b o e accountId command := by
  cases command with
  | place req =>
      refine .bind (placeOrder_agrees hs o accountId req) fun r => ?_
      obtain ⟨e', res⟩ := r
      cases res with
      | error reason => exact .const _
      | ok m => exact .bind (placeResponse_agrees m) fun _ => .const _
  | cancel req =>
      refine .bind (engineCancel_agrees e o accountId req) fun r => ?_
      obtain ⟨e', res⟩ := r
      cases res with
      | none => exact .const _
      | some res => exact .bind (.sub _ _) fun _ => .const _
  | deposit req => exact .bind (engineDeposit_agrees e accountId req) fun _ => .const _
  | withdraw req => exact .bind (withdraw_agrees _ _ _ _) fun _ => .const _
  | listPair pair => exact .const _
  | delistPair pair => exact .const _

/-- **The builds agree** on every `apply` the debug build returns from. -/
theorem apply_agrees (hs : e.Shape) (o : Drains) (accountId : AccountId)
    (clientOrderId : UInt64) (command : Command) :
    Agrees fun b => apply b o e accountId clientOrderId command := by
  refine .bind (.const _) fun r => ?_
  obtain ⟨dedup, fresh⟩ := r
  cases fresh with
  | false => exact .const _
  | true =>
      have hs' : { e with dedup := dedup : Engine }.Shape := hs.of_books rfl
      refine .bind (dispatch_agrees hs' o accountId command) fun r => ?_
      refine .bind (.const _) fun balanceEvents => ?_
      exact .ite (.const _) (.bind (.add _ _) fun _ => .const _)

end Engine

end MatchingEngine
