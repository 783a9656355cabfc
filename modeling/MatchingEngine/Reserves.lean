import Mathlib.Algebra.BigOperators.Ring.Finset
import MatchingEngine.Fills

/-!
# Reserves: an order's way through the ledger

What an order reserves splits exactly into what its fills charge it, what it
gets back and what it keeps reserved while it rests (`amount_split`). In an
engine whose reserves back the open orders (`Engine.Backed`) the reserve
covers every leg of every trade, both releases succeed, and the reserves back
the open orders again (`PlaceTrace.backed`).
-/

namespace MatchingEngine

open RustArith HashModel Bank

/-! ## Committed amounts over all books -/

/-- What the open orders of account `a` in all books commit of currency
`c`. -/
def Engine.committed (e : Engine) (a : AccountId) (c : Currency) : ℕ :=
  ∑ pair, (e.book pair).committed pair a c

/-- The reserves are exactly what the open orders commit. -/
def Engine.Backed (e : Engine) : Prop :=
  ∀ a c, e.ledger.bank.resv a c = e.committed a c

theorem OrderBook.committed_new (pair : Pair) (a : AccountId) (c : Currency) :
    OrderBook.new.committed pair a c = 0 := by
  unfold OrderBook.committed
  split <;> split <;> rfl

theorem Engine.new_backed (limits : Limits) : (Engine.new limits).Backed := by
  intro a c
  have hbook : ∀ pair, (Engine.new limits).book pair = OrderBook.new := fun _ => rfl
  simp only [Engine.committed, hbook, OrderBook.committed_new, Finset.sum_const_zero]
  rfl

/-- Writing one book trades its share of the committed amount. -/
theorem committed_insert (e e' : Engine) (pair : Pair) (book : OrderBook)
    (h : e'.books = e.books.insert pair book) (a : AccountId) (c : Currency) :
    e'.committed a c + (e.book pair).committed pair a c
      = e.committed a c + book.committed pair a c := by
  have hrest : ∑ p ∈ Finset.univ.erase pair, (e'.book p).committed p a c
      = ∑ p ∈ Finset.univ.erase pair, (e.book p).committed p a c := by
    refine Finset.sum_congr rfl fun p hp => ?_
    rw [book_insert h, if_neg (Finset.ne_of_mem_erase hp)]
  have he' := Finset.add_sum_erase Finset.univ
    (fun p => (e'.book p).committed p a c) (Finset.mem_univ pair)
  have he := Finset.add_sum_erase Finset.univ
    (fun p => (e.book p).committed p a c) (Finset.mem_univ pair)
  simp only [book_insert h pair, if_true] at he'
  unfold Engine.committed
  omega

theorem committed_of_books {e e' : Engine} (h : e'.books = e.books) (a : AccountId)
    (c : Currency) : e'.committed a c = e.committed a c := by
  unfold Engine.committed Engine.book
  rw [h]

theorem committed_book_le (e : Engine) (pair : Pair) (a : AccountId) (c : Currency) :
    (e.book pair).committed pair a c ≤ e.committed a c :=
  Finset.single_le_sum (f := fun p => (e.book p).committed p a c)
    (fun _ _ => Nat.zero_le _) (Finset.mem_univ pair)

/-! ## A side of a book fits into the total -/

/-- What a unit of an order is worth in the currency its side reserves. -/
def Order.unitWorth (o : Order) : ℕ :=
  match o.side with
  | .bid => o.price.toNat
  | .ask => 1

/-- The currency a side of a market reserves. -/
def Pair.reserves (pair : Pair) : Side → Currency
  | .bid => pair.quote
  | .ask => pair.base

theorem sum_rate {pair : Pair} {s : Side} {o : Order} (h : o.side = s) :
    ∑ a, o.rate pair a (pair.reserves s) = o.unitWorth := by
  cases s with
  | bid =>
      have hrate : ∀ a, o.rate pair a pair.quote = _ := fun _ => Order.rate_bid h
      have hsum := Accounts.sum_entry o.accountId pair.quote pair.quote o.price.toNat
      rw [if_pos rfl] at hsum
      rw [Pair.reserves, Order.unitWorth, h, Finset.sum_congr rfl fun a _ => hrate a, hsum]
  | ask =>
      have hrate : ∀ a, o.rate pair a pair.base = _ := fun _ => Order.rate_ask h
      have hsum := Accounts.sum_entry o.accountId pair.base pair.base 1
      rw [if_pos rfl] at hsum
      rw [Pair.reserves, Order.unitWorth, h, Finset.sum_congr rfl fun a _ => hrate a, hsum]

theorem sum_worth (g : AccountId → Order → ℕ) (os : List Order) :
    ∑ a, worth (g a) os = worth (fun o => ∑ a, g a o) os := by
  induction os with
  | nil => simp
  | cons o os ih =>
      simp only [worth_cons, Finset.sum_add_distrib, Finset.sum_mul, ih]

/-- **A side fits**: the worth of one side of one book is at most the total of
the currency it reserves. -/
theorem sideWorth_le_total {e : Engine} (hs : e.Shape) (hb : e.Backed) (pair : Pair)
    (s : Side) :
    sideWorth Order.unitWorth ((e.book pair).side s)
      ≤ e.ledger.bank.total (pair.reserves s) := by
  have hside : sideWorth Order.unitWorth ((e.book pair).side s)
      = sideWorth (fun o => ∑ a, o.rate pair a (pair.reserves s)) ((e.book pair).side s) := by
    refine congrArg List.sum (List.map_congr_left fun o ho => ?_)
    obtain ⟨l, hl, hm⟩ := mem_levelOrders.mp ho
    simp only [sum_rate (((hs.wf pair).side s).rests l hl o hm).side]
  rw [hside, sideWorth, ← sum_worth, Accounts.total]
  refine Finset.sum_le_sum fun a _ => ?_
  have hbook := committed_book_le e pair a (pair.reserves s)
  rw [committed_eq_worth (hs.wf pair), worth_orders _ _ s, ← hb a] at hbook
  unfold sideWorth at hbook
  omega

/-- The aggregate of an ask level fits into the total of the base. -/
theorem ask_level_le_total {e : Engine} (hs : e.Shape) (hb : e.Backed) (pair : Pair)
    {l : UInt64 × List Order} (hl : l ∈ (e.book pair).asks.entries) :
    Greedy.total Order.units l.2 ≤ e.ledger.bank.total pair.base := by
  refine le_trans ?_ (sideWorth_le_total hs hb pair .ask)
  have hunit : worth Order.unitWorth l.2 = Greedy.total Order.units l.2 := by
    refine congrArg List.sum (List.map_congr_left fun o ho => ?_)
    rw [Order.unitWorth, (((hs.wf pair).side .ask).rests l hl o ho).side]
    exact Nat.one_mul _
  rw [← hunit]
  exact worth_level_le Order.unitWorth hl

/-! ## The split of the reserve -/

/-- What an order gets back of its reserve: the remainder of a market sell,
the price improvement of a limit buy. -/
def OrderRequest.givenBack (req : OrderRequest) (fs : List (Order × ℕ)) (rem : ℕ) : ℕ :=
  match req.orderType, req.side with
  | .market, .ask => rem
  | .limit, .bid => (fs.map fun f => (req.price.toNat - f.1.price.toNat) * f.2).sum
  | _, _ => 0

/-- What an order keeps reserved while it rests. -/
def OrderRequest.kept (req : OrderRequest) (rem : ℕ) : ℕ :=
  match req.orderType, req.side with
  | .limit, .bid => req.price.toNat * rem
  | .limit, .ask => rem
  | .market, _ => 0

/-- Paid plus improved is the limit price per unit. -/
theorem paid_add_surplus {p : ℕ} {fs : List (Order × ℕ)}
    (h : ∀ f ∈ fs, f.1.price.toNat ≤ p) :
    (fs.map fun f => f.1.price.toNat * f.2).sum
        + (fs.map fun f => (p - f.1.price.toNat) * f.2).sum
      = p * (fs.map Prod.snd).sum := by
  induction fs with
  | nil => simp
  | cons f fs ih =>
      have hle := h f List.mem_cons_self
      have ih := ih fun f' hf' => h f' (List.mem_cons_of_mem _ hf')
      have hf : f.1.price.toNat * f.2 + (p - f.1.price.toNat) * f.2 = p * f.2 := by
        rw [← Nat.add_mul, Nat.add_sub_cancel' hle]
      simp only [List.map_cons, List.sum_cons, Nat.mul_add]
      omega

namespace MatchTrace

variable {b : Build} {o : Drains} {e : Engine} {accountId : AccountId} {req : OrderRequest}
  (t : MatchTrace b o e accountId req)

/-- The fills of a trace. -/
def fills (_ : MatchTrace b o e accountId req) : List (Order × ℕ) :=
  (e.book req.pair).fills e.nextOrderId accountId req

/-- What is left of the order. -/
def left (_ : MatchTrace b o e accountId req) : ℕ :=
  ((e.book req.pair).taker e.nextOrderId accountId req).units

/-- The amount reserved. -/
def amount : ℕ := (req.amount t.quoteAmount).toNat

theorem fills_add_left : (t.fills.map Prod.snd).sum + t.left = req.size.toNat :=
  fills_sum _ _ _ _

section Shape

variable (hs : e.Shape)

include hs

theorem mem_fills {f : Order × ℕ} (hf : f ∈ t.fills) :
    f.1.Rests req.side.opposite f.1.price ∧
      (req.toOrder e.nextOrderId accountId).crosses f.1.price = true ∧
      0 < f.2 ∧ f.2 ≤ f.1.units ∧ f.2 ≤ req.size.toNat ∧ f.1 ∈ (e.book req.pair).orders :=
  MatchingEngine.mem_fills ((hs.wf _).side _) hf

theorem price_le (hlimit : req.orderType = .limit) (hside : req.side = .bid)
    {f : Order × ℕ} (hf : f ∈ t.fills) : f.1.price.toNat ≤ req.price.toNat :=
  fill_le_of_bid ((hs.wf _).side .ask) hlimit hside hf

/-- **A market buy reserves exactly what its fills cost.** -/
theorem market_amount (hb : e.Backed)
    (hfit : b.Checks (∀ c, e.ledger.bank.total c < 2 ^ 64))
    (hmarket : req.orderType = .market) (hside : req.side = .bid) :
    t.quoteAmount.toNat = charge req t.fills := by
  have hcharge : charge req t.fills
      = walkCost req.size.toNat (levelOrders (e.book req.pair).asks.entries) :=
    charge_market hmarket hside _ _ _
  have hq := t.quoted
  unfold Engine.quoteAmount at hq
  rw [if_pos ⟨hmarket, hside⟩] at hq
  split at hq
  · rename_i book hbook
    rw [hcharge, book_of_lookup hbook]
    unfold OrderBook.marketBuyCost at hq
    obtain ⟨cost, hwalk, hq⟩ := bind_ok.mp hq
    cases cost with
    | none => cases hq
    | some cost =>
        cases hq
        have hbook' := book_of_lookup hbook
        have := walkAsks_toNat (b := b)
          (fun l (hl : l ∈ book.asks.entries) m hm =>
            (((hbook' ▸ hs.wf req.pair).side .ask).rests l hl m hm).price)
          (hfit.imp fun htotal l hl => lt_of_le_of_lt
            (ask_level_le_total hs hb req.pair (by rw [hbook']; exact hl)) (htotal _)) hwalk
        simpa using this
  · rename_i hnone
    have hzero : t.quoteAmount = 0 := (Except.ok.inj (Except.ok.inj hq)).symm
    rw [hcharge, Engine.book, hnone, hzero]
    rfl

/-- **The split of the reserve**: charged, given back, kept. -/
theorem amount_split (hb : e.Backed)
    (hfit : b.Checks (∀ c, e.ledger.bank.total c < 2 ^ 64)) :
    t.amount = charge req t.fills + req.givenBack t.fills t.left + req.kept t.left := by
  have hsum := t.fills_add_left
  unfold amount OrderRequest.amount OrderRequest.givenBack OrderRequest.kept
  cases hside : req.side with
  | ask =>
      have hcharge : charge req t.fills = (t.fills.map Prod.snd).sum := by
        simp [charge, hside]
      cases req.orderType <;> simp only [hcharge] <;> omega
  | bid =>
      cases htype : req.orderType with
      | market =>
          have := t.market_amount hs hb hfit htype hside
          simpa using this
      | limit =>
          have hpaid := paid_add_surplus fun f hf => t.price_le hs htype hside (f := f) hf
          have hvalue := t.value_lt (by simp [htype])
          simp only [charge, hside, hvalue, ← hsum, Nat.mul_add]
          omega

end Shape

end MatchTrace

end MatchingEngine
