import MatchingEngine.BookInvariant

/-!
# OpenOrders: what the resting orders add up to

A book's orders, weighted: `worth g` charges each order `g` per unit it still
offers. Fills take from the worth of the opposite side what they are worth
themselves, resting adds the taker's worth, a cancel takes the cancelled
order's (`placed_worth`, `removed_worth`). With `Order.rate` as the weight
this is what an account has committed of a currency.
-/

namespace MatchingEngine

open RustArith HashModel

/-- The worth of some orders at `g` per unit. -/
def worth (g : Order → ℕ) (orders : List Order) : ℕ :=
  (orders.map fun o => g o * o.units).sum

@[simp] theorem worth_nil (g : Order → ℕ) : worth g [] = 0 := rfl

@[simp] theorem worth_cons (g : Order → ℕ) (o : Order) (os : List Order) :
    worth g (o :: os) = g o * o.units + worth g os := by simp [worth]

@[simp] theorem worth_append (g : Order → ℕ) (os os' : List Order) :
    worth g (os ++ os') = worth g os + worth g os' := by simp [worth]

theorem worth_perm {g : Order → ℕ} {os os' : List Order} (h : os.Perm os') :
    worth g os = worth g os' := (h.map _).sum_eq

/-- The weight does not look at what is left of the order. -/
def Unitwise (g : Order → ℕ) : Prop :=
  ∀ (o : Order) (rem : UInt64), g { o with remainingSize := rem } = g o

/-- The orders resting in a book. -/
def OrderBook.orders (book : OrderBook) : List Order :=
  levelOrders book.bids.entries ++ levelOrders book.asks.entries

theorem mem_orders {book : OrderBook} {m : Order} :
    m ∈ book.orders ↔ ∃ s, ∃ l ∈ (book.side s).entries, m ∈ l.2 := by
  rw [OrderBook.orders, List.mem_append, mem_levelOrders, mem_levelOrders]
  constructor
  · rintro (h | h)
    · exact ⟨.bid, h⟩
    · exact ⟨.ask, h⟩
  · rintro ⟨s, h⟩
    cases s with
    | bid => exact .inl h
    | ask => exact .inr h

@[simp] theorem drained_orders (book : OrderBook) : book.drained.orders = book.orders := rfl

/-- The worth of one side. -/
def sideWorth (g : Order → ℕ) (levels : Levels) : ℕ := worth g (levelOrders levels.entries)

theorem worth_orders (g : Order → ℕ) (book : OrderBook) (s : Side) :
    worth g book.orders
      = sideWorth g (book.side s) + sideWorth g (book.side s.opposite) := by
  rw [OrderBook.orders, worth_append]
  cases s with
  | bid => rfl
  | ask => exact Nat.add_comm _ _

theorem levelOrders_perm {ls ls' : List (UInt64 × List Order)} (h : ls.Perm ls') :
    (levelOrders ls).Perm (levelOrders ls') := h.flatMap_right _

/-- The order a taker meets the levels in changes nothing of what they hold. -/
theorem bestFirst_orders_perm (s : Side) (levels : Levels) :
    (levelOrders (bestFirst s levels)).Perm (levelOrders levels.entries) := by
  cases s with
  | bid => exact List.Perm.refl _
  | ask => exact levelOrders_perm (List.reverse_perm _)

theorem sideWorth_bestFirst (g : Order → ℕ) (s : Side) (levels : Levels) :
    worth g (levelOrders (bestFirst s levels)) = sideWorth g levels :=
  worth_perm (bestFirst_orders_perm s levels)

theorem worth_level_le (g : Order → ℕ) {levels : Levels} {l : UInt64 × List Order}
    (hl : l ∈ levels.entries) : worth g l.2 ≤ sideWorth g levels := by
  have hperm := levelOrders_perm (SortedMap.perm_of_get? (SortedMap.get?_eq_some.mpr hl))
  rw [sideWorth, worth_perm hperm, levelOrders_cons, worth_append]
  exact Nat.le_add_right _ _

/-! ## Levels -/

/-- The queue at a price, empty where there is no level. -/
def OrderBook.queue (book : OrderBook) (s : Side) (price : UInt64) : List Order :=
  ((book.side s).get? price).getD []

/-- The aggregate of a level: the sum of the remaining sizes resting there. -/
def levelTotal (queue : List Order) : ℕ := (queue.map fun o => o.remainingSize.toNat).sum

theorem total_units (queue : List Order) : Greedy.total Order.units queue = levelTotal queue :=
  rfl

/-- One per unit of the orders at one price of one side. -/
def Order.atLevel (s : Side) (price : UInt64) (o : Order) : ℕ :=
  if o.side = s ∧ o.price = price then 1 else 0

theorem Order.atLevel_unitwise (s : Side) (price : UInt64) : Unitwise (Order.atLevel s price) :=
  fun _ _ => rfl

theorem worth_eq_zero {g : Order → ℕ} {os : List Order} (h : ∀ o ∈ os, g o = 0) :
    worth g os = 0 := by
  refine List.sum_eq_zero fun x hx => ?_
  obtain ⟨o, ho, rfl⟩ := List.mem_map.mp hx
  rw [h o ho, Nat.zero_mul]

theorem worth_eq_levelTotal {g : Order → ℕ} {os : List Order} (h : ∀ o ∈ os, g o = 1) :
    worth g os = levelTotal os := by
  refine congrArg List.sum (List.map_congr_left fun o ho => ?_)
  rw [h o ho, Nat.one_mul]
  rfl

/-- The aggregate of a level is a worth, so orders and cancels move it as they
move every worth. -/
theorem levelTotal_queue {book : OrderBook} (h : book.WF) (s : Side) (price : UInt64) :
    levelTotal (book.queue s price) = worth (Order.atLevel s price) book.orders := by
  have hother : sideWorth (Order.atLevel s price) (book.side s.opposite) = 0 := by
    refine worth_eq_zero fun o ho => ?_
    obtain ⟨l, hl, hm⟩ := mem_levelOrders.mp ho
    have hside := ((h.side s.opposite).rests l hl o hm).side
    have hne : o.side ≠ s := by
      rw [hside]
      cases s <;> decide
    rw [Order.atLevel, if_neg fun hat => hne hat.1]
  have hrest : ∀ levels : Levels,
      (∀ l ∈ levels.entries, l ∈ (book.side s).entries ∧ l.1 ≠ price) →
      worth (Order.atLevel s price) (levelOrders levels.entries) = 0 := by
    intro levels hlevels
    refine worth_eq_zero fun o ho => ?_
    obtain ⟨l, hl, hm⟩ := mem_levelOrders.mp ho
    obtain ⟨hl, hne⟩ := hlevels l hl
    have hprice := ((h.side s).rests l hl o hm).price
    rw [Order.atLevel, if_neg fun hat => hne (hprice.symm.trans hat.2)]
  rw [worth_orders _ book s, hother, Nat.add_zero, sideWorth, OrderBook.queue]
  cases hget : (book.side s).get? price with
  | none =>
      rw [hrest _ fun l hl => ⟨hl, fun hat => SortedMap.get?_eq_none.mp hget l.2 (hat ▸ hl)⟩]
      rfl
  | some queue =>
      have hone : ∀ o ∈ queue, Order.atLevel s price o = 1 := fun o ho => by
        have hrests := (h.side s).rests _ (SortedMap.get?_eq_some.mp hget) o ho
        rw [Order.atLevel, if_pos ⟨hrests.side, hrests.price⟩]
      rw [worth_perm (levelOrders_perm (SortedMap.perm_of_get? hget)), levelOrders_cons,
        worth_append, worth_eq_levelTotal hone,
        hrest _ fun l hl => SortedMap.mem_erase.mp hl, Nat.add_zero]
      rfl

/-! ## Matching and resting -/

section AddOrder

variable {book : OrderBook} {orderId : UInt64} {accountId : AccountId} {req : OrderRequest}
  {g : Order → ℕ}

/-- **Conservation in the sweep**: what the swept side lost is what the fills
are worth. -/
theorem swept_worth (hg : Unitwise g) (book : OrderBook) (orderId : UInt64)
    (accountId : AccountId) (req : OrderRequest) :
    ((book.fills orderId accountId req).map fun f => g f.1 * f.2).sum
        + sideWorth g (book.swept orderId accountId req)
      = sideWorth g (book.side req.side.opposite) := by
  have hsplit := Greedy.sum_walk_add_rest Order.units Order.shrink g
    (r := req.size.toNat)
    (l := reach (req.toOrder orderId accountId).crosses
      (bestFirst req.side (book.side req.side.opposite)))
    (fun m _ q hq => Order.units_shrink hq.le) (fun m _ q _ => hg m _)
  have hall := congrArg (worth g) (reach_append_beyond
    (req.toOrder orderId accountId).crosses
    (bestFirst req.side (book.side req.side.opposite)))
  rw [worth_append, sideWorth_bestFirst] at hall
  rw [← hall, OrderBook.swept, ← sideWorth_bestFirst g req.side, bestFirst_sweepSide,
    sweep_orders, worth_append, ← Nat.add_assoc, OrderBook.fills_eq]
  exact congrArg (· + _) hsplit

/-- The taker, if it stays in the book. -/
def OrderBook.resting (book : OrderBook) (orderId : UInt64) (accountId : AccountId)
    (req : OrderRequest) : List Order :=
  if book.Stays orderId accountId req then [book.taker orderId accountId req] else []

/-- The taker joins the orders of its side. -/
theorem joined_orders_perm (book : OrderBook) (orderId : UInt64) (accountId : AccountId)
    (req : OrderRequest) :
    (levelOrders (book.joined orderId accountId req).entries).Perm
      (book.resting orderId accountId req ++ levelOrders (book.side req.side).entries) := by
  unfold OrderBook.joined OrderBook.resting
  split
  · refine (levelOrders_perm (SortedMap.insert_perm _ _ _)).trans ?_
    rw [levelOrders_cons]
    cases hget : (book.side req.side).get? req.price with
    | none =>
        rw [SortedMap.erase_of_get?_none hget]
        exact List.Perm.refl _
    | some queue =>
        -- the taker at the back of its queue comes to the front of the list
        refine .trans ?_ ((levelOrders_perm (SortedMap.perm_of_get? hget)).symm.append_left _)
        rw [levelOrders_cons, ← List.append_assoc]
        exact List.perm_append_comm.append_right _
  · exact List.Perm.refl _

theorem joined_worth :
    sideWorth g (book.joined orderId accountId req)
      = sideWorth g (book.side req.side)
        + if book.Stays orderId accountId req then
            g (book.taker orderId accountId req) * (book.taker orderId accountId req).units
          else 0 := by
  rw [sideWorth, worth_perm (joined_orders_perm book orderId accountId req), worth_append,
    Nat.add_comm, sideWorth, OrderBook.resting]
  split
  · rw [worth_cons, worth_nil, Nat.add_zero]
  · rfl

/-- **The book after an order**: the fills leave, the remainder joins. -/
theorem placed_worth (hg : Unitwise g) :
    worth g (book.placed orderId accountId req).orders
        + ((book.fills orderId accountId req).map fun f => g f.1 * f.2).sum
      = worth g book.orders
        + if book.Stays orderId accountId req then
            g (book.taker orderId accountId req) * (book.taker orderId accountId req).units
          else 0 := by
  rw [worth_orders g _ req.side, worth_orders g book req.side, placed_own,
    placed_opposite, joined_worth]
  have hswept := swept_worth hg book orderId accountId req
  omega

end AddOrder

/-! ## Cancelling -/

/-- A queue loses an order, and so does its side. -/
theorem putQueue_orders_perm {levels : Levels} {price : UInt64} {pre post : List Order}
    {order : Order} (hqueue : levels.get? price = some (pre ++ order :: post)) :
    (levelOrders levels.entries).Perm
      (order :: levelOrders (putQueue levels price (pre ++ post)).entries) := by
  have hput : (levelOrders (putQueue levels price (pre ++ post)).entries).Perm
      ((pre ++ post) ++ levelOrders (levels.erase price).entries) := by
    unfold putQueue
    split
    · rename_i hnil
      rw [List.isEmpty_iff.mp hnil]
      exact List.Perm.refl _
    · exact levelOrders_perm (SortedMap.insert_perm _ _ _)
  refine (levelOrders_perm (SortedMap.perm_of_get? hqueue)).trans ?_
  refine .trans ?_ (hput.symm.cons order)
  rw [levelOrders_cons, ← List.cons_append]
  exact List.perm_middle.append_right _

theorem removed_worth {book : OrderBook} {side : Side} {price : UInt64}
    {pre post : List Order} {order : Order} (id : UInt64) (g : Order → ℕ)
    (hqueue : (book.side side).get? price = some (pre ++ order :: post)) :
    worth g (book.removed side price (pre ++ post) id).orders + g order * order.units
      = worth g book.orders := by
  have hside := worth_perm (g := g) (putQueue_orders_perm hqueue)
  rw [worth_cons] at hside
  rw [worth_orders g _ side, worth_orders g book side, OrderBook.removed_side_self,
    OrderBook.removed_side_opposite]
  unfold sideWorth
  omega

/-! ## What an account has committed -/

/-- What one unit of an order commits of account `a`'s currency `c`: its price
when it is a's bid and `c` the quote, one when it is a's ask and `c` the
base. -/
def Order.rate (pair : Pair) (a : AccountId) (c : Currency) (o : Order) : ℕ :=
  if o.accountId = a then
    match o.side with
    | .bid => if pair.quote = c then o.price.toNat else 0
    | .ask => if pair.base = c then 1 else 0
  else 0

theorem Order.rate_unitwise (pair : Pair) (a : AccountId) (c : Currency) :
    Unitwise (Order.rate pair a c) := fun _ _ => rfl

theorem Order.rate_bid {pair : Pair} {a : AccountId} {c : Currency} {o : Order}
    (h : o.side = .bid) : o.rate pair a c
      = if a = o.accountId ∧ c = pair.quote then o.price.toNat else 0 := by
  unfold Order.rate
  rw [h]
  by_cases ha : a = o.accountId
  · subst ha
    by_cases hc : c = pair.quote
    · simp [hc]
    · simp [hc, Ne.symm hc]
  · simp [ha, Ne.symm ha]

theorem Order.rate_ask {pair : Pair} {a : AccountId} {c : Currency} {o : Order}
    (h : o.side = .ask) : o.rate pair a c
      = if a = o.accountId ∧ c = pair.base then 1 else 0 := by
  unfold Order.rate
  rw [h]
  by_cases ha : a = o.accountId
  · subst ha
    by_cases hc : c = pair.base
    · simp [hc]
    · simp [hc, Ne.symm hc]
  · simp [ha, Ne.symm ha]

/-- What the resting orders of one book commit of account `a`'s currency `c`:
`price * remaining_size` of its bids when `c` is the quote, `remaining_size`
of its asks when `c` is the base. -/
def OrderBook.committed (book : OrderBook) (pair : Pair) (a : AccountId) (c : Currency) : ℕ :=
  (if pair.quote = c then
    ((levelOrders book.bids.entries).filter fun o => o.accountId = a).map
      (fun o => o.price.toNat * o.remainingSize.toNat) |>.sum else 0)
  + (if pair.base = c then
    ((levelOrders book.asks.entries).filter fun o => o.accountId = a).map
      (fun o => o.remainingSize.toNat) |>.sum else 0)

theorem worth_filter (g h : Order → ℕ) (a : AccountId) (os : List Order)
    (hg : ∀ o ∈ os, g o * o.units = if o.accountId = a then h o else 0) :
    worth g os = ((os.filter fun o => o.accountId = a).map h).sum := by
  induction os with
  | nil => rfl
  | cons o os ih =>
      rw [worth_cons, hg o List.mem_cons_self,
        ih fun o' ho' => hg o' (List.mem_cons_of_mem _ ho')]
      by_cases ha : o.accountId = a <;> simp [ha]

/-- The committed amount is the worth at `Order.rate`. -/
theorem committed_eq_worth {book : OrderBook} (h : book.WF) (pair : Pair) (a : AccountId)
    (c : Currency) : book.committed pair a c = worth (Order.rate pair a c) book.orders := by
  have hside : ∀ s, ∀ o ∈ levelOrders (book.side s).entries, o.side = s := by
    intro s o ho
    obtain ⟨l, hl, hm⟩ := mem_levelOrders.mp ho
    exact ((h.side s).rests l hl o hm).side
  rw [OrderBook.orders, worth_append, OrderBook.committed]
  congr 1
  · by_cases hc : pair.quote = c
    · rw [if_pos hc]
      refine (worth_filter _ _ a _ fun o ho => ?_).symm
      rw [Order.rate, hside .bid o ho, if_pos hc, ite_mul, Nat.zero_mul]
      rfl
    · rw [if_neg hc]
      refine (List.sum_eq_zero fun x hx => ?_).symm
      obtain ⟨o, ho, rfl⟩ := List.mem_map.mp hx
      simp [Order.rate, hside .bid o ho, hc]
  · by_cases hc : pair.base = c
    · rw [if_pos hc]
      refine (worth_filter _ _ a _ fun o ho => ?_).symm
      rw [Order.rate, hside .ask o ho, if_pos hc, ite_mul, Nat.zero_mul, Nat.one_mul]
      rfl
    · rw [if_neg hc]
      refine (List.sum_eq_zero fun x hx => ?_).symm
      obtain ⟨o, ho, rfl⟩ := List.mem_map.mp hx
      simp [Order.rate, hside .ask o ho, hc]

end MatchingEngine
