import Mathlib.Algebra.BigOperators.Group.List.Basic
import Mathlib.Data.Int.Basic
import MatchingEngine.Engine

/-!
# History: what a run says about itself

Amounts read off the history of a run alone, off the commands, the responses
and the emitted batches: what was deposited and withdrawn, what the trades
gave and took.
-/

namespace MatchingEngine

open RustArith

/-- What an accepted order was answered. -/
def CommandResponse.placed? : CommandResponse → Option PlaceOrderResponse
  | .place (.ok placed) => some placed
  | _ => none

/-! ## Deposits and withdrawals -/

/-- The amount a command deposited of currency `c`: that of a deposit
answered `Ok`. -/
def depositedBy (command : Command) (response : CommandResponse) (c : Currency) : ℕ :=
  match command, response with
  | .deposit req, .deposit (.ok _) => if c = req.currency then req.amount.toNat else 0
  | _, _ => 0

/-- The amount a command withdrew of currency `c`. -/
def withdrawnBy (command : Command) (response : CommandResponse) (c : Currency) : ℕ :=
  match command, response with
  | .withdraw req, .withdraw (.ok _) => if c = req.currency then req.amount.toNat else 0
  | _, _ => 0

/-- What one call put into the exchange. -/
def Record.deposited (r : Record) (c : Currency) : ℕ := depositedBy r.command r.response c

/-- What one call took out of it. -/
def Record.withdrawn (r : Record) (c : Currency) : ℕ := withdrawnBy r.command r.response c

/-- The accepted deposits of a history, in exact integers. -/
def deposits (h : List Record) (c : Currency) : ℕ := (h.map fun r => r.deposited c).sum

/-- Its accepted withdrawals. -/
def withdrawals (h : List Record) (c : Currency) : ℕ := (h.map fun r => r.withdrawn c).sum

/-- The calls one account made. -/
def callsOf (h : List Record) (a : AccountId) : List Record :=
  h.filter fun r => r.accountId = a

/-- The exact net deposits of a currency: what came into the exchange less what left it.
-/
def netDeposits (h : List Record) (c : Currency) : ℤ :=
  (deposits h c : ℤ) - (withdrawals h c : ℤ)

/-- The net deposits of each currency stay below `2 ^ 64` along the run. -/
def NetBelow (h : List Record) : Prop :=
  ∀ h', h' <+: h → ∀ c, netDeposits h' c < 2 ^ 64

theorem NetBelow.of_prefix {h h' : List Record} (hnet : NetBelow h) (hp : h' <+: h) :
    NetBelow h' := fun h'' hp' => hnet h'' (hp'.trans hp)

theorem NetBelow.now {h : List Record} (hnet : NetBelow h) (c : Currency) :
    netDeposits h c < 2 ^ 64 := hnet h (List.prefix_refl h) c

theorem deposits_append (h h' : List Record) (c : Currency) :
    deposits (h ++ h') c = deposits h c + deposits h' c := by simp [deposits]

/-- Deposits alone bound the net deposits. -/
theorem netBelow_of_deposits {h : List Record} (hdep : ∀ c, deposits h c < 2 ^ 64) :
    NetBelow h := by
  rintro h' ⟨rest, rfl⟩ c
  have hc := hdep c
  rw [deposits_append] at hc
  unfold netDeposits
  omega

/-! ## Events -/

/-- The events of a batch, none where there is no batch. -/
def batchEvents (batch : Option EventBatch) : List Event :=
  match batch with
  | none => []
  | some batch => batch.events

/-- Everything a history reported, in order: what a consumer of the whole stream is
told. -/
def eventsOf (h : List Record) : List Event := h.flatMap fun r => batchEvents r.batch

@[simp] theorem eventsOf_append (h h' : List Record) :
    eventsOf (h ++ h') = eventsOf h ++ eventsOf h' := List.flatMap_append

@[simp] theorem eventsOf_singleton (r : Record) : eventsOf [r] = batchEvents r.batch := by
  simp [eventsOf]

theorem eventsOf_eq (h : List Record) :
    eventsOf h = (h.filterMap Record.batch).flatMap EventBatch.events := by
  induction h with
  | nil => rfl
  | cons r h ih =>
      rw [eventsOf, List.flatMap_cons, ← eventsOf, ih, List.filterMap_cons]
      cases r.batch <;> rfl

/-! ## Trades -/

/-- The trade an event reports. -/
def Event.trade? : Event → Option Trade
  | .trade t => some t
  | _ => none

/-- The trades a batch reports. -/
def batchTrades (batch : Option EventBatch) : List Trade :=
  match batch with
  | none => []
  | some batch => batch.events.filterMap Event.trade?

/-- The trades one call made. -/
def Record.trades (r : Record) : List Trade := batchTrades r.batch

/-- The trades of a history, in order. -/
def tradesOf (h : List Record) : List Trade := h.flatMap Record.trades

/-- Who gets the base currency. -/
def Trade.buyer (t : Trade) : AccountId :=
  match t.takerSide with
  | .bid => t.takerAccount
  | .ask => t.makerAccount

/-- Who gives it away. -/
def Trade.seller (t : Trade) : AccountId :=
  match t.takerSide with
  | .bid => t.makerAccount
  | .ask => t.takerAccount

/-- `price * qty`, exactly. -/
def Trade.cost (t : Trade) : ℕ := t.price.toNat * t.qty.toNat

/-- What a trade gives account `a` of currency `c`: the base it buys, the
quote it is paid. -/
def Trade.gives (t : Trade) (a : AccountId) (c : Currency) : ℕ :=
  (if a = t.buyer ∧ c = t.pair.base then t.qty.toNat else 0)
    + (if a = t.seller ∧ c = t.pair.quote then t.cost else 0)

/-- What a trade takes from account `a` of currency `c`: the base it sells,
the quote it pays. -/
def Trade.takes (t : Trade) (a : AccountId) (c : Currency) : ℕ :=
  (if a = t.seller ∧ c = t.pair.base then t.qty.toNat else 0)
    + (if a = t.buyer ∧ c = t.pair.quote then t.cost else 0)

/-- What some trades give an account. -/
def gains (ts : List Trade) (a : AccountId) (c : Currency) : ℕ :=
  (ts.map fun t => t.gives a c).sum

/-- What they take from it. -/
def losses (ts : List Trade) (a : AccountId) (c : Currency) : ℕ :=
  (ts.map fun t => t.takes a c).sum

/-! ## Concrete runs -/

/-- A limit order, as a command. -/
def limitOrder (pair : Pair) (side : Side) (price size : UInt64) : Command :=
  .place { pair := pair, orderType := .limit, side := side, price := price, size := size }

/-- A market order, as a command; its price is 0. -/
def marketOrder (pair : Pair) (side : Side) (size : UInt64) : Command :=
  .place { pair := pair, orderType := .market, side := side, price := 0, size := size }

/-- The end and the history of a run that returned. -/
def finish (limits : Limits) (x : Exec (Engine × List Record)) : Engine × List Record :=
  match x with
  | .ok r => r
  | .error _ => (Engine.new limits, [])

/-- Whether a run returned. -/
def returned (x : Exec (Engine × List Record)) : Bool :=
  match x with
  | .ok _ => true
  | .error _ => false

/-- Calls with the sorted drain orders. -/
def submit (calls : List (AccountId × UInt64 × Command)) : List Submission :=
  calls.map fun (accountId, clientOrderId, command) =>
    { accountId := accountId
      clientOrderId := clientOrderId
      command := command
      drains := .sorted }

/-- The run of some calls from `Engine.new`. -/
def runCalls (b : Build) (limits : Limits) (calls : List (AccountId × UInt64 × Command)) :
    Exec (Engine × List Record) :=
  run (Engine.step b) (Engine.new limits) (submit calls)

theorem runCalls_eq {b : Build} {limits : Limits}
    {calls : List (AccountId × UInt64 × Command)}
    (h : returned (runCalls b limits calls) = true) :
    run (Engine.step b) (Engine.new limits) (submit calls)
      = .ok (finish limits (runCalls b limits calls)) := by
  change runCalls b limits calls = _
  cases hrun : runCalls b limits calls with
  | error e => rw [hrun] at h; cases h
  | ok r => rfl

/-- A run that returned reaches its end. -/
theorem reaches_runCalls {b : Build} {limits : Limits}
    {calls : List (AccountId × UInt64 × Command)}
    (h : returned (runCalls b limits calls) = true) :
    Reaches b limits (finish limits (runCalls b limits calls)).2
      (finish limits (runCalls b limits calls)).1 :=
  ⟨submit calls, runCalls_eq h⟩

/-- A run whose calls were each checked reaches its end along the condition. -/
theorem reachesAlong_runCalls {b : Build} {limits : Limits} {C : Engine → Submission → Prop}
    {c : Engine → Submission → Bool} {calls : List (AccountId × UInt64 × Command)}
    (hc : ∀ e s, c e s = true → C e s) (h : returned (runCalls b limits calls) = true)
    (hcheck : alongCheck (Engine.step b) c (Engine.new limits) (submit calls) = true) :
    ReachesAlong b limits C (finish limits (runCalls b limits calls)).2
      (finish limits (runCalls b limits calls)).1 :=
  ⟨submit calls, runCalls_eq h, along_of_check hc hcheck⟩

end MatchingEngine
