import MatchingEngine.Book

/-!
# Ledger: available and reserved balances

`ledger.rs`. Every operation goes through the entry of one account and
currency, which is created as zeros when it is absent, also by the
operations that then fail.
-/

namespace MatchingEngine

open RustArith HashModel

/-- What an account has of a currency: free, and held by its open orders. -/
structure Balance where
  available : UInt64 := 0
  reserved : UInt64 := 0
deriving DecidableEq, Repr

/-- All balances, and which of them the current command changed. -/
structure Ledger where
  balances : HashMap AccountId (HashMap Currency Balance)
  /-- entries the current command changed -/
  dirty : Finset (AccountId × Currency)
deriving DecidableEq

/-- The balance of one account and currency, zeros when there is none. -/
def Ledger.balance (l : Ledger) (accountId : AccountId) (currency : Currency) : Balance :=
  (((l.balances.lookup accountId).getD ∅).lookup currency).getD {}

/-- Write the entry of one account and currency. -/
def Ledger.put (l : Ledger) (accountId : AccountId) (currency : Currency)
    (balance : Balance) : Ledger :=
  { l with
    balances := l.balances.insert accountId
      (((l.balances.lookup accountId).getD ∅).insert currency balance) }

/-- `self.dirty.insert((account_id, currency))`. -/
def Ledger.mark (l : Ledger) (accountId : AccountId) (currency : Currency) : Ledger :=
  { l with dirty := insert (accountId, currency) l.dirty }

/-- `balances.entry(account_id).or_default().entry(currency).or_default()`,
mutated by `f`. -/
def Ledger.modify (l : Ledger) (accountId : AccountId) (currency : Currency)
    (f : Balance → Exec Balance) : Exec Ledger := do
  let balance ← f (l.balance accountId currency)
  pure (l.put accountId currency balance)

/-- `balance.available += amount`. -/
def Balance.credit (b : Build) (amount : UInt64) (balance : Balance) : Exec Balance := do
  let available ← b.add balance.available amount
  pure { balance with available := available }

/-- `balance.reserved -= amount`. -/
def Balance.spend (b : Build) (amount : UInt64) (balance : Balance) : Exec Balance := do
  let reserved ← b.sub balance.reserved amount
  pure { balance with reserved := reserved }

/-- `Ledger::deposit`: the new available balance. -/
def Ledger.deposit (b : Build) (l : Ledger) (currency : Currency)
    (accountId : AccountId) (amount : UInt64) : Exec (Ledger × UInt64) := do
  let l ← l.modify accountId currency (Balance.credit b amount)
  pure (l.mark accountId currency, (l.balance accountId currency).available)

/-- `Ledger::held`: available + reserved. -/
def Ledger.held (b : Build) (l : Ledger) (accountId : AccountId)
    (currency : Currency) : Exec UInt64 :=
  match (l.balances.lookup accountId).bind fun balances => balances.lookup currency with
  | some balance => b.add balance.available balance.reserved
  | none => pure 0

/-- `Ledger::withdraw`. -/
def Ledger.withdraw (b : Build) (l : Ledger) (accountId : AccountId)
    (currency : Currency) (amount : UInt64) : Exec (Ledger × Except RejectReason Unit) := do
  let balance := l.balance accountId currency
  if balance.available < amount then
    pure (l.put accountId currency balance, .error .insufficientFunds)
  else do
    let available ← b.sub balance.available amount
    let l := l.put accountId currency { balance with available := available }
    pure (l.mark accountId currency, .ok ())

/-- `Ledger::reserve`: available to reserved. -/
def Ledger.reserve (b : Build) (l : Ledger) (accountId : AccountId)
    (currency : Currency) (amount : UInt64) : Exec (Ledger × Except RejectReason Unit) := do
  let balance := l.balance accountId currency
  if balance.available < amount then
    pure (l.put accountId currency balance, .error .insufficientFunds)
  else do
    let available ← b.sub balance.available amount
    let reserved ← b.add balance.reserved amount
    let l := l.put accountId currency { available := available, reserved := reserved }
    pure (l.mark accountId currency, .ok ())

/-- `Ledger::release`: reserved to available. -/
def Ledger.release (b : Build) (l : Ledger) (accountId : AccountId)
    (currency : Currency) (amount : UInt64) : Exec (Ledger × Except RejectReason Unit) := do
  let balance := l.balance accountId currency
  if balance.reserved < amount then
    pure (l.put accountId currency balance, .error .invalidAmount)
  else do
    let reserved ← b.sub balance.reserved amount
    let available ← b.add balance.available amount
    let l := l.put accountId currency { available := available, reserved := reserved }
    pure (l.mark accountId currency, .ok ())

/-- The message of `settle`'s `expect`. -/
def settleMessage : String :=
  "trade cost overflow should have been rejected at order placement"

/-- `trade.price.checked_mul(trade.qty).expect(..)`. -/
def tradeCost (trade : Trade) : Exec UInt64 :=
  match checkedMul trade.price trade.qty with
  | some cost => .ok cost
  | none => .error (.expect settleMessage)

/-- The `match trade.taker_side` of `settle`: the taker's two movements, then
the maker's. -/
def Ledger.settleBalances (b : Build) (l : Ledger) (currency quote : Currency)
    (trade : Trade) (cost : UInt64) : Exec Ledger :=
  match trade.takerSide with
  | .bid => do
      let l ← l.modify trade.takerAccount quote (Balance.spend b cost)
      let l ← l.modify trade.takerAccount currency (Balance.credit b trade.qty)
      let l ← l.modify trade.makerAccount quote (Balance.credit b cost)
      l.modify trade.makerAccount currency (Balance.spend b trade.qty)
  | .ask => do
      let l ← l.modify trade.takerAccount quote (Balance.credit b cost)
      let l ← l.modify trade.takerAccount currency (Balance.spend b trade.qty)
      let l ← l.modify trade.makerAccount quote (Balance.spend b cost)
      l.modify trade.makerAccount currency (Balance.credit b trade.qty)

/-- `Ledger::settle`. -/
def Ledger.settle (b : Build) (l : Ledger) (pair : Pair) (trade : Trade) : Exec Ledger := do
  let currency := pair.base
  let quote := pair.quote
  let cost ← tradeCost trade
  let l ← l.settleBalances b currency quote trade cost
  pure ((((l.mark trade.takerAccount quote).mark trade.takerAccount currency).mark
    trade.makerAccount quote).mark trade.makerAccount currency)

/-- `Ledger::take_dirty`. -/
def Ledger.takeDirty (o : DrainOrder (AccountId × Currency)) (l : Ledger) :
    Ledger × List (AccountId × Currency) :=
  ({ l with dirty := ∅ }, o.toList l.dirty)

end MatchingEngine
