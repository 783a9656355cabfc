import MatchingEngine.Ledger

/-!
# Command: what goes into the engine and what comes out

The types of `command.rs` and `event.rs`.
-/

namespace MatchingEngine

/-- The order to cancel; whose it is comes with the command. -/
structure CancelRequest where
  orderId : UInt64
deriving DecidableEq, Repr

/-- Funds from outside. -/
structure DepositRequest where
  amount : UInt64
  currency : Currency
deriving DecidableEq, Repr

/-- Funds to the outside, of the available part. -/
structure WithdrawRequest where
  amount : UInt64
  currency : Currency
deriving DecidableEq, Repr

/-- All that changes an engine. -/
inductive Command where
  | place (req : OrderRequest)
  | cancel (req : CancelRequest)
  | deposit (req : DepositRequest)
  | withdraw (req : WithdrawRequest)
  | listPair (pair : Pair)
  | delistPair (pair : Pair)
deriving DecidableEq, Repr

/-- What an accepted order did at once. -/
structure PlaceOrderResponse where
  orderId : UInt64
  filledQty : UInt64
  totalCost : UInt64
deriving DecidableEq, Repr

instance decidableEqExcept {ε α : Type} [DecidableEq ε] [DecidableEq α] :
    DecidableEq (Except ε α)
  | .ok _, .ok _ => decidable_of_iff _ (Except.ok.injEq ..).to_iff.symm
  | .error _, .error _ => decidable_of_iff _ (Except.error.injEq ..).to_iff.symm
  | .ok _, .error _ => .isFalse nofun
  | .error _, .ok _ => .isFalse nofun

/-- What the client of a command is told. A repeated key is told `duplicate`, whatever
the first answer was. -/
inductive CommandResponse where
  | place (res : Except RejectReason PlaceOrderResponse)
  | cancel (cancelled : Bool)
  /-- `ok` is the new available balance -/
  | deposit (res : Except RejectReason UInt64)
  | withdraw (res : Except RejectReason Unit)
  /-- `ok true` is newly listed, `ok false` was already listed -/
  | listPair (res : Except RejectReason Bool)
  | delistPair (removed : Bool)
  | duplicate
deriving DecidableEq

/-- What the other services are told of a command. -/
inductive Event where
  | trade (t : Trade)
  | balanceChanged (accountId : AccountId) (currency : Currency)
      (available reserved : UInt64)
  | orderAccepted (orderId : UInt64) (accountId : AccountId) (pair : Pair)
      (side : Side) (orderType : OrderType) (price size : UInt64)
  | orderCancelled (orderId : UInt64)
  | orderUpdated (orderId : UInt64) (accountId : AccountId) (pair : Pair)
      (filledQty remainingQty : UInt64) (status : OrderStatus)
  /-- `qty` is the level's new total -/
  | bookDelta (pair : Pair) (side : Side) (price qty : UInt64)
deriving DecidableEq, Repr

/-- One entry of the events stream per command. -/
structure EventBatch where
  seq : UInt64
  events : List Event
deriving DecidableEq, Repr

end MatchingEngine
