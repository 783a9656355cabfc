import Mathlib.Data.Fintype.Prod
import MatchingEngine.Lib.Arith

/-!
# Market: accounts, currencies, pairs and reject reasons

The vocabulary of `market.rs` and `error.rs`.
-/

namespace MatchingEngine

/-- `type AccountId = u64`. -/
abbrev AccountId := UInt64

/-- The currencies of the exchange. -/
inductive Currency where
  | USD
  | SOL
deriving DecidableEq, Repr

instance : Fintype Currency := ⟨{.USD, .SOL}, fun c => by cases c <;> simp⟩

/-- A trading pair. `base` is what is bought and sold, `quote` is what it is
priced in. -/
structure Pair where
  base : Currency
  quote : Currency
deriving DecidableEq, Repr

instance : Fintype Pair :=
  Fintype.ofEquiv (Currency × Currency)
    ⟨fun p => ⟨p.1, p.2⟩, fun p => ⟨p.base, p.quote⟩, fun _ => rfl, fun _ => rfl⟩

/-- A market must price one thing in another. -/
def Pair.isValid (p : Pair) : Bool := p.base ≠ p.quote

theorem Pair.isValid_iff {p : Pair} : p.isValid = true ↔ p.base ≠ p.quote := by
  simp [isValid]

/-- Why the engine refuses a command. -/
inductive RejectReason where
  | insufficientFunds
  | unsupportedOrderType
  | invalidAmount
  | invalidPair
  | depositLimitExceeded
  | priceOutOfBand
  | selfTrade
deriving DecidableEq, Repr

end MatchingEngine
