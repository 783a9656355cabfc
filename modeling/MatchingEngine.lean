import MatchingEngine.Lib.Arith
import MatchingEngine.Lib.SortedMap
import MatchingEngine.Lib.HashMap
import MatchingEngine.Lib.Run
import MatchingEngine.Book
import MatchingEngine.Command
import MatchingEngine.Engine
import MatchingEngine.Lib.Greedy
import MatchingEngine.Matching
import MatchingEngine.Placement
import MatchingEngine.Sweep
import MatchingEngine.BookInvariant
import MatchingEngine.OpenOrders
import MatchingEngine.Lib.Bank
import MatchingEngine.Accounts
import MatchingEngine.History
import MatchingEngine.Settlement
import MatchingEngine.Transition
import MatchingEngine.EngineBooks
import MatchingEngine.Fills
import MatchingEngine.Reserves
import MatchingEngine.Backing
import MatchingEngine.Conservation
import MatchingEngine.Dirty
import MatchingEngine.Returns
import MatchingEngine.Safety
import MatchingEngine.Rejection
import MatchingEngine.Deltas
import MatchingEngine.BookStore
import MatchingEngine.Index
import MatchingEngine.Priority
import MatchingEngine.Builds
import MatchingEngine.Overflow
import MatchingEngine.Idempotency
import MatchingEngine.SelfTrade
import MatchingEngine.Determinism
import MatchingEngine.DbWriter
import MatchingEngine.Balances
import MatchingEngine.Projections
import MatchingEngine.Snapshot
import MatchingEngine.Reconcile
import MatchingEngine.Lib.Log
import MatchingEngine.Lib.System
import MatchingEngine.Runtime
import MatchingEngine.Recovery
import MatchingEngine.Delivery
import MatchingEngine.Feed
import MatchingEngine.Ingestion
import MatchingEngine.Bootstrap
import MatchingEngine.OrderRows
import MatchingEngine.OrderLife
import MatchingEngine.OrderHistory
import MatchingEngine.PriceBand
import MatchingEngine.MarketPrice
import MatchingEngine.MarketBuy
import MatchingEngine.Cancellation
import MatchingEngine.RoundTrip
import MatchingEngine.Candles
import MatchingEngine.Acceptance
import MatchingEngine.Redelivery
import MatchingEngine.Audit
import MatchingEngine.Exit
import MatchingEngine.Gateway
import MatchingEngine.Replies
import MatchingEngine.Retries
import MatchingEngine.Waiters
import MatchingEngine.Auth
import MatchingEngine.Access
import MatchingEngine.Ownership
import MatchingEngine.Sockets
import MatchingEngine.PrivateFeed
import MatchingEngine.MarketFeed
import MatchingEngine.Lib.Prune
import MatchingEngine.Retention
import MatchingEngine.Chart
import MatchingEngine.Portfolio
