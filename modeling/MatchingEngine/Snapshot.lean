import MatchingEngine.Conservation
import MatchingEngine.Determinism
import MatchingEngine.Dirty

/-!
# Snapshot: what is written of an engine, and what comes back

`snapshot.rs` and the `serde` attributes of the engine's types. The JSON
itself is taken as a round trip of the fields that are not skipped; a skipped
field comes back as its default. An engine between two commands loses nothing
(`restore_serialize`), so a run goes on from its snapshot as if it had never
stopped (`resume_sim`).
-/

namespace MatchingEngine

open RustArith HashModel

/-! ## The file -/

/-- `VERSION`. -/
def snapshotVersion : UInt32 := 1

/-- The file of `snapshot.rs`, of the engine or of the book. -/
structure Snapshot (σ : Type) where
  version : UInt32
  /-- last stream entry included in `state` -/
  lastId : ℕ
  state : σ

/-- What can be found at the snapshot's path. -/
inductive SnapshotFile (σ : Type) where
  | missing
  | unreadable
  | json (snapshot : Snapshot σ)

/-- `save`: the file is written beside the old one and renamed, so it is replaced as a
whole. -/
def SnapshotFile.save {σ : Type} (lastId : ℕ) (state : σ) : SnapshotFile σ :=
  .json { version := snapshotVersion, lastId := lastId, state := state }

/-- `load`: `none` means "replay from the start", be the file missing, unreadable or of
another version. -/
def SnapshotFile.load {σ : Type} : SnapshotFile σ → Option (Snapshot σ)
  | .missing => none
  | .unreadable => none
  | .json snapshot => if snapshot.version ≠ snapshotVersion then none else some snapshot

@[simp] theorem SnapshotFile.load_save {σ : Type} (lastId : ℕ) (state : σ) :
    (SnapshotFile.save lastId state).load
      = some { version := snapshotVersion, lastId := lastId, state := state } := rfl

/-! ## The fields that are written -/

/-- `OrderBook` without `dirty_levels`. -/
structure SavedBook where
  bids : Levels
  asks : Levels
  orderIndex : HashMap UInt64 OrderLocation
  lastTradePrice : Option UInt64
deriving DecidableEq

/-- `Ledger` without `dirty`. -/
structure SavedLedger where
  balances : HashMap AccountId (HashMap Currency Balance)
deriving DecidableEq

/-- `Engine` without `limits`. -/
structure SavedEngine where
  books : HashMap Pair SavedBook
  orderPair : HashMap UInt64 Pair
  nextOrderId : UInt64
  nextSeq : UInt64
  ledger : SavedLedger
  dedup : Dedup
  listedPairs : Finset Pair
deriving DecidableEq

/-- `dirty_levels` is skipped. -/
def OrderBook.serialize (book : OrderBook) : SavedBook where
  bids := book.bids
  asks := book.asks
  orderIndex := book.orderIndex
  lastTradePrice := book.lastTradePrice

/-- What was skipped is at its default. -/
def SavedBook.deserialize (book : SavedBook) : OrderBook where
  bids := book.bids
  asks := book.asks
  orderIndex := book.orderIndex
  dirtyLevels := ∅
  lastTradePrice := book.lastTradePrice

/-- `dirty` is skipped. -/
def Ledger.serialize (l : Ledger) : SavedLedger := { balances := l.balances }

/-- So it is empty again. -/
def SavedLedger.deserialize (l : SavedLedger) : Ledger := { balances := l.balances, dirty := ∅ }

/-- All but the limits, and what books and ledger skip. -/
def Engine.serialize (e : Engine) : SavedEngine where
  books := mapValues OrderBook.serialize e.books
  orderPair := e.orderPair
  nextOrderId := e.nextOrderId
  nextSeq := e.nextSeq
  ledger := e.ledger.serialize
  dedup := e.dedup
  listedPairs := e.listedPairs

/-- The limits are at their default until `recover` puts back its own. -/
def SavedEngine.deserialize (saved : SavedEngine) : Engine where
  books := mapValues SavedBook.deserialize saved.books
  orderPair := saved.orderPair
  nextOrderId := saved.nextOrderId
  nextSeq := saved.nextSeq
  ledger := saved.ledger.deserialize
  dedup := saved.dedup
  listedPairs := saved.listedPairs
  limits := .default

/-- `recover`'s first step: the state of the snapshot under the limits of the
process. -/
def SavedEngine.restore (limits : Limits) (saved : SavedEngine) : Engine :=
  { saved.deserialize with limits := limits }

/-! ## Nothing is lost between two commands -/

theorem OrderBook.deserialize_serialize {book : OrderBook} (h : book.dirtyLevels = ∅) :
    book.serialize.deserialize = book := by
  obtain ⟨bids, asks, orderIndex, dirtyLevels, lastTradePrice⟩ := book
  cases h
  rfl

theorem Ledger.deserialize_serialize {l : Ledger} (h : l.dirty = ∅) :
    l.serialize.deserialize = l := by
  obtain ⟨balances, dirty⟩ := l
  cases h
  rfl

theorem restore_serialize {e : Engine} (hs : e.Shape) (hclean : e.ledger.dirty = ∅) :
    e.serialize.restore e.limits = e := by
  have hbooks : mapValues SavedBook.deserialize (mapValues OrderBook.serialize e.books)
      = e.books := by
    refine Finmap.ext_lookup fun pair => ?_
    rw [lookup_mapValues, lookup_mapValues, Option.map_map]
    cases hbook : e.books.lookup pair with
    | none => rfl
    | some book =>
        have hwf := hs.wf pair
        rw [book_of_lookup hbook] at hwf
        exact congrArg some (OrderBook.deserialize_serialize hwf.clean)
  have hledger := Ledger.deserialize_serialize hclean
  obtain ⟨books, orderPair, nextOrderId, nextSeq, ledger, dedup, listedPairs, limits⟩ := e
  simp only [SavedEngine.restore, Engine.serialize, SavedEngine.deserialize] at hbooks hledger ⊢
  rw [hbooks, hledger]

/-- What a run reached comes back from its snapshot. -/
theorem Reaches.restore {b : Build} {limits : Limits} {h : List Record} {e : Engine}
    (hr : Reaches b limits h e) : e.serialize.restore limits = e := by
  have hback := restore_serialize hr.shape hr.clean
  rwa [hr.limits_eq] at hback

/-! ## Going on from a snapshot -/

/-- **Resuming equals never stopping**: from the engine a run reached and from
its snapshot, the same further calls return or panic alike, with the same
responses, the same batches up to the order inside their groups, and the same
end. -/
theorem resume_sim {b : Build} {limits : Limits} {h : List Record} {e : Engine}
    (hr : Reaches b limits h e) {subs subs' : List Submission}
    (hcalls : List.Forall₂ SameCall subs subs') :
    (∀ e' ws, run (Engine.step b) e subs = .ok (e', ws) →
      ∃ ws', run (Engine.step b) (e.serialize.restore limits) subs' = .ok (e', ws') ∧
        List.Forall₂ SameRecord ws ws') ∧
      ∀ e' ws', run (Engine.step b) (e.serialize.restore limits) subs' = .ok (e', ws') →
        ∃ ws, run (Engine.step b) e subs = .ok (e', ws) ∧ List.Forall₂ SameRecord ws ws' := by
  rw [hr.restore]
  have hback : List.Forall₂ SameCall subs' subs :=
    hcalls.flip.imp fun s' s hcall => ⟨hcall.1.symm, hcall.2.1.symm, hcall.2.2.symm⟩
  constructor
  · intro e' ws hrun
    obtain ⟨⟨e'', ws'⟩, hrun', hend, hrecords⟩ := run_sim hcalls hr.shape _ hrun
    cases hend
    exact ⟨ws', hrun', hrecords⟩
  · intro e' ws' hrun'
    -- the run from the engine returns because the other one does; then it is
    -- the one `run_sim` relates to it
    obtain ⟨⟨e'', ws⟩, hrun, hend, _⟩ := run_sim hback hr.shape _ hrun'
    cases hend
    obtain ⟨⟨_, ws''⟩, hagain, _, hrecords⟩ := run_sim hcalls hr.shape _ hrun
    rw [hrun'] at hagain
    cases hagain
    exact ⟨ws, hrun, hrecords⟩

/-- The trading run, stopped after four calls and resumed with the sets drained
the other way round. -/
theorem resume_sim_trading :
    ∃ e' ws ws', run (Engine.step .release)
        (finish .default (runCalls .release .default (tradingCalls.take 4))).1
        (submit (tradingCalls.drop 4)) = .ok (e', ws) ∧
      run (Engine.step .release)
          ((finish .default (runCalls .release .default
            (tradingCalls.take 4))).1.serialize.restore .default)
          (backwards (submit (tradingCalls.drop 4))) = .ok (e', ws') ∧
        List.Forall₂ SameRecord ws ws' := by
  have hreturned : returned (runCalls .release .default (tradingCalls.take 4)) = true := by
    decide +kernel
  obtain ⟨⟨e', ws⟩, hrun, _⟩ := okWith_iff.mp
    (show okWith (run (Engine.step .release)
      (finish .default (runCalls .release .default (tradingCalls.take 4))).1
      (submit (tradingCalls.drop 4))) (fun _ => true) = true by decide +kernel)
  obtain ⟨ws', hrun', hsame⟩ :=
    (resume_sim (reaches_runCalls hreturned) (sameCall_backwards _)).1 e' ws hrun
  exact ⟨e', ws, ws', hrun, hrun', hsame⟩

end MatchingEngine
