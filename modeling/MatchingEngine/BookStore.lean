import MatchingEngine.Deltas
import MatchingEngine.Lib.Writes
import MatchingEngine.Rejection
import MatchingEngine.Returns

/-!
# BookStore: the public book

`bin/api/book.rs`: the projection of the event batches to price levels, and
the snapshots read from it. The lock makes a whole batch one step, so the
store is its state. The projection mirrors the engine's books after every
batch (`projection_mirrors`).
-/

namespace MatchingEngine

open RustArith HashModel

/-- One market's price-level aggregates: how much rests at each price, of whoever it is.
-/
structure Book where
  bids : SortedMap UInt64 UInt64
  asks : SortedMap UInt64 UInt64

/-- `Book::default`. -/
def Book.default : Book := { bids := ∅, asks := ∅ }

/-- One side of a projected book. -/
def Book.side (book : Book) : Side → SortedMap UInt64 UInt64
  | .bid => book.bids
  | .ask => book.asks

def Book.setSide (book : Book) : Side → SortedMap UInt64 UInt64 → Book
  | .bid, levels => { book with bids := levels }
  | .ask, levels => { book with asks := levels }

/-- Books and the seq they are current as of. -/
structure BookState where
  books : HashMap Pair Book
  lastSeq : UInt64

/-- `BookStore::new`. -/
def BookState.new : BookState := { books := ∅, lastSeq := 0 }

/-- The book of a pair, the default one where there is none yet. -/
def BookState.book (state : BookState) (pair : Pair) : Book :=
  (state.books.lookup pair).getD Book.default

/-- Set one level, 0 dropping it. -/
def BookState.setLevel (state : BookState) (pair : Pair) : LevelDelta → BookState
  | (side, price, qty) =>
      let book := state.book pair
      let sideBook := book.side side
      let sideBook := if qty = 0 then sideBook.erase price else sideBook.insert price qty
      { state with books := state.books.insert pair (book.setSide side sideBook) }

/-- The body of the loop over a batch's events. -/
def BookState.applyEvent (state : BookState) : Event → BookState
  | .bookDelta pair side price qty => state.setLevel pair (side, price, qty)
  | _ => state

/-- `BookStore::apply_batch`: set the levels that the batch names, and take its number.
All other events are passed over. -/
def BookState.applyBatch (state : BookState) (batch : EventBatch) : BookState :=
  { batch.events.foldl BookState.applyEvent state with lastSeq := batch.seq }

/-- A level as clients see it: a price and how much rests there. -/
structure BookLevel where
  price : UInt64
  qty : UInt64
deriving DecidableEq, Repr

/-- The answer of `GET /book/:pair`, best levels first. -/
structure BookSnapshot where
  pair : Pair
  /-- the seq this snapshot reflects -/
  sequence : UInt64
  bids : List BookLevel
  asks : List BookLevel

/-- A level of the store, for the answer. -/
def bookLevel (l : UInt64 × UInt64) : BookLevel := { price := l.1, qty := l.2 }

/-- `BookStore::snapshot`: the best levels of both sides, `depth` of each at most, under
the number of the last batch applied. -/
def BookState.snapshot (state : BookState) (pair : Pair) (depth : ℕ) : BookSnapshot where
  pair := pair
  sequence := state.lastSeq
  bids := ((state.book pair).bids.entries.reverse.take depth).map bookLevel
  asks := ((state.book pair).asks.entries.take depth).map bookLevel

/-! ## Set-style deltas -/

/-- What a delta does to the book of its pair. -/
def Book.setLevel (book : Book) : LevelDelta → Book
  | (side, price, qty) =>
      book.setSide side
        (if qty = 0 then (book.side side).erase price else (book.side side).insert price qty)

/-- A book as contents: the aggregate of each level. -/
def Book.level (book : Book) (key : Side × UInt64) : Option UInt64 := (book.side key.1).get? key.2

/-- A delta as a write. -/
def LevelDelta.write (d : LevelDelta) : (Side × UInt64) × Option UInt64 :=
  (d.key, if d.2.2 = 0 then none else some d.2.2)

theorem Book.ext_level {book book' : Book} (h : book.level = book'.level) : book = book' := by
  have hside : ∀ s, book.side s = book'.side s := fun s =>
    SortedMap.ext_get? fun price => congrFun h (s, price)
  obtain ⟨bids, asks⟩ := book
  obtain ⟨bids', asks'⟩ := book'
  obtain rfl : bids = bids' := hside .bid
  obtain rfl : asks = asks' := hside .ask
  rfl

theorem Book.level_setLevel (book : Book) (d : LevelDelta) :
    (book.setLevel d).level = Writes.set book.level d.write := by
  obtain ⟨s, price, qty⟩ := d
  funext ⟨s', price'⟩
  have hside : ((book.setLevel (s, price, qty)).side s').get? price'
      = if s' = s then (if qty = 0 then (book.side s).erase price
          else (book.side s).insert price qty).get? price' else (book.side s').get? price' := by
    cases s <;> cases s' <;> rfl
  change ((book.setLevel (s, price, qty)).side s').get? price' = _
  rw [hside, Writes.set, Function.update_apply, LevelDelta.write, LevelDelta.key]
  by_cases hs : s' = s
  · subst hs
    by_cases hq : qty = 0
    · simp [hq, SortedMap.get?_erase, Book.level]
    · simp [hq, SortedMap.get?_insert, Book.level]
  · simp [hs, Book.level]

/-- **The levels of a book** after some deltas. -/
theorem Book.level_foldl (book : Book) (ds : List LevelDelta) :
    (ds.foldl Book.setLevel book).level = Writes.sets book.level (ds.map LevelDelta.write) :=
  Writes.read_foldl Book.level_setLevel book ds

theorem setLevel_book (state : BookState) (pair pair' : Pair) (d : LevelDelta) :
    (state.setLevel pair d).book pair'
      = if pair' = pair then (state.book pair).setLevel d else state.book pair' := by
  obtain ⟨s, price, qty⟩ := d
  rw [BookState.book, BookState.setLevel]
  dsimp only
  rw [lookup_insert_ite]
  split <;> rfl

/-- The deltas of one pair. -/
def deltasOf (pair : Pair) (deltas : List (Pair × LevelDelta)) : List LevelDelta :=
  (deltas.filter fun d => d.1 = pair).map Prod.snd

theorem mem_deltasOf {pair : Pair} {deltas : List (Pair × LevelDelta)} {d : LevelDelta} :
    d ∈ deltasOf pair deltas ↔ (pair, d) ∈ deltas := by
  simp [deltasOf]

/-- A book only takes the deltas of its pair. -/
theorem foldl_setLevel_book (pair : Pair) (deltas : List (Pair × LevelDelta))
    (state : BookState) :
    (deltas.foldl (fun st d => st.setLevel d.1 d.2) state).book pair
      = (deltasOf pair deltas).foldl Book.setLevel (state.book pair) := by
  induction deltas generalizing state with
  | nil => rfl
  | cons d deltas ih =>
      rw [List.foldl_cons, ih, setLevel_book]
      by_cases hpair : d.1 = pair
      · rw [if_pos hpair.symm, hpair]
        simp [deltasOf, hpair]
      · rw [if_neg (Ne.symm hpair)]
        simp [deltasOf, hpair]

/-- Only the deltas of a batch matter. -/
theorem foldl_applyEvent (events : List Event) : ∀ state : BookState,
    events.foldl BookState.applyEvent state
      = (events.filterMap Event.delta?).foldl (fun st d => st.setLevel d.1 d.2) state := by
  induction events with
  | nil => intro state; rfl
  | cons event events ih =>
      intro state
      cases event <;> exact ih _

/-! ## The projection mirrors the books -/

/-- Every side of every book is mirrored, level by level. -/
def Mirrors (state : BookState) (e : Engine) : Prop :=
  ∀ pair s price, ((state.book pair).side s).get? price
    = (((e.book pair).side s).get? price).map fun queue => UInt64.ofNat (levelTotal queue)

theorem Mirrors.new (limits : Limits) : Mirrors BookState.new (Engine.new limits) := by
  intro pair s price
  cases s <;> rfl

/-- A level that exists holds something. -/
theorem levelTotal_pos {s : Side} {levels : Levels} (h : SideWF s levels)
    {l : UInt64 × List Order} (hl : l ∈ levels.entries) : 0 < levelTotal l.2 := by
  have hne := h.nonempty l hl
  have hrests := h.rests l hl
  cases hqueue : l.2 with
  | nil => exact absurd hqueue hne
  | cons m ms =>
      have hpos := (hrests m (hqueue ▸ List.mem_cons_self)).pos
      rw [← total_units, Greedy.total_cons]
      omega

/-- What a delta sets is the level. -/
theorem levelQty_mirrors {b : Build} {book : OrderBook} (hwf : book.WF)
    (hfit : book.LevelsFit) {s : Side} {price qty : UInt64}
    (h : book.levelQty b s price = .ok qty) :
    (if qty = 0 then none else some qty)
      = ((book.side s).get? price).map fun queue => UInt64.ofNat (levelTotal queue) := by
  unfold OrderBook.levelQty at h
  split at h
  · rename_i queue hqueue
    have hmem := SortedMap.get?_eq_some.mp hqueue
    have hlt := hfit s _ hmem
    have hsum := Build.sum_toNat h (.inr (by rw [exactSum_units]; exact hlt))
    rw [exactSum_units, total_units] at hsum
    have hpos := levelTotal_pos (hwf.side s) hmem
    have hne : qty ≠ 0 := by
      rintro rfl
      rw [← hsum] at hpos
      exact absurd hpos (by decide)
    have hqty : qty = UInt64.ofNat (levelTotal queue) := by
      rw [← hsum, UInt64.ofNat_toNat]
    rw [if_neg hne, hqueue, Option.map_some, ← hqty]
  · rename_i hnone
    cases h
    rw [hnone]
    rfl

/-- **One batch.** -/
theorem Mirrors.step {b : Build} {state : BookState} {e e' : Engine}
    {deltas : List (Pair × LevelDelta)} (h : Mirrors state e) (hs : e'.Shape)
    (hfit : ∀ pair, (e'.book pair).LevelsFit) (hreported : Reported b e e' deltas) :
    Mirrors (deltas.foldl (fun st d => st.setLevel d.1 d.2) state) e' := by
  intro pair s price
  rw [foldl_setLevel_book]
  change ((deltasOf pair deltas).foldl Book.setLevel (state.book pair)).level (s, price) = _
  rw [Book.level_foldl]
  refine Writes.sets_eq (fun v hin => ?_) fun hno => ?_
  · obtain ⟨⟨s', price', qty⟩, hd, heq⟩ := List.mem_map.mp hin
    cases heq
    exact levelQty_mirrors (hs.wf pair) (hfit pair)
      (hreported.value _ _ _ _ (mem_deltasOf.mp hd))
  · rw [hreported.frame pair s price fun qty hin => hno ?_]
    · exact h pair s price
    · exact List.mem_map.mpr ⟨_, List.mem_map_of_mem (mem_deltasOf.mpr hin), rfl⟩

/-- The public book after the batches of a history, in order. -/
def project (h : List Record) : BookState :=
  (h.filterMap Record.batch).foldl BookState.applyBatch BookState.new

/-- No level's aggregate reaches `2 ^ 64` by a call. -/
def LevelsBelow (b : Build) (e : Engine) (s : Submission) : Prop :=
  ∀ e' r, Engine.step b e s = .ok (e', r) → ∀ pair, (e'.book pair).LevelsFit

theorem ReachesAlong.mirrors {b : Build} {limits : Limits} {h : List Record} {e : Engine}
    (hr : ReachesAlong b limits (LevelsBelow b) h e) (hnet : b.Checks (NetBelow h)) :
    Mirrors (project h) e := by
  refine hr.invariant (motive := fun h e => b.Checks (NetBelow h) → Mirrors (project h) e)
    (fun _ => Mirrors.new limits) ?_ hnet
  intro h e o a cid cmd e' response batch hr ih hbelow happly hnet
  have hprev := hnet.imp fun hnet => hnet.of_prefix (List.prefix_append h _)
  have hacc := hr.accounted hprev
  have hfit := hbelow e' _ (step_ok.mpr ⟨response, batch, happly, rfl⟩)
  have hstep := (ih hprev).step (apply_shape hacc.shape happly) hfit
    (apply_reported hacc.shape hacc.backed (hacc.fits hprev) happly)
  unfold project at hstep ⊢
  rw [List.filterMap_append, List.foldl_append]
  cases batch with
  | none => exact hstep
  | some batch =>
      rw [batchDeltas, ← foldl_applyEvent] at hstep
      exact hstep

/-- The sequence number of the last batch. -/
theorem foldl_applyBatch_lastSeq (batches : List EventBatch) :
    (batches.foldl BookState.applyBatch BookState.new).lastSeq
      = ((batches.getLast?).map EventBatch.seq).getD 0 := by
  induction batches using List.reverseRecOn with
  | nil => rfl
  | append_singleton batches batch ih => simp [BookState.applyBatch]

/-- The levels of a mirrored side, with their exact aggregates. -/
theorem Mirrors.entries {state : BookState} {e : Engine} (h : Mirrors state e)
    (hfit : ∀ pair, (e.book pair).LevelsFit) (pair : Pair) (s : Side) :
    (((state.book pair).side s).entries.map fun l => (l.1, l.2.toNat))
      = ((e.book pair).side s).entries.map fun l => (l.1, levelTotal l.2) := by
  have hmap : (state.book pair).side s
      = ((e.book pair).side s).mapValues fun queue => UInt64.ofNat (levelTotal queue) := by
    refine SortedMap.ext_get? fun price => ?_
    rw [SortedMap.get?_mapValues]
    exact h pair s price
  rw [hmap, SortedMap.mapValues, List.map_map]
  refine List.map_congr_left fun l hl => ?_
  have hlt : levelTotal l.2 < 2 ^ 64 := hfit pair s l hl
  exact congrArg (Prod.mk l.1) (UInt64.toNat_ofNat_of_lt' hlt)

theorem ReachesAlong.levelsFit {b : Build} {limits : Limits} {h : List Record} {e : Engine}
    (hr : ReachesAlong b limits (LevelsBelow b) h e) (pair : Pair) :
    (e.book pair).LevelsFit := by
  refine hr.invariant (motive := fun _ e => ∀ pair, (e.book pair).LevelsFit) ?_ ?_ pair
  · intro pair s l hl
    cases s <;> cases hl
  · intro h e o a cid cmd e' response batch _ _ hbelow happly
    exact hbelow e' _ (step_ok.mpr ⟨response, batch, happly, rfl⟩)

/-- **The public book simulates the engine's books.** After every batch of a
run whose net deposits stay words and whose levels do too, the projection
holds exactly the non-empty levels with their exact aggregates, and a snapshot
is the best of them, as of that batch. -/
theorem projection_mirrors {b : Build} {limits : Limits} {h : List Record} {e : Engine}
    (hr : ReachesAlong b limits (LevelsBelow b) h e) (hnet : b.Checks (NetBelow h)) :
    (∀ pair s,
      (((project h).book pair).side s).entries.map (fun l => (l.1, l.2.toNat))
          = ((e.book pair).side s).entries.map (fun l => (l.1, levelTotal l.2)) ∧
        ∀ l ∈ ((e.book pair).side s).entries, 0 < levelTotal l.2) ∧
      (∀ pair depth,
        ((project h).snapshot pair depth).bids.map (fun l => (l.price, l.qty.toNat))
            = ((e.book pair).bids.entries.reverse.take depth).map
                (fun l => (l.1, levelTotal l.2)) ∧
          ((project h).snapshot pair depth).asks.map (fun l => (l.price, l.qty.toNat))
            = ((e.book pair).asks.entries.take depth).map (fun l => (l.1, levelTotal l.2))) ∧
      ∀ pair depth, ((project h).snapshot pair depth).sequence
        = (((h.filterMap Record.batch).getLast?).map EventBatch.seq).getD 0 := by
  have hmirrors := hr.mirrors hnet
  have hentries := hmirrors.entries hr.levelsFit
  have hshape := hr.reaches.shape
  have hlevel : ∀ levels : List (UInt64 × UInt64),
      (levels.map bookLevel).map (fun l => (l.price, l.qty.toNat))
        = levels.map fun l => (l.1, l.2.toNat) := by
    intro levels
    rw [List.map_map]
    rfl
  refine ⟨fun pair s => ⟨hentries pair s, fun l hl =>
    levelTotal_pos ((hshape.wf pair).side s) hl⟩, fun pair depth => ⟨?_, ?_⟩,
    fun pair depth => foldl_applyBatch_lastSeq _⟩
  · have hbids := hentries pair .bid
    simp only [Book.side, OrderBook.side] at hbids
    simp only [BookState.snapshot, hlevel, List.map_take, List.map_reverse, hbids]
  · have hasks := hentries pair .ask
    simp only [Book.side, OrderBook.side] at hasks
    simp only [BookState.snapshot, hlevel, List.map_take, hasks]

/-! ## Concrete runs -/

/-- Whether all levels of all books are words. -/
def Engine.levelsFit (e : Engine) : Bool :=
  decide (∀ pair : Pair, (∀ l ∈ (e.book pair).bids.entries, levelTotal l.2 < 2 ^ 64) ∧
    ∀ l ∈ (e.book pair).asks.entries, levelTotal l.2 < 2 ^ 64)

/-- Whether a call leaves levels that are words. -/
def levelsBelow (b : Build) (e : Engine) (s : Submission) : Bool :=
  okWith (Engine.step b e s) fun r => r.1.levelsFit

theorem levelsBelow_sound (b : Build) (e : Engine) (s : Submission)
    (h : levelsBelow b e s = true) : LevelsBelow b e s := by
  intro e' r hstep pair side l hl
  obtain ⟨_, hok, hfit⟩ := okWith_iff.mp h
  rw [hstep] at hok
  cases hok
  have hfit := of_decide_eq_true hfit pair
  cases side with
  | bid => exact hfit.1 l hl
  | ask => exact hfit.2 l hl

/-- After the trading run the public book shows the one unit left at 11. -/
theorem projection_mirrors_trading :
    (((project (finish .default (runCalls .release .default tradingCalls)).2).snapshot
      { base := .SOL, quote := .USD } 20).bids.map fun l => (l.price, l.qty.toNat))
        = [(11, 1)] := by
  have hmirrors := projection_mirrors
    (reachesAlong_runCalls (levelsBelow_sound _) tradingCalls_returned (by decide +kernel))
    (.inr tradingCalls_net)
  rw [(hmirrors.2.1 _ _).1]
  decide +kernel

/-- The conflicted run, and the bid that is refused after it was matched. -/
def lostCalls : List (AccountId × UInt64 × Command) :=
  conflictedCalls ++ [(1, 5, limitOrder { base := .SOL, quote := .USD } .bid 10 10)]

/-- The ask at 5 is gone from the engine, but no delta ever said so. -/
theorem lost_not_mirrored :
    ReachesAlong .release .none (LevelsBelow .release)
        (finish .none (runCalls .release .none lostCalls)).2
        (finish .none (runCalls .release .none lostCalls)).1 ∧
      ((finish .none (runCalls .release .none lostCalls)).1.book
        { base := .SOL, quote := .USD }).asks.entries = [] ∧
      ((project (finish .none (runCalls .release .none lostCalls)).2).book
        { base := .SOL, quote := .USD }).asks.entries = [(5, 10)] :=
  ⟨reachesAlong_runCalls (levelsBelow_sound _) (by decide +kernel) (by decide +kernel),
    by decide +kernel, by decide +kernel⟩

end MatchingEngine
