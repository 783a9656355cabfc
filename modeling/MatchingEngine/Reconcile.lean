import MatchingEngine.BookStore
import MatchingEngine.Determinism

/-!
# Reconcile: a snapshot and the deltas after it

`bin/api/ws.rs` and the client it is written for: subscribe, take a snapshot,
then apply the messages whose `seq` is greater than the snapshot's `sequence`.
The store starts with `last_seq` 0, which is also the number of the first
batch; so a snapshot of the empty store makes the client drop that batch
(`reconciles_iff`).
-/

namespace MatchingEngine

open RustArith HashModel

/-! ## The public feed and its client -/

/-- Wire format for the public feed. -/
inductive MarketMessage where
  | bookDelta (seq : UInt64) (side : Side) (price qty : UInt64)
  | trade (seq price qty : UInt64) (takerSide : Side)
deriving DecidableEq, Repr

/-- The body of the loop of `public_market_loop` over a batch's events. -/
def marketMessage? (pair : Pair) (seq : UInt64) : Event → Option MarketMessage
  | .bookDelta p side price qty => if p = pair then some (.bookDelta seq side price qty) else none
  | .trade t => if t.pair = pair then some (.trade seq t.price t.qty t.takerSide) else none
  | _ => none

/-- The messages one batch is sent out as. -/
def marketMessages (pair : Pair) (batch : EventBatch) : List MarketMessage :=
  batch.events.filterMap (marketMessage? pair batch.seq)

/-- The levels of a snapshot. -/
def Book.ofSnapshot (snapshot : BookSnapshot) : Book where
  bids := snapshot.bids.foldl (fun levels l => levels.insert l.price l.qty) ∅
  asks := snapshot.asks.foldl (fun levels l => levels.insert l.price l.qty) ∅

/-- A client applies the deltas after the snapshot. -/
def Book.applyMessage (sequence : UInt64) (book : Book) : MarketMessage → Book
  | .bookDelta seq side price qty =>
      if sequence < seq then book.setLevel (side, price, qty) else book
  | .trade .. => book

/-- The store after the first `k` batches. -/
def storeAfter (batches : List EventBatch) (k : ℕ) : BookState :=
  (batches.take k).foldl BookState.applyBatch BookState.new

/-- **Reconciliation** of a client that subscribed after `j` batches, took its
snapshot after `k` and has received the messages of the batches up to `m`: it
has the levels of the store as of the last batch it knows of. -/
def Reconciles (batches : List EventBatch) (pair : Pair) (j k m : ℕ) : Prop :=
  ∀ depth, ((storeAfter batches k).book pair).bids.entries.length ≤ depth →
    ((storeAfter batches k).book pair).asks.entries.length ≤ depth →
    (((batches.take m).drop j).flatMap (marketMessages pair)).foldl
        (Book.applyMessage ((storeAfter batches k).snapshot pair depth).sequence)
        (Book.ofSnapshot ((storeAfter batches k).snapshot pair depth))
      = (storeAfter batches (max k m)).book pair

/-- Every level the first batch puts up is set again by a later batch received. -/
def FirstSetAgain (batches : List EventBatch) (pair : Pair) (m : ℕ) : Prop :=
  ∀ first, batches.head? = some first → ∀ side price qty,
    Event.bookDelta pair side price qty ∈ first.events → qty ≠ 0 →
    ∃ batch ∈ (batches.take m).drop 1, ∃ qty', Event.bookDelta pair side price qty' ∈ batch.events

/-! ## A snapshot is the book -/

/-- The entries of a map, inserted in any order, are the map. -/
theorem foldl_insert_entries {levels : SortedMap UInt64 UInt64} {ls : List (UInt64 × UInt64)}
    (h : ∀ l, l ∈ ls ↔ l ∈ levels.entries) :
    ls.foldl (fun levels l => levels.insert l.1 l.2) ∅ = levels := by
  refine SortedMap.ext_get? fun price => ?_
  have hread : ∀ (levels : SortedMap UInt64 UInt64) (l : UInt64 × UInt64),
      (levels.insert l.1 l.2).get? = Writes.set levels.get? (l.1, some l.2) := by
    intro levels l
    funext p
    rw [SortedMap.get?_insert, Writes.set, Function.update_apply]
  rw [Writes.read_foldl hread]
  refine Writes.sets_eq (fun v hin => ?_) fun hno => ?_
  · obtain ⟨l, hl, heq⟩ := List.mem_map.mp hin
    cases heq
    exact (SortedMap.get?_eq_some.mpr ((h l).mp hl)).symm
  · refine (SortedMap.get?_eq_none.mpr fun qty hin => hno ?_).symm
    exact List.mem_map.mpr ⟨_, List.mem_map_of_mem ((h _).mpr hin), rfl⟩

theorem ofSnapshot_snapshot {state : BookState} {pair : Pair} {depth : ℕ}
    (hbids : (state.book pair).bids.entries.length ≤ depth)
    (hasks : (state.book pair).asks.entries.length ≤ depth) :
    Book.ofSnapshot (state.snapshot pair depth) = state.book pair := by
  have hfold : ∀ (ls : List (UInt64 × UInt64)),
      (ls.map bookLevel).foldl (fun levels l => levels.insert l.price l.qty) ∅
        = ls.foldl (fun (levels : SortedMap UInt64 UInt64) l => levels.insert l.1 l.2) ∅ :=
    fun ls => List.foldl_map
  rw [Book.ofSnapshot, BookState.snapshot]
  dsimp only
  rw [List.take_of_length_le (by rw [List.length_reverse]; exact hbids),
    List.take_of_length_le hasks, hfold, hfold,
    foldl_insert_entries fun l => List.mem_reverse, foldl_insert_entries fun l => Iff.rfl]

/-! ## The deltas of one pair -/

/-- The deltas of one pair in a batch. -/
def pairDeltas (pair : Pair) (batch : EventBatch) : List LevelDelta :=
  deltasOf pair (batch.events.filterMap Event.delta?)

theorem mem_pairDeltas {pair : Pair} {batch : EventBatch} {side : Side} {price qty : UInt64} :
    (side, price, qty) ∈ pairDeltas pair batch ↔
      Event.bookDelta pair side price qty ∈ batch.events := by
  rw [pairDeltas, mem_deltasOf, List.mem_filterMap]
  constructor
  · rintro ⟨event, hevent, hdelta⟩
    cases event <;> cases hdelta
    exact hevent
  · exact fun h => ⟨_, h, rfl⟩

theorem foldl_applyBatch_book (pair : Pair) (batches : List EventBatch) (state : BookState) :
    (batches.foldl BookState.applyBatch state).book pair
      = (batches.flatMap (pairDeltas pair)).foldl Book.setLevel (state.book pair) := by
  induction batches generalizing state with
  | nil => rfl
  | cons batch batches ih =>
      have hbatch : (state.applyBatch batch).book pair
          = (pairDeltas pair batch).foldl Book.setLevel (state.book pair) := by
        change (batch.events.foldl BookState.applyEvent state).book pair = _
        rw [foldl_applyEvent, foldl_setLevel_book, pairDeltas]
      rw [List.foldl_cons, ih, hbatch, List.flatMap_cons, List.foldl_append]

/-- A client takes all deltas of a batch or none. -/
theorem foldl_applyMessage (sequence : UInt64) (pair : Pair) (batch : EventBatch) (book : Book) :
    (marketMessages pair batch).foldl (Book.applyMessage sequence) book
      = if sequence < batch.seq then (pairDeltas pair batch).foldl Book.setLevel book
        else book := by
  rw [marketMessages, pairDeltas]
  induction batch.events generalizing book with
  | nil => simp [deltasOf]
  | cons event events ih =>
      cases event with
      | bookDelta p side price qty =>
          by_cases hpair : p = pair
          · by_cases hseq : sequence < batch.seq
            · simp [marketMessage?, Event.delta?, deltasOf, hpair, hseq, Book.applyMessage] at ih ⊢
              exact ih _
            · simp [marketMessage?, hpair, hseq, Book.applyMessage] at ih ⊢
              exact ih _
          · simp [marketMessage?, Event.delta?, deltasOf, hpair] at ih ⊢
            exact ih _
      | trade t =>
          by_cases hpair : t.pair = pair
          · simp [marketMessage?, Event.delta?, deltasOf, hpair, Book.applyMessage] at ih ⊢
            exact ih _
          · simp [marketMessage?, Event.delta?, deltasOf, hpair] at ih ⊢
            exact ih _
      | _ =>
          simp [marketMessage?, Event.delta?, deltasOf] at ih ⊢
          exact ih _

/-- The batches a client applies are those numbered after its snapshot. -/
theorem foldl_messages (sequence : UInt64) (pair : Pair) (batches : List EventBatch)
    (book : Book) :
    (batches.flatMap (marketMessages pair)).foldl (Book.applyMessage sequence) book
      = ((batches.filter fun batch => sequence < batch.seq).flatMap (pairDeltas pair)).foldl
          Book.setLevel book := by
  induction batches generalizing book with
  | nil => rfl
  | cons batch batches ih =>
      rw [List.flatMap_cons, List.foldl_append, foldl_applyMessage, ih]
      by_cases hseq : sequence < batch.seq
      · rw [if_pos hseq, List.filter_cons_of_pos (by simpa using hseq), List.flatMap_cons,
          List.foldl_append]
      · rw [if_neg hseq, List.filter_cons_of_neg (by simpa using hseq)]

/-! ## Runs -/

section Numbered

variable {batches : List EventBatch}
  (hseq : ∀ (i : ℕ) (batch : EventBatch), batches[i]? = some batch → batch.seq = UInt64.ofNat i)
  (hlen : batches.length ≤ 2 ^ 64)

include hseq hlen

theorem seq_toNat {i : ℕ} {batch : EventBatch} (h : batches[i]? = some batch) :
    batch.seq.toNat = i := by
  have hi := (List.getElem?_eq_some_iff.mp h).1
  rw [hseq i batch h, UInt64.toNat_ofNat_of_lt' (hi.trans_le hlen)]

/-- The number of a snapshot after `k` batches: that of the last one, and that
of the first one when there is none yet. -/
theorem storeAfter_sequence {k : ℕ} (hk : k ≤ batches.length) :
    (storeAfter batches k).lastSeq.toNat = k - 1 := by
  rw [storeAfter, foldl_applyBatch_lastSeq]
  cases k with
  | zero => rfl
  | succ k =>
      have hi : batches[k]? = some batches[k] := List.getElem?_eq_getElem (by omega)
      have hlast : (batches.take (k + 1)).getLast? = some batches[k] := by
        rw [List.getLast?_take, if_neg (by omega), Nat.add_sub_cancel, hi]
        rfl
      rw [hlast]
      exact seq_toNat hseq hlen hi

/-- What is numbered after `k`, of the batches received from `j` on. -/
theorem filter_later {sequence : UInt64} {j k m : ℕ} (hsequence : sequence.toNat = k)
    (hj : j ≤ k + 1) :
    (((batches.take m).drop j).filter fun batch => sequence < batch.seq)
      = (batches.take m).drop (k + 1) := by
  have hplace : ∀ (i : ℕ) (batch : EventBatch), (batches.take m)[i]? = some batch →
      batch.seq.toNat = i := by
    intro i batch h
    refine seq_toNat hseq hlen (i := i) ?_
    rw [List.getElem?_take] at h
    split at h
    · exact h
    · cases h
  have hsplit := List.take_append_drop (k + 1 - j) ((batches.take m).drop j)
  rw [List.drop_drop, Nat.add_sub_cancel' hj] at hsplit
  rw [← hsplit, List.filter_append]
  have hearly : ((((batches.take m).drop j).take (k + 1 - j)).filter
      fun batch => sequence < batch.seq) = [] := by
    refine List.filter_eq_nil_iff.mpr fun batch hbatch => ?_
    obtain ⟨i, hi⟩ := List.getElem?_of_mem hbatch
    rw [List.getElem?_take] at hi
    split at hi
    · rename_i hlt
      rw [List.getElem?_drop] at hi
      have hnum := hplace _ _ hi
      simp only [decide_eq_true_eq, UInt64.lt_iff_toNat_lt]
      omega
    · cases hi
  have hlate : (((batches.take m).drop (k + 1)).filter fun batch => sequence < batch.seq)
      = (batches.take m).drop (k + 1) := by
    refine List.filter_eq_self.mpr fun batch hbatch => ?_
    obtain ⟨i, hi⟩ := List.getElem?_of_mem hbatch
    rw [List.getElem?_drop] at hi
    have hnum := hplace _ _ hi
    simp only [decide_eq_true_eq, UInt64.lt_iff_toNat_lt]
    omega
  rw [hearly, hlate, List.nil_append]

end Numbered

/-- Every level at most once in a batch. -/
theorem Reaches.levels_nodup {b : Build} {limits : Limits} {h : List Record} {e : Engine}
    (hr : Reaches b limits h e) :
    ∀ batch ∈ h.filterMap Record.batch,
      ((batch.events.filterMap Event.delta?).map fun d => (d.1, LevelDelta.key d.2)).Nodup := by
  have hboth : e.Shape ∧ ∀ batch ∈ h.filterMap Record.batch,
      ((batch.events.filterMap Event.delta?).map fun d => (d.1, LevelDelta.key d.2)).Nodup := by
    refine hr.invariant (motive := fun h e => e.Shape ∧ ∀ batch ∈ h.filterMap Record.batch,
      ((batch.events.filterMap Event.delta?).map fun d => (d.1, LevelDelta.key d.2)).Nodup)
      ⟨Engine.new_shape limits, fun _ h => nomatch h⟩ ?_
    intro h e o a cid cmd e' response batch ⟨hs, ih⟩ happly
    refine ⟨apply_shape hs happly, fun bt hbt => ?_⟩
    rw [List.filterMap_append, List.mem_append] at hbt
    rcases hbt with hbt | hbt
    · exact ih bt hbt
    · obtain ⟨r, hr, hbatch⟩ := List.mem_filterMap.mp hbt
      cases List.mem_singleton.mp hr
      change batch = some bt at hbatch
      obtain ⟨r', _, _, _, hsame⟩ := apply_sim hs o o a cid cmd _ happly
      rw [hbatch] at hsame
      cases hr' : r'.2.2 with
      | none => rw [hr'] at hsame; exact hsame.elim
      | some batch' =>
          rw [hr'] at hsame
          exact hsame.2.levels
  exact hboth.2

/-- The levels the first batch of a pair puts up. -/
theorem level_first {pair : Pair} {first : EventBatch}
    (hnodup : ((first.events.filterMap Event.delta?).map
      fun d => (d.1, LevelDelta.key d.2)).Nodup) (side : Side) (price : UInt64) :
    Book.default.level (side, price)
        ≠ ((pairDeltas pair first).foldl Book.setLevel Book.default).level (side, price) ↔
      ∃ qty, Event.bookDelta pair side price qty ∈ first.events ∧ qty ≠ 0 := by
  have hdefault : Book.default.level (side, price) = none := by cases side <;> rfl
  have hone : ∀ qty qty', (side, price, qty) ∈ pairDeltas pair first →
      (side, price, qty') ∈ pairDeltas pair first → qty = qty' := by
    intro qty qty' hq hq'
    have heq := List.inj_on_of_nodup_map hnodup (mem_deltasOf.mp hq) (mem_deltasOf.mp hq') rfl
    exact congrArg (fun d : Pair × LevelDelta => d.2.2.2) heq
  rw [hdefault, Book.level_foldl]
  constructor
  · intro hne
    by_contra hno
    push Not at hno
    refine hne (Writes.sets_eq (fun v hin => ?_) fun _ => hdefault).symm
    obtain ⟨⟨s', p', qty⟩, hd, heq⟩ := List.mem_map.mp hin
    obtain ⟨hkey, rfl⟩ := Prod.mk.inj heq
    obtain ⟨rfl, rfl⟩ := Prod.mk.inj hkey
    rw [if_pos (hno qty (mem_pairDeltas.mp hd))]
  · rintro ⟨qty, hin, hqty⟩ hnone
    have hset : Writes.sets Book.default.level ((pairDeltas pair first).map LevelDelta.write)
        (side, price) = some qty := by
      refine Writes.sets_eq (fun v hv => ?_) fun hno => absurd ?_ hno
      · obtain ⟨⟨s', p', qty'⟩, hd, heq⟩ := List.mem_map.mp hv
        obtain ⟨hkey, rfl⟩ := Prod.mk.inj heq
        obtain ⟨rfl, rfl⟩ := Prod.mk.inj hkey
        rw [hone qty' qty hd (mem_pairDeltas.mpr hin), if_neg hqty]
      · exact List.mem_map.mpr ⟨_, List.mem_map_of_mem (mem_pairDeltas.mpr hin), rfl⟩
    rw [hset] at hnone
    cases hnone

/-- Without the first batch a client ends with the same book exactly when all
that batch put up is set again. -/
theorem first_dropped_iff (pair : Pair) {first : EventBatch} (rest : List EventBatch)
    (hnodup : ((first.events.filterMap Event.delta?).map
      fun d => (d.1, LevelDelta.key d.2)).Nodup) :
    (rest.flatMap (pairDeltas pair)).foldl Book.setLevel Book.default
        = (rest.flatMap (pairDeltas pair)).foldl Book.setLevel
          ((pairDeltas pair first).foldl Book.setLevel Book.default) ↔
      ∀ side price qty, Event.bookDelta pair side price qty ∈ first.events → qty ≠ 0 →
        ∃ batch ∈ rest, ∃ qty', Event.bookDelta pair side price qty' ∈ batch.events := by
  have hset : ∀ side price, (side, price) ∈ (((rest.flatMap (pairDeltas pair)).map
      LevelDelta.write).map Prod.fst) ↔
      ∃ batch ∈ rest, ∃ qty', Event.bookDelta pair side price qty' ∈ batch.events := by
    intro side price
    simp only [← mem_pairDeltas, List.map_map, List.mem_map, List.mem_flatMap]
    constructor
    · rintro ⟨⟨s', p', qty'⟩, ⟨batch, hbatch, hd⟩, heq⟩
      cases heq
      exact ⟨batch, hbatch, qty', hd⟩
    · rintro ⟨batch, hbatch, qty', hd⟩
      exact ⟨_, ⟨batch, hbatch, hd⟩, rfl⟩
  have hbooks : ∀ book book' : Book, book = book' ↔ book.level = book'.level := fun _ _ =>
    ⟨congrArg _, Book.ext_level⟩
  rw [hbooks, Book.level_foldl, Book.level_foldl _ (rest.flatMap _), Writes.sets_eq_iff]
  constructor
  · intro h side price qty hin hqty
    exact (hset side price).mp
      (h (side, price) ((level_first hnodup side price).mpr ⟨qty, hin, hqty⟩))
  · rintro h ⟨side, price⟩ hne
    obtain ⟨qty, hin, hqty⟩ := (level_first hnodup side price).mp hne
    exact (hset side price).mpr (h side price qty hin hqty)

/-- A client of a snapshot after `k` batches has the deltas from batch `k` on,
but from batch 1 on when `k` is 0. -/
theorem reconciles_books {batches : List EventBatch}
    (hseq : ∀ (i : ℕ) (batch : EventBatch), batches[i]? = some batch →
      batch.seq = UInt64.ofNat i)
    (hlen : batches.length ≤ 2 ^ 64) {pair : Pair} {j k m : ℕ} (hj : j ≤ k)
    (hk : k ≤ batches.length) :
    Reconciles batches pair j k m ↔
      (((batches.take m).drop (k - 1 + 1)).flatMap (pairDeltas pair)).foldl Book.setLevel
          ((storeAfter batches k).book pair)
        = (((batches.take m).drop k).flatMap (pairDeltas pair)).foldl Book.setLevel
          ((storeAfter batches k).book pair) := by
  have hmax : batches.take (max k m) = batches.take k ++ (batches.take m).drop k := by
    rcases Nat.le_total k m with hle | hle
    · have hsplit := List.take_append_drop k (batches.take m)
      rw [List.take_take, Nat.min_eq_left hle] at hsplit
      rw [Nat.max_eq_right hle, hsplit]
    · rw [Nat.max_eq_left hle, List.drop_eq_nil_of_le, List.append_nil]
      rw [List.length_take]
      omega
  have hstore : (storeAfter batches (max k m)).book pair
      = (((batches.take m).drop k).flatMap (pairDeltas pair)).foldl Book.setLevel
        ((storeAfter batches k).book pair) := by
    rw [storeAfter, hmax, List.foldl_append, foldl_applyBatch_book, storeAfter]
  have hclient : ∀ depth, ((storeAfter batches k).book pair).bids.entries.length ≤ depth →
      ((storeAfter batches k).book pair).asks.entries.length ≤ depth →
      (((batches.take m).drop j).flatMap (marketMessages pair)).foldl
        (Book.applyMessage ((storeAfter batches k).snapshot pair depth).sequence)
        (Book.ofSnapshot ((storeAfter batches k).snapshot pair depth))
      = (((batches.take m).drop (k - 1 + 1)).flatMap (pairDeltas pair)).foldl Book.setLevel
          ((storeAfter batches k).book pair) := by
    intro depth hbids hasks
    have hsequence := storeAfter_sequence hseq hlen hk
    rw [ofSnapshot_snapshot hbids hasks, foldl_messages]
    rw [show ((storeAfter batches k).snapshot pair depth).sequence
      = (storeAfter batches k).lastSeq from rfl, filter_later hseq hlen hsequence (by omega)]
  constructor
  · intro hrec
    have hdepth := hrec (((storeAfter batches k).book pair).bids.entries.length
      + ((storeAfter batches k).book pair).asks.entries.length) (by omega) (by omega)
    rw [hclient _ (by omega) (by omega), hstore] at hdepth
    exact hdepth
  · intro hbooks depth hbids hasks
    rw [hclient depth hbids hasks, hstore, hbooks]

/-- **When a client reconciles**: always when its snapshot holds a batch; with a
snapshot of the empty store exactly when all the first batch put up has been
set again since. -/
theorem reconciles_iff {b : Build} {limits : Limits} {h : List Record} {e : Engine}
    (hr : Reaches b limits h e)
    (hlen : b.Checks ((h.filterMap Record.batch).length ≤ 2 ^ 64)) {pair : Pair} {j k m : ℕ}
    (hj : j ≤ k) (hk : k ≤ (h.filterMap Record.batch).length) :
    Reconciles (h.filterMap Record.batch) pair j k m ↔
      (k = 0 → 0 < m → FirstSetAgain (h.filterMap Record.batch) pair m) := by
  obtain ⟨_, hdebug, hseq⟩ := hr.numbered
  have hwords : (h.filterMap Record.batch).length ≤ 2 ^ 64 :=
    hlen.elim (fun hb => (hdebug hb).le) id
  have hnodup := hr.levels_nodup
  generalize h.filterMap Record.batch = batches at *
  rw [reconciles_books hseq hwords hj hk]
  rcases Nat.eq_zero_or_pos k with rfl | hpos
  · cases batches with
    | nil => simp [FirstSetAgain]
    | cons first rest =>
        cases m with
        | zero => simp
        | succ m =>
            have hiff := first_dropped_iff pair (rest.take m)
              (hnodup first List.mem_cons_self)
            simp only [FirstSetAgain, List.head?_cons, Option.some.injEq, forall_eq',
              Nat.zero_lt_succ, forall_const]
            rw [← List.foldl_append, ← List.flatMap_cons] at hiff
            exact hiff
  · rw [Nat.sub_add_cancel hpos]
    exact ⟨fun _ hzero => absurd hzero (by omega), fun _ => rfl⟩

/-- A listed market, and a bid at price 0: the first call with anything to
report. -/
def firstBidCalls : List (AccountId × UInt64 × Command) :=
  [(9, 1, .listPair { base := .SOL, quote := .USD }),
    (1, 1, limitOrder { base := .SOL, quote := .USD } .bid 0 5)]

/-- The batches of the market with its first bid. -/
def firstBidBatches : List EventBatch :=
  (finish .default (runCalls .release .default firstBidCalls)).2.filterMap Record.batch

/-- Subscribed and snapshotted before the bid, the client never sees it. -/
theorem firstBid_not_reconciled :
    Reaches .release .default (finish .default (runCalls .release .default firstBidCalls)).2
        (finish .default (runCalls .release .default firstBidCalls)).1 ∧
      ¬ Reconciles firstBidBatches { base := .SOL, quote := .USD } 0 0 1 := by
  refine ⟨reaches_runCalls (by decide +kernel), fun hrec => ?_⟩
  have hbook := congrArg (fun book : Book => book.bids.entries)
    (hrec 20 (Nat.zero_le _) (Nat.zero_le _))
  exact absurd hbook (by decide +kernel)

/-- A client of the trading run that snapshots after its first batch. -/
theorem reconciles_iff_trading :
    Reconciles ((finish .default (runCalls .release .default tradingCalls)).2.filterMap
        Record.batch) { base := .SOL, quote := .USD } 0 1 3 :=
  (reconciles_iff (reaches_runCalls tradingCalls_returned) (.inr (by decide +kernel))
    (Nat.zero_le 1) (by decide +kernel)).mpr fun hzero => nomatch hzero

end MatchingEngine
