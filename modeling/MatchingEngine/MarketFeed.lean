import MatchingEngine.Sockets

/-!
# MarketFeed: the book a client shows

`GET /book/:pair` and `GET /ws/market/:pair`, from the engine to the client. After any
number of batches the answer is the best levels of the engine's book as of these
(`book_shown`); the first 1000 on each side at most. A client that has all of them
and applies what its socket is sent shows the engine's book (`market_feed_reconciles`).
-/

namespace MatchingEngine

open RustArith HashModel SystemModel

/-- How many levels of a side are answered when the client does not say. -/
def defaultDepth : ℕ := 20

/-- "guard against a client asking for an absurd depth" -/
def maxDepth : ℕ := 1000

/-- `get_book`. -/
def getBook (state : BookState) (rawPair : Text) (depth : Option ℕ) :
    Except ApiError BookSnapshot :=
  match Pair.tryFrom rawPair with
  | some pair => .ok (state.snapshot pair (min (depth.getD defaultDepth) maxDepth))
  | none => .error (.badRequest "invalid pair, expected BASE-QUOTE")

/-- What a client does with a message of the public feed. -/
def applyMarketMessage (sequence : UInt64) (book : Book) : FeedMessage → Book
  | .market message => book.applyMessage sequence message
  | .order _ => book

theorem getBook_ok {state : BookState} {rawPair : Text} {depth : Option ℕ} {snap : BookSnapshot}
    (h : getBook state rawPair depth = .ok snap) : ∃ pair, Pair.tryFrom rawPair = some pair ∧
      snap = state.snapshot pair (min (depth.getD defaultDepth) maxDepth) := by
  unfold getBook at h
  split at h
  · rename_i pair hpair
    cases h
    exact ⟨pair, hpair, rfl⟩
  · cases h

theorem foldl_applyMarketMessage (pair : Pair) (sequence : UInt64) (batches : List EventBatch)
    (since next : ℕ) (book : Book) :
    ((Subject.market pair).stream batches since next).foldl (applyMarketMessage sequence) book
      = (((batches.take next).drop since).flatMap (marketMessages pair)).foldl
          (Book.applyMessage sequence) book := by
  have hmap : (Subject.market pair).stream batches since next
      = (((batches.take next).drop since).flatMap (marketMessages pair)).map .market := by
    rw [List.map_flatMap]
    rfl
  rw [hmap, List.foldl_map]
  rfl

/-! ## The engine after some batches -/

theorem filterMap_take {α β : Type} (f : α → Option β) (xs : List α) : ∀ k,
    k ≤ (xs.filterMap f).length → ∃ n, (xs.take n).filterMap f = (xs.filterMap f).take k := by
  induction xs with
  | nil => exact fun k _ => ⟨0, by simp⟩
  | cons x xs ih =>
      intro k hk
      cases hx : f x with
      | none =>
          rw [List.filterMap_cons_none hx] at hk ⊢
          obtain ⟨n, hn⟩ := ih k hk
          exact ⟨n + 1, by rw [List.take_succ_cons, List.filterMap_cons_none hx, hn]⟩
      | some y =>
          rw [List.filterMap_cons_some hx] at hk ⊢
          cases k with
          | zero => exact ⟨0, by simp⟩
          | succ k =>
              obtain ⟨n, hn⟩ := ih k (Nat.le_of_succ_le_succ hk)
              exact ⟨n + 1, by rw [List.take_succ_cons, List.filterMap_cons_some hx, hn,
                List.take_succ_cons]⟩

/-- The run up to the call that made the `k`-th batch. -/
theorem ReachesAlong.upTo {b : Build} {limits : Limits} {C : Engine → Submission → Prop}
    {h : List Record} {e : Engine} (hr : ReachesAlong b limits C h e) {k : ℕ}
    (hk : k ≤ (h.filterMap Record.batch).length) : ∃ h' e', h' <+: h ∧
      ReachesAlong b limits C h' e' ∧
      h'.filterMap Record.batch = (h.filterMap Record.batch).take k := by
  obtain ⟨subs, hrun, halong⟩ := hr
  obtain ⟨n, hn⟩ := filterMap_take Record.batch h k hk
  obtain ⟨e', hrun'⟩ := run_take hrun n
  exact ⟨h.take n, e', List.take_prefix n h,
    ⟨subs.take n, hrun', halong.of_prefix (List.take_prefix n subs)⟩, hn⟩

theorem Reaches.upTo {b : Build} {limits : Limits} {h : List Record} {e : Engine}
    (hr : Reaches b limits h e) {k : ℕ} (hk : k ≤ (h.filterMap Record.batch).length) :
    ∃ h' e', h' <+: h ∧ Reaches b limits h' e' ∧
      h'.filterMap Record.batch = (h.filterMap Record.batch).take k := by
  have halong : ReachesAlong b limits (fun _ _ => True) h e :=
    hr.imp fun _ hrun => ⟨hrun, fun _ _ _ _ _ _ => trivial⟩
  obtain ⟨h', e', hprefix, hr', hbatches⟩ := halong.upTo hk
  exact ⟨h', e', hprefix, hr'.reaches, hbatches⟩

/-- A book of price levels that is the engine's. -/
def Book.Shows (book : Book) (engineBook : OrderBook) : Prop :=
  ∀ s, (book.side s).entries.map (fun l => (l.1, l.2.toNat))
    = (engineBook.side s).entries.map fun l => (l.1, levelTotal l.2)

section Snapshots

variable {state : BookState} {pair : Pair} {engineBook : OrderBook}

/-- The bids of a snapshot are the best of the engine's, the highest first. -/
theorem snapshot_bids (h : (state.book pair).Shows engineBook) (depth : ℕ) :
    (state.snapshot pair depth).bids.map (fun l => (l.price, l.qty.toNat))
      = (engineBook.bids.entries.reverse.take depth).map fun l => (l.1, levelTotal l.2) := by
  have hbids := h .bid
  simp only [Book.side, OrderBook.side] at hbids
  rw [BookState.snapshot, List.map_map, List.map_take, List.map_reverse, List.map_take,
    List.map_reverse, ← hbids]
  rfl

theorem snapshot_asks (h : (state.book pair).Shows engineBook) (depth : ℕ) :
    (state.snapshot pair depth).asks.map (fun l => (l.price, l.qty.toNat))
      = (engineBook.asks.entries.take depth).map fun l => (l.1, levelTotal l.2) := by
  have hasks := h .ask
  simp only [Book.side, OrderBook.side] at hasks
  rw [BookState.snapshot, List.map_map, List.map_take, List.map_take, ← hasks]
  rfl

/-- A level that is shown is a level of the engine. -/
theorem shown_level {shown : List BookLevel} {levels levels' : List (UInt64 × List Order)}
    (h : shown.map (fun l => (l.price, l.qty.toNat)) = levels.map fun l => (l.1, levelTotal l.2))
    (hsub : levels ⊆ levels') {l : BookLevel} (hl : l ∈ shown) :
    ∃ level ∈ levels', level.1 = l.price ∧ levelTotal level.2 = l.qty.toNat := by
  have hmem : (l.price, l.qty.toNat) ∈ levels.map fun l => (l.1, levelTotal l.2) :=
    h ▸ List.mem_map_of_mem hl
  obtain ⟨level, hlevel, heq⟩ := List.mem_map.mp hmem
  exact ⟨level, hsub hlevel, congrArg Prod.fst heq, congrArg Prod.snd heq⟩

theorem snapshot_sorted (state : BookState) (pair : Pair) (depth : ℕ) :
    (state.snapshot pair depth).bids.Pairwise (fun l l' => l'.price < l.price) ∧
      (state.snapshot pair depth).asks.Pairwise fun l l' => l.price < l'.price := by
  constructor
  · have hsorted := (state.book pair).bids.sorted
    exact List.pairwise_map.mpr
      ((List.pairwise_reverse.mpr hsorted).sublist (List.take_sublist depth _))
  · exact List.pairwise_map.mpr
      ((state.book pair).asks.sorted.sublist (List.take_sublist depth _))

end Snapshots

section Run

variable {b : Build} {limits : Limits} {h : List Record} {e : Engine}
  (hr : ReachesAlong b limits (LevelsBelow b) h e) (hnet : b.Checks (NetBelow h))

include hr hnet

/-- **The store after any number of batches** shows the books of the engine that made
them. -/
theorem storeAfter_shows {k : ℕ} (hk : k ≤ (h.filterMap Record.batch).length) :
    ∃ h' e', h' <+: h ∧ Reaches b limits h' e' ∧
      h'.filterMap Record.batch = (h.filterMap Record.batch).take k ∧
      ∀ pair, ((storeAfter (h.filterMap Record.batch) k).book pair).Shows (e'.book pair) := by
  obtain ⟨h', e', hprefix, hr', hbatches⟩ := hr.upTo hk
  refine ⟨h', e', hprefix, hr'.reaches, hbatches, fun pair s => ?_⟩
  have hmirrors := hr'.mirrors (hnet.imp fun hnet => hnet.of_prefix hprefix)
  have hentries := hmirrors.entries hr'.levelsFit pair s
  rw [project, hbatches] at hentries
  exact hentries

/-- **What `GET /book` answers**, at any time: the best levels of the engine's book as
of the batch it names, best first and at most 1000 on a side. No level is empty, and
no bid is as high as an ask. -/
theorem book_shown (hlen : b.Checks ((h.filterMap Record.batch).length ≤ 2 ^ 64)) {k : ℕ}
    (hk : k ≤ (h.filterMap Record.batch).length) {rawPair : Text} {depth : Option ℕ}
    {snap : BookSnapshot}
    (hbook : getBook (storeAfter (h.filterMap Record.batch) k) rawPair depth = .ok snap) :
    ∃ pair h' e', Pair.tryFrom rawPair = some pair ∧ h' <+: h ∧ Reaches b limits h' e' ∧
      h'.filterMap Record.batch = (h.filterMap Record.batch).take k ∧
      snap.sequence.toNat = k - 1 ∧
      snap.bids.map (fun l => (l.price, l.qty.toNat))
        = ((e'.book pair).bids.entries.reverse.take (min (depth.getD 20) 1000)).map
            (fun l => (l.1, levelTotal l.2)) ∧
      snap.asks.map (fun l => (l.price, l.qty.toNat))
        = ((e'.book pair).asks.entries.take (min (depth.getD 20) 1000)).map
            (fun l => (l.1, levelTotal l.2)) ∧
      snap.bids.Pairwise (fun l l' => l'.price < l.price) ∧
      snap.asks.Pairwise (fun l l' => l.price < l'.price) ∧
      (∀ l ∈ snap.bids ++ snap.asks, 0 < l.qty) ∧
      ∀ bid ∈ snap.bids, ∀ ask ∈ snap.asks, bid.price < ask.price := by
  obtain ⟨pair, hpair, rfl⟩ := getBook_ok hbook
  obtain ⟨h', e', hprefix, hr', hbatches, hshows⟩ := storeAfter_shows hr hnet hk
  obtain ⟨_, hdebug, hseq⟩ := hr.reaches.numbered
  have hwords := hlen.elim (fun hb => (hdebug hb).le) id
  have hwf := hr'.shape.wf pair
  have hbids := snapshot_bids (hshows pair) (min (depth.getD 20) 1000)
  have hasks := snapshot_asks (hshows pair) (min (depth.getD 20) 1000)
  obtain ⟨hdown, hup⟩ := snapshot_sorted (storeAfter (h.filterMap Record.batch) k) pair
    (min (depth.getD 20) 1000)
  have hbid := fun l => shown_level hbids
    (fun x hx => List.mem_reverse.mp (List.mem_of_mem_take hx)) (l := l)
  have hask := fun l => shown_level hasks (List.take_subset _ _) (l := l)
  refine ⟨pair, h', e', hpair, hprefix, hr', hbatches, storeAfter_sequence hseq hwords hk, hbids,
    hasks, hdown, hup, fun l hl => ?_, fun bid hb ask ha => ?_⟩
  · -- a level of the engine is never empty
    rw [UInt64.lt_iff_toNat_lt]
    rcases List.mem_append.mp hl with hl | hl
    · obtain ⟨level, hlevel, _, htotal⟩ := hbid l hl
      exact htotal ▸ levelTotal_pos (hwf.side .bid) hlevel
    · obtain ⟨level, hlevel, _, htotal⟩ := hask l hl
      exact htotal ▸ levelTotal_pos (hwf.side .ask) hlevel
  · obtain ⟨bidLevel, hbidLevel, hbidPrice, _⟩ := hbid bid hb
    obtain ⟨askLevel, haskLevel, haskPrice, _⟩ := hask ask ha
    rw [← hbidPrice, ← haskPrice]
    exact hwf.uncrossed bidLevel hbidLevel askLevel haskLevel

/-- **The public feed**, in every interleaving of `tail`, the sockets and their
clients. A client that asked for the book after it had subscribed, when some batch was
in it, and got all its levels, shows the engine's book as of the last batch it knows
of. -/
theorem market_feed_reconciles (hlen : b.Checks ((h.filterMap Record.batch).length ≤ 2 ^ 64))
    {site : SocketSite} {start : ℕ} {hub : Hub} (hstart : start ≤ (h.filterMap Record.batch).length)
    (hruns : Runs (Hub.step site (h.filterMap Record.batch)) (fun _ _ => True) (.booted start)
      hub)
    {i : ℕ} {s : Subscription} (hsocket : hub.sockets.lookup i = some (.subscribed s))
    {pair : Pair} (hsubject : s.subject = .market pair) {k : ℕ} (hsince : s.since ≤ k)
    (hpos : 0 < k) (hk : k ≤ (h.filterMap Record.batch).length) {rawPair : Text}
    (hpair : Pair.tryFrom rawPair = some pair) {depth : Option ℕ} {snap : BookSnapshot}
    (hbook : getBook (storeAfter (h.filterMap Record.batch) k) rawPair depth = .ok snap)
    (hdepth : ∀ s, (((storeAfter (h.filterMap Record.batch) k).book pair).side s).entries.length
      ≤ min (depth.getD 20) 1000) :
    ∃ h' e', h' <+: h ∧ Reaches b limits h' e' ∧
      h'.filterMap Record.batch = (h.filterMap Record.batch).take (max k s.next) ∧
      (s.sent.foldl (applyMarketMessage snap.sequence) (.ofSnapshot snap)).Shows
        (e'.book pair) := by
  have hsound := hub_sound hstart hruns
  have hexact := hsound.subscribed i s hsocket
  obtain ⟨_, hdebug, hseq⟩ := hr.reaches.numbered
  have hwords := hlen.elim (fun hb => (hdebug hb).le) id
  obtain ⟨pair', hpair', rfl⟩ := getBook_ok hbook
  obtain rfl : pair = pair' := Option.some.inj (hpair.symm.trans hpair')
  have hreconciles : Reconciles (h.filterMap Record.batch) pair s.since k s.next := by
    refine (reconciles_books hseq hwords hsince hk).mpr ?_
    rw [Nat.sub_add_cancel hpos]
  obtain ⟨h', e', hprefix, hr', hbatches, hshows⟩ := storeAfter_shows hr hnet
    (max_le hk (hexact.next.trans hsound.read))
  refine ⟨h', e', hprefix, hr', hbatches, ?_⟩
  rw [hexact.sent, hsubject, foldl_applyMarketMessage]
  exact hreconciles _ (hdepth .bid) (hdepth .ask) ▸ hshows pair

end Run

/-! ## The trading run -/

theorem book_shown_trading : ∃ snap : BookSnapshot,
    getBook (storeAfter tradingBatches 5) "SOL-USD".toList none = .ok snap ∧
    snap.sequence.toNat = 4 ∧ snap.bids.length = 1 ∧ ∀ l ∈ snap.bids ++ snap.asks, 0 < l.qty := by
  have hbook : getBook (storeAfter tradingBatches 5) "SOL-USD".toList none
      = .ok ((storeAfter tradingBatches 5).snapshot { base := .SOL, quote := .USD } 20) := rfl
  obtain ⟨_, _, _, _, _, _, _, hsequence, _, _, _, _, hpos, _⟩ := book_shown
    (reachesAlong_runCalls (levelsBelow_sound _) tradingCalls_returned (by decide +kernel))
    (.inr tradingCalls_net) (.inr (by decide +kernel)) (k := 5) (by decide +kernel) hbook
  exact ⟨_, hbook, hsequence, by decide +kernel, hpos⟩

/-- A client that subscribes first and asks for the book when the ask is in it. -/
def shownRun : List HubAction :=
  [.tail, .publicMarket 1 "SOL-USD".toList, .tail, .tail, .tail, .deliver 1, .tail, .deliver 1,
    .deliver 1, .deliver 1]

theorem market_feed_reconciles_shown : ∃ (sent : List FeedMessage) (snap : BookSnapshot)
    (e : Engine),
    getBook (storeAfter tradingBatches 3) "SOL-USD".toList none = .ok snap ∧ sent.length = 6 ∧
    (sent.foldl (applyMarketMessage snap.sequence) (.ofSnapshot snap)).Shows
      (e.book { base := .SOL, quote := .USD }) := by
  have hcheck : (exec (Hub.step plainSocketSite tradingBatches) (fun _ _ => true) (.booted 0)
      shownRun).any (fun hub => (hub.receiver? 1).any fun s =>
        s.subject = .market { base := .SOL, quote := .USD } ∧ s.since = 1 ∧
        s.sent.length = 6) = true := by decide +kernel
  obtain ⟨hub, hruns, hhub⟩ := exists_run (C := fun _ _ => True) (fun _ _ _ => trivial) hcheck
  obtain ⟨s, hreceiver, hs⟩ := (Option.any_eq_true _ _).mp hhub
  obtain ⟨hsubject, hsince, hsent⟩ := of_decide_eq_true hs
  have hbook : getBook (storeAfter tradingBatches 3) "SOL-USD".toList none
      = .ok ((storeAfter tradingBatches 3).snapshot { base := .SOL, quote := .USD } 20) := rfl
  obtain ⟨_, e, _, _, _, hshows⟩ := market_feed_reconciles
    (reachesAlong_runCalls (levelsBelow_sound _) tradingCalls_returned (by decide +kernel))
    (.inr tradingCalls_net) (.inr (by decide +kernel)) (Nat.zero_le _) hruns
    (Hub.receiver?_eq_some hreceiver) hsubject (k := 3) (by omega) (by omega) (by decide +kernel)
    rfl hbook (fun s => by cases s <;> decide +kernel)
  exact ⟨s.sent, _, e, hbook, hsent, hshows⟩

end MatchingEngine
