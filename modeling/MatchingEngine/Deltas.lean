import MatchingEngine.Conservation

/-!
# Deltas: what a batch says about the levels

Every level a command changes is in the dirty set of its book when the drain
reads the aggregates. So the deltas of a batch name every level that changed,
each with its aggregate after the command (`Reported`), whatever was swept,
emptied, recreated or cancelled on the way.
-/

namespace MatchingEngine

open RustArith HashModel

/-! ## Levels no order touched -/

/-- A level none of whose orders was filled is left as it was. -/
theorem mem_sweep_of_unfilled {crosses : UInt64 → Bool} {p : UInt64} {queue : List Order}
    (hne : queue ≠ []) {levels : List (UInt64 × List Order)} : ∀ {r : ℕ},
    (p, queue) ∈ levels →
    (∀ f ∈ Greedy.walk Order.units r (reach crosses levels), f.1 ∉ queue) →
      (p, queue) ∈ sweep crosses r levels := by
  induction levels with
  | nil => intro r h; cases h
  | cons l levels ih =>
      intro r h hno
      obtain ⟨p', queue'⟩ := l
      rw [sweep]
      split
      · exact h
      · rename_i hgo
        rw [not_or, Bool.not_eq_false] at hgo
        rw [reach_cons, if_pos hgo.2, Greedy.walk_append] at hno
        rcases List.mem_cons.mp h with heq | h
        · -- the taker got to this level, so its front order was filled
          obtain ⟨rfl, rfl⟩ := Prod.mk.inj heq
          obtain ⟨m, ms, rfl⟩ := List.exists_cons_of_ne_nil hne
          refine absurd List.mem_cons_self (hno (m, min r m.units) ?_)
          simp [Greedy.walk, hgo.1]
        · have htail : ∀ f ∈ Greedy.walk Order.units
              (r - Greedy.total Order.units queue') (reach crosses levels), f.1 ∉ queue :=
            fun f hf => hno f (List.mem_append_right _ hf)
          cases Greedy.rest Order.units Order.shrink r queue' with
          | nil => exact ih h htail
          | cons m ms => exact List.mem_cons_of_mem _ h

section Placed

variable {book : OrderBook} {orderId : UInt64} {accountId : AccountId} {req : OrderRequest}

theorem swept_get? (h : SideWF req.side.opposite (book.side req.side.opposite))
    {price : UInt64} (hno : ∀ f ∈ book.fills orderId accountId req, f.1.price ≠ price) :
    (book.swept orderId accountId req).get? price
      = (book.side req.side.opposite).get? price := by
  cases hold : (book.side req.side.opposite).get? price with
  | none =>
      rw [SortedMap.get?_eq_none]
      intro queue hqueue
      obtain ⟨old, hmem⟩ := key_of_sweepSide hqueue
      exact SortedMap.get?_eq_none.mp hold old hmem
  | some queue =>
      have hmem := SortedMap.get?_eq_some.mp hold
      rw [SortedMap.get?_eq_some, OrderBook.swept, ← mem_bestFirst (s := req.side),
        bestFirst_sweepSide]
      refine mem_sweep_of_unfilled (h.nonempty _ hmem) (mem_bestFirst.mpr hmem) ?_
      intro f hf hin
      exact hno f hf (h.rests _ hmem f.1 hin).price

theorem matchedBook_dirtyLevels (hclean : book.dirtyLevels = ∅) (x : Side × UInt64) :
    x ∈ (book.matchedBook orderId accountId req).dirtyLevels ↔
      ∃ f ∈ book.fills orderId accountId req, x = (f.1.side, f.1.price) := by
  have hrec := recordAll_dirtyLevels req.pair (book.fills orderId accountId req)
    (book.start orderId accountId req) x
  have hstart : (book.start orderId accountId req).book.dirtyLevels = ∅ := hclean
  rw [hstart] at hrec
  have hbook : (book.matchedBook orderId accountId req).dirtyLevels
      = (recordAll req.pair (book.start orderId accountId req)
          (book.fills orderId accountId req)).book.dirtyLevels :=
    OrderBook.setSide_dirtyLevels _ _ _
  rw [hbook, hrec]
  simp

/-- **A level that changed is dirty** when an order was placed. -/
theorem placed_frame (h : book.WF) {s : Side} {price : UInt64}
    (hdirty : (s, price) ∉ (book.placed orderId accountId req).dirtyLevels) :
    ((book.placed orderId accountId req).side s).get? price = (book.side s).get? price := by
  have hmatched : (s, price) ∉ (book.matchedBook orderId accountId req).dirtyLevels := by
    by_cases hstay : book.Stays orderId accountId req
    · rw [placed_eq_of_stays _ _ _ _ hstay] at hdirty
      exact fun hin => hdirty (Finset.mem_insert_of_mem hin)
    · rwa [placed_eq_of_not_stays _ _ _ _ hstay] at hdirty
  rcases req.side.eq_or_opposite s with rfl | rfl
  · rw [placed_own, OrderBook.joined]
    split
    · rename_i hstay
      rw [placed_eq_of_stays _ _ _ _ hstay] at hdirty
      have hne : price ≠ req.price := by
        rintro rfl
        exact hdirty (Finset.mem_insert_self _ _)
      rw [SortedMap.get?_insert, if_neg hne]
    · rfl
  · rw [placed_opposite]
    refine swept_get? (h.side _) fun f hf hprice => hmatched ?_
    rw [matchedBook_dirtyLevels h.clean]
    have hside := (mem_fills (h.side _) hf).1.side
    exact ⟨f, hf, by rw [hside, hprice]⟩

end Placed

theorem removed_frame {book : OrderBook} {side s : Side} {price p : UInt64}
    {queue : List Order} {id : UInt64}
    (hdirty : (s, p) ∉ (book.removed side price queue id).dirtyLevels) :
    ((book.removed side price queue id).side s).get? p = (book.side s).get? p := by
  rcases side.eq_or_opposite s with rfl | rfl
  · have hne : p ≠ price := by
      rintro rfl
      exact hdirty (Finset.mem_insert_self _ _)
    rw [OrderBook.removed_side_self]
    unfold putQueue
    split
    · rw [SortedMap.get?_erase, if_neg hne]
    · rw [SortedMap.get?_insert, if_neg hne]
  · rw [OrderBook.removed_side_opposite]

/-! ## The deltas of a batch -/

/-- The level an event sets, by market. -/
def Event.delta? : Event → Option (Pair × LevelDelta)
  | .bookDelta pair side price qty => some (pair, side, price, qty)
  | _ => none

/-- The level a delta sets. -/
def LevelDelta.key (d : LevelDelta) : Side × UInt64 := (d.1, d.2.1)

/-- The deltas report the levels: each carries the aggregate of its level
now, and a level without one is as it was. -/
structure Reported (b : Build) (e e' : Engine) (deltas : List (Pair × LevelDelta)) : Prop where
  value : ∀ pair side price qty, (pair, side, price, qty) ∈ deltas →
    (e'.book pair).levelQty b side price = .ok qty
  frame : ∀ pair side price, (∀ qty, (pair, side, price, qty) ∉ deltas) →
    ((e'.book pair).side side).get? price = ((e.book pair).side side).get? price

theorem Reported.of_books {b : Build} {e e' : Engine} (h : e'.books = e.books) :
    Reported b e e' [] where
  value _ _ _ _ hin := by cases hin
  frame pair _ _ _ := by
    have hbook : e'.book pair = e.book pair := by rw [Engine.book, h]; rfl
    rw [hbook]

/-- One book was written, and all its changed levels were drained. -/
theorem Reported.insert {b : Build} {e e' : Engine} {pair : Pair} {before book : OrderBook}
    {deltas : List LevelDelta} {drain : DrainOrder (Side × UInt64)}
    (hbooks : e'.books = e.books.insert pair book) (hbook : book = before.drained)
    (hframe : ∀ s p, (s, p) ∉ before.dirtyLevels →
      (before.side s).get? p = ((e.book pair).side s).get? p)
    (hdrain : List.Forall₂ (fun key d => d.1 = key.1 ∧ d.2.1 = key.2 ∧
      book.levelQty b key.1 key.2 = .ok d.2.2) (drain.toList before.dirtyLevels) deltas) :
    Reported b e e' (deltas.map fun d => (pair, d)) where
  value pair' side price qty hin := by
    obtain ⟨d, hd, heq⟩ := List.mem_map.mp hin
    cases heq
    obtain ⟨key, _, hside, hprice, hqty⟩ := forall₂_mem_right hdrain hd
    rw [book_insert hbooks, if_pos rfl]
    have hside : side = key.1 := hside
    have hprice : price = key.2 := hprice
    rw [hside, hprice]
    exact hqty
  frame pair' side price hno := by
    rw [book_insert hbooks]
    split
    · rename_i heq
      subst heq
      rw [hbook, OrderBook.drained_side]
      refine hframe side price fun hin => ?_
      -- a dirty level has its delta
      obtain ⟨d, hd, hside, hprice, _⟩ :=
        forall₂_mem_left hdrain ((drain.mem_toList _ _).mpr hin)
      obtain ⟨s, p, q⟩ := d
      cases hside
      cases hprice
      exact hno q (List.mem_map.mpr ⟨_, hd, rfl⟩)
    · rfl

section Command

variable {b : Build} {o : Drains} {e e' : Engine} {accountId : AccountId}

theorem PlaceTrace.reported {req : OrderRequest} (t : PlaceTrace b o e accountId req)
    (hs : e.Shape) :
    Reported b e t.engine (t.matchResult.bookDeltas.map fun d => (req.pair, d)) := by
  obtain ⟨hbook, _, hdrain⟩ := t.book_eq hs
  exact .insert rfl hbook (fun s p hdirty => placed_frame (hs.wf _) hdirty) hdrain

theorem CancelTrace.reported {req : CancelRequest} (t : CancelTrace b o e accountId req) :
    Reported b e t.engine (t.bookDeltas.map fun d => (t.pair, d)) := by
  obtain ⟨side, price, pre, post, _, _, _, hbook, hdrain⟩ := t.book_eq
  exact .insert rfl hbook (fun s p hdirty => removed_frame hdirty) hdrain

theorem deltaEvents (pair : Pair) (deltas : List LevelDelta) :
    (deltas.map (deltaEvent pair)).filterMap Event.delta? = deltas.map fun d => (pair, d) := by
  rw [List.filterMap_map]
  exact congrFun (List.filterMap_eq_map (f := fun d : LevelDelta => (pair, d))) deltas

theorem placeEvents_deltas (accountId : AccountId) (req : OrderRequest) (m : MatchResponse) :
    (placeEvents accountId req m).filterMap Event.delta?
      = m.bookDeltas.map fun d => (req.pair, d) := by
  have htrades : (m.trades.map Event.trade).filterMap Event.delta? = [] := by
    rw [List.filterMap_map]
    exact List.filterMap_eq_nil_iff.mpr fun _ _ => rfl
  have hupdates : (m.updates.map (OrderUpdate.toEvent req.pair)).filterMap Event.delta?
      = [] := by
    rw [List.filterMap_map]
    exact List.filterMap_eq_nil_iff.mpr fun _ _ => rfl
  rw [placeEvents, List.filterMap_cons_none rfl, List.filterMap_append,
    List.filterMap_append, htrades, hupdates, deltaEvents, List.nil_append, List.nil_append]

theorem cancelEvents_deltas (orderId : UInt64) (pair : Pair) (order : Order)
    (filledQty : UInt64) (deltas : List LevelDelta) :
    (cancelEvents orderId pair order filledQty deltas).filterMap Event.delta?
      = deltas.map fun d => (pair, d) := by
  rw [cancelEvents, List.filterMap_cons_none rfl, List.filterMap_cons_none rfl, deltaEvents]

theorem balanceEvents_deltas {l : Ledger} {keys : List (AccountId × Currency)}
    {events : List Event} (h : keys.mapM (balanceEvent l) = .ok events) :
    events.filterMap Event.delta? = [] := by
  refine List.filterMap_eq_nil_iff.mpr fun ev hev => ?_
  obtain ⟨key, _, hkey⟩ := mapM_mem h hev
  unfold balanceEvent at hkey
  split at hkey
  · cases hkey
  · split at hkey
    · cases hkey
    · cases hkey
      rfl

/-- **One command** reports the levels it changed. -/
theorem dispatch_reported {command : Command} {response : CommandResponse}
    {events : List Event} (hs : e.Shape) (hb : e.Backed) (hfit : e.Fits b)
    (h : Engine.dispatch b o e accountId command = .ok (e', response, events)) :
    Reported b e e' (events.filterMap Event.delta?) := by
  rcases dispatch_books h with
    ⟨hsame, _, rfl⟩ | ⟨req, rfl, t, rfl, hanswer⟩ | ⟨req, rfl, t, _, rfl, _, _, rfl⟩
  · exact .of_books hsame.books
  · -- were the surplus release refused, the deltas would be lost here
    rw [t.result_eq hs hb hfit] at hanswer
    obtain ⟨p, _, _, rfl⟩ := hanswer
    rw [placeEvents_deltas]
    exact t.reported hs
  · rw [cancelEvents_deltas]
    exact t.reported

/-- The deltas of what a call returned. -/
def batchDeltas (batch : Option EventBatch) : List (Pair × LevelDelta) :=
  match batch with
  | none => []
  | some batch => batch.events.filterMap Event.delta?

/-- **One `apply`.** -/
theorem apply_reported {clientOrderId : UInt64} {command : Command}
    {response : CommandResponse} {batch : Option EventBatch}
    (hs : e.Shape) (hb : e.Backed) (hfit : e.Fits b)
    (h : apply b o e accountId clientOrderId command = .ok (e', response, batch)) :
    Reported b e e' (batchDeltas batch) := by
  rcases apply_ok h with ⟨rfl, _, rfl⟩ | ⟨dedup, e₁, events, bevs, _, hdispatch, hbev, hend⟩
  · exact .of_books rfl
  · have hreported := dispatch_reported (e := { e with dedup := dedup })
      (hs.of_books rfl) hb hfit hdispatch
    have hdeltas : (events ++ bevs).filterMap Event.delta?
        = events.filterMap Event.delta? := by
      rw [List.filterMap_append, balanceEvents_deltas hbev, List.append_nil]
    rw [← hdeltas] at hreported
    rcases hend with ⟨hnil, rfl, rfl⟩ | ⟨n, _, _, rfl, rfl⟩
    · rw [hnil] at hreported
      exact ⟨hreported.value, hreported.frame⟩
    · exact ⟨hreported.value, hreported.frame⟩

end Command

end MatchingEngine
