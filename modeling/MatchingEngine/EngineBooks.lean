import MatchingEngine.Transition

/-!
# EngineBooks: the books of every reachable engine

`Engine.Shape`, every book well formed and only valid pairs have one, holds
along every run of either build, whatever happens to the ledger and the ids.
With it a trace can be read: the book an order or a cancel leaves is the
`placed` or the `removed` one.
-/

namespace MatchingEngine

open RustArith HashModel Bank

/-- Every book is well formed, and there is none for a pair of one currency with itself.
-/
structure Engine.Shape (e : Engine) : Prop where
  wf : ∀ pair, (e.book pair).WF
  valid : ∀ pair book, e.books.lookup pair = some book → pair.base ≠ pair.quote

theorem Engine.new_shape (limits : Limits) : (Engine.new limits).Shape where
  wf _ := OrderBook.new_wf
  valid _ _ h := by cases h

/-- The book of a pair after one book was written. -/
theorem book_insert {e e' : Engine} {pair : Pair} {book : OrderBook}
    (h : e'.books = e.books.insert pair book) (pair' : Pair) :
    e'.book pair' = if pair' = pair then book else e.book pair' := by
  rw [Engine.book, h, lookup_insert_ite]
  split <;> rfl

theorem book_of_lookup {e : Engine} {pair : Pair} {book : OrderBook}
    (h : e.books.lookup pair = some book) : e.book pair = book := by
  rw [Engine.book, h]; rfl

theorem Engine.Shape.insert {e e' : Engine} (h : e.Shape) {pair : Pair} {book : OrderBook}
    (hpair : pair.base ≠ pair.quote) (hbook : book.WF)
    (he : e'.books = e.books.insert pair book) : e'.Shape where
  wf pair' := by
    rw [book_insert he]
    split
    · exact hbook
    · exact h.wf pair'
  valid pair' book' hl := by
    rw [he, lookup_insert_ite] at hl
    split at hl
    · rename_i heq
      exact heq ▸ hpair
    · exact h.valid pair' book' hl

theorem Engine.Shape.of_books {e e' : Engine} (h : e.Shape) (he : e'.books = e.books) :
    e'.Shape where
  wf pair := by
    have hbook : e'.book pair = e.book pair := by rw [Engine.book, he]; rfl
    rw [hbook]
    exact h.wf pair
  valid pair book hl := h.valid pair book (he ▸ hl)

/-! ## Reading a match trace -/

namespace MatchTrace

variable {b : Build} {o : Drains} {e : Engine} {accountId : AccountId} {req : OrderRequest}

/-- An admitted order names a listed market of two currencies. -/
theorem pair_valid (t : MatchTrace b o e accountId req) : req.pair.base ≠ req.pair.quote := by
  have h := t.checked
  unfold Engine.checkOrder at h
  split at h
  · cases h
  · rename_i hv
    rw [not_or] at hv
    have hvalid : req.pair.isValid = true := by simpa using hv.1
    exact Pair.isValid_iff.mp hvalid

/-- Unless it is a market buy, its value is a word: the guard against
overflow. -/
theorem value_lt (t : MatchTrace b o e accountId req)
    (h : ¬ (req.orderType = .market ∧ req.side = .bid)) :
    t.quoteAmount.toNat = req.price.toNat * req.size.toNat := by
  have hq := t.quoted
  unfold Engine.quoteAmount at hq
  rw [if_neg h] at hq
  split at hq
  · rename_i amount hmul
    cases hq
    exact checkedMul_some hmul
  · cases hq

theorem limit_value_lt (t : MatchTrace b o e accountId req) (h : req.orderType = .limit) :
    req.price.toNat * req.size.toNat < 2 ^ 64 := by
  rw [← t.value_lt (by simp [h])]
  exact toNat_lt _

variable (hs : e.Shape)

include hs

theorem sized : ∀ l ∈ ((e.book req.pair).side req.side.opposite).entries,
    ∀ m ∈ l.2, m.Sized :=
  fun l hl m hm => (((hs.wf req.pair).side _).rests l hl m hm).sized

/-- **The book of a trace** is the placed book, its dirty levels drained into
the deltas of the answer. -/
theorem book_eq (t : MatchTrace b o e accountId req) :
    t.book = ((e.book req.pair).placed e.nextOrderId accountId req).drained ∧
      t.matchResult = (e.book req.pair).response e.nextOrderId accountId req
        t.matchResult.bookDeltas ∧
      List.Forall₂ (fun key d => d.1 = key.1 ∧ d.2.1 = key.2 ∧
        t.book.levelQty b key.1 key.2 = .ok d.2.2)
        (o.levels.toList ((e.book req.pair).placed e.nextOrderId accountId req).dirtyLevels)
        t.matchResult.bookDeltas := by
  have h := t.matched
  rw [addOrder_eq b o.levels (sized hs)] at h
  obtain ⟨⟨book, deltas⟩, hdrain, heq⟩ := bind_ok.mp h
  have hbook : book = t.book := congrArg Prod.fst (Except.ok.inj heq)
  have hres : (e.book req.pair).response e.nextOrderId accountId req deltas
      = t.matchResult := congrArg Prod.snd (Except.ok.inj heq)
  have hdeltas : deltas = t.matchResult.bookDeltas := by rw [← hres]; rfl
  subst hbook
  obtain ⟨hempty, hall⟩ := takeDirtyLevels_ok hdrain
  rw [← hdeltas]
  exact ⟨hempty, hres.symm, hall⟩

theorem trades_eq (t : MatchTrace b o e accountId req) :
    t.matchResult.trades = ((e.book req.pair).fills e.nextOrderId accountId req).map
      (fillTrade req.pair (req.toOrder e.nextOrderId accountId)) :=
  congrArg MatchResponse.trades (t.book_eq hs).2.1

theorem takerRemaining_eq (t : MatchTrace b o e accountId req) :
    t.matchResult.takerRemaining
      = ((e.book req.pair).taker e.nextOrderId accountId req).remainingSize :=
  congrArg MatchResponse.takerRemaining (t.book_eq hs).2.1

theorem book_wf (t : MatchTrace b o e accountId req) : t.book.WF := by
  rw [(t.book_eq hs).1]
  exact placed_wf (hs.wf _) t.limit_value_lt

end MatchTrace

theorem PlaceTrace.engine_shape {b : Build} {o : Drains} {e : Engine}
    {accountId : AccountId} {req : OrderRequest} (t : PlaceTrace b o e accountId req)
    (hs : e.Shape) : t.engine.Shape :=
  hs.insert t.pair_valid (t.book_wf hs) rfl

/-! ## Reading a cancel trace -/

/-- **A cancel trace**: where the order stood, and that the book lost it. -/
theorem CancelTrace.book_eq {b : Build} {o : Drains} {e : Engine} {accountId : AccountId}
    {req : CancelRequest} (t : CancelTrace b o e accountId req) :
    ∃ side price pre post,
      (e.book t.pair).orderIndex.lookup req.orderId
        = some { owner := accountId, side := side, price := price } ∧
      ((e.book t.pair).side side).get? price = some (pre ++ t.order :: post) ∧
      t.order.id = req.orderId ∧
      t.book = ((e.book t.pair).removed side price (pre ++ post) req.orderId).drained ∧
      List.Forall₂ (fun key d => d.1 = key.1 ∧ d.2.1 = key.2 ∧
        t.book.levelQty b key.1 key.2 = .ok d.2.2)
        (o.levels.toList ((e.book t.pair).removed side price (pre ++ post)
          req.orderId).dirtyLevels) t.bookDeltas := by
  rw [book_of_lookup t.found]
  obtain ⟨side, price, pre, post, hindex, hqueue, hid, hdrain⟩ := cancelOrder_ok t.removed
  obtain ⟨hempty, hall⟩ := takeDirtyLevels_ok hdrain
  exact ⟨side, price, pre, post, hindex, hqueue, hid, hempty, hall⟩

theorem CancelTrace.engine_shape {b : Build} {o : Drains} {e : Engine}
    {accountId : AccountId} {req : CancelRequest} (t : CancelTrace b o e accountId req)
    (hs : e.Shape) : t.engine.Shape := by
  obtain ⟨side, price, pre, post, _, hqueue, _, hbook, _⟩ := t.book_eq
  refine hs.insert (hs.valid _ _ t.found) ?_ rfl
  rw [hbook]
  exact removed_wf (hs.wf _) hqueue

/-! ## Every run -/

theorem dispatch_shape {b : Build} {o : Drains} {e e' : Engine} {accountId : AccountId}
    {command : Command} {response : CommandResponse} {events : List Event}
    (hs : e.Shape)
    (h : Engine.dispatch b o e accountId command = .ok (e', response, events)) :
    e'.Shape := by
  rcases dispatch_books h with ⟨hsame, _, _⟩ | ⟨req, _, t, rfl, _⟩ | ⟨req, _, t, _, rfl, _⟩
  · exact hs.of_books hsame.books
  · exact t.engine_shape hs
  · exact t.engine_shape hs

theorem apply_shape {b : Build} {o : Drains} {e e' : Engine} {accountId : AccountId}
    {clientOrderId : UInt64} {command : Command} {response : CommandResponse}
    {batch : Option EventBatch} (hs : e.Shape)
    (h : apply b o e accountId clientOrderId command = .ok (e', response, batch)) :
    e'.Shape := by
  rcases apply_ok h with ⟨rfl, _⟩ | ⟨dedup, e₁, events, bevs, _, hdispatch, _, hend⟩
  · exact hs
  · have hs₀ : { e with dedup := dedup : Engine }.Shape := hs.of_books rfl
    have hs₁ := dispatch_shape hs₀ hdispatch
    rcases hend with ⟨_, _, rfl⟩ | ⟨_, _, _, _, rfl⟩
    · exact hs₁.of_books rfl
    · exact hs₁.of_books rfl

/-- Every reachable engine has well-formed books. -/
theorem Reaches.shape {b : Build} {limits : Limits} {h : List Record} {e : Engine}
    (hr : Reaches b limits h e) : e.Shape :=
  hr.invariant (motive := fun _ e => e.Shape) (Engine.new_shape limits)
    fun _ _ _ _ _ _ _ _ _ hs happly => apply_shape hs happly

/-! ## The limits and the sequence number -/

/-- What no command touches before its events are collected. -/
theorem dispatch_frame {b : Build} {o : Drains} {e e' : Engine} {accountId : AccountId}
    {command : Command} {response : CommandResponse} {events : List Event}
    (h : Engine.dispatch b o e accountId command = .ok (e', response, events)) :
    e'.limits = e.limits ∧ e'.nextSeq = e.nextSeq ∧ e'.dedup = e.dedup := by
  rcases dispatch_books h with ⟨hsame, _, _⟩ | ⟨req, _, t, rfl, _⟩ | ⟨req, _, t, _, rfl, _⟩
  · exact ⟨hsame.limits, hsame.nextSeq, hsame.dedup⟩
  · exact ⟨rfl, rfl, rfl⟩
  · exact ⟨rfl, rfl, rfl⟩

section Apply

variable {b : Build} {o : Drains} {e e' : Engine} {accountId : AccountId}
  {clientOrderId : UInt64} {command : Command} {response : CommandResponse}
  {batch : Option EventBatch}

theorem apply_limits
    (h : apply b o e accountId clientOrderId command = .ok (e', response, batch)) :
    e'.limits = e.limits := by
  rcases apply_ok h with ⟨rfl, _⟩ | ⟨dedup, e₁, _, _, _, hdispatch, _, hend⟩
  · rfl
  · have hlimits := (dispatch_frame hdispatch).1
    rcases hend with ⟨_, _, rfl⟩ | ⟨_, _, _, _, rfl⟩
    · exact hlimits
    · exact hlimits

/-- **Batches are numbered** by the sequence number, which moves with each of
them and with nothing else. -/
theorem apply_numbered
    (h : apply b o e accountId clientOrderId command = .ok (e', response, batch)) :
    (batch = none ∧ e'.nextSeq = e.nextSeq) ∨
      ∃ events, batch = some { seq := e.nextSeq, events := events } ∧
        b.add e.nextSeq 1 = .ok e'.nextSeq := by
  rcases apply_ok h with ⟨rfl, _, rfl⟩ | ⟨dedup, e₁, events, bevs, _, hdispatch, _, hend⟩
  · exact .inl ⟨rfl, rfl⟩
  · have hseq : e₁.nextSeq = e.nextSeq := (dispatch_frame hdispatch).2.1
    rcases hend with ⟨_, rfl, rfl⟩ | ⟨n, _, hn, rfl, rfl⟩
    · exact .inl ⟨rfl, hseq⟩
    · exact .inr ⟨events ++ bevs, by rw [hseq], by rw [← hseq]; exact hn⟩

end Apply

/-- **The batches of a run are numbered from 0**, as words. -/
theorem Reaches.numbered {b : Build} {limits : Limits} {h : List Record} {e : Engine}
    (hr : Reaches b limits h e) :
    e.nextSeq = UInt64.ofNat (h.filterMap Record.batch).length ∧
      (b = .debug → (h.filterMap Record.batch).length < 2 ^ 64) ∧
      ∀ (i : ℕ) (batch : EventBatch), (h.filterMap Record.batch)[i]? = some batch →
        batch.seq = UInt64.ofNat i := by
  refine hr.invariant (motive := fun h e =>
    e.nextSeq = UInt64.ofNat (h.filterMap Record.batch).length ∧
      (b = .debug → (h.filterMap Record.batch).length < 2 ^ 64) ∧
      ∀ (i : ℕ) (batch : EventBatch), (h.filterMap Record.batch)[i]? = some batch →
        batch.seq = UInt64.ofNat i) ⟨rfl, fun _ => by simp, fun i batch h => by cases h⟩ ?_
  intro h e o a cid cmd e' response batch ⟨hnext, hlen, hseqs⟩ happly
  rw [List.filterMap_append]
  rcases apply_numbered happly with ⟨rfl, hseq⟩ | ⟨events, rfl, hseq⟩
  · have hnone : [(⟨a, cid, cmd, response, none⟩ : Record)].filterMap Record.batch = [] := rfl
    rw [hnone, List.append_nil, hseq]
    exact ⟨hnext, hlen, hseqs⟩
  · have hsome : [(⟨a, cid, cmd, response, some ⟨e.nextSeq, events⟩⟩ : Record)].filterMap
        Record.batch = [⟨e.nextSeq, events⟩] := rfl
    rw [hsome, List.length_append, List.length_singleton]
    refine ⟨?_, fun hdebug => ?_, fun i batch hi => ?_⟩
    · rw [Build.add_ok hseq, hnext, UInt64.ofNat_add]
      rfl
    · -- the addition was checked
      have hsum := Build.add_toNat hseq (.inl hdebug)
      have hnat : e.nextSeq.toNat = (h.filterMap Record.batch).length := by
        rw [hnext, UInt64.toNat_ofNat_of_lt' (hlen hdebug)]
      have hlt := toNat_lt e'.nextSeq
      rw [hsum, hnat] at hlt
      exact hlt
    · rcases Nat.lt_or_ge i (h.filterMap Record.batch).length with hlt | hge
      · rw [List.getElem?_append_left hlt] at hi
        exact hseqs i batch hi
      · rw [List.getElem?_append_right hge] at hi
        have hzero : i - (h.filterMap Record.batch).length = 0 := by
          have hlast := (List.getElem?_eq_some_iff.mp hi).1
          rw [List.length_singleton] at hlast
          omega
        rw [hzero] at hi
        cases hi
        rw [show i = (h.filterMap Record.batch).length by omega]
        exact hnext

/-- No command changes the limits. -/
theorem Reaches.limits_eq {b : Build} {limits : Limits} {h : List Record} {e : Engine}
    (hr : Reaches b limits h e) : e.limits = limits :=
  hr.invariant (motive := fun _ e => e.limits = limits) rfl
    fun _ _ _ _ _ _ _ _ _ ih happly => (apply_limits happly).trans ih

end MatchingEngine
