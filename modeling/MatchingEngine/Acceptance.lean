import MatchingEngine.OrderLife

/-!
# Acceptance: an order is accepted before anything happens to it

The events about an order are its acceptance and what becomes of it. A command
accepts at most the next id, and otherwise speaks of orders that rest
(`apply_tells`). So the acceptance comes first as long as ids are not given
twice, and also when they are, as long as whatever rests was accepted
(`Reaches.acceptedFirst`).
-/

namespace MatchingEngine

open RustArith HashModel Bank

/-- Some events begin with an acceptance. -/
def Begun (trail : List Event) : Prop :=
  ∃ event rest, trail = event :: rest ∧ event.accepted?.isSome

/-- No acceptance comes after something else. -/
inductive AcceptedFirst (trail : List Event) : Prop where
  | never (h : ∀ event ∈ trail, event.accepted? = none)
  | begun (h : Begun trail)

theorem Begun.append {trail : List Event} (h : Begun trail) (more : List Event) :
    Begun (trail ++ more) := by
  obtain ⟨event, rest, rfl, hacc⟩ := h
  exact ⟨event, rest ++ more, rfl, hacc⟩

theorem AcceptedFirst.of_append {trail more : List Event} (h : AcceptedFirst (trail ++ more)) :
    AcceptedFirst trail := by
  cases h with
  | never hnone => exact .never fun event hevent => hnone event (List.mem_append_left _ hevent)
  | begun hbegun =>
      obtain ⟨event, rest, heq, hacc⟩ := hbegun
      cases trail with
      | nil => exact .never nofun
      | cons first trail =>
          obtain ⟨rfl, _⟩ := List.cons_eq_cons.mp heq
          exact .begun ⟨first, trail, rfl, hacc⟩

/-! ## One command -/

/-- What a command can say about an order: nothing, that it is the next one and
accepted, or how one that rests goes on. -/
inductive Tells (e : Engine) (id : UInt64) (trail : List Event) : Prop where
  | nothing (h : trail = [])
  | accepts (hid : id = e.nextOrderId) (h : Begun trail)
  | moves (o : Order) (ho : e.Resting id o) (h : ∀ event ∈ trail, event.accepted? = none)

section Commands

variable {b : Build} {o : Drains} {e e' : Engine} {accountId : AccountId} {id : UInt64}
  {o' : Order}

/-- An order that was matched is told of, or refused after all and not. -/
theorem PlaceTrace.events_eq {req : OrderRequest} (t : PlaceTrace b o e accountId req)
    {response : CommandResponse} {events : List Event}
    (hanswer : PlaceAnswer b accountId req t.result response events) :
    events = [] ∨ events = placeEvents accountId req t.matchResult := by
  unfold PlaceAnswer at hanswer
  cases hresult : t.result with
  | error reason =>
      rw [hresult] at hanswer
      exact .inl hanswer.2
  | ok m =>
      rw [hresult] at hanswer
      obtain ⟨_, _, _, rfl⟩ := hanswer
      unfold PlaceTrace.result at hresult
      split at hresult
      · cases hresult
      · cases hresult
        exact .inr rfl

theorem PlaceTrace.tells {req : OrderRequest} (t : PlaceTrace b o e accountId req) (hs : e.Shape)
    (id : UInt64) : Tells e id (trailOf id (placeEvents accountId req t.matchResult)) := by
  rw [trailOf_placeEvents, t.updates_filter hs, t.orderId_eq hs]
  by_cases hid : e.nextOrderId = id
  · rw [if_pos hid]
    exact .accepts hid.symm ⟨_, _, rfl, rfl⟩
  · rw [if_neg hid, if_neg hid, List.append_nil, List.nil_append]
    cases hfills : ((e.book req.pair).fills e.nextOrderId accountId req).filter
        fun f => f.1.id = id with
    | nil => exact .nothing rfl
    | cons f fs =>
        have hf := List.mem_filter.mp (hfills ▸ List.mem_cons_self : f ∈ _)
        have hmem := (mem_fills ((hs.wf _).side _) hf.1).2.2.2.2.2
        refine .moves f.1 ⟨req.pair, hmem, of_decide_eq_true hf.2⟩ fun event hevent => ?_
        obtain ⟨_, _, rfl⟩ := List.mem_map.mp hevent
        rfl

/-- Who rests after an order rested before, or is the order. -/
theorem PlaceTrace.rested {req : OrderRequest} (t : PlaceTrace b o e accountId req) (hs : e.Shape)
    (h : t.engine.Resting id o') : id = e.nextOrderId ∨ ∃ o, e.Resting id o := by
  obtain ⟨pair, ho, hid⟩ := h
  rw [book_insert rfl] at ho
  split at ho
  · rw [(t.book_eq hs).1, drained_orders] at ho
    rcases (placed_ids e.nextOrderId accountId req (hs.wf req.pair) id).1 ⟨o', ho, hid⟩ with
      hnew | ⟨o, hold, hid⟩
    · exact .inl hnew
    · exact .inr ⟨o, req.pair, hold, hid⟩
  · exact .inr ⟨o', pair, ho, hid⟩

/-- What a cancel removes, and what stays. -/
theorem CancelTrace.rested {req : CancelRequest} (t : CancelTrace b o e accountId req) :
    e.Resting req.orderId t.order ∧ ∀ id o', t.engine.Resting id o' → e.Resting id o' := by
  obtain ⟨side, price, pre, post, _, hqueue, hid, hbook, _⟩ := t.book_eq
  have hperm := removed_orders_perm hqueue req.orderId
  refine ⟨⟨t.pair, hperm.mem_iff.mpr List.mem_cons_self, hid⟩, ?_⟩
  rintro id o' ⟨pair, ho, hoid⟩
  rw [book_insert rfl] at ho
  split at ho
  · rename_i hpair
    rw [hbook, drained_orders] at ho
    exact ⟨pair, hpair ▸ hperm.mem_iff.mpr (List.mem_cons_of_mem _ ho), hoid⟩
  · exact ⟨pair, ho, hoid⟩

theorem CancelTrace.tells {req : CancelRequest} (t : CancelTrace b o e accountId req)
    (filledQty : UInt64) (id : UInt64) :
    Tells e id (trailOf id (cancelEvents req.orderId t.pair t.order filledQty t.bookDeltas)) := by
  obtain ⟨hrests, _⟩ := t.rested
  have hid : t.order.id = req.orderId := by
    obtain ⟨_, _, hid⟩ := hrests
    exact hid
  rw [trailOf_cancelEvents id req.orderId t.pair hid]
  split
  · rename_i hcancel
    subst hcancel
    refine .moves t.order hrests fun event hevent => ?_
    rcases List.mem_cons.mp hevent with rfl | hevent
    · rfl
    · rw [List.mem_singleton.mp hevent]
      rfl
  · exact .nothing rfl

/-- **What one command tells.** -/
theorem dispatch_tells {command : Command} {response : CommandResponse} {events : List Event}
    (hs : e.Shape) (h : Engine.dispatch b o e accountId command = .ok (e', response, events))
    (id : UInt64) : Tells e id (trailOf id events) := by
  rcases dispatch_books h with
    ⟨_, _, rfl⟩ | ⟨req, _, t, _, hanswer⟩ | ⟨req, _, t, q, _, _, _, rfl⟩
  · exact .nothing rfl
  · rcases t.events_eq hanswer with rfl | rfl
    · exact .nothing rfl
    · exact t.tells hs id
  · exact t.tells q id

/-- **One `apply`**: the events of the command, and balances. -/
theorem apply_events {clientOrderId : UInt64} {command : Command} {response : CommandResponse}
    {batch : Option EventBatch}
    (h : apply b o e accountId clientOrderId command = .ok (e', response, batch)) :
    (e' = e ∧ batch = none) ∨ ∃ dedup e₁ events bevs,
      Engine.dispatch b o (e.keyed dedup) accountId command = .ok (e₁, response, events) ∧
      (∃ l, ∃ keys : List _, keys.mapM (balanceEvent l) = .ok bevs) ∧
      batchEvents batch = events ++ bevs ∧
      e'.books = e₁.books ∧ e'.nextOrderId = e₁.nextOrderId := by
  rcases apply_ok h with ⟨rfl, _, rfl⟩ | ⟨dedup, e₁, events, bevs, _, hdispatch, hbev, hend⟩
  · exact .inl ⟨rfl, rfl⟩
  · refine .inr ⟨dedup, e₁, events, bevs, hdispatch, ⟨_, _, hbev⟩, ?_⟩
    rcases hend with ⟨hnil, rfl, rfl⟩ | ⟨n, _, _, rfl, rfl⟩
    · exact ⟨hnil.symm, rfl, rfl⟩
    · exact ⟨rfl, rfl, rfl⟩

/-- The balances leave no trail. -/
theorem trailOf_balances {l : Ledger} {keys : List (AccountId × Currency)} {bevs : List Event}
    (h : keys.mapM (balanceEvent l) = .ok bevs) (id : UInt64) (events : List Event) :
    trailOf id (events ++ bevs) = trailOf id events := by
  rw [trailOf_append, trailOf_eq_nil (balanceEvents_order h), List.append_nil]

theorem apply_tells {clientOrderId : UInt64} {command : Command} {response : CommandResponse}
    {batch : Option EventBatch} (hs : e.Shape)
    (h : apply b o e accountId clientOrderId command = .ok (e', response, batch)) (id : UInt64) :
    Tells e id (trailOf id (batchEvents batch)) := by
  rcases apply_events h with ⟨_, rfl⟩ |
    ⟨dedup, e₁, events, bevs, hdispatch, ⟨_, _, hbev⟩, hbatch, _⟩
  · exact .nothing rfl
  · have hs' : (e.keyed dedup).Shape := hs.of_books rfl
    rw [hbatch, trailOf_balances hbev]
    cases dispatch_tells hs' hdispatch id with
    | nothing hnil => exact .nothing hnil
    | accepts hid hbegun => exact .accepts hid hbegun
    | moves o ho hnone => exact .moves o ho hnone

end Commands

/-- The trail of an accepted order that rests untouched is its acceptance. -/
theorem apply_accepted_trail {b : Build} {o : Drains} {e e' : Engine} {accountId : AccountId}
    {clientOrderId : UInt64} {req : OrderRequest} {p : PlaceOrderResponse}
    {batch : Option EventBatch} (hs : e.Shape)
    (hfills : (e.book req.pair).fills e.nextOrderId accountId req = [])
    (htaker : takerUpdate ((e.book req.pair).taker e.nextOrderId accountId req) = [])
    (h : apply b o e accountId clientOrderId (.place req) = .ok (e', .place (.ok p), batch)) :
    trailOf e.nextOrderId (batchEvents batch)
      = [.orderAccepted e.nextOrderId accountId req.pair req.side req.orderType req.price
          req.size] := by
  obtain ⟨dedup, _, t, _, _, ⟨_, bevs, _, hbev, hbatch⟩, _⟩ := apply_accepted_events h
  have hs' : (e.keyed dedup).Shape := hs.of_books rfl
  have hnone : ((e.keyed dedup).book req.pair).fills (e.keyed dedup).nextOrderId accountId req
      = [] := hfills
  have htaker' : takerUpdate (((e.keyed dedup).book req.pair).taker (e.keyed dedup).nextOrderId
      accountId req) = [] := htaker
  have hid : t.matchResult.orderId = e.nextOrderId := t.orderId_eq hs'
  rw [hbatch, trailOf_balances hbev, trailOf_placeEvents, t.updates_filter hs', hnone, htaker', hid,
    if_pos rfl]
  simp

/-- An order that meets nobody trades nothing. -/
theorem apply_quiet {b : Build} {o : Drains} {e e' : Engine} {accountId : AccountId}
    {clientOrderId : UInt64} {req : OrderRequest} {response : CommandResponse}
    {batch : Option EventBatch} (hs : e.Shape)
    (hfills : (e.book req.pair).fills e.nextOrderId accountId req = [])
    (h : apply b o e accountId clientOrderId (.place req) = .ok (e', response, batch)) :
    (batchEvents batch).filterMap Event.trade? = [] := by
  rcases apply_events h with ⟨_, rfl⟩ |
    ⟨dedup, e₁, events, bevs, hdispatch, ⟨_, _, hbev⟩, hbatch, _⟩
  · rfl
  · have hs' : (e.keyed dedup).Shape := hs.of_books rfl
    rw [hbatch, List.filterMap_append, balanceEvents_trades hbev, List.append_nil]
    rcases dispatch_books hdispatch with
      ⟨_, _, rfl⟩ | ⟨req', hreq, t, _, hanswer⟩ | ⟨_, habsurd, _⟩
    · rfl
    · cases hreq
      rcases t.events_eq hanswer with rfl | rfl
      · rfl
      · have hnone : ((e.keyed dedup).book req.pair).fills (e.keyed dedup).nextOrderId accountId req
            = [] := hfills
        rw [placeEvents_trades, t.trades_eq hs', hnone]
        rfl
    · cases habsurd

/-! ## Ids are given once -/

/-- Nothing was told yet of an id that was not given. -/
structure Numbered (h : List Record) (e : Engine) : Prop where
  untold : ∀ id, e.nextOrderId ≤ id → trailOf id (eventsOf h) = []
  first : ∀ id, AcceptedFirst (trailOf id (eventsOf h))

theorem trailOf_snoc (h : List Record) (r : Record) (id : UInt64) :
    trailOf id (eventsOf (h ++ [r]))
      = trailOf id (eventsOf h) ++ trailOf id (batchEvents r.batch) := by
  rw [eventsOf_append, eventsOf_singleton, trailOf_append]

section Steps

variable {b : Build} {o : Drains} {e e' : Engine} {accountId : AccountId}
  {clientOrderId : UInt64} {command : Command} {response : CommandResponse}
  {batch : Option EventBatch} {h : List Record}

/-- The next id moves past what is accepted. -/
theorem apply_next
    (hroom : command.isPlace = true → b.Checks (e.nextOrderId.toNat + 1 < 2 ^ 64))
    (happly : apply b o e accountId clientOrderId command = .ok (e', response, batch)) :
    e.nextOrderId < e'.nextOrderId ∨ e'.nextOrderId = e.nextOrderId ∧
      ∀ event ∈ batchEvents batch, event.accepted? = none := by
  rcases apply_events happly with
    ⟨rfl, rfl⟩ | ⟨dedup, e₁, events, bevs, hdispatch, ⟨_, _, hbev⟩, hbatch, _, hnext⟩
  · exact .inr ⟨rfl, nofun⟩
  · have hquiet : (∀ event ∈ events, event.accepted? = none) →
        ∀ event ∈ batchEvents batch, event.accepted? = none := by
      intro hnone event hevent
      rw [hbatch] at hevent
      rcases List.mem_append.mp hevent with hevent | hevent
      · exact hnone event hevent
      · obtain ⟨key, _, hkey⟩ := mapM_mem hbev hevent
        obtain ⟨balance, _, rfl⟩ := balanceEvent_ok hkey
        rfl
    rw [hnext]
    rcases dispatch_books hdispatch with
      ⟨hsame, _, rfl⟩ | ⟨req, rfl, t, rfl, _⟩ | ⟨req, _, t, q, rfl, _, _, rfl⟩
    · exact .inr ⟨hsame.nextOrderId, hquiet nofun⟩
    · have hone := t.nextOrderId_toNat (hroom rfl)
      refine .inl (UInt64.lt_iff_toNat_lt.mpr ?_)
      change e.nextOrderId.toNat < t.nextOrderId.toNat
      rw [hone]
      exact Nat.lt_succ_self _
    · refine .inr ⟨rfl, hquiet fun event hevent => ?_⟩
      rcases List.mem_cons.mp hevent with rfl | hevent
      · rfl
      · rcases List.mem_cons.mp hevent with rfl | hevent
        · rfl
        · obtain ⟨_, _, rfl⟩ := List.mem_map.mp hevent
          rfl

theorem Numbered.step (hn : Numbered h e) (hs : e.Shape) (hi : e.Indexed)
    (hroom : command.isPlace = true → b.Checks (e.nextOrderId.toNat + 1 < 2 ^ 64))
    (happly : apply b o e accountId clientOrderId command = .ok (e', response, batch)) :
    Numbered (h ++ [⟨accountId, clientOrderId, command, response, batch⟩]) e' := by
  have hle : e.nextOrderId ≤ e'.nextOrderId := by
    rcases apply_next hroom happly with hlt | ⟨heq, _⟩
    · exact hlt.le
    · exact heq.ge
  constructor
  case untold =>
    intro id hid
    rw [trailOf_snoc, hn.untold id (hle.trans hid), List.nil_append]
    cases apply_tells hs happly id with
    | nothing hnil => exact hnil
    | accepts heq hbegin =>
        subst heq
        rcases apply_next hroom happly with hlt | ⟨_, hnone⟩
        · exact absurd hid (not_le_of_gt hlt)
        · obtain ⟨event, rest, htrail, hacc⟩ := hbegin
          have hevent : event ∈ trailOf e.nextOrderId (batchEvents batch) := by
            rw [htrail]
            exact List.mem_cons_self
          rw [hnone event (List.mem_of_mem_filter hevent)] at hacc
          cases hacc
    | moves o ho _ => exact absurd ho (hi.not_resting (hle.trans hid) o)
  case first =>
    intro id
    rw [trailOf_snoc]
    cases apply_tells hs happly id with
    | nothing hnil =>
        dsimp only
        rw [hnil, List.append_nil]
        exact hn.first id
    | accepts heq hbegin =>
        rw [hn.untold id heq.ge, List.nil_append]
        exact .begun hbegin
    | moves o ho hnone =>
        cases hn.first id with
        | begun hbegin => exact .begun (hbegin.append _)
        | never hnever =>
            exact .never fun event hevent => (List.mem_append.mp hevent).elim (hnever event)
              (hnone event)

/-! ## Reserves are found -/

/-- What rests was accepted, and nothing is told of an order that was not. -/
structure Introduced (h : List Record) (e : Engine) : Prop where
  resting : ∀ id o, e.Resting id o → Begun (trailOf id (eventsOf h))
  trail : ∀ id, trailOf id (eventsOf h) = [] ∨ Begun (trailOf id (eventsOf h))

/-- **Who rests afterwards** rested before or was accepted. -/
theorem apply_rested (hs : e.Shape) (hb : e.Backed) (hfit : e.Fits b)
    (happly : apply b o e accountId clientOrderId command = .ok (e', response, batch))
    {id : UInt64} {o' : Order} (hrests : e'.Resting id o') :
    (∃ o, e.Resting id o) ∨ Begun (trailOf id (batchEvents batch)) := by
  rcases apply_events happly with
    ⟨rfl, rfl⟩ | ⟨dedup, e₁, events, bevs, hdispatch, ⟨_, _, hbev⟩, hbatch, hbooks, _⟩
  · exact .inl ⟨o', hrests⟩
  · have hs' : (e.keyed dedup).Shape := hs.of_books rfl
    have hrests₁ : e₁.Resting id o' := (Engine.Resting.of_books hbooks id o').mp hrests
    rcases dispatch_books hdispatch with
      ⟨hsame, _, _⟩ | ⟨req, _, t, rfl, hanswer⟩ | ⟨req, _, t, q, rfl, _, _, _⟩
    · have hold : (e.keyed dedup).Resting id o' :=
        (Engine.Resting.of_books hsame.books id o').mp hrests₁
      exact .inl ⟨o', hold⟩
    · rcases t.rested hs' hrests₁ with rfl | ⟨o, hold⟩
      · -- the reserve was found, so the order was accepted
        rw [t.result_eq hs' hb hfit] at hanswer
        obtain ⟨_, _, _, rfl⟩ := hanswer
        refine .inr ?_
        rw [hbatch, trailOf_balances hbev, trailOf_placeEvents, t.orderId_eq hs', if_pos rfl]
        exact ⟨_, _, rfl, rfl⟩
      · exact .inl ⟨o, hold⟩
    · exact .inl ⟨o', t.rested.2 id o' hrests₁⟩

theorem Introduced.step (hin : Introduced h e) (hs : e.Shape) (hb : e.Backed) (hfit : e.Fits b)
    (happly : apply b o e accountId clientOrderId command = .ok (e', response, batch)) :
    Introduced (h ++ [⟨accountId, clientOrderId, command, response, batch⟩]) e' := by
  have htold : ∀ id, Begun (trailOf id (batchEvents batch)) →
      Begun (trailOf id (eventsOf h) ++ trailOf id (batchEvents batch)) := by
    intro id hbegin
    rcases hin.trail id with hnil | hbegun
    · rw [hnil]
      exact hbegin
    · exact hbegun.append _
  constructor
  case resting =>
    intro id o' hrests
    rw [trailOf_snoc]
    rcases apply_rested hs hb hfit happly hrests with ⟨o, hold⟩ | hbegin
    · exact (hin.resting id o hold).append _
    · exact htold id hbegin
  case trail =>
    intro id
    rw [trailOf_snoc]
    cases apply_tells hs happly id with
    | nothing hnil =>
        dsimp only
        rw [hnil, List.append_nil]
        exact hin.trail id
    | accepts _ hbegin => exact .inr (htold id hbegin)
    | moves o ho _ => exact .inr ((hin.resting id o ho).append _)

end Steps

/-! ## Every run -/

theorem Reaches.introduced {b : Build} {limits : Limits} {h : List Record} {e : Engine}
    (hr : Reaches b limits h e) (hnet : b.Checks (NetBelow h)) : Introduced h e := by
  have hboth : Reaches b limits h e ∧ (b.Checks (NetBelow h) → Introduced h e) := by
    refine hr.invariant (motive := fun h e => Reaches b limits h e ∧
      (b.Checks (NetBelow h) → Introduced h e)) ⟨⟨[], rfl⟩, fun _ => ⟨?_, fun _ => .inl rfl⟩⟩ ?_
    · rintro id o ⟨pair, ho, _⟩
      cases ho
    · intro h e o a cid cmd e' response batch ⟨hr, ih⟩ happly
      refine ⟨hr.snoc happly, fun hnet => ?_⟩
      have hnet₀ : b.Checks (NetBelow h) :=
        hnet.imp fun hnet => hnet.of_prefix (List.prefix_append _ _)
      have hacc := hr.accounted hnet₀
      exact (ih hnet₀).step hacc.shape hacc.backed (hacc.fits hnet₀) happly
  exact hboth.2 hnet

theorem Reaches.numberedTrails {b : Build} {limits : Limits} {h : List Record} {e : Engine}
    (hr : Reaches b limits h e) (hplaces : b.Checks (places h < 2 ^ 64)) : Numbered h e := by
  have hboth : Reaches b limits h e ∧ (b.Checks (places h < 2 ^ 64) → Numbered h e) := by
    refine hr.invariant (motive := fun h e => Reaches b limits h e ∧
      (b.Checks (places h < 2 ^ 64) → Numbered h e))
      ⟨⟨[], rfl⟩, fun _ => ⟨fun _ _ => rfl, fun _ => .never nofun⟩⟩ ?_
    intro h e o a cid cmd e' response batch ⟨hr, ih⟩ happly
    refine ⟨hr.snoc happly, fun hplaces => ?_⟩
    rw [places_snoc] at hplaces
    have hplaces₀ : b.Checks (places h < 2 ^ 64) := hplaces.imp fun hlt => by
      dsimp only at hlt
      omega
    obtain ⟨hi, hle⟩ := hr.indexed hplaces₀
    refine (ih hplaces₀).step hr.shape hi (fun hplace => hplaces.imp fun hlt => ?_) happly
    rw [if_pos hplace] at hlt
    omega
  exact hboth.2 hplaces

/-- **An order's acceptance comes first**, in a release build while the ids do
not wrap or the net deposits are words. -/
theorem Reaches.acceptedFirst {b : Build} {limits : Limits} {h : List Record} {e : Engine}
    (hr : Reaches b limits h e) (hruns : b.Checks (places h < 2 ^ 64 ∨ NetBelow h))
    (id : UInt64) : AcceptedFirst (trailOf id (eventsOf h)) := by
  have hintroduced : Introduced h e → AcceptedFirst (trailOf id (eventsOf h)) := by
    intro hin
    rcases hin.trail id with hnil | hbegun
    · exact .never (by rw [hnil]; exact nofun)
    · exact .begun hbegun
  rcases hruns with rfl | hplaces | hnet
  · exact hintroduced (hr.introduced (.inl rfl))
  · exact (hr.numberedTrails (.inr hplaces)).first id
  · exact hintroduced (hr.introduced (.inr hnet))

end MatchingEngine
