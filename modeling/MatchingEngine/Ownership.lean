import MatchingEngine.Audit

/-!
# Ownership: whose order an event is about

What a command tells of an order names one account, that of the order
(`apply_speaks`). An `OrderCancelled` names nobody, but the update behind it sets
what it sets: for the rows of an account the events that name it are enough
(`Belongs`).
-/

namespace MatchingEngine

open RustArith HashModel

/-- The account an order event names. -/
def Event.owner? : Event → Option AccountId
  | .orderAccepted _ accountId .. => some accountId
  | .orderUpdated _ accountId .. => some accountId
  | _ => none

/-- The events that name an account. -/
def ownedBy (a : AccountId) (events : List Event) : List Event :=
  events.filter fun event => event.owner? = some a

/-- What is told of one order of the account `a`. -/
structure Belongs (a : AccountId) (trail : List Event) : Prop where
  owner : ∀ event ∈ trail, ∀ a', event.owner? = some a' → a' = a
  rows : ∀ row, (ownedBy a trail).foldl rowStep row = trail.foldl rowStep row

theorem Belongs.nil (a : AccountId) : Belongs a [] where
  owner _ h := absurd h List.not_mem_nil
  rows _ := rfl

theorem Belongs.of_named {a : AccountId} {trail : List Event}
    (h : ∀ event ∈ trail, event.owner? = some a) : Belongs a trail where
  owner event hevent a' ha' := by
    rw [h event hevent] at ha'
    exact (Option.some.inj ha').symm
  rows row := by
    have hall : ownedBy a trail = trail :=
      List.filter_eq_self.mpr fun event hevent => decide_eq_true (h event hevent)
    rw [hall]

/-- A cancel names nobody first, and is told again. -/
theorem Belongs.cancel (a : AccountId) (orderId : UInt64) (pair : Pair)
    (filledQty remainingQty : UInt64) :
    Belongs a [.orderCancelled orderId,
      .orderUpdated orderId a pair filledQty remainingQty .cancelled] where
  owner event hevent a' ha' := by
    rcases List.mem_cons.mp hevent with rfl | hevent
    · cases ha'
    · rw [List.mem_singleton.mp hevent] at ha'
      cases ha'
      rfl
  rows row := by
    have hone : ownedBy a [.orderCancelled orderId,
        .orderUpdated orderId a pair filledQty remainingQty .cancelled]
        = [.orderUpdated orderId a pair filledQty remainingQty .cancelled] := by
      simp [ownedBy, Event.owner?]
    rw [hone]
    cases row with
    | none => rfl
    | some row => rfl

theorem Belongs.append {a : AccountId} {trail trail' : List Event} (h : Belongs a trail)
    (h' : Belongs a trail') : Belongs a (trail ++ trail') where
  owner event hevent := (List.mem_append.mp hevent).elim (h.owner event) (h'.owner event)
  rows row := by
    rw [ownedBy, List.filter_append, List.foldl_append, List.foldl_append]
    show (ownedBy a trail').foldl rowStep ((ownedBy a trail).foldl rowStep row) = _
    rw [h.rows, h'.rows]

/-- Nobody else is named. -/
theorem Belongs.other {a a' : AccountId} {trail : List Event} (h : Belongs a trail)
    (hne : a' ≠ a) : ownedBy a' trail = [] := by
  refine List.filter_eq_nil_iff.mpr fun event hevent => ?_
  simp only [decide_eq_true_eq]
  exact fun howner => hne (h.owner event hevent a' howner)

theorem trailOf_ownedBy (id : UInt64) (a : AccountId) (events : List Event) :
    trailOf id (ownedBy a events) = ownedBy a (trailOf id events) := by
  rw [trailOf, ownedBy, List.filter_filter, ownedBy, trailOf, List.filter_filter]
  simp only [Bool.and_comm]

theorem mem_trailOf {id : UInt64} {event : Event} {events : List Event} :
    event ∈ trailOf id events ↔ event ∈ events ∧ event.order? = some id := by
  simp [trailOf]

/-! ## One command -/

/-- What a command of `accountId` can tell of an order: nothing, that it is the
next one and its own, or how one that rests goes on. -/
inductive Speaks (e : Engine) (accountId : AccountId) (id : UInt64) (trail : List Event) :
    Prop where
  | nothing (h : trail = [])
  | accepts (hid : id = e.nextOrderId) (h : Belongs accountId trail)
  | moves (o : Order) (ho : e.Resting id o) (h : Belongs o.accountId trail)

section Commands

variable {b : Build} {o : Drains} {e e' : Engine} {accountId : AccountId}

theorem PlaceTrace.speaks {req : OrderRequest} (t : PlaceTrace b o e accountId req) (hs : e.Shape)
    (hi : e.Indexed) (id : UInt64) :
    Speaks e accountId id (trailOf id (placeEvents accountId req t.matchResult)) := by
  rw [trailOf_placeEvents, t.updates_filter hs, t.orderId_eq hs]
  by_cases hid : e.nextOrderId = id
  · -- its makers are other orders
    have hnone : (((e.book req.pair).fills e.nextOrderId accountId req).filter
        fun f => f.1.id = id) = [] :=
      List.filter_eq_nil_iff.mpr fun f hf => by simpa [← hid] using (hi.fills_lt hs f hf).ne
    rw [if_pos hid, if_pos hid, hnone]
    refine .accepts hid.symm (.of_named fun event hevent => ?_)
    rcases List.mem_cons.mp hevent with rfl | hevent
    · rfl
    · obtain ⟨u, hu, rfl⟩ := List.mem_map.mp hevent
      obtain ⟨rem, htaker⟩ := taker_eq (e.book req.pair) e.nextOrderId accountId req
      rw [htaker] at hu
      unfold takerUpdate at hu
      split at hu
      · rw [List.map_nil, List.nil_append, List.mem_singleton] at hu
        rw [hu]
        rfl
      · cases hu
  · rw [if_neg hid, if_neg hid, List.append_nil, List.nil_append]
    cases hfills : ((e.book req.pair).fills e.nextOrderId accountId req).filter
        fun f => f.1.id = id with
    | nil => exact .nothing rfl
    | cons f fs =>
        obtain ⟨hf, hfid⟩ := List.mem_filter.mp (hfills ▸ List.mem_cons_self : f ∈ _)
        have hmem := (mem_fills ((hs.wf _).side _) hf).2.2.2.2.2
        have hrests : e.Resting id f.1 := ⟨req.pair, hmem, of_decide_eq_true hfid⟩
        refine .moves f.1 hrests (.of_named fun event hevent => ?_)
        obtain ⟨u, hu, rfl⟩ := List.mem_map.mp hevent
        obtain ⟨g, hg, rfl⟩ := List.mem_map.mp hu
        -- every fill of this id is of the order that rests under it
        obtain ⟨hgf, hgid⟩ := List.mem_filter.mp (hfills ▸ hg)
        have hgmem := (mem_fills ((hs.wf _).side _) hgf).2.2.2.2.2
        have hsame : g.1 = f.1 :=
          hi.resting_unique ⟨req.pair, hgmem, of_decide_eq_true hgid⟩ hrests
        show some g.1.accountId = some f.1.accountId
        rw [hsame]

theorem CancelTrace.speaks {req : CancelRequest} (t : CancelTrace b o e accountId req)
    (filledQty : UInt64) (id : UInt64) : Speaks e accountId id
      (trailOf id (cancelEvents req.orderId t.pair t.order filledQty t.bookDeltas)) := by
  obtain ⟨hrests, _⟩ := t.rested
  have hid : t.order.id = req.orderId := by
    obtain ⟨_, _, hid⟩ := hrests
    exact hid
  rw [trailOf_cancelEvents id req.orderId t.pair hid]
  split
  · rename_i hcancel
    subst hcancel
    exact .moves t.order hrests (.cancel ..)
  · exact .nothing rfl

/-- **What one command tells of an order** names its account. -/
theorem apply_speaks {clientOrderId : UInt64} {command : Command} {response : CommandResponse}
    {batch : Option EventBatch} (hs : e.Shape) (hi : e.Indexed)
    (h : apply b o e accountId clientOrderId command = .ok (e', response, batch)) (id : UInt64) :
    Speaks e accountId id (trailOf id (batchEvents batch)) := by
  rcases apply_events h with
    ⟨_, rfl⟩ | ⟨dedup, e₁, events, bevs, hdispatch, ⟨_, _, hbev⟩, hbatch, _⟩
  · exact .nothing rfl
  have hs' : (e.keyed dedup).Shape := hs.of_books rfl
  have hi' : (e.keyed dedup).Indexed := hi.of_books rfl rfl rfl
  have hspeaks : Speaks (e.keyed dedup) accountId id (trailOf id events) := by
    rcases dispatch_books hdispatch with
      ⟨_, _, rfl⟩ | ⟨req, _, t, _, hanswer⟩ | ⟨req, _, t, q, _, _, _, rfl⟩
    · exact .nothing rfl
    · rcases t.events_eq hanswer with rfl | rfl
      · exact .nothing rfl
      · exact t.speaks hs' hi' id
    · exact t.speaks q id
  rw [hbatch, trailOf_balances hbev]
  cases hspeaks with
  | nothing hnil => exact .nothing hnil
  | accepts hid hbelongs => exact .accepts hid hbelongs
  | moves o ho hbelongs => exact .moves o ho hbelongs

end Commands

/-! ## Every run -/

/-- The order was the account's all along. -/
structure Attributed (h : List Record) (e : Engine) (id : UInt64) (a : AccountId) : Prop where
  told : ∀ r ∈ h, Belongs a (trailOf id (batchEvents r.batch))
  resting : ∀ o, e.Resting id o → o.accountId = a

/-- What was told of an order, call by call. -/
theorem trailOf_record_nil {h : List Record} {id : UInt64} (hnil : trailOf id (eventsOf h) = [])
    {r : Record} (hr : r ∈ h) : trailOf id (batchEvents r.batch) = [] := by
  refine List.eq_nil_iff_forall_not_mem.mpr fun event hevent => ?_
  obtain ⟨hmem, horder⟩ := mem_trailOf.mp hevent
  have htold : event ∈ trailOf id (eventsOf h) :=
    mem_trailOf.mpr ⟨List.mem_flatMap.mpr ⟨r, hr, hmem⟩, horder⟩
  rw [hnil] at htold
  exact List.not_mem_nil htold

section Steps

variable {b : Build} {o : Drains} {e e' : Engine} {accountId : AccountId}
  {clientOrderId : UInt64} {command : Command} {response : CommandResponse}
  {batch : Option EventBatch} {h : List Record}

/-- An order of the account stays its order, whoever submits a command. -/
theorem Attributed.step {id : UInt64} (hattributed : ∃ a, Attributed h e id a)
    (hn : Numbered h e) (hs : e.Shape) (hi : e.Indexed) (hb : e.Backed) (hfit : e.Fits b)
    (happly : apply b o e accountId clientOrderId command = .ok (e', response, batch)) :
    ∃ a, Attributed (h ++ [⟨accountId, clientOrderId, command, response, batch⟩]) e' id a := by
  -- who rests afterwards is told of now, or rested
  have hgrow : ∀ a, Attributed h e id a → Belongs a (trailOf id (batchEvents batch)) →
      Attributed (h ++ [⟨accountId, clientOrderId, command, response, batch⟩]) e' id a := by
    intro a ha hnew
    constructor
    case told =>
      intro r hr
      rcases List.mem_append.mp hr with hr | hr
      · exact ha.told r hr
      · rw [List.mem_singleton.mp hr]
        exact hnew
    case resting =>
      rintro o' ⟨pair, ho', hid⟩
      rcases apply_acceptance hs hi hb hfit happly ho' with ⟨old, hold, heq⟩ | haccepted
      · injection heq with heqid heqaccount
        rw [← heqaccount]
        exact ha.resting old ⟨pair, hold, heqid.trans hid⟩
      · exact hnew.owner _ (mem_trailOf.mpr ⟨haccepted, congrArg some hid⟩) _ rfl
  obtain ⟨a, ha⟩ := hattributed
  cases apply_speaks hs hi happly id with
  | nothing hnil =>
      refine ⟨a, hgrow a ha ?_⟩
      rw [hnil]
      exact .nil a
  | accepts hid hbelongs =>
      -- nothing was told of it yet
      refine ⟨accountId, hgrow accountId ⟨fun r hr => ?_, fun o ho => ?_⟩ hbelongs⟩
      · rw [trailOf_record_nil (hn.untold id hid.ge) hr]
        exact .nil accountId
      · exact absurd ho (hi.not_resting hid.ge o)
  | moves o ho hbelongs =>
      refine ⟨a, hgrow a ha ?_⟩
      rw [← ha.resting o ho]
      exact hbelongs

end Steps

theorem Reaches.attributed {b : Build} {limits : Limits} {h : List Record} {e : Engine}
    (hr : Reaches b limits h e) (hnet : b.Checks (NetBelow h))
    (hplaces : b.Checks (places h < 2 ^ 64)) (id : UInt64) : ∃ a, Attributed h e id a := by
  have hboth : Reaches b limits h e ∧ (b.Checks (NetBelow h) → b.Checks (places h < 2 ^ 64) →
      ∃ a, Attributed h e id a) := by
    refine hr.invariant (motive := fun h e => Reaches b limits h e ∧
      (b.Checks (NetBelow h) → b.Checks (places h < 2 ^ 64) → ∃ a, Attributed h e id a))
      ⟨⟨[], rfl⟩, fun _ _ => ⟨0, fun _ hr => absurd hr List.not_mem_nil, ?_⟩⟩ ?_
    · rintro o ⟨pair, ho, _⟩
      cases ho
    · intro h e o a cid cmd e' response batch ⟨hr, ih⟩ happly
      refine ⟨hr.snoc happly, fun hnet hplaces => ?_⟩
      have hnet₀ := hnet.imp fun hnet => hnet.of_prefix (List.prefix_append h _)
      rw [places_snoc] at hplaces
      have hplaces₀ := hplaces.imp fun hlt => (Nat.le_add_right (places h) _).trans_lt hlt
      have hacc := hr.accounted hnet₀
      exact Attributed.step (ih hnet₀ hplaces₀) (hr.numberedTrails hplaces₀) hacc.shape
        (hr.indexed hplaces₀).1 hacc.backed (hacc.fits hnet₀) happly
  exact hboth.2 hnet hplaces

/-- The batches of the trading run. -/
def tradingBatches : List EventBatch :=
  (finish .default (runCalls .release .default tradingCalls)).2.filterMap Record.batch

end MatchingEngine
