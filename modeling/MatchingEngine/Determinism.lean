import MatchingEngine.Deltas
import MatchingEngine.Dirty
import MatchingEngine.Lib.Sim

/-!
# Determinism: drain orders stay inside their groups

Two calls of `apply` that drain `dirty_levels` and `dirty` in different orders
answer the same, leave the same engine, and emit the same events but for the
order inside the delta group and inside the balance group; no two events of a
group are about the same level or the same entry (`apply_sim`). The same for
two whole runs (`run_sim`).
-/

namespace MatchingEngine

open RustArith HashModel

/-! ## Batches up to the order of their groups -/

/-- The entry a balance event sets. -/
def Event.balance? : Event → Option ((AccountId × Currency) × Balance)
  | .balanceChanged accountId currency available reserved =>
      some ((accountId, currency), { available := available, reserved := reserved })
  | _ => none

/-- The same events, up to the order inside the group of deltas and inside the
group of balances at the end. -/
structure SameEvents (evs evs' : List Event) : Prop where
  split : ∃ head ds ds' bs bs', evs = head ++ ds ++ bs ∧ evs' = head ++ ds' ++ bs' ∧
    ds.Perm ds' ∧ bs.Perm bs' ∧ (∀ ev ∈ head, ev.delta? = none ∧ ev.balance? = none) ∧
    (∀ ev ∈ ds, ev.delta?.isSome) ∧ ∀ ev ∈ bs, ev.balance?.isSome
  /-- no level twice -/
  levels : ((evs.filterMap Event.delta?).map fun d => (d.1, LevelDelta.key d.2)).Nodup
  /-- no entry twice -/
  entries : ((evs.filterMap Event.balance?).map Prod.fst).Nodup

/-- The same sequence number and the same events. -/
def SameBatch : Option EventBatch → Option EventBatch → Prop
  | none, none => True
  | some batch, some batch' => batch.seq = batch'.seq ∧ SameEvents batch.events batch'.events
  | _, _ => False

/-- The same match result, up to the order of the deltas. -/
def MatchResponse.Same (m m' : MatchResponse) : Prop :=
  ∃ ds, m' = { m with bookDeltas := ds } ∧ m.bookDeltas.Perm ds ∧
    (m.bookDeltas.map LevelDelta.key).Nodup

/-! ## The book -/

section Book

variable {b : Build} {o o' : DrainOrder (Side × UInt64)} {book : OrderBook}

/-- One delta per key of the set. -/
theorem deltas_keys {P : Side × UInt64 → LevelDelta → Prop} {keys : List (Side × UInt64)}
    {deltas : List LevelDelta}
    (h : List.Forall₂ (fun key d => d.1 = key.1 ∧ d.2.1 = key.2 ∧ P key d) keys deltas) :
    deltas.map LevelDelta.key = keys := by
  induction h with
  | nil => rfl
  | cons hd _ ih => rw [List.map_cons, ih, LevelDelta.key, hd.1, hd.2.1]

theorem takeDirtyLevels_sim (b : Build) (o o' : DrainOrder (Side × UInt64)) (book : OrderBook) :
    Sim (fun r r' => r'.1 = r.1 ∧ r.2.Perm r'.2 ∧ (r.2.map LevelDelta.key).Nodup)
      (book.takeDirtyLevels b o) (book.takeDirtyLevels b o') := by
  have hperm : Sim (fun r r' => r'.1 = r.1 ∧ r.2.Perm r'.2)
      (book.takeDirtyLevels b o) (book.takeDirtyLevels b o') := by
    unfold OrderBook.takeDirtyLevels
    exact (Sim.mapM_drain o o' _).bind fun ds ds' hds => Sim.ok ⟨rfl, hds⟩
  rintro ⟨book₁, deltas⟩ h
  obtain ⟨r', h', hbook, hds⟩ := hperm _ h
  refine ⟨r', h', hbook, hds, ?_⟩
  change (deltas.map LevelDelta.key).Nodup
  rw [deltas_keys (takeDirtyLevels_ok h).2]
  exact o.nodup _

theorem addOrder_sim {orderId : UInt64} {accountId : AccountId} {req : OrderRequest}
    (hs : ∀ l ∈ (book.side req.side.opposite).entries, ∀ m ∈ l.2, m.Sized)
    (o o' : DrainOrder (Side × UInt64)) :
    Sim (fun r r' => r'.1 = r.1 ∧ r.2.Same r'.2) (book.addOrder b o orderId accountId req)
      (book.addOrder b o' orderId accountId req) := by
  rw [addOrder_eq b o hs, addOrder_eq b o' hs]
  refine (takeDirtyLevels_sim b o o' _).bind fun r r' hr => Sim.ok ⟨hr.1, r'.2, rfl, hr.2⟩

/-- What a cancel gives back, up to the order of the deltas. -/
def SameRemoved : Option (Order × List LevelDelta) → Option (Order × List LevelDelta) → Prop
  | none, none => True
  | some (order, ds), some (order', ds') => order' = order ∧ ds.Perm ds' ∧
      (ds.map LevelDelta.key).Nodup
  | _, _ => False

theorem bookCancel_sim (o o' : DrainOrder (Side × UInt64)) (book : OrderBook)
    (accountId : AccountId) (id : UInt64) :
    Sim (fun r r' => r'.1 = r.1 ∧ SameRemoved r.2 r'.2) (book.cancelOrder b o accountId id)
      (book.cancelOrder b o' accountId id) := by
  have hnone : Sim (fun r r' : OrderBook × Option (Order × List LevelDelta) =>
      r'.1 = r.1 ∧ SameRemoved r.2 r'.2) (.ok (book, none)) (.ok (book, none)) :=
    Sim.ok ⟨rfl, trivial⟩
  unfold OrderBook.cancelOrder
  split
  · exact hnone
  · split
    · exact hnone
    · split
      · exact hnone
      · split
        · exact hnone
        · split
          · exact hnone
          · exact (takeDirtyLevels_sim b o o' _).bind fun r r' hr => Sim.ok ⟨hr.1, rfl, hr.2⟩

end Book

/-! ## The engine -/

section Engine

variable {b : Build} {o o' : Drains} {e : Engine} {accountId : AccountId}

/-- The same engine and the same answer to an order. -/
def SamePlaced (r r' : Engine × Except RejectReason MatchResponse) : Prop :=
  r'.1 = r.1 ∧ match r.2, r'.2 with
    | .ok m, .ok m' => m.Same m'
    | .error reason, .error reason' => reason' = reason
    | _, _ => False

theorem matchAndSettle_sim (hs : e.Shape) (o o' : Drains) (accountId : AccountId)
    (req : OrderRequest) :
    Sim SamePlaced (e.matchAndSettle b o accountId req) (e.matchAndSettle b o' accountId req) := by
  unfold Engine.matchAndSettle
  refine Sim.bind_same fun nextOrderId => ?_
  refine (addOrder_sim (fun l hl m hm => (((hs.wf req.pair).side _).rests l hl m hm).sized)
    o.levels o'.levels).bind fun r r' hr => ?_
  obtain ⟨book, m⟩ := r
  obtain ⟨book', m'⟩ := r'
  obtain ⟨hbook, ds, hm, hds, hnodup⟩ := hr
  cases hbook
  cases hm
  refine Sim.bind_same fun l => Sim.bind_same fun sold => Sim.bind_same fun refunded => ?_
  obtain ⟨l', result⟩ := refunded
  cases result with
  | error reason => exact Sim.ok ⟨rfl, rfl⟩
  | ok _ => exact Sim.ok ⟨rfl, ds, rfl, hds, hnodup⟩

theorem placeOrder_sim (hs : e.Shape) (o o' : Drains) (accountId : AccountId)
    (req : OrderRequest) :
    Sim SamePlaced (e.placeOrder b o accountId req) (e.placeOrder b o' accountId req) := by
  unfold Engine.placeOrder
  cases e.checkOrder accountId req with
  | some reason => exact Sim.ok ⟨rfl, rfl⟩
  | none =>
      refine Sim.bind_same fun q => ?_
      cases q with
      | error reason => exact Sim.ok ⟨rfl, rfl⟩
      | ok q =>
          refine Sim.bind_same fun reserved => ?_
          obtain ⟨l, result⟩ := reserved
          cases result with
          | error reason => exact Sim.ok ⟨rfl, rfl⟩
          | ok _ =>
              have hs' : { e with ledger := l : Engine }.Shape := hs.of_books rfl
              exact matchAndSettle_sim hs' o o' accountId req

/-- The same engine and the same cancelled order. -/
def SameCancelled (r r' : Engine × Option (Pair × Order × List LevelDelta)) : Prop :=
  r'.1 = r.1 ∧ match r.2, r'.2 with
    | none, none => True
    | some (pair, order, ds), some (pair', order', ds') =>
        pair' = pair ∧ order' = order ∧ ds.Perm ds' ∧ (ds.map LevelDelta.key).Nodup
    | _, _ => False

theorem engineCancel_sim (o o' : Drains) (e : Engine) (accountId : AccountId)
    (req : CancelRequest) :
    Sim SameCancelled (e.cancelOrder b o accountId req) (e.cancelOrder b o' accountId req) := by
  unfold Engine.cancelOrder
  cases e.orderPair.lookup req.orderId with
  | none => exact Sim.ok ⟨rfl, trivial⟩
  | some pair =>
      dsimp only
      cases e.books.lookup pair with
      | none => exact Sim.ok ⟨rfl, trivial⟩
      | some before =>
          refine (bookCancel_sim o.levels o'.levels before accountId req.orderId).bind
            fun r r' hr => ?_
          obtain ⟨book, out⟩ := r
          obtain ⟨book', out'⟩ := r'
          obtain ⟨hbook, hout⟩ := hr
          cases hbook
          cases out with
          | none =>
              cases out' with
              | none => exact Sim.ok ⟨rfl, trivial⟩
              | some _ => exact hout.elim
          | some out =>
              cases out' with
              | none => exact hout.elim
              | some out' =>
                  obtain ⟨order, ds⟩ := out
                  obtain ⟨order', ds'⟩ := out'
                  obtain ⟨rfl, hds, hnodup⟩ := hout
                  refine Sim.bind_same fun refund => Sim.bind_same fun released => ?_
                  exact Sim.ok ⟨rfl, rfl, rfl, hds, hnodup⟩

/-- The events a command emits before the balances. -/
structure SameDeltas (evs evs' : List Event) : Prop where
  split : ∃ head ds ds', evs = head ++ ds ∧ evs' = head ++ ds' ∧ ds.Perm ds' ∧
    (∀ ev ∈ head, ev.delta? = none ∧ ev.balance? = none) ∧ ∀ ev ∈ ds, ev.delta?.isSome
  levels : ((evs.filterMap Event.delta?).map fun d => (d.1, LevelDelta.key d.2)).Nodup

theorem SameDeltas.nil : SameDeltas [] [] where
  split := ⟨[], [], [], rfl, rfl, .refl _, (fun _ h => nomatch h), fun _ h => nomatch h⟩
  levels := List.nodup_nil

/-- Some events that are neither deltas nor balances, and the deltas of one
book. -/
theorem SameDeltas.of_deltas {head : List Event} {pair : Pair} {ds ds' : List LevelDelta}
    (hhead : ∀ ev ∈ head, ev.delta? = none ∧ ev.balance? = none) (hperm : ds.Perm ds')
    (hnodup : (ds.map LevelDelta.key).Nodup) :
    SameDeltas (head ++ ds.map (deltaEvent pair)) (head ++ ds'.map (deltaEvent pair)) where
  split := by
    refine ⟨head, _, _, rfl, rfl, hperm.map _, hhead, fun ev hev => ?_⟩
    obtain ⟨d, _, rfl⟩ := List.mem_map.mp hev
    rfl
  levels := by
    have hnone : head.filterMap Event.delta? = [] :=
      List.filterMap_eq_nil_iff.mpr fun ev hev => (hhead ev hev).1
    have hdeltas : (ds.map (deltaEvent pair)).filterMap Event.delta?
        = ds.map fun d => (pair, d) := by
      rw [List.filterMap_map]
      exact (List.filterMap_congr fun d _ => rfl).trans (congrFun List.filterMap_eq_map' ds)
    rw [List.filterMap_append, hnone, hdeltas, List.nil_append, List.map_map]
    have hpair : (fun d : Pair × LevelDelta => (d.1, LevelDelta.key d.2)) ∘ (fun d => (pair, d))
        = fun d => (pair, LevelDelta.key d) := rfl
    rw [hpair, show (fun d : LevelDelta => (pair, LevelDelta.key d))
      = (fun k => (pair, k)) ∘ LevelDelta.key from rfl, ← List.map_map]
    exact hnodup.map fun _ _ hkey => (Prod.mk.inj hkey).2

theorem placeEvents_same {m m' : MatchResponse} (h : m.Same m') (accountId : AccountId)
    (req : OrderRequest) :
    SameDeltas (placeEvents accountId req m) (placeEvents accountId req m') := by
  obtain ⟨ds, rfl, hds, hnodup⟩ := h
  have hhead : ∀ ev ∈ Event.orderAccepted m.orderId accountId req.pair req.side req.orderType
      req.price req.size :: (m.trades.map Event.trade ++
        m.updates.map (OrderUpdate.toEvent req.pair)),
      ev.delta? = none ∧ ev.balance? = none := by
    intro ev hev
    rcases List.mem_cons.mp hev with rfl | hev
    · exact ⟨rfl, rfl⟩
    · rcases List.mem_append.mp hev with hev | hev
      · obtain ⟨t, _, rfl⟩ := List.mem_map.mp hev
        exact ⟨rfl, rfl⟩
      · obtain ⟨u, _, rfl⟩ := List.mem_map.mp hev
        exact ⟨rfl, rfl⟩
  exact SameDeltas.of_deltas hhead hds hnodup

theorem dispatch_sim (hs : e.Shape) (o o' : Drains) (accountId : AccountId)
    (command : Command) :
    Sim (fun r r' => r'.1 = r.1 ∧ r'.2.1 = r.2.1 ∧ SameDeltas r.2.2 r'.2.2)
      (Engine.dispatch b o e accountId command) (Engine.dispatch b o' e accountId command) := by
  cases command with
  | place req =>
      refine (placeOrder_sim hs o o' accountId req).bind fun r r' hr => ?_
      obtain ⟨e₁, result⟩ := r
      obtain ⟨e₁', result'⟩ := r'
      obtain ⟨hengine, hresult⟩ := hr
      cases hengine
      cases result with
      | error reason =>
          cases result' with
          | error reason' =>
              cases hresult
              exact Sim.ok ⟨rfl, rfl, .nil⟩
          | ok m' => exact hresult.elim
      | ok m =>
          cases result' with
          | error reason' => exact hresult.elim
          | ok m' =>
              have hsame := placeEvents_same hresult accountId req
              obtain ⟨ds, rfl, _⟩ := hresult
              exact Sim.bind_same (x := placeResponse b m) fun p => Sim.ok ⟨rfl, rfl, hsame⟩
  | cancel req =>
      refine (engineCancel_sim o o' e accountId req).bind fun r r' hr => ?_
      obtain ⟨e₁, result⟩ := r
      obtain ⟨e₁', result'⟩ := r'
      obtain ⟨hengine, hresult⟩ := hr
      cases hengine
      cases result with
      | none =>
          cases result' with
          | none => exact Sim.ok ⟨rfl, rfl, .nil⟩
          | some _ => exact hresult.elim
      | some out =>
          cases result' with
          | none => exact hresult.elim
          | some out' =>
              obtain ⟨pair, order, ds⟩ := out
              obtain ⟨pair', order', ds'⟩ := out'
              obtain ⟨rfl, rfl, hds, hnodup⟩ := hresult
              refine Sim.bind_same fun filledQty => Sim.ok ⟨rfl, rfl, ?_⟩
              refine @SameDeltas.of_deltas [_, _] _ _ _ (fun ev hev => ?_) hds hnodup
              rcases List.mem_cons.mp hev with rfl | hev
              · exact ⟨rfl, rfl⟩
              · cases List.mem_singleton.mp hev
                exact ⟨rfl, rfl⟩
  | deposit req => exact Sim.bind_same fun r => Sim.ok ⟨rfl, rfl, .nil⟩
  | withdraw req => exact Sim.bind_same fun r => Sim.ok ⟨rfl, rfl, .nil⟩
  | listPair pair =>
      rw [Engine.dispatch, Engine.dispatch]
      split
      · exact Sim.ok ⟨rfl, rfl, .nil⟩
      · exact Sim.ok ⟨rfl, rfl, .nil⟩
  | delistPair pair => exact Sim.ok ⟨rfl, rfl, .nil⟩

/-! ## `apply` -/

/-- The balances of a command, and nothing else. -/
theorem balanceEvents_eq {l : Ledger} {keys : List (AccountId × Currency)}
    {events : List Event} (h : keys.mapM (balanceEvent l) = .ok events) :
    events.filterMap Event.balance? = keys.map fun key => (key, l.balance key.1 key.2) := by
  have hall := mapM_ok.mp h
  induction hall with
  | nil => rfl
  | @cons key ev keys events hev _ ih =>
      obtain ⟨balance, hbalance, rfl⟩ := balanceEvent_ok hev
      have hrest := ih (mapM_ok.mpr ‹_›)
      simp [Event.balance?, hrest, hbalance]

theorem balanceEvents_only {l : Ledger} {keys : List (AccountId × Currency)}
    {events : List Event} (h : keys.mapM (balanceEvent l) = .ok events) :
    ∀ ev ∈ events, ev.balance?.isSome ∧ ev.delta? = none := by
  intro ev hev
  obtain ⟨key, _, hkey⟩ := forall₂_mem_right (mapM_ok.mp h) hev
  obtain ⟨balance, _, rfl⟩ := balanceEvent_ok hkey
  exact ⟨rfl, rfl⟩

/-- What a command emits before the balances carries none. -/
theorem SameDeltas.noBalance {evs evs' : List Event} (h : SameDeltas evs evs') :
    evs.filterMap Event.balance? = [] := by
  obtain ⟨head, ds, ds', rfl, rfl, hds, hhead, hdeltas⟩ := h.split
  refine List.filterMap_eq_nil_iff.mpr fun ev hev => ?_
  rcases List.mem_append.mp hev with hev | hev
  · exact (hhead ev hev).2
  · have hdelta := hdeltas ev hev
    cases ev <;> first | rfl | cases hdelta

/-- The balances join a command's events. -/
theorem SameDeltas.append {evs evs' bs bs' : List Event} {keys : List (AccountId × Currency)}
    {l : Ledger} (h : SameDeltas evs evs') (hperm : bs.Perm bs')
    (hbs : keys.mapM (balanceEvent l) = .ok bs) (hkeys : keys.Nodup) :
    SameEvents (evs ++ bs) (evs' ++ bs') := by
  have hnobalance := h.noBalance
  obtain ⟨head, ds, ds', rfl, rfl, hds, hhead, hdeltas⟩ := h.split
  have hbalances := balanceEvents_only hbs
  have hnodelta : bs.filterMap Event.delta? = [] :=
    List.filterMap_eq_nil_iff.mpr fun ev hev => (hbalances ev hev).2
  constructor
  case split =>
    exact ⟨head, ds, ds', bs, bs', rfl, rfl, hds, hperm, hhead, hdeltas,
      fun ev hev => (hbalances ev hev).1⟩
  case levels =>
    rw [List.filterMap_append, hnodelta, List.append_nil]
    exact h.levels
  case entries =>
    rw [List.filterMap_append, hnobalance, List.nil_append, balanceEvents_eq hbs, List.map_map]
    exact (List.map_id keys).symm ▸ hkeys

theorem SameDeltas.isEmpty_eq {evs evs' bs bs' : List Event} (h : SameDeltas evs evs')
    (hperm : bs.Perm bs') : (evs ++ bs).isEmpty = (evs' ++ bs').isEmpty := by
  obtain ⟨head, ds, ds', rfl, rfl, hds, _, _⟩ := h.split
  have hlen : (head ++ ds ++ bs).length = (head ++ ds' ++ bs').length := by
    simp [hds.length_eq, hperm.length_eq]
  rw [Bool.eq_iff_iff, List.isEmpty_iff_length_eq_zero, List.isEmpty_iff_length_eq_zero, hlen]

/-- The same engine, the same answer, the same batch up to the order of its
groups. -/
def SameResult (r r' : Engine × CommandResponse × Option EventBatch) : Prop :=
  r'.1 = r.1 ∧ r'.2.1 = r.2.1 ∧ SameBatch r.2.2 r'.2.2

/-- **One call** under two drain orders. -/
theorem apply_sim (hs : e.Shape) (o o' : Drains) (accountId : AccountId)
    (clientOrderId : UInt64) (command : Command) :
    Sim SameResult (apply b o e accountId clientOrderId command)
      (apply b o' e accountId clientOrderId command) := by
  unfold apply
  refine Sim.bind_same fun r => ?_
  obtain ⟨dedup, fresh⟩ := r
  cases fresh with
  | false => exact Sim.ok ⟨rfl, rfl, trivial⟩
  | true =>
      have hs' : { e with dedup := dedup : Engine }.Shape := hs.of_books rfl
      refine (dispatch_sim hs' o o' accountId command).bind fun r r' hr => ?_
      obtain ⟨e₁, response, events⟩ := r
      obtain ⟨e₁', response', events'⟩ := r'
      obtain ⟨hengine, hresponse, hevents⟩ := hr
      cases hengine
      cases hresponse
      dsimp only [Ledger.takeDirty]
      intro r h
      obtain ⟨bs, hbs, h⟩ := bind_ok.mp h
      obtain ⟨bs', hbs', hperm⟩ := Sim.mapM_drain o.dirty o'.dirty e₁.ledger.dirty bs hbs
      have hsame := hevents.append hperm hbs (o.dirty.nodup _)
      have hempty := hevents.isEmpty_eq hperm
      rw [hbs', ok_bind, ← hempty]
      cases hnil : (events ++ bs).isEmpty with
      | true =>
          rw [hnil] at h
          cases h
          exact ⟨_, rfl, rfl, rfl, trivial⟩
      | false =>
          rw [hnil] at h
          obtain ⟨nextSeq, hseq, h⟩ := bind_ok.mp h
          cases h
          exact ⟨_, bind_ok.mpr ⟨nextSeq, hseq, rfl⟩, rfl, rfl, rfl, hsame⟩

end Engine

/-! ## Runs -/

/-- The same call under another drain order. -/
def SameCall (s s' : Submission) : Prop :=
  s'.accountId = s.accountId ∧ s'.clientOrderId = s.clientOrderId ∧ s'.command = s.command

/-- The same calls, every set drained the other way round. -/
def backwards (subs : List Submission) : List Submission :=
  subs.map fun s =>
    { s with drains := { levels := s.drains.levels.reverse, dirty := s.drains.dirty.reverse } }

theorem sameCall_backwards (subs : List Submission) :
    List.Forall₂ SameCall subs (backwards subs) := by
  induction subs with
  | nil => exact .nil
  | cons s subs ih => exact .cons ⟨rfl, rfl, rfl⟩ ih

/-- The same line of history, the batch up to the order of its groups. -/
structure SameRecord (r r' : Record) : Prop where
  accountId : r'.accountId = r.accountId
  clientOrderId : r'.clientOrderId = r.clientOrderId
  command : r'.command = r.command
  response : r'.response = r.response
  batch : SameBatch r.batch r'.batch

theorem step_sim {b : Build} {e : Engine} (hs : e.Shape) {s s' : Submission}
    (hcall : SameCall s s') :
    Sim (fun r r' => r'.1 = r.1 ∧ SameRecord r.2 r'.2) (Engine.step b e s)
      (Engine.step b e s') := by
  obtain ⟨a, cid, cmd, o⟩ := s
  obtain ⟨a', cid', cmd', o'⟩ := s'
  obtain ⟨rfl, rfl, rfl⟩ := hcall
  refine (apply_sim hs o o' _ _ _).bind fun r r' hr => Sim.ok ⟨hr.1, ?_⟩
  exact ⟨rfl, rfl, rfl, hr.2.1, hr.2.2⟩

/-- **Two runs of the same calls**: the drain orders reach neither the answers
nor the engine, and stay inside the groups of the batches. -/
theorem run_sim {b : Build} {subs subs' : List Submission}
    (hcalls : List.Forall₂ SameCall subs subs') : ∀ {e : Engine}, e.Shape →
    Sim (fun r r' => r'.1 = r.1 ∧ List.Forall₂ SameRecord r.2 r'.2)
      (run (Engine.step b) e subs) (run (Engine.step b) e subs') := by
  induction hcalls with
  | nil => intro e _; exact Sim.ok ⟨rfl, .nil⟩
  | cons hcall _ ih =>
      intro e hs r h
      obtain ⟨e', ws⟩ := r
      obtain ⟨e₁, w, ws', hstep, hrun, rfl⟩ := run_cons.mp h
      obtain ⟨⟨e₁', w'⟩, hstep', hengine, hrecord⟩ := step_sim hs hcall _ hstep
      cases hengine
      obtain ⟨response, batch, happly, _⟩ := step_ok.mp hstep
      obtain ⟨⟨e₂, vs⟩, hrun', hend, hrecords⟩ := ih (apply_shape hs happly) _ hrun
      exact ⟨(e₂, w' :: vs), run_cons.mpr ⟨_, _, _, hstep', hrun', rfl⟩, hend,
        .cons hrecord hrecords⟩

end MatchingEngine
