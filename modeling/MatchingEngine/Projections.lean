import MatchingEngine.BookStore
import MatchingEngine.Conservation
import MatchingEngine.Determinism
import MatchingEngine.DbWriter

/-!
# Projections: no consumer sees a drain order

The groups of a batch are writes to different keys, and both consumers only
write what a group says: the public book its levels, the writer its balances.
So two runs of the same calls leave the same public book and the same tables
after every command (`drains_invisible`).
-/

namespace MatchingEngine

open RustArith HashModel

/-! ## The public book -/

/-- Two levels of one book can be set in either order. -/
theorem Book.setLevel_comm (book : Book) {d d' : LevelDelta} (hne : d.key ≠ d'.key) :
    (book.setLevel d).setLevel d' = (book.setLevel d').setLevel d := by
  refine Book.ext_level ?_
  simp only [Book.level_setLevel]
  exact Function.update_comm hne ..

theorem setLevel_comm (state : BookState) {d d' : Pair × LevelDelta}
    (hne : (d.1, LevelDelta.key d.2) ≠ (d'.1, LevelDelta.key d'.2)) :
    (state.setLevel d.1 d.2).setLevel d'.1 d'.2 = (state.setLevel d'.1 d'.2).setLevel d.1 d.2 := by
  have hset : ∀ (state : BookState) (pair : Pair) (d : LevelDelta), state.setLevel pair d
      = { state with books := state.books.insert pair ((state.book pair).setLevel d) } :=
    fun _ _ _ => rfl
  obtain ⟨pair, d⟩ := d
  obtain ⟨pair', d'⟩ := d'
  dsimp only at hne ⊢
  simp only [hset, BookState.book, lookup_insert_ite]
  by_cases hpair : pair = pair'
  · subst hpair
    have hkey : d.key ≠ d'.key := fun heq => hne (congrArg (Prod.mk pair) heq)
    simp only [if_true, Option.getD_some, Finmap.insert_insert]
    rw [Book.setLevel_comm _ hkey]
  · rw [if_neg (Ne.symm hpair), if_neg hpair, Finmap.insert_insert_of_ne _ hpair]

theorem SameEvents.perm {evs evs' : List Event} (h : SameEvents evs evs') : evs.Perm evs' := by
  obtain ⟨head, ds, ds', bs, bs', rfl, rfl, hds, hbs, _⟩ := h.split
  exact (hds.append_left head).append hbs

/-- **The public book** after a batch. -/
theorem applyBatch_same {batch batch' : EventBatch} (hseq : batch.seq = batch'.seq)
    (h : SameEvents batch.events batch'.events) (state : BookState) :
    state.applyBatch batch = state.applyBatch batch' := by
  have hlevels := foldl_perm (f := fun st (d : Pair × LevelDelta) => BookState.setLevel st d.1 d.2)
    (fun d d' st hne => setLevel_comm st hne) (h.perm.filterMap Event.delta?) h.levels state
  rw [BookState.applyBatch, BookState.applyBatch, foldl_applyEvent, foldl_applyEvent, hlevels,
    hseq]

/-! ## The tables -/

/-- The deltas of a batch leave the tables alone. -/
theorem stage_deltas {clock : ℕ → ℤ} {seq : UInt64} {ds : List Event}
    (hds : ∀ ev ∈ ds, ev.delta?.isSome) (n : ℕ) (tables : Tables) :
    (ds.zipIdx n).foldlM (fun tables (event, i) =>
      Tables.applyEvent (clock i) tables (eventId seq i) event) tables = some tables := by
  induction ds generalizing n with
  | nil => rfl
  | cons ev ds ih =>
      have hev := hds ev List.mem_cons_self
      have hrest := ih (fun ev hmem => hds ev (List.mem_cons_of_mem _ hmem)) (n + 1)
      cases ev with
      | bookDelta pair side price qty =>
          rw [List.zipIdx_cons, List.foldlM_cons]
          exact hrest
      | _ => cases hev

/-- The balances of a batch are written, whatever their places are. -/
theorem stage_balances {clock : ℕ → ℤ} {seq : UInt64} {bs : List Event}
    (hbs : ∀ ev ∈ bs, ev.balance?.isSome) (n : ℕ) (tables : Tables) :
    (bs.zipIdx n).foldlM (fun tables (event, i) =>
      Tables.applyEvent (clock i) tables (eventId seq i) event) tables
      = some { tables with
          balances := (bs.filterMap Event.balance?).foldl (fun rows w => rows.insert w.1 w.2)
            tables.balances } := by
  induction bs generalizing n tables with
  | nil => rfl
  | cons ev bs ih =>
      have hev := hbs ev List.mem_cons_self
      have hrest := ih (fun ev hmem => hbs ev (List.mem_cons_of_mem _ hmem)) (n + 1)
      cases ev with
      | balanceChanged accountId currency available reserved =>
          rw [List.zipIdx_cons, List.foldlM_cons]
          exact hrest _
      | _ => cases hev

/-- A batch is its head, and one write for each entry. -/
theorem stageBatch_groups {clock : ℕ → ℤ} {batch : EventBatch} {head ds bs : List Event}
    (heq : batch.events = head ++ ds ++ bs) (hds : ∀ ev ∈ ds, ev.delta?.isSome)
    (hbs : ∀ ev ∈ bs, ev.balance?.isSome) (tables : Tables) :
    tables.stageBatch clock batch
      = (tables.stageBatch clock { seq := batch.seq, events := head }).bind fun tables =>
          some { tables with
            balances := (bs.filterMap Event.balance?).foldl (fun rows w => rows.insert w.1 w.2)
              tables.balances } := by
  rw [Tables.stageBatch, heq, List.zipIdx_append, List.zipIdx_append, List.foldlM_append,
    List.foldlM_append]
  simp only [stage_deltas hds, stage_balances hbs, Option.bind_eq_bind, Option.bind_assoc,
    Option.bind_some]
  rfl

/-- **The tables** after a batch: what comes before the groups is the same, at
the same places. -/
theorem stageBatch_same {batch batch' : EventBatch} (hseq : batch.seq = batch'.seq)
    (h : SameEvents batch.events batch'.events) (clock : ℕ → ℤ) (tables : Tables) :
    tables.stageBatch clock batch = tables.stageBatch clock batch' := by
  obtain ⟨head, ds, ds', bs, bs', heq, heq', hds, hbs, hhead, hdeltas, hbalances⟩ := h.split
  have hdeltas' : ∀ ev ∈ ds', ev.delta?.isSome := fun ev hev => hdeltas ev (hds.mem_iff.mpr hev)
  have hbalances' : ∀ ev ∈ bs', ev.balance?.isSome :=
    fun ev hev => hbalances ev (hbs.mem_iff.mpr hev)
  have hentries := h.entries
  rw [heq, List.filterMap_append, List.filterMap_append, List.map_append] at hentries
  have hrows := foldl_insert_perm (hbs.filterMap Event.balance?)
    (List.nodup_append.mp hentries).2.1
  rw [stageBatch_groups heq hdeltas hbalances, stageBatch_groups heq' hdeltas' hbalances', hseq]
  simp only [hrows]

/-! ## Histories -/

/-- A trade has the same index in both batches. -/
def SameTrades (batch batch' : Option EventBatch) : Prop :=
  ∀ (i : ℕ) (t : Trade), (batchEvents batch)[i]? = some (Event.trade t) ↔
    (batchEvents batch')[i]? = some (Event.trade t)

theorem SameBatch.trades {batch batch' : Option EventBatch} (h : SameBatch batch batch') :
    SameTrades batch batch' := by
  intro i t
  match batch, batch', h with
  | none, none, _ => exact Iff.rfl
  | some batch, some batch', h =>
      obtain ⟨head, ds, ds', bs, bs', heq, heq', hds, hbs, hhead, hdeltas, hbalances⟩ := h.2.split
      -- past the head there is no trade
      have hplace : ∀ ds bs : List Event, (∀ ev ∈ ds, ev.delta?.isSome) →
          (∀ ev ∈ bs, ev.balance?.isSome) →
          ((head ++ ds ++ bs)[i]? = some (.trade t) ↔ head[i]? = some (.trade t)) := by
        intro ds bs hds hbs
        rw [List.append_assoc]
        by_cases hi : i < head.length
        · rw [List.getElem?_append_left hi]
        · have hhead : head[i]? = none := List.getElem?_eq_none (by omega)
          rw [List.getElem?_append_right (by omega), hhead]
          refine ⟨fun hin => ?_, fun hin => by cases hin⟩
          rcases List.mem_append.mp (List.mem_of_getElem? hin) with hin | hin
          · exact absurd (hds _ hin) (by simp [Event.delta?])
          · exact absurd (hbs _ hin) (by simp [Event.balance?])
      change batch.events[i]? = _ ↔ batch'.events[i]? = _
      rw [heq, heq', hplace ds bs hdeltas hbalances,
        hplace ds' bs' (fun ev hev => hdeltas ev (hds.mem_iff.mpr hev))
          (fun ev hev => hbalances ev (hbs.mem_iff.mpr hev))]

/-- The batches of two histories, one by one. -/
theorem batches_same {h h' : List Record} (hsame : List.Forall₂ SameRecord h h') :
    List.Forall₂ (fun batch batch' : EventBatch => batch.seq = batch'.seq ∧
      SameEvents batch.events batch'.events) (h.filterMap Record.batch)
      (h'.filterMap Record.batch) := by
  induction hsame with
  | nil => exact .nil
  | @cons r r' h h' hr _ ih =>
      have hbatch := hr.batch
      rw [List.filterMap_cons, List.filterMap_cons]
      cases hb : r.batch with
      | none =>
          cases hb' : r'.batch with
          | none => exact ih
          | some batch' => rw [hb, hb'] at hbatch; exact hbatch.elim
      | some batch =>
          cases hb' : r'.batch with
          | none => rw [hb, hb'] at hbatch; exact hbatch.elim
          | some batch' => rw [hb, hb'] at hbatch; exact .cons hbatch ih

theorem project_same {h h' : List Record} (hsame : List.Forall₂ SameRecord h h') :
    project h = project h' := by
  have hbatches := batches_same hsame
  rw [project, project]
  generalize h.filterMap Record.batch = batches at hbatches
  generalize h'.filterMap Record.batch = batches' at hbatches
  generalize BookState.new = state
  induction hbatches generalizing state with
  | nil => rfl
  | cons hb _ ih =>
      rw [List.foldl_cons, List.foldl_cons, applyBatch_same hb.1 hb.2]
      exact ih _

theorem stageAll_same {h h' : List Record} (hsame : List.Forall₂ SameRecord h h')
    (clock : ℕ → ℕ → ℤ) (tables : Tables) :
    tables.stageAll clock (h.filterMap Record.batch)
      = tables.stageAll clock (h'.filterMap Record.batch) := by
  have hbatches := batches_same hsame
  rw [Tables.stageAll, Tables.stageAll]
  generalize h.filterMap Record.batch = batches at hbatches
  generalize h'.filterMap Record.batch = batches' at hbatches
  generalize 0 = k
  induction hbatches generalizing k tables with
  | nil => rfl
  | cons hb _ ih =>
      rw [List.zipIdx_cons, List.zipIdx_cons, List.foldlM_cons, List.foldlM_cons]
      dsimp only
      rw [stageBatch_same hb.1 hb.2]
      exact congrArg _ (funext fun tables => ih tables (k + 1))

/-- **No consumer sees a drain order.** Of two runs of the same calls, one
returns when the other does; after every command the engine is the same, the
batches are the same up to the order inside their groups with every trade at
the same index, and the public book and the tables are equal. -/
theorem drains_invisible {b : Build} {limits : Limits} {subs subs' : List Submission}
    {e : Engine} {h : List Record} (hcalls : List.Forall₂ SameCall subs subs')
    (hrun : run (Engine.step b) (Engine.new limits) subs = .ok (e, h)) :
    ∃ h', run (Engine.step b) (Engine.new limits) subs' = .ok (e, h') ∧
      List.Forall₂ (fun r r' => SameRecord r r' ∧ SameTrades r.batch r'.batch) h h' ∧
      ∀ n, (∃ eₙ, run (Engine.step b) (Engine.new limits) (subs.take n) = .ok (eₙ, h.take n) ∧
          run (Engine.step b) (Engine.new limits) (subs'.take n) = .ok (eₙ, h'.take n)) ∧
        project (h.take n) = project (h'.take n) ∧
        ∀ clock, Tables.empty.stageAll clock ((h.take n).filterMap Record.batch)
          = Tables.empty.stageAll clock ((h'.take n).filterMap Record.batch) := by
  obtain ⟨⟨e', h'⟩, hrun', hend, hrecords⟩ := run_sim hcalls (Engine.new_shape limits) _ hrun
  cases hend
  refine ⟨h', hrun', hrecords.imp fun r r' hr => ⟨hr, hr.batch.trades⟩, fun n => ?_⟩
  obtain ⟨eₙ, htake⟩ := run_take hrun n
  obtain ⟨eₙ', htake'⟩ := run_take hrun' n
  obtain ⟨r', hr', hendₙ, hrecordsₙ⟩ :=
    run_sim (List.forall₂_take n hcalls) (Engine.new_shape limits) _ htake
  rw [htake'] at hr'
  cases hr'
  cases hendₙ
  exact ⟨⟨eₙ, htake, htake'⟩, project_same hrecordsₙ, fun clock => stageAll_same hrecordsₙ clock _⟩

/-- The trading run, drained backwards. -/
theorem drains_invisible_trading :
    ∃ h', run (Engine.step .release) (Engine.new .default) (backwards (submit tradingCalls))
        = .ok ((finish .default (runCalls .release .default tradingCalls)).1, h') :=
  (drains_invisible (sameCall_backwards _) (runCalls_eq tradingCalls_returned)).imp
    fun _ h => h.1

end MatchingEngine
