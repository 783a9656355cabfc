import MatchingEngine.Conservation
import MatchingEngine.Determinism
import MatchingEngine.DbWriter
import MatchingEngine.Dirty

/-!
# Balances: the table of balances is the ledger

A batch carries one balance for every entry the command changed, with the
value it has at the end of the command (`apply_balances`); so the table that
keeps the last of them is the ledger after every command
(`balances_projection`).
-/

namespace MatchingEngine

open RustArith HashModel

/-- Only the balances of a batch matter. -/
theorem foldl_balanceStep (events : List Event) :
    ∀ rows : HashMap (AccountId × Currency) Balance,
    events.foldl balanceStep rows
      = (events.filterMap Event.balance?).foldl (fun rows w => rows.insert w.1 w.2) rows := by
  induction events with
  | nil => intro rows; rfl
  | cons event events ih =>
      intro rows
      cases event <;> exact ih _

section Apply

variable {b : Build} {o : Drains} {e e' : Engine} {accountId : AccountId}
  {clientOrderId : UInt64} {command : Command} {response : CommandResponse}
  {batch : Option EventBatch}

/-- **The balances of a batch**: one for each entry the command marked, as it is
at the end of the command; every other entry is what it was. -/
theorem apply_balances (hs : e.Shape)
    (h : apply b o e accountId clientOrderId command = .ok (e', response, batch)) :
    ∃ keys : List (AccountId × Currency), keys.Nodup ∧
      (batchEvents batch).filterMap Event.balance?
        = keys.map (fun key => (key, e'.ledger.balance key.1 key.2)) ∧
      ∀ a c, (a, c) ∉ keys → e'.ledger.balance a c = e.ledger.balance a c := by
  rcases apply_ok h with ⟨rfl, _, rfl⟩ | ⟨dedup, e₁, events, bevs, _, hdispatch, hbevs, hend⟩
  · exact ⟨[], List.nodup_nil, rfl, fun _ _ _ => rfl⟩
  have hs₀ : { e with dedup := dedup : Engine }.Shape := hs.of_books rfl
  obtain ⟨r', hsame, _, _, hdeltas⟩ := dispatch_sim hs₀ o o accountId command _ hdispatch
  have htracked := dispatch_tracked hdispatch
  have hframe : ∀ a c, (a, c) ∉ o.dirty.toList e₁.ledger.dirty →
      e₁.ledger.balance a c = e.ledger.balance a c := fun a c hno =>
    htracked.frame a c fun hin => hno ((o.dirty.mem_toList _ _).mpr hin)
  have hreport : (events ++ bevs).filterMap Event.balance?
      = (o.dirty.toList e₁.ledger.dirty).map fun key =>
          (key, e₁.ledger.balance key.1 key.2) := by
    rw [List.filterMap_append, hdeltas.noBalance, List.nil_append]
    exact balanceEvents_eq hbevs
  refine ⟨o.dirty.toList e₁.ledger.dirty, o.dirty.nodup _, ?_⟩
  rcases hend with ⟨hnil, rfl, rfl⟩ | ⟨_, _, _, rfl, rfl⟩
  · rw [hnil] at hreport
    exact ⟨hreport, hframe⟩
  · exact ⟨hreport, hframe⟩

end Apply

/-- **The table of balances matches the ledger** after every command of every
run, also where the whole batches are staged; and a batch sets an entry at
most once, to its value at the end of the command. -/
theorem balances_projection {b : Build} {limits : Limits} {h : List Record} {e : Engine}
    (hr : Reaches b limits h e) :
    (∀ a c, ((balanceRows h).lookup (a, c)).getD {} = e.ledger.balance a c) ∧
      (∀ clock tables, Tables.empty.stageAll clock (h.filterMap Record.batch) = some tables →
        tables.balances = balanceRows h) ∧
      ∀ s e' r batch, Engine.step b e s = .ok (e', r) → r.batch = some batch →
        ((batch.events.filterMap Event.balance?).map Prod.fst).Nodup ∧
          ∀ key balance, (key, balance) ∈ batch.events.filterMap Event.balance? →
            balance = e'.ledger.balance key.1 key.2 := by
  refine ⟨?_, fun clock tables hstage => (stageAll_rows hstage).1, ?_⟩
  · have hrows : e.Shape ∧
        ∀ a c, ((balanceRows h).lookup (a, c)).getD {} = e.ledger.balance a c := by
      refine hr.invariant (motive := fun h e => e.Shape ∧
        ∀ a c, ((balanceRows h).lookup (a, c)).getD {} = e.ledger.balance a c) ?_ ?_
      · exact ⟨Engine.new_shape limits, fun a c => rfl⟩
      · intro h e o a cid cmd e' response batch ⟨hs, ih⟩ happly
        refine ⟨apply_shape hs happly, fun a' c' => ?_⟩
        obtain ⟨keys, _, hreport, hframe⟩ := apply_balances hs happly
        rw [balanceRows, eventsOf_append, List.foldl_append, ← balanceRows, eventsOf_singleton,
          foldl_balanceStep, hreport]
        rw [lookup_foldl_insert, List.map_map]
        have hwritten : (a', c') ∈ keys ↔ (a', c') ∈ (keys.map ((fun w => (w.1, some w.2)) ∘
            fun key => (key, e'.ledger.balance key.1 key.2))).map Prod.fst := by
          rw [List.map_map]
          exact (List.map_id keys).symm ▸ Iff.rfl
        by_cases hkey : (a', c') ∈ keys
        · have hset := Writes.sets_eq (m := fun key => (balanceRows h).lookup key)
            (v := some (e'.ledger.balance a' c')) (fun v hin => ?_)
            fun hno => absurd (hwritten.mp hkey) hno
          · rw [hset, Option.getD_some]
          · obtain ⟨key, _, heq⟩ := List.mem_map.mp hin
            cases heq
            rfl
        · rw [Writes.sets_of_notMem fun hin => hkey (hwritten.mpr hin), ih, hframe a' c' hkey]
    exact hrows.2
  · intro s e' r batch hstep hbatch
    obtain ⟨response, batch', happly, rfl⟩ := step_ok.mp hstep
    cases hbatch
    obtain ⟨keys, hnodup, hreport, _⟩ := apply_balances hr.shape happly
    rw [batchEvents] at hreport
    rw [hreport]
    refine ⟨?_, fun key balance hin => ?_⟩
    · rw [List.map_map]
      exact (List.map_id keys).symm ▸ hnodup
    · obtain ⟨key', _, heq⟩ := List.mem_map.mp hin
      cases heq
      rfl

/-- After the trading run account 1 has a row, and it is what the ledger says. -/
theorem balances_projection_trading :
    ((balanceRows (finish .default (runCalls .release .default tradingCalls)).2).lookup
        (1, .USD)).getD {}
      = (finish .default (runCalls .release .default tradingCalls)).1.ledger.balance 1 .USD :=
  (balances_projection (reaches_runCalls tradingCalls_returned)).1 1 .USD

end MatchingEngine
