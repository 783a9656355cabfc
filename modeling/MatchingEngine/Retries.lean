import MatchingEngine.Replies

/-!
# Retries: a request sent again

"The client's X-Client-Order-Id makes a retry safe": a key is answered 409
exactly while an entry that took it is among the last thousand its account had
taken (`conflict_iff`), and an answer that is a client's error means that the
entry changed nothing (`refusal_harmless`). So a client that got no answer sends
the same key again until it gets one.
-/

namespace MatchingEngine

open RustArith HashModel LogModel SystemModel

/-- How many commands of an account were taken as new among the first `k`
entries, refused ones included. -/
def takenBefore (cfg : Config) (commands : Log CommandEnvelope) (a : AccountId) (k : ℕ) : ℕ :=
  match cfg.fold (commands.upTo k) with
  | .ok (_, hist) => (acceptedIds hist a).length
  | .error _ => 0

/-- The entry at `k` took the key of its account. -/
structure TookAt (cfg : Config) (commands : Log CommandEnvelope) (a : AccountId)
    (clientOrderId : UInt64) (k : ℕ) (envelope : CommandEnvelope) (response : CommandResponse) :
    Prop where
  account : envelope.accountId = a
  key : envelope.clientOrderId = clientOrderId
  answered : AnsweredAt cfg commands k envelope response
  fresh : response ≠ .duplicate

section

variable {cfg : Config} {commands : Log CommandEnvelope} {k : ℕ} {envelope : CommandEnvelope}
  {response : CommandResponse} {cs : List CommandEnvelope} {e e' : Engine}
  {hist hist' : List Record} {a : AccountId} {clientOrderId : UInt64}

/-- The last step of a fold. -/
theorem fold_snoc_ok (hfold : cfg.fold (cs ++ [envelope]) = .ok (e', hist')) :
    ∃ e hist response batch, cfg.fold cs = .ok (e, hist) ∧
      apply cfg.build .sorted e envelope.accountId envelope.clientOrderId envelope.command
        = .ok (e', response, batch) ∧
      hist' = hist ++ [⟨envelope.accountId, envelope.clientOrderId, envelope.command, response,
        batch⟩] := by
  rw [Config.fold, runCalls, List.map_append, submit, List.map_append] at hfold
  obtain ⟨e, hist, r, hrun, hstep, rfl⟩ := run_snoc.mp hfold
  obtain ⟨response, batch, happly, rfl⟩ := step_ok.mp hstep
  exact ⟨e, hist, response, batch, hrun, happly, rfl⟩

theorem takenBefore_eq (hfold : cfg.fold (commands.upTo k) = .ok (e, hist)) (a : AccountId) :
    takenBefore cfg commands a k = (acceptedIds hist a).length := by
  rw [takenBefore, hfold]

theorem acceptedIds_snoc (hist : List Record) (r : Record) (a : AccountId) :
    acceptedIds (hist ++ [r]) a = acceptedIds hist a
      ++ if r.accountId = a ∧ r.response ≠ .duplicate then [r.clientOrderId] else [] := by
  by_cases ha : r.accountId = a <;> by_cases hdup : r.response = .duplicate <;>
    simp [acceptedIds, callsOf, ha, hdup]

theorem getElem?_snoc_if {α : Type} (l : List α) (x y : α) (c : Prop) [Decidable c] (p : ℕ) :
    (l ++ if c then [x] else [])[p]? = some y ↔
      l[p]? = some y ∨ c ∧ x = y ∧ l.length = p := by
  by_cases hc : c
  · rw [if_pos hc, List.getElem?_append]
    split
    · rename_i hlt
      exact ⟨.inl, fun h => h.resolve_right fun h => absurd h.2.2 hlt.ne'⟩
    · rename_i hge
      rw [List.getElem?_eq_none (Nat.le_of_not_lt hge), List.getElem?_singleton]
      simp only [reduceCtorEq, false_or, hc, true_and]
      split
      · simp only [Option.some.injEq]
        exact ⟨fun h => ⟨h, by omega⟩, fun h => h.1⟩
      · simp only [reduceCtorEq, false_iff]
        rintro ⟨_, heq⟩
        omega
  · rw [if_neg hc, List.append_nil]
    exact ⟨.inl, fun h => h.resolve_right fun h => hc h.1⟩

/-- Who took a key at the last entry of a fold. -/
theorem tookAt_iff (hanswered : AnsweredAt cfg commands k envelope response) :
    (∃ envelope' response', TookAt cfg commands a clientOrderId k envelope' response') ↔
      (envelope.accountId = a ∧ response ≠ .duplicate) ∧
        envelope.clientOrderId = clientOrderId := by
  constructor
  · rintro ⟨envelope', response', htook⟩
    have hsame := hanswered.1.symm.trans htook.answered.1
    cases hsame
    cases hanswered.unique htook.answered
    exact ⟨⟨htook.account, htook.fresh⟩, htook.key⟩
  · rintro ⟨⟨ha, hfresh⟩, hkey⟩
    exact ⟨envelope, response, ha, hkey, hanswered, hfresh⟩

/-- **The ids an account had taken**, each at the place of the entry that took
it. -/
theorem acceptedIds_iff (hfold : cfg.fold (commands.upTo k) = .ok (e, hist)) (p : ℕ) :
    (acceptedIds hist a)[p]? = some clientOrderId ↔
      ∃ j envelope response, j < k ∧ TookAt cfg commands a clientOrderId j envelope response ∧
        takenBefore cfg commands a j = p := by
  induction k generalizing e hist with
  | zero =>
      cases hfold
      exact iff_of_false (by simp [acceptedIds, callsOf]) (by rintro ⟨j, _, _, hlt, _⟩; omega)
  | succ k ih =>
      have hsplit : ∀ {e₀ hist₀}, cfg.fold (commands.upTo k) = .ok (e₀, hist₀) →
          ((∃ j envelope response, j < k + 1 ∧
              TookAt cfg commands a clientOrderId j envelope response ∧
              takenBefore cfg commands a j = p) ↔
            (acceptedIds hist₀ a)[p]? = some clientOrderId ∨
              (∃ envelope response, TookAt cfg commands a clientOrderId k envelope response) ∧
                (acceptedIds hist₀ a).length = p) := by
        intro e₀ hist₀ hfold₀
        rw [ih hfold₀, ← takenBefore_eq hfold₀ a]
        constructor
        · rintro ⟨j, envelope, response, hlt, htook, hp⟩
          rcases Nat.lt_succ_iff_lt_or_eq.mp hlt with hlt | rfl
          · exact .inl ⟨j, envelope, response, hlt, htook, hp⟩
          · exact .inr ⟨⟨envelope, response, htook⟩, hp⟩
        · rintro (⟨j, envelope, response, hlt, htook, hp⟩ | ⟨⟨envelope, response, htook⟩, hp⟩)
          · exact ⟨j, envelope, response, Nat.lt_succ_of_lt hlt, htook, hp⟩
          · exact ⟨k, envelope, response, Nat.lt_succ_self k, htook, hp⟩
      cases hget : commands.all[k]? with
      | some entry =>
          rw [Log.upTo_succ hget] at hfold
          cases entry with
          | some envelope =>
              obtain ⟨e₀, hist₀, response, batch, hfold₀, happly, rfl⟩ := fold_snoc_ok hfold
              have hanswered : AnsweredAt cfg commands k envelope response :=
                ⟨hget, e₀, hist₀, .sorted, e, batch, hfold₀, happly⟩
              rw [hsplit hfold₀, tookAt_iff hanswered, acceptedIds_snoc, getElem?_snoc_if,
                and_assoc (c := _ = p)]
          | none =>
              rw [Option.toList_none, List.append_nil] at hfold
              rw [hsplit hfold]
              refine ⟨.inl, fun h => h.resolve_right ?_⟩
              rintro ⟨⟨_, _, htook⟩, _⟩
              cases hget.symm.trans htook.answered.1
      | none =>
          have hsame : commands.upTo (k + 1) = commands.upTo k := by
            have hle := List.getElem?_eq_none_iff.mp hget
            rw [Log.upTo, Log.upTo, List.take_of_length_le hle,
              List.take_of_length_le (Nat.le_succ_of_le hle)]
          rw [hsame] at hfold
          rw [hsplit hfold]
          refine ⟨.inl, fun h => h.resolve_right ?_⟩
          rintro ⟨⟨_, _, htook⟩, _⟩
          cases hget.symm.trans htook.answered.1

/-- **A key in the window**: an entry took it, and it is among the last thousand
its account took. -/
theorem mem_window_iff (hfold : cfg.fold (commands.upTo k) = .ok (e, hist)) :
    clientOrderId ∈ (acceptedIds hist a).rtake 1000 ↔
      ∃ j envelope response, j < k ∧ TookAt cfg commands a clientOrderId j envelope response ∧
        takenBefore cfg commands a k ≤ takenBefore cfg commands a j + 1000 := by
  rw [takenBefore_eq hfold a, List.rtake, List.mem_iff_getElem?]
  constructor
  · rintro ⟨i, hi⟩
    rw [List.getElem?_drop] at hi
    obtain ⟨j, envelope, response, hlt, htook, hp⟩ := (acceptedIds_iff hfold _).mp hi
    exact ⟨j, envelope, response, hlt, htook, by omega⟩
  · rintro ⟨j, envelope, response, hlt, htook, hle⟩
    have hget := (acceptedIds_iff hfold _).mpr ⟨j, envelope, response, hlt, htook, rfl⟩
    have hplace : (acceptedIds hist a).length - 1000
        + (takenBefore cfg commands a j - ((acceptedIds hist a).length - 1000))
          = takenBefore cfg commands a j := by omega
    refine ⟨takenBefore cfg commands a j - ((acceptedIds hist a).length - 1000), ?_⟩
    rw [List.getElem?_drop, hplace]
    exact hget

end

/-! ## What a status says -/

/-- An answer with a client's error: a refusal of the engine. -/
def StatusCode.clientError : StatusCode → Bool
  | .badRequest => true
  | .unauthorized => true
  | .forbidden => true
  | .notFound => true
  | .conflict => true
  | _ => false

theorem clientError_iff (response : CommandResponse) :
    (responseFor response).status.clientError = response.rejected := by
  cases response with
  | place res => cases res <;> rfl
  | cancel found => cases found <;> rfl
  | deposit res => cases res <;> rfl
  | withdraw res => cases res <;> rfl
  | listPair res => cases res <;> rfl
  | delistPair removed => cases removed <;> rfl
  | duplicate => rfl

theorem conflict_iff_duplicate (response : CommandResponse) :
    (responseFor response).status = .conflict ↔ response = .duplicate := by
  cases response with
  | place res => cases res <;> simp [responseFor]
  | cancel found => cases found <;> simp [responseFor, ApiError.intoResponse]
  | deposit res => cases res <;> simp [responseFor]
  | withdraw res => cases res <;> simp [responseFor]
  | listPair res => cases res <;> simp [responseFor]
  | delistPair removed => cases removed <;> simp [responseFor, ApiError.intoResponse]
  | duplicate => simp [responseFor]

/-- A refused command changes nothing observable. -/
theorem apply_unchanged {b : Build} {o : Drains} {e e' : Engine} {accountId : AccountId}
    {clientOrderId : UInt64} {command : Command} {response : CommandResponse}
    {batch : Option EventBatch} (hs : e.Shape) (hb : e.Backed) (hfit : e.Fits b)
    (hclean : e.ledger.dirty = ∅) (hrejected : response.rejected = true)
    (happly : apply b o e accountId clientOrderId command = .ok (e', response, batch)) :
    e.Unchanged e' := by
  rcases apply_ok happly with ⟨rfl, _, _⟩ | ⟨dedup, e₁, events, bevs, _, hdispatch, hbevs, hend⟩
  · exact .refl _
  have hsettled := dispatch_settled (e := e.keyed dedup) (hs.of_books rfl) hb hfit hdispatch
  have hu := hsettled.unchanged hrejected
  rcases hend with ⟨_, _, rfl⟩ | ⟨_, hne, _⟩
  · exact ⟨hu.books, hu.orderPair, hu.nextOrderId, hu.nextSeq, hu.listedPairs, hu.limits,
      hclean.symm, hu.balance⟩
  · -- nothing to report, so no batch
    obtain ⟨hevents, hdirty⟩ := hsettled.silent (accepted_of_rejected hrejected)
    exact absurd ((report_eq_nil events o.dirty hbevs).mpr ⟨hevents, hdirty.trans hclean⟩) hne

/-! ## Runs -/

section

variable {cfg : Config} {g : Gateway} {id : Uuid} {h : Handler} {response : CommandResponse}

/-- **409 says what it should.** A request is answered with a conflict exactly if
an entry before its own took the same key of the same account, and the account
took at most a thousand commands from that entry on. -/
theorem conflict_iff (hruns : Runs (Gateway.step cfg) (Gateway.Recovers cfg) .init g)
    (hlookup : g.handlers.lookup id = some h) (hdone : h.phase = .done (.ok response)) :
    ∃ k, g.world.commands.all[k]? = some (some h.envelope) ∧
      ((responseFor response).status = .conflict ↔
        ∃ j envelope first, j < k ∧
          TookAt cfg g.world.commands h.envelope.accountId h.envelope.clientOrderId j envelope
            first ∧
          takenBefore cfg g.world.commands h.envelope.accountId k
            ≤ takenBefore cfg g.world.commands h.envelope.accountId j + 1000) := by
  obtain ⟨k, hget, e, hist, o, e', batch, hfold, happly⟩ :=
    (Gateway.sound hruns).answeredAt (Gateway.logged hruns) hlookup hdone
  have hd := (fold_reaches hfold).windowed
  have hkey : (h.envelope.accountId, h.envelope.clientOrderId) ∈ e.dedup.seen ↔
      h.envelope.clientOrderId ∈ (acceptedIds hist h.envelope.accountId).rtake 1000 := by
    rw [hd.seen, hd.recent]
    rfl
  refine ⟨k, hget, ?_⟩
  rw [conflict_iff_duplicate, ← mem_window_iff hfold, ← hkey]
  rcases apply_key happly with ⟨hseen, hdup, _, _⟩ | ⟨hnew, hinsert⟩
  · exact iff_of_true hdup hseen
  · exact iff_of_false hnew (Dedup.insert_ok hinsert).1

/-- **A client's error is harmless.** A request that is answered 4xx by the engine
was refused, and its entry left the exchange as it was: where the net deposits before
it fit their words, the fold after it has the books, listings, sequence numbers and
balances of the fold before it. -/
theorem refusal_harmless (hruns : Runs (Gateway.step cfg) (Gateway.Recovers cfg) .init g)
    (hlookup : g.handlers.lookup id = some h) (hdone : h.phase = .done (.ok response))
    (hstatus : (responseFor response).status.clientError = true) :
    ∃ k e hist e' hist', g.world.commands.all[k]? = some (some h.envelope) ∧
      cfg.fold (g.world.commands.upTo k) = .ok (e, hist) ∧
      cfg.fold (g.world.commands.upTo (k + 1)) = .ok (e', hist') ∧
      (cfg.build.Checks (NetBelow hist) → e.Unchanged e') := by
  obtain ⟨k, hget, e, hist, o, e', batch, hfold, happly⟩ :=
    (Gateway.sound hruns).answeredAt (Gateway.logged hruns) hlookup hdone
  obtain ⟨r, hnext, _⟩ := fold_snoc hfold happly
  refine ⟨k, e, hist, e', hist ++ [r], hget, hfold, ?_, fun hnet => ?_⟩
  · rw [Log.upTo_succ hget]
    exact hnext
  · have hr := fold_reaches hfold
    have hacc := hr.accounted hnet
    rw [clientError_iff] at hstatus
    exact apply_unchanged hacc.shape hacc.backed (hacc.fits hnet) hr.clean hstatus happly

end

/-! ## The same key twice -/

/-- The second of two deposits under one key is answered 409. -/
theorem conflict_iff_twice : ∃ (g : Gateway) (h : Handler) (k j : ℕ),
    g.handlers.lookup 8 = some h ∧ h.phase = .done (.ok .duplicate) ∧
      g.world.commands.all[k]? = some (some h.envelope) ∧ j < k := by
  have hcheck : (exec (Gateway.step everyCommand) (gatewayCheck everyCommand) .init
      (gatewayBoot ++ answered 1 7 ++ answered 1 8)).any (fun g =>
        g.response? 8 = some .duplicate) = true := by decide +kernel
  obtain ⟨g, hruns, hg⟩ := exists_run gateway_of_check hcheck
  obtain ⟨h, hlookup, hdone⟩ := Gateway.done_of_response? (of_decide_eq_true hg)
  obtain ⟨k, hget, hconflict⟩ := conflict_iff hruns hlookup hdone
  obtain ⟨j, _, _, hlt, _⟩ := hconflict.mp rfl
  exact ⟨g, h, k, j, hlookup, hdone, hget, hlt⟩

/-- Whether the deposits of every prefix of the log fit a word. -/
def depositsCheck (cfg : Config) (commands : Log CommandEnvelope) : Bool :=
  (List.range commands.lastId).all fun k =>
    match cfg.fold (commands.upTo k) with
    | .ok r => deposits r.2 .SOL < 2 ^ 64 ∧ deposits r.2 .USD < 2 ^ 64
    | .error _ => true

theorem netBelow_of_check {cfg : Config} {commands : Log CommandEnvelope} {k : ℕ} {e : Engine}
    {hist : List Record} (h : depositsCheck cfg commands = true) (hk : k < commands.lastId)
    (hfold : cfg.fold (commands.upTo k) = .ok (e, hist)) : NetBelow hist := by
  have hhere := List.all_eq_true.mp h k (List.mem_range.mpr hk)
  rw [hfold] at hhere
  obtain ⟨hsol, husd⟩ := of_decide_eq_true hhere
  refine netBelow_of_deposits fun c => ?_
  cases c with
  | SOL => exact hsol
  | USD => exact husd

/-- The second of two deposits under one key changed nothing. -/
theorem refusal_harmless_twice : ∃ (g : Gateway) (h : Handler) (k : ℕ) (e e' : Engine)
    (hist hist' : List Record),
    g.handlers.lookup 8 = some h ∧ h.phase = .done (.ok .duplicate) ∧
      everyCommand.fold (g.world.commands.upTo k) = .ok (e, hist) ∧
      everyCommand.fold (g.world.commands.upTo (k + 1)) = .ok (e', hist') ∧ e.Unchanged e' := by
  have hcheck : (exec (Gateway.step everyCommand) (gatewayCheck everyCommand) .init
      (gatewayBoot ++ answered 1 7 ++ answered 1 8)).any (fun g =>
        g.response? 8 = some .duplicate ∧ depositsCheck everyCommand g.world.commands) = true := by
    decide +kernel
  obtain ⟨g, hruns, hg⟩ := exists_run gateway_of_check hcheck
  obtain ⟨hresponse, hdeposits⟩ := of_decide_eq_true hg
  obtain ⟨h, hlookup, hdone⟩ := Gateway.done_of_response? hresponse
  obtain ⟨k, e, hist, e', hist', hget, hfold, hnext, hsame⟩ :=
    refusal_harmless hruns hlookup hdone rfl
  have hlt : k < g.world.commands.lastId := (List.getElem?_eq_some_iff.mp hget).1
  exact ⟨g, h, k, e, e', hist, hist', hlookup, hdone, hfold, hnext,
    hsame (.inr (netBelow_of_check hdeposits hlt hfold))⟩

end MatchingEngine
