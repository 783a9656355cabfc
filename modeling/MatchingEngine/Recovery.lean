import MatchingEngine.Runtime

/-!
# Recovery: what the engine is after a boot

The engine, the snapshot and the group's cursor each stand for the fold of
`apply` over the commands up to some id (`Sound`). A boot keeps that when the
snapshot it loads holds everything that was trimmed; `load` turns a bad
snapshot into "replay from the start", but after a trim there is no start to
replay from (`lostSnapshot`).
-/

namespace MatchingEngine

open RustArith HashModel LogModel SystemModel

/-! ## The fold of the commands -/

/-- The call an entry asks for; the correlation id plays no part in it. -/
def CommandEnvelope.call (env : CommandEnvelope) : AccountId × UInt64 × Command :=
  (env.accountId, env.clientOrderId, env.command)

/-- `apply` over some commands, from `Engine::new`: what the engine should be after
them, and all it answered and emitted. -/
def Config.fold (cfg : Config) (cs : List CommandEnvelope) : Exec (Engine × List Record) :=
  runCalls cfg.build cfg.limits (cs.map CommandEnvelope.call)

section

variable {cfg : Config} {cs : List CommandEnvelope} {e e' : Engine} {h ws : List Record}

theorem fold_nil (cfg : Config) : cfg.fold [] = .ok (Engine.new cfg.limits, []) := rfl

theorem fold_reaches (hfold : cfg.fold cs = .ok (e, h)) : Reaches cfg.build cfg.limits h e :=
  ⟨_, hfold⟩

theorem sameCall_replay (o : ℕ → Drains) (entries : List (Option CommandEnvelope × ℕ)) :
    List.Forall₂ SameCall (replay o entries)
      (submit ((Log.parsed entries).map CommandEnvelope.call)) := by
  induction entries with
  | nil => exact .nil
  | cons entry entries ih =>
      obtain ⟨entry, id⟩ := entry
      cases entry with
      | none => exact ih
      | some env => exact .cons ⟨rfl, rfl, rfl⟩ ih

/-- A replay goes on with the fold, whatever the drain orders. -/
theorem fold_replay {o : ℕ → Drains} {entries : List (Option CommandEnvelope × ℕ)}
    (hfold : cfg.fold cs = .ok (e, h))
    (hrun : run (Engine.step cfg.build) e (replay o entries) = .ok (e', ws)) :
    ∃ h', cfg.fold (cs ++ Log.parsed entries) = .ok (e', h') := by
  obtain ⟨⟨_, ws'⟩, hrun', hend, _⟩ :=
    run_sim (sameCall_replay o entries) (fold_reaches hfold).shape _ hrun
  cases hend
  refine ⟨h ++ ws', ?_⟩
  rw [Config.fold, runCalls, List.map_append, submit, List.map_append, run_append]
  exact ⟨e, h, ws', hfold, hrun', rfl⟩

/-- One command more: the same engine as with the sorted drains, and a batch
that differs from that fold's in the order of its groups alone. -/
theorem fold_snoc {o : Drains} {env : CommandEnvelope} {response : CommandResponse}
    {batch : Option EventBatch} (hfold : cfg.fold cs = .ok (e, h))
    (happly : apply cfg.build o e env.accountId env.clientOrderId env.command
      = .ok (e', response, batch)) :
    ∃ r, cfg.fold (cs ++ [env]) = .ok (e', h ++ [r]) ∧ SameBatch r.batch batch := by
  have hshape := (fold_reaches hfold).shape
  obtain ⟨⟨_, response', batch'⟩, happly', hend, _⟩ :=
    apply_sim hshape o .sorted _ _ _ _ happly
  cases hend
  obtain ⟨_, hagain, _, _, hbatch⟩ := apply_sim hshape .sorted o _ _ _ _ happly'
  rw [happly] at hagain
  cases hagain
  refine ⟨⟨env.accountId, env.clientOrderId, env.command, response', batch'⟩, ?_, hbatch⟩
  rw [Config.fold, runCalls, List.map_append, submit, List.map_append]
  exact run_snoc.mpr ⟨e, h, _, hfold, step_ok.mpr ⟨response', batch', happly', rfl⟩, rfl⟩

end

/-! ## What is sound -/

/-- The engine is the fold of the commands up to `id`, and the snapshot is not
ahead of it. -/
structure EngineAt (cfg : Config) (commands : Log CommandEnvelope)
    (file : SnapshotFile SavedEngine) (engine : Engine) (id : ℕ) : Prop where
  there : id ≤ commands.lastId
  saved : ∀ snap, cfg.loaded file = some snap → snap.lastId ≤ id
  fold : ∃ h, cfg.fold (commands.upTo id) = .ok (engine, h)

/-- The entry a stage is about. -/
def Stage.entry? : Stage → Option ℕ
  | .next => none
  | .applied id _ _ => some id
  | .emitted id _ => some id
  | .published id => some id
  | .acked id => some id
  | .saved id => some id

/-- The engine at `done`, the rest of the reply still to be handled. -/
structure Reading (cfg : Config) (commands : Log CommandEnvelope)
    (file : SnapshotFile SavedEngine) (cursor : ℕ) (engine : Engine)
    (reply : List (Option CommandEnvelope × ℕ)) (stage : Stage) (done : ℕ) : Prop where
  here : EngineAt cfg commands file engine done
  le_cursor : done ≤ cursor
  rest : reply = commands.segment done cursor
  stage : ∀ id, stage.entry? = some id → id = done

/-- Wherever the process is, its engine is the fold of the commands it has handled. -/
def ProcessSound (cfg : Config) (commands : Log CommandEnvelope)
    (file : SnapshotFile SavedEngine) (cursor : ℕ) : Process → Prop
  | .down => True
  | .booted => True
  | .recovered engine lastId =>
      EngineAt cfg commands file engine (lastId.getD cursor) ∧
        commands.trimmed ≤ lastId.getD cursor
  | .running engine _ reply stage =>
      ∃ done, Reading cfg commands file cursor engine reply stage done

/-- A snapshot is the fold of the commands up to its id. -/
def FileSound (cfg : Config) (commands : Log CommandEnvelope)
    (file : SnapshotFile SavedEngine) (cursor : ℕ) : Prop :=
  ∀ snap, cfg.loaded file = some snap → snap.lastId ≤ cursor ∧
    ∃ e h, cfg.fold (commands.upTo snap.lastId) = .ok (e, h) ∧ snap.state = e.serialize

/-- The group is ahead of the trims and behind the end of the stream; snapshot and
process are sound. Nothing is said about `events`. -/
structure World.Sound (cfg : Config) (w : World) : Prop where
  group : w.group = none → w.process = .down
  trimmed : w.commands.trimmed ≤ w.cursor
  cursor : w.cursor ≤ w.commands.lastId
  file : FileSound cfg w.commands w.file w.cursor
  process : ProcessSound cfg w.commands w.file w.cursor w.process

/-- The snapshot a boot loads, or the start of the stream where it loads none,
is not followed by a command that is gone. -/
def World.Recoverable (cfg : Config) (w : World) : Prop :=
  Log.parsed (w.commands.segment (cfg.loadedId w.file) w.commands.trimmed) = []

/-! ## One step -/

section

variable {cfg : Config} {commands : Log CommandEnvelope} {file : SnapshotFile SavedEngine}
  {cursor id done : ℕ} {engine : Engine} {stage : Stage}
  {reply : List (Option CommandEnvelope × ℕ)}

theorem loaded_save {every : ℕ} (hcfg : cfg.snapshot = some every) (id : ℕ) (state : SavedEngine) :
    cfg.loaded (.save id state)
      = some { version := snapshotVersion, lastId := id, state := state } := by
  rw [Config.loaded, hcfg]
  rfl

theorem loaded_fault (hnone : file.load = none) : cfg.loaded file = none := by
  rw [Config.loaded, hnone]
  cases cfg.snapshot <;> rfl

/-- What a replay starts from. -/
theorem loaded_fold (hfile : FileSound cfg commands file cursor) :
    cfg.loadedId file ≤ cursor ∧
      ∃ h, cfg.fold (commands.upTo (cfg.loadedId file)) = .ok (cfg.loadedEngine file, h) := by
  cases hload : cfg.loaded file with
  | none =>
      rw [Config.loadedId, Config.loadedEngine, hload]
      exact ⟨Nat.zero_le _, [], fold_nil cfg⟩
  | some snap =>
      obtain ⟨hle, e, h, hfold, hstate⟩ := hfile snap hload
      rw [Config.loadedId, Config.loadedEngine, hload]
      refine ⟨hle, h, ?_⟩
      dsimp only [Option.map_some, Option.getD_some]
      rw [hstate, (fold_reaches hfold).restore]
      exact hfold

/-- A replay reaches the end of the stream. -/
theorem recover_fold {w : World} {o : ℕ → Drains} {lastId : Option ℕ} (hs : w.Sound cfg)
    (hrec : w.Recoverable cfg)
    (hret : recover cfg o w.file w.commands = .ok (engine, lastId)) :
    ∃ h, cfg.fold (w.commands.upTo w.commands.lastId) = .ok (engine, h) := by
  obtain ⟨hle, h, hfold⟩ := loaded_fold hs.file
  obtain ⟨⟨engine', ws⟩, hrun, hret⟩ := bind_ok.mp hret
  cases hret
  rw [Log.upTo_recover (hle.trans hs.cursor) hrec]
  exact fold_replay hfold hrun

/-- The id it realigns to, or the cursor where it is, stands for the end of
the stream too. -/
theorem recover_lastId {w : World} {o : ℕ → Drains} {lastId : Option ℕ} (hs : w.Sound cfg)
    (hrec : w.Recoverable cfg)
    (hret : recover cfg o w.file w.commands = .ok (engine, lastId)) :
    w.commands.upTo (lastId.getD w.cursor) = w.commands.upTo w.commands.lastId ∧
      cfg.loadedId w.file ≤ lastId.getD w.cursor ∧
      w.commands.trimmed ≤ lastId.getD w.cursor ∧
      lastId.getD w.cursor ≤ w.commands.lastId := by
  obtain ⟨hle, h, hfold⟩ := loaded_fold hs.file
  obtain ⟨⟨engine', ws⟩, hrun, hret⟩ := bind_ok.mp hret
  cases hret
  have hafter := w.commands.after_eq (cfg.loadedId w.file)
  rw [hafter]
  obtain ⟨hsome, hnone⟩ := Log.lastParsed_segment w.commands
    (max w.commands.trimmed (cfg.loadedId w.file)) w.commands.lastId (Nat.le_refl _)
  cases hlast : Log.lastParsed (w.commands.segment
      (max w.commands.trimmed (cfg.loadedId w.file)) w.commands.lastId) with
  | some id =>
      obtain ⟨hlt, hid, hupTo⟩ := hsome id hlast
      rw [Option.getD_some]
      exact ⟨hupTo, by omega, by omega, hid⟩
  | none =>
      -- nothing to replay: what the snapshot holds is everything
      have hall := Log.upTo_recover (hle.trans hs.cursor) hrec
      rw [hafter, hnone hlast, List.append_nil] at hall
      refine ⟨?_, hle, hs.trimmed, hs.cursor⟩
      exact (Log.upTo_between hle hs.cursor hall.symm).trans hall.symm

theorem EngineAt.append (h : EngineAt cfg commands file engine id)
    (entry : Option CommandEnvelope) :
    EngineAt cfg (commands.append entry) file engine id where
  there := by
    rw [Log.lastId_append]
    exact Nat.le_succ_of_le h.there
  saved := h.saved
  fold := by
    rw [Log.upTo_append h.there]
    exact h.fold

theorem EngineAt.fault (h : EngineAt cfg commands file engine id)
    {file' : SnapshotFile SavedEngine} (hnone : file'.load = none) :
    EngineAt cfg commands file' engine id where
  there := h.there
  saved := fun snap hload => by
    rw [loaded_fault hnone] at hload
    cases hload
  fold := h.fold

/-- An engine as far as the group's cursor, about to read. -/
theorem EngineAt.reading (h : EngineAt cfg commands file engine cursor) :
    Reading cfg commands file cursor engine [] .next cursor where
  here := h
  le_cursor := Nat.le_refl cursor
  rest := (commands.segment_self (Nat.le_refl cursor)).symm
  stage := fun _ hid => nomatch hid

/-- An entry that does not parse is passed over. -/
theorem Reading.skip
    (h : Reading cfg commands file cursor engine ((none, id) :: reply) .next done) :
    Reading cfg commands file cursor engine reply .next (done + 1) := by
  obtain ⟨hlt, rfl, hget, hrest⟩ := Log.segment_cons h.rest.symm
  have hupTo := Log.upTo_succ hget
  rw [Option.toList_none, List.append_nil] at hupTo
  constructor
  case here =>
    constructor
    case there => exact (List.getElem?_eq_some_iff.mp hget).1
    case saved => exact fun snap hload => Nat.le_succ_of_le (h.here.saved snap hload)
    case fold =>
      rw [hupTo]
      exact h.here.fold
  case le_cursor => exact hlt
  case rest => exact hrest
  case stage => exact fun _ hid => nomatch hid

theorem Reading.apply {o : Drains} {engine' : Engine} {env : CommandEnvelope}
    {response : CommandResponse} {batch : Option EventBatch}
    (h : Reading cfg commands file cursor engine ((some env, id) :: reply) .next done)
    (hret : MatchingEngine.apply cfg.build o engine env.accountId env.clientOrderId env.command
      = .ok (engine', response, batch)) (envelope : ResponseEnvelope) :
    Reading cfg commands file cursor engine' reply (.applied id envelope batch) (done + 1) := by
  obtain ⟨hlt, rfl, hget, hrest⟩ := Log.segment_cons h.rest.symm
  obtain ⟨hist, hfold⟩ := h.here.fold
  obtain ⟨r, hnext, _⟩ := fold_snoc hfold hret
  constructor
  case here =>
    constructor
    case there => exact (List.getElem?_eq_some_iff.mp hget).1
    case saved => exact fun snap hload => Nat.le_succ_of_le (h.here.saved snap hload)
    case fold =>
      rw [Log.upTo_succ hget]
      exact ⟨_, hnext⟩
  case le_cursor => exact hlt
  case rest => exact hrest
  case stage =>
    intro id hid
    cases hid
    rfl

/-- The next stage of the same entry, or the end of it. -/
theorem Reading.next (h : Reading cfg commands file cursor engine reply stage done)
    (stage' : Stage) (hstage : stage'.entry? = stage.entry? ∨ stage'.entry? = none) :
    Reading cfg commands file cursor engine reply stage' done where
  here := h.here
  le_cursor := h.le_cursor
  rest := h.rest
  stage := fun id hid => by
    rcases hstage with heq | heq
    · exact h.stage id (heq ▸ hid)
    · rw [heq] at hid
      cases hid

theorem Reading.sound (h : Reading cfg commands file cursor engine reply stage done)
    (since : ℕ) : ProcessSound cfg commands file cursor (.running engine since reply stage) :=
  ⟨done, h⟩

theorem World.cursor_eq {w : World} {group : Group} (hgroup : w.group = some group) :
    w.cursor = group.cursor := by
  rw [World.cursor, hgroup]
  rfl

/-- Whoever is not down has a group. -/
theorem World.Sound.grouped {w : World} (hs : w.Sound cfg) {process : Process}
    (hprocess : w.process = process) (hup : process ≠ .down) :
    ∃ group, w.group = some group := by
  refine Option.ne_none_iff_exists'.mp fun hnone => hup ?_
  rw [← hprocess]
  exact hs.group hnone

/-- What the process does to the world outside the streams. -/
theorem World.Sound.moved {w : World} (hs : w.Sound cfg) {process : Process}
    (hgroup : w.group ≠ none) (hprocess : ProcessSound cfg w.commands w.file w.cursor process)
    (events : List EventBatch) (results : List ResponseEnvelope) :
    World.Sound cfg
      { w with events := events, results := results, process := process } where
  group := fun hnone => absurd hnone hgroup
  trimmed := hs.trimmed
  cursor := hs.cursor
  file := hs.file
  process := hprocess

theorem World.Sound.acked {w : World} (hs : w.Sound cfg) (id : ℕ) :
    World.Sound cfg { w with group := w.group.map (Group.ack id) } := by
  have hcursor : World.cursor { w with group := w.group.map (Group.ack id) } = w.cursor := by
    rw [World.cursor, Group.map_cursor_ack, World.cursor]
  constructor
  case group => exact fun hnone => hs.group (Option.map_eq_none_iff.mp hnone)
  case trimmed => rw [hcursor]; exact hs.trimmed
  case cursor => rw [hcursor]; exact hs.cursor
  case file => rw [hcursor]; exact hs.file
  case process => rw [hcursor]; exact hs.process

/-- A command is appended: all that was known is about the commands before. -/
theorem World.Sound.append {w : World} (hs : w.Sound cfg) (entry : Option CommandEnvelope) :
    World.Sound cfg { w with commands := w.commands.append entry } := by
  have hprocess := hs.process
  constructor
  case group => exact hs.group
  case trimmed => exact hs.trimmed
  case cursor =>
    rw [Log.lastId_append]
    exact Nat.le_succ_of_le hs.cursor
  case file =>
    intro snap hload
    obtain ⟨hle, e, h, hfold, hstate⟩ := hs.file snap hload
    refine ⟨hle, e, h, ?_, hstate⟩
    rw [Log.upTo_append (hle.trans hs.cursor)]
    exact hfold
  case process =>
    show ProcessSound cfg _ _ _ w.process
    cases hp : w.process with
    | down => trivial
    | booted => trivial
    | recovered engine lastId =>
        rw [hp] at hprocess
        exact ⟨hprocess.1.append entry, hprocess.2⟩
    | running engine since reply stage =>
        rw [hp] at hprocess
        obtain ⟨done, hread⟩ := hprocess
        refine ⟨done, hread.here.append entry, hread.le_cursor, ?_, hread.stage⟩
        exact hread.rest.trans (Log.segment_append hs.cursor).symm

/-- A boot creates the group where there is none, at the end of the stream. -/
theorem World.Sound.boot {w : World} (hs : w.Sound cfg) : World.Sound cfg
    { w with
      group := some (w.group.getD (.create w.commands.lastId))
      process := .booted } := by
  cases hold : w.group with
  | some group =>
      have htrimmed := hs.trimmed
      have hle := hs.cursor
      have hfile := hs.file
      rw [World.cursor_eq hold] at htrimmed hle hfile
      exact ⟨fun hnone => (nomatch hnone), htrimmed, hle, hfile, trivial⟩
  | none =>
      refine ⟨fun hnone => (nomatch hnone), w.commands.trimmed_le_lastId, Nat.le_refl _, ?_,
        trivial⟩
      intro snap hload
      obtain ⟨hle, hfold⟩ := hs.file snap hload
      exact ⟨hle.trans hs.cursor, hfold⟩

/-- What a replay leaves is as far as the id it names. -/
theorem World.Sound.recover {w : World} (hs : w.Sound cfg) (hrec : w.Recoverable cfg)
    {o : ℕ → Drains} {lastId : Option ℕ}
    (hret : MatchingEngine.recover cfg o w.file w.commands = .ok (engine, lastId)) :
    ProcessSound cfg w.commands w.file w.cursor (.recovered engine lastId) := by
  obtain ⟨hupTo, hloaded, htrimmed, hle⟩ := recover_lastId hs hrec hret
  refine ⟨⟨hle, fun snap hload => ?_, ?_⟩, htrimmed⟩
  · rw [Config.loadedId, hload] at hloaded
    exact hloaded
  · rw [hupTo]
    exact recover_fold hs hrec hret

/-- The group's cursor is set to where the replay ended. -/
theorem World.Sound.align {w : World} (hs : w.Sound cfg) {lastId : Option ℕ}
    (hrec : w.process = .recovered engine lastId) : World.Sound cfg
    { w with
      group := w.group.map fun group => { group with cursor := lastId.getD group.cursor }
      process := .running engine 0 [] .next } := by
  have hprocess := hs.process
  rw [hrec] at hprocess
  obtain ⟨hat, htrimmed⟩ := hprocess
  obtain ⟨group, hold⟩ := hs.grouped hrec (by simp)
  rw [World.cursor_eq hold] at hat htrimmed
  rw [hold]
  refine ⟨fun hnone => (nomatch hnone), htrimmed, hat.there, ?_, _, hat.reading⟩
  intro snap hload
  exact ⟨hat.saved snap hload, (hs.file snap hload).2⟩

/-- A read moves the cursor over the entries it returns. -/
theorem World.Sound.read {w : World} (hs : w.Sound cfg) {since : ℕ} {group : Group}
    (hold : w.group = some group) (hrunning : w.process = .running engine since [] .next) :
    World.Sound cfg
      { w with
        group := some (group.read 10 w.commands).2
        process := .running engine since (group.read 10 w.commands).1 .next } := by
  have hprocess := hs.process
  rw [hrunning] at hprocess
  obtain ⟨done, hread⟩ := hprocess
  have htrimmed := hs.trimmed
  have hcursor := hs.cursor
  rw [World.cursor_eq hold] at htrimmed hcursor hread
  obtain ⟨hreply, hle, hlast⟩ := Group.read_eq htrimmed hcursor 10
  -- nothing was left to handle, so the engine is at the old cursor
  have hdone : done = group.cursor := by
    have hhandled := Log.handled_segment hread.le_cursor hcursor
    rw [← hread.rest] at hhandled
    exact hhandled.symm
  rw [hdone] at hread
  refine ⟨fun hnone => (nomatch hnone), htrimmed.trans hle, hlast, ?_, group.cursor, ?_⟩
  · intro snap hload
    obtain ⟨hsnap, hfold⟩ := hs.file snap hload
    rw [World.cursor_eq hold] at hsnap
    exact ⟨hsnap.trans hle, hfold⟩
  · exact ⟨hread.here, hle, hreply, fun _ hid => nomatch hid⟩

/-- A snapshot is written once its entry is acknowledged. -/
theorem World.Sound.save {w : World} (hs : w.Sound cfg) {since every : ℕ}
    (hcfg : cfg.snapshot = some every)
    (hrunning : w.process = .running engine since reply (.acked id)) : World.Sound cfg
    { w with
      file := .save id engine.serialize
      process := .running engine 0 reply (.saved id) } := by
  have hprocess := hs.process
  obtain ⟨group, hold⟩ := hs.grouped hrunning (by simp)
  rw [hrunning] at hprocess
  obtain ⟨done, hread⟩ := hprocess
  cases hread.stage id rfl
  obtain ⟨h, hfold⟩ := hread.here.fold
  have hload := loaded_save hcfg id engine.serialize
  refine ⟨fun hnone => (nomatch hold.symm.trans hnone), hs.trimmed, hs.cursor, ?_,
    id, ⟨hread.here.there, ?_, ⟨h, hfold⟩⟩, hread.le_cursor, hread.rest, ?_⟩
  · intro snap hsnap
    cases hload.symm.trans hsnap
    exact ⟨hread.le_cursor, engine, h, hfold, rfl⟩
  · intro snap hsnap
    cases hload.symm.trans hsnap
    exact Nat.le_refl _
  · intro id' hid
    cases hid
    rfl

/-- The stream is trimmed up to the snapshot, no further. -/
theorem World.Sound.trim {w : World} (hs : w.Sound cfg) {since n : ℕ}
    (hrunning : w.process = .running engine since reply (.saved id)) (hlt : n < id) :
    World.Sound cfg
      { w with
        commands := w.commands.trim n
        process := .running engine since reply .next } := by
  have hprocess := hs.process
  obtain ⟨group, hold⟩ := hs.grouped hrunning (by simp)
  rw [hrunning] at hprocess
  obtain ⟨done, hread⟩ := hprocess
  cases hread.stage id rfl
  refine ⟨fun hnone => (nomatch hold.symm.trans hnone), ?_, hs.cursor, hs.file,
    id, ⟨hread.here.there, hread.here.saved, hread.here.fold⟩, hread.le_cursor, hread.rest,
    fun _ hid => nomatch hid⟩
  have htrimmed := hs.trimmed
  have hle := hread.le_cursor
  show max w.commands.trimmed (min n w.commands.lastId) ≤ w.cursor
  omega

/-- A file that does not load claims nothing. -/
theorem World.Sound.fault {w : World} (hs : w.Sound cfg) {file : SnapshotFile SavedEngine}
    (hnone : file.load = none) : World.Sound cfg { w with file := file } := by
  have hprocess := hs.process
  constructor
  case group => exact hs.group
  case trimmed => exact hs.trimmed
  case cursor => exact hs.cursor
  case file =>
    intro snap hload
    cases (loaded_fault hnone).symm.trans hload
  case process =>
    show ProcessSound cfg _ _ _ w.process
    cases hp : w.process with
    | down => trivial
    | booted => trivial
    | recovered engine lastId =>
        rw [hp] at hprocess
        exact ⟨hprocess.1.fault hnone, hprocess.2⟩
    | running engine since reply stage =>
        rw [hp] at hprocess
        obtain ⟨done, hread⟩ := hprocess
        exact ⟨done, hread.here.fault hnone, hread.le_cursor, hread.rest, hread.stage⟩

/-- **One action** keeps the engine, the snapshot and the cursor sound, if a
replay has everything it needs. -/
theorem World.Sound.stepped {w w' : World} {a : Action} (hs : w.Sound cfg)
    (hmeets : ∀ o, a = .recover o → w.Recoverable cfg) (h : Stepped cfg w a w') :
    w'.Sound cfg := by
  have hprocess := hs.process
  have hgroup : ∀ {process}, w.process = process → process ≠ .down → w.group ≠ none :=
    fun hp hup => Option.ne_none_iff_exists'.mpr (hs.grouped hp hup)
  cases h with
  | append entry => exact hs.append entry
  | crash | recoverPanic | applyPanic =>
      exact ⟨fun _ => rfl, hs.trimmed, hs.cursor, hs.file, trivial⟩
  | boot => exact hs.boot
  | @recover o engine lastId hbooted hret =>
      exact hs.moved (hgroup hbooted (by simp)) (hs.recover (hmeets o rfl) hret) _ _
  | align hrec => exact hs.align hrec
  | read hold hrunning => exact hs.read hold hrunning
  | @skip engine since id reply hrunning =>
      rw [hrunning] at hprocess
      obtain ⟨done, hread⟩ := hprocess
      have hmoved :=
        hs.moved (hgroup hrunning (by simp)) (hread.skip.sound since) w.events w.results
      exact hmoved.acked id
  | apply hrunning hret =>
      rw [hrunning] at hprocess
      obtain ⟨done, hread⟩ := hprocess
      exact hs.moved (hgroup hrunning (by simp)) ((hread.apply hret _).sound _) _ _
  -- from here to the next entry the engine stays where it is
  | @emit engine since id reply response batch hrunning =>
      rw [hrunning] at hprocess
      obtain ⟨done, hread⟩ := hprocess
      have hnext := hread.next (.emitted id response) (.inl rfl)
      exact hs.moved (hgroup hrunning (by simp)) (hnext.sound since) _ _
  | @publish engine since id reply response delivered hrunning =>
      rw [hrunning] at hprocess
      obtain ⟨done, hread⟩ := hprocess
      have hnext := hread.next (.published id) (.inl rfl)
      exact hs.moved (hgroup hrunning (by simp)) (hnext.sound since) _ _
  | @ack engine since id reply hrunning =>
      rw [hrunning] at hprocess
      obtain ⟨done, hread⟩ := hprocess
      have hnext := hread.next (.acked id) (.inl rfl)
      have hmoved := hs.moved (hgroup hrunning (by simp)) (hnext.sound since) w.events w.results
      exact hmoved.acked id
  | count written since' hrunning =>
      rw [hrunning] at hprocess
      obtain ⟨done, hread⟩ := hprocess
      exact hs.moved (hgroup hrunning (by simp)) ((hread.next .next (.inr rfl)).sound since') _ _
  | save hcfg hrunning => exact hs.save hcfg hrunning
  | trim hrunning hlt => exact hs.trim hrunning hlt
  | fault hnone => exact hs.fault hnone

theorem World.init_sound (cfg : Config) : World.init.Sound cfg where
  group := fun _ => rfl
  trimmed := Nat.le_refl 0
  cursor := Nat.le_refl 0
  file := fun snap hload => by
    rw [loaded_fault rfl] at hload
    cases hload
  process := trivial

end

/-! ## Runs -/

/-- A boot replays only where nothing it needs is gone. -/
def Recovers (cfg : Config) (w : World) (a : Action) : Prop :=
  ∀ o, a = .recover o → w.Recoverable cfg

theorem Runs.sound {cfg : Config} {w : World}
    (hruns : Runs (World.step cfg) (Recovers cfg) .init w) : w.Sound cfg :=
  hruns.invariant (World.init_sound cfg) fun _ _ _ hs hmeets htaken =>
    hs.stepped hmeets (World.step_cases htaken)

/-- **Recovery rebuilds the full history**: in every run in which no boot finds
a command gone that the snapshot it loads does not hold, a replay leaves the
engine at the fold of `apply` over every command ever appended. -/
theorem recovery_complete {cfg : Config} {w w' : World} {o : ℕ → Drains} {engine : Engine}
    {lastId : Option ℕ}
    (hruns : Runs (World.step cfg) (Recovers cfg) .init w) (hmeets : w.Recoverable cfg)
    (hstep : w.step cfg (.recover o) = some w')
    (hend : w'.process = .recovered engine lastId) :
    ∃ h, cfg.fold (w'.commands.upTo w'.commands.lastId) = .ok (engine, h) := by
  have hs := Runs.sound hruns
  cases World.step_cases hstep with
  | recoverPanic => cases hend
  | recover hbooted hret =>
      cases hend
      show ∃ h, cfg.fold (w.commands.upTo w.commands.lastId) = _
      exact recover_fold hs hmeets hret

/-! ## Two deposits, two snapshots, one trim -/

/-- A snapshot after every command. -/
def everyCommand : Config where
  build := .release
  limits := .default
  snapshot := some 1

/-- A deposit of account 1, under a key. -/
def depositEnvelope (clientOrderId : UInt64) : CommandEnvelope where
  correlationId := 0
  accountId := 1
  clientOrderId := clientOrderId
  command := .deposit { amount := 10, currency := .USD }

/-- A first boot, up to its first read. -/
def firstBoot : List Action := [.boot, .recover fun _ => .sorted, .align]

/-- One command from the apply to the trim. -/
def handleCommand (trimmed : ℕ) : List Action :=
  [.apply .sorted, .emit, .publish true, .ack, .save true, .trim trimmed]

/-- Two commands handled, the first one trimmed, and the engine about to
recover, having crashed. -/
def trimmedRun : List Action :=
  firstBoot ++ [.append (some (depositEnvelope 1)), .append (some (depositEnvelope 2)), .read] ++
    handleCommand 0 ++ handleCommand 1 ++ [.crash]

/-- Whether a boot replays only where nothing it needs is gone. -/
def recoversCheck (cfg : Config) (w : World) : Action → Bool
  | .recover _ =>
      (Log.parsed (w.commands.segment (cfg.loadedId w.file) w.commands.trimmed)).isEmpty
  | _ => true

theorem recovers_of_check {cfg : Config} (w : World) (a : Action)
    (h : recoversCheck cfg w a = true) : Recovers cfg w a := by
  rintro o rfl
  exact List.isEmpty_iff.mp h

/-- What a replay leaves behind, as a check on the engine and the commands. -/
def recoveredCheck (cfg : Config) (p : Engine → List CommandEnvelope → Bool) (w : World) : Bool :=
  (w.step cfg (.recover fun _ => .sorted)).any fun w' =>
    match w'.process with
    | .recovered engine _ => p engine (w'.commands.upTo w'.commands.lastId)
    | _ => false

theorem recoveredCheck_iff {cfg : Config} {p : Engine → List CommandEnvelope → Bool} {w : World}
    (h : recoveredCheck cfg p w = true) :
    ∃ w' engine lastId, w.step cfg (.recover fun _ => .sorted) = some w' ∧
      w'.process = .recovered engine lastId ∧
      p engine (w'.commands.upTo w'.commands.lastId) = true := by
  rw [recoveredCheck] at h
  obtain ⟨w', hstep, h⟩ := (Option.any_eq_true _ _).mp h
  split at h
  · exact ⟨w', _, _, hstep, ‹_›, h⟩
  · cases h

/-- The snapshot of the second command makes up for the first one. -/
theorem recovery_complete_trimmed : ∃ (w w' : World) (engine : Engine) (lastId : Option ℕ),
    w.step everyCommand (.recover fun _ => .sorted) = some w' ∧
      w'.process = .recovered engine lastId ∧ engine.nextSeq = 2 ∧
      ∃ h, everyCommand.fold (w'.commands.upTo w'.commands.lastId) = .ok (engine, h) := by
  have hcheck : (exec (World.step everyCommand) (recoversCheck everyCommand) .init
      (trimmedRun ++ [.boot])).any (fun w =>
        recoversCheck everyCommand w (.recover fun _ => .sorted) &&
          recoveredCheck everyCommand (fun engine _ => engine.nextSeq == 2) w) = true := by
    decide +kernel
  obtain ⟨w, hruns, hw⟩ := exists_run recovers_of_check hcheck
  rw [Bool.and_eq_true] at hw
  obtain ⟨w', engine, lastId, hstep, hend, hseq⟩ := recoveredCheck_iff hw.2
  have hmeets := recovers_of_check w _ hw.1 _ rfl
  exact ⟨w, w', engine, lastId, hstep, hend, beq_iff_eq.mp hseq,
    recovery_complete hruns hmeets hstep hend⟩

/-- **A snapshot that does not load, after a trim**: the replay "from the
start" starts at the second command, and the first one is lost. -/
theorem lostSnapshot : ∃ (w w' : World) (engine : Engine) (lastId : Option ℕ),
    Runs (World.step everyCommand) (fun _ _ => True) .init w ∧ w.file = .unreadable ∧
      w.step everyCommand (.recover fun _ => .sorted) = some w' ∧
      w'.process = .recovered engine lastId ∧
      ¬ ∃ h, everyCommand.fold (w'.commands.upTo w'.commands.lastId) = .ok (engine, h) := by
  have hcheck : (exec (World.step everyCommand) (fun _ _ => true) .init
      (trimmedRun ++ [.fault .unreadable, .boot])).any (fun w =>
        (match w.file with | .unreadable => true | _ => false) &&
          recoveredCheck everyCommand (fun engine cs =>
            okWith (everyCommand.fold cs) fun r => r.1.nextSeq != engine.nextSeq) w) = true := by
    decide +kernel
  obtain ⟨w, hruns, hw⟩ := exists_run (fun _ _ _ => trivial) hcheck
  rw [Bool.and_eq_true] at hw
  have hfile : w.file = .unreadable := by
    have hw := hw.1
    split at hw
    · assumption
    · cases hw
  obtain ⟨w', engine, lastId, hstep, hend, hseq⟩ := recoveredCheck_iff hw.2
  refine ⟨w, w', engine, lastId, hruns, hfile, hstep, hend, ?_⟩
  rintro ⟨h, hfold⟩
  obtain ⟨r, hr, hne⟩ := okWith_iff.mp hseq
  cases hfold.symm.trans hr
  exact absurd rfl (bne_iff_ne.mp hne)

end MatchingEngine
