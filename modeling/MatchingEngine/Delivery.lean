import MatchingEngine.Recovery

/-!
# Delivery: no batch is missing on `events`

The run loop emits before it acknowledges, and while it runs it misses
nothing: what it has handled is on `events` (`World.Emitted`). A replay emits
nothing, and the group's cursor is then set past what was replayed; so a
command that is replayed before it was ever emitted is lost for the consumers
of `events` (`silentReplay`). What a boot replays was emitted if it was
appended while the engine was reading, and if the engine went down only when
it had emitted all there was (`attended`).
-/

namespace MatchingEngine

open RustArith HashModel LogModel SystemModel

/-- Every batch of the fold of some commands is on `events`, up to the order
inside its groups. -/
def Delivered (cfg : Config) (cs : List CommandEnvelope) (events : List EventBatch) : Prop :=
  ∀ e h, cfg.fold cs = .ok (e, h) → ∀ batch ∈ h.filterMap Record.batch,
    ∃ batch' ∈ events, SameBatch (some batch) (some batch')

section

variable {cfg : Config} {cs : List CommandEnvelope} {events : List EventBatch} {e e' : Engine}
  {h : List Record}

/-- One command more, its batch emitted. -/
theorem Delivered.snoc (hdel : Delivered cfg cs events) {o : Drains} {env : CommandEnvelope}
    {response : CommandResponse} {batch : Option EventBatch} (hfold : cfg.fold cs = .ok (e, h))
    (happly : apply cfg.build o e env.accountId env.clientOrderId env.command
      = .ok (e', response, batch)) :
    Delivered cfg (cs ++ [env]) (events ++ batch.toList) := by
  obtain ⟨r, hnext, hsame⟩ := fold_snoc hfold happly
  intro e₂ h₂ hfold₂ out hout
  cases hnext.symm.trans hfold₂
  rw [List.filterMap_append, List.mem_append] at hout
  rcases hout with hout | hout
  · obtain ⟨out', hmem, hrel⟩ := hdel e h hfold out hout
    exact ⟨out', List.mem_append_left _ hmem, hrel⟩
  · -- the batch of the last command: the engine emitted one like it
    obtain ⟨r', hr', hsome⟩ := List.mem_filterMap.mp hout
    cases List.mem_singleton.mp hr'
    rw [hsome] at hsame
    cases batch with
    | none => exact hsame.elim
    | some batch => exact ⟨batch, List.mem_append_right _ (List.mem_singleton.mpr rfl), hsame⟩

/-- A command that panics leaves no fold, and so no batch that could be missing. -/
theorem delivered_of_panic {o : Drains} {env : CommandEnvelope} {p : Panic}
    (hfold : cfg.fold cs = .ok (e, h))
    (hpanic : apply cfg.build o e env.accountId env.clientOrderId env.command = .error p)
    (rest : List CommandEnvelope) : Delivered cfg (cs ++ env :: rest) events := by
  intro e₂ h₂ hfold₂
  rw [Config.fold, runCalls, List.map_append, submit, List.map_append] at hfold₂
  obtain ⟨e₁, us, vs, hrun, hrest, _⟩ := run_append.mp hfold₂
  cases hfold.symm.trans hrun
  obtain ⟨e₃, r, _, hstep, _⟩ := run_cons.mp hrest
  obtain ⟨response, batch, happly, _⟩ := step_ok.mp hstep
  -- the drain order decides no panic
  obtain ⟨_, hagain, _⟩ := apply_sim (fold_reaches hfold).shape .sorted o _ _ _ _ happly
  cases hpanic.symm.trans hagain

/-- No sequence number below the engine's next one is missing. -/
theorem Delivered.seqs (hdel : Delivered cfg cs events) (hfold : cfg.fold cs = .ok (e, h)) :
    ∀ n < e.nextSeq, ∃ batch ∈ events, batch.seq = n := by
  intro n hn
  obtain ⟨hnext, _, hseqs⟩ := (fold_reaches hfold).numbered
  have hlt : n.toNat < (h.filterMap Record.batch).length := by
    have hnat := UInt64.lt_iff_toNat_lt.mp hn
    rw [hnext, UInt64.toNat_ofNat'] at hnat
    exact hnat.trans_le (Nat.mod_le _ _)
  obtain ⟨batch', hmem, hseq, _⟩ := hdel e h hfold _ (List.getElem_mem hlt)
  refine ⟨batch', hmem, ?_⟩
  rw [← hseq, hseqs n.toNat _ (List.getElem?_eq_getElem hlt), UInt64.ofNat_toNat]

end

/-! ## When nothing is lost -/

/-- Whether a command appended now is left to the run loop: the replay has
made its `XRANGE`. -/
def Process.listens : Process → Bool
  | .down | .booted => false
  | .recovered .. | .running .. => true

/-- Whether the entry at hand has a batch that is still to be added to `events`. -/
def Stage.unsent : Stage → Bool
  | .applied _ _ batch => batch.isSome
  | _ => false

/-- Whether every command on the stream is dealt with: none is unread, none is
read and not applied, and no batch is still to be sent. -/
def World.quiet (w : World) : Bool :=
  match w.process with
  | .down | .booted => true
  | .recovered _ lastId =>
      (Log.parsed (w.commands.segment (lastId.getD w.cursor) w.commands.lastId)).isEmpty
  | .running _ _ reply stage =>
      !stage.unsent && (Log.parsed reply).isEmpty &&
        (Log.parsed (w.commands.segment w.cursor w.commands.lastId)).isEmpty

/-- Commands are appended while the engine reads, it is killed only when it is
quiet, and the snapshot file stays readable. -/
def attended (w : World) : Action → Bool
  | .append (some _) => w.process.listens
  | .crash => w.quiet
  | .fault _ => false
  | _ => true

theorem attended_readable {w : World} {a : Action} (h : attended w a = true) :
    ∀ file, a ≠ .fault file := by
  rintro file rfl
  cases h

/-! ## A readable snapshot -/

/-- The snapshot just written, not trimmed to yet. -/
def Process.savedId? : Process → Option ℕ
  | .running _ _ _ (.saved id) => some id
  | _ => none

/-- The engine is sound, and the snapshot file holds all that was trimmed. -/
structure World.Restorable (cfg : Config) (w : World) : Prop where
  sound : w.Sound cfg
  kept : w.commands.trimmed ≤ cfg.loadedId w.file
  saved : ∀ id, w.process.savedId? = some id → cfg.loadedId w.file = id

section

variable {cfg : Config} {w w' : World} {a : Action}

/-- A readable snapshot holds everything that was trimmed. -/
theorem World.Restorable.recoverable (hw : w.Restorable cfg) : w.Recoverable cfg := by
  rw [World.Recoverable, w.commands.segment_self hw.kept]
  rfl

/-- The snapshot a save leaves behind. -/
theorem loadedId_save {every : ℕ} (hcfg : cfg.snapshot = some every) (id : ℕ)
    (state : SavedEngine) : cfg.loadedId (.save id state) = id := by
  rw [Config.loadedId, loaded_save hcfg]
  rfl

/-- **One action** keeps the snapshot ahead of the trims, as long as the file
stays readable. -/
theorem World.Restorable.stepped (hw : w.Restorable cfg) (hreadable : ∀ file, a ≠ .fault file)
    (h : Stepped cfg w a w') : w'.Restorable cfg := by
  have hsound : w'.Sound cfg := hw.sound.stepped (fun _ _ => hw.recoverable) h
  have hold := hw.sound.process
  cases h with
  | append entry => exact ⟨hsound, hw.kept, hw.saved⟩
  | @save engine since id every reply hcfg hrunning =>
      rw [hrunning] at hold
      obtain ⟨done, hread⟩ := hold
      cases hread.stage id rfl
      have hload := loadedId_save hcfg id engine.serialize
      refine ⟨hsound, ?_, fun id' hid => ?_⟩
      · rw [hload]
        refine hw.kept.trans ?_
        rw [Config.loadedId]
        cases hsnap : cfg.loaded w.file with
        | none => exact Nat.zero_le _
        | some snap => exact hread.here.saved snap hsnap
      · cases hid
        exact hload
  | @trim engine since id n reply hrunning hlt =>
      refine ⟨hsound, ?_, fun _ hid => (by cases hid)⟩
      have hkept := hw.kept
      have hid := hw.saved id (by rw [hrunning]; rfl)
      show max w.commands.trimmed (min n w.commands.lastId) ≤ cfg.loadedId w.file
      omega
  | fault => exact absurd rfl (hreadable _)
  | _ => exact ⟨hsound, hw.kept, fun _ hid => (by cases hid)⟩

theorem World.init_restorable (cfg : Config) : World.init.Restorable cfg where
  sound := World.init_sound cfg
  kept := Nat.zero_le _
  saved := fun _ hid => nomatch hid

/-- Every run with a readable snapshot file. -/
theorem Runs.restorable
    (hruns : Runs (World.step cfg) (fun _ a => ∀ file, a ≠ .fault file) .init w) :
    w.Restorable cfg :=
  hruns.invariant (World.init_restorable cfg) fun _ _ _ hw hmeets htaken =>
    hw.stepped hmeets (World.step_cases htaken)

end

/-! ## What has been emitted -/

/-- What the process has handled is on `events`, an applied command's batch
still to come; a process that is down, or about to replay, has handled all
there is. -/
def ProcessEmitted (cfg : Config) (commands : Log CommandEnvelope) (cursor : ℕ)
    (events : List EventBatch) : Process → Prop
  | .down => Delivered cfg (commands.upTo commands.lastId) events
  | .booted => Delivered cfg (commands.upTo commands.lastId) events
  | .recovered _ lastId => Delivered cfg (commands.upTo (lastId.getD cursor)) events
  | .running _ _ reply (.applied _ _ batch) =>
      Delivered cfg (commands.upTo (Log.handled cursor reply)) (events ++ batch.toList)
  | .running _ _ reply _ => Delivered cfg (commands.upTo (Log.handled cursor reply)) events

/-- A sound world in which no batch is missing. -/
structure World.Emitted (cfg : Config) (w : World) : Prop extends w.Restorable cfg where
  process : ProcessEmitted cfg w.commands w.cursor w.events w.process

section

variable {cfg : Config} {w w' : World} {a : Action}

theorem Reading.handled {commands : Log CommandEnvelope} {file : SnapshotFile SavedEngine}
    {cursor done : ℕ} {engine : Engine} {stage : Stage}
    {reply : List (Option CommandEnvelope × ℕ)}
    (h : Reading cfg commands file cursor engine reply stage done)
    (hcursor : cursor ≤ commands.lastId) : Log.handled cursor reply = done := by
  rw [h.rest]
  exact Log.handled_segment h.le_cursor hcursor

/-- An append changes no part of the stream that was handled, and an engine
that is not reading gets none to handle. -/
theorem ProcessEmitted.append {commands : Log CommandEnvelope} {file : SnapshotFile SavedEngine}
    {cursor : ℕ} {events : List EventBatch} {process : Process} {entry : Option CommandEnvelope}
    (h : ProcessEmitted cfg commands cursor events process)
    (hsound : ProcessSound cfg commands file cursor process) (hcursor : cursor ≤ commands.lastId)
    (hentry : entry = none ∨ process.listens = true) :
    ProcessEmitted cfg (commands.append entry) cursor events process := by
  cases process with
  | down | booted =>
      show Delivered cfg ((commands.append entry).upTo (commands.append entry).lastId) events
      rw [hentry.resolve_right Bool.false_ne_true, Log.upTo_append_last, Option.toList_none,
        List.append_nil]
      exact h
  | recovered engine lastId =>
      show Delivered cfg ((commands.append entry).upTo (lastId.getD cursor)) events
      rw [Log.upTo_append hsound.1.there]
      exact h
  | running engine since reply stage =>
      obtain ⟨done, hread⟩ := hsound
      have hupTo : (commands.append entry).upTo (Log.handled cursor reply)
          = commands.upTo (Log.handled cursor reply) := by
        rw [hread.handled hcursor]
        exact Log.upTo_append hread.here.there
      cases stage with
      | applied id response batch =>
          show Delivered cfg ((commands.append entry).upTo (Log.handled cursor reply)) _
          rw [hupTo]
          exact h
      | next | emitted id response | published id | acked id | saved id =>
          show Delivered cfg ((commands.append entry).upTo (Log.handled cursor reply)) _
          rw [hupTo]
          exact h

/-- **A quiet process** leaves no batch behind when it is killed. -/
theorem World.Emitted.quiet (hw : w.Emitted cfg) (hquiet : w.quiet = true) :
    Delivered cfg (w.commands.upTo w.commands.lastId) w.events := by
  have hprocess := hw.process
  have hold := hw.sound.process
  have hcursor := hw.sound.cursor
  rw [World.quiet] at hquiet
  cases hp : w.process with
  | down | booted =>
      rw [hp] at hprocess
      exact hprocess
  | recovered engine lastId =>
      rw [hp] at hprocess hold hquiet
      rw [Log.upTo_of_parsed_nil hold.1.there (List.isEmpty_iff.mp hquiet)]
      exact hprocess
  | running engine since reply stage =>
      rw [hp] at hprocess hold hquiet
      obtain ⟨done, hread⟩ := hold
      rw [Bool.and_eq_true, Bool.and_eq_true] at hquiet
      obtain ⟨⟨hsent, hreply⟩, hunread⟩ := hquiet
      have hrest := List.isEmpty_iff.mp hreply
      rw [hread.rest] at hrest
      rw [Log.upTo_of_parsed_nil hcursor (List.isEmpty_iff.mp hunread),
        Log.upTo_of_parsed_nil hread.le_cursor hrest, ← hread.handled hcursor]
      cases stage with
      | applied id response batch =>
          cases batch with
          | some batch => cases hsent
          | none =>
              have hdel : Delivered cfg (w.commands.upTo (Log.handled w.cursor reply))
                (w.events ++ []) := hprocess
              rwa [List.append_nil] at hdel
      | next | emitted id response | published id | acked id | saved id => exact hprocess

/-- Between two entries, the commands up to the last one handled are on `events`. -/
theorem World.Emitted.done (hw : w.Emitted cfg) {engine : Engine} {since done : ℕ}
    {reply : List (Option CommandEnvelope × ℕ)}
    (hrunning : w.process = .running engine since reply .next)
    (hread : Reading cfg w.commands w.file w.cursor engine reply .next done) :
    Delivered cfg (w.commands.upTo done) w.events := by
  have hprocess := hw.process
  rw [hrunning] at hprocess
  rw [← hread.handled hw.sound.cursor]
  exact hprocess

/-- **One action** loses no batch. -/
theorem World.Emitted.stepped (hw : w.Emitted cfg) (hmeets : attended w a = true)
    (h : Stepped cfg w a w') : w'.Emitted cfg := by
  have hnext : w'.Restorable cfg := hw.toRestorable.stepped (attended_readable hmeets) h
  have hprocess := hw.process
  have hold := hw.sound.process
  have hcursor := hw.sound.cursor
  cases h with
  | append entry =>
      refine ⟨hnext, hprocess.append hold hcursor ?_⟩
      cases entry with
      | none => exact .inl rfl
      | some env => exact .inr hmeets
  | crash => exact ⟨hnext, hw.quiet hmeets⟩
  | recoverPanic hbooted =>
      rw [hbooted] at hprocess
      exact ⟨hnext, hprocess⟩
  | @applyPanic o p engine since id env reply hrunning hpanic =>
      rw [hrunning] at hold
      obtain ⟨done, hread⟩ := hold
      obtain ⟨_, _, hget, _⟩ := Log.segment_cons hread.rest.symm
      obtain ⟨h, hfold⟩ := hread.here.fold
      refine ⟨hnext, ?_⟩
      show Delivered cfg (w.commands.upTo w.commands.lastId) w.events
      have hthere : done + 1 ≤ w.commands.lastId := (List.getElem?_eq_some_iff.mp hget).1
      rw [Log.upTo_split hthere, Log.upTo_succ hget, List.append_assoc]
      exact delivered_of_panic hfold hpanic _
  | boot hdown =>
      rw [hdown] at hprocess
      exact ⟨hnext, hprocess⟩
  | @recover o engine lastId hbooted hret =>
      rw [hbooted] at hprocess
      obtain ⟨hupTo, _⟩ := recover_lastId hw.sound hw.recoverable hret
      refine ⟨hnext, ?_⟩
      show Delivered cfg (w.commands.upTo (lastId.getD w.cursor)) w.events
      rw [hupTo]
      exact hprocess
  | @align engine lastId hrec =>
      rw [hrec] at hprocess
      obtain ⟨group, hgroup⟩ := hw.sound.grouped hrec (by simp)
      refine ⟨hnext, ?_⟩
      rw [World.cursor_eq hgroup] at hprocess
      rw [hgroup]
      exact hprocess
  | @read engine since group hgroup hrunning =>
      rw [hrunning] at hprocess
      refine ⟨hnext, ?_⟩
      have htrimmed := hw.sound.trimmed
      rw [World.cursor_eq hgroup] at hprocess htrimmed hcursor
      obtain ⟨hreply, hle, hlast⟩ := Group.read_eq htrimmed hcursor 10
      show Delivered cfg (w.commands.upTo
        (Log.handled (group.read 10 w.commands).2.cursor (group.read 10 w.commands).1)) w.events
      rw [hreply, Log.handled_segment hle hlast]
      exact hprocess
  | @skip engine since id reply hrunning =>
      rw [hrunning] at hold
      obtain ⟨done, hread⟩ := hold
      obtain ⟨_, _, hget, _⟩ := Log.segment_cons hread.rest.symm
      refine ⟨hnext, ?_⟩
      have hupTo := Log.upTo_succ hget
      rw [Option.toList_none, List.append_nil] at hupTo
      show Delivered cfg (w.commands.upTo (Log.handled
        (((w.group.map (Group.ack id)).map Group.cursor).getD 0) reply)) w.events
      rw [Group.map_cursor_ack, ← World.cursor, hread.skip.handled hcursor, hupTo]
      exact hw.done hrunning hread
  | @apply o engine engine' since id env reply response batch hrunning hret =>
      rw [hrunning] at hold
      obtain ⟨done, hread⟩ := hold
      obtain ⟨_, _, hget, _⟩ := Log.segment_cons hread.rest.symm
      obtain ⟨h, hfold⟩ := hread.here.fold
      refine ⟨hnext, ?_⟩
      have hmore := (hw.done hrunning hread).snoc hfold hret
      rw [show [env] = (some env).toList from rfl, ← Log.upTo_succ hget] at hmore
      have happlied := hread.apply hret
        { correlationId := env.correlationId, response := response }
      show Delivered cfg (w.commands.upTo (Log.handled w.cursor reply)) _
      rw [happlied.handled hcursor]
      exact hmore
  | @ack engine since id reply hrunning =>
      rw [hrunning] at hprocess
      refine ⟨hnext, ?_⟩
      show Delivered cfg (w.commands.upTo (Log.handled
        (((w.group.map (Group.ack id)).map Group.cursor).getD 0) reply)) w.events
      rw [Group.map_cursor_ack]
      exact hprocess
  -- the same commands are handled
  | emit hrunning | publish _ hrunning | count _ _ hrunning | save _ hrunning
  | trim hrunning _ =>
      rw [hrunning] at hprocess
      exact ⟨hnext, hprocess⟩
  | fault => cases hmeets

theorem delivered_nil (cfg : Config) (events : List EventBatch) : Delivered cfg [] events := by
  intro e h hfold batch hbatch
  cases (fold_nil cfg).symm.trans hfold
  cases hbatch

theorem World.init_emitted (cfg : Config) : World.init.Emitted cfg where
  toRestorable := World.init_restorable cfg
  process := delivered_nil cfg []

end

/-! ## Runs -/

section

variable {cfg : Config} {w w' w'' : World}

theorem Runs.emitted (hruns : Runs (World.step cfg) (fun w a => attended w a = true) .init w) :
    w.Emitted cfg :=
  hruns.invariant (World.init_emitted cfg) fun _ _ _ hw hmeets htaken =>
    hw.stepped hmeets (World.step_cases htaken)

/-- What the next boot replays is on `events` already. -/
theorem Runs.replays_delivered
    (hruns : Runs (World.step cfg) (fun w a => attended w a = true) .init w)
    (hbooted : w.process = .booted) :
    Delivered cfg (w.commands.upTo w.commands.lastId) w.events := by
  have hprocess := (Runs.emitted hruns).process
  rw [hbooted] at hprocess
  exact hprocess

/-- **A boot emits nothing**: the engine waits for its first read with every
batch on `events` exactly if they all were there before the replay. -/
theorem boot_delivered_iff {o : ℕ → Drains}
    (hruns : Runs (World.step cfg) (fun _ a => ∀ file, a ≠ .fault file) .init w)
    (hrecover : w.step cfg (.recover o) = some w') (halign : w'.step cfg .align = some w'') :
    Delivered cfg (w''.commands.upTo w''.cursor) w''.events ↔
      Delivered cfg (w.commands.upTo w.commands.lastId) w.events := by
  have hw := Runs.restorable hruns
  cases World.step_cases hrecover with
  | recoverPanic => cases halign
  | @recover _ engine lastId hbooted hret =>
      obtain ⟨group, hgroup⟩ := hw.sound.grouped hbooted (by simp)
      obtain ⟨hupTo, _⟩ := recover_lastId hw.sound hw.recoverable hret
      rw [World.cursor_eq hgroup] at hupTo
      rw [← hupTo]
      cases lastId with
      | some id =>
          cases halign
          rw [World.cursor_eq (congrArg (Option.map (Group.setId id)) hgroup)]
          rfl
      | none =>
          cases halign
          show Delivered cfg (w.commands.upTo w.cursor) w.events ↔ _
          rw [World.cursor_eq hgroup]
          rfl

/-- **A boot loses nothing** where commands come and crashes fall as they should. -/
theorem Runs.boot_delivered {o : ℕ → Drains}
    (hruns : Runs (World.step cfg) (fun w a => attended w a = true) .init w)
    (hrecover : w.step cfg (.recover o) = some w') (halign : w'.step cfg .align = some w'') :
    Delivered cfg (w''.commands.upTo w''.cursor) w''.events := by
  have hbooted : w.process = .booted := by
    cases World.step_cases hrecover with
    | recover hbooted | recoverPanic hbooted => exact hbooted
  exact (boot_delivered_iff (hruns.mono fun _ _ => attended_readable) hrecover halign).mpr
    (Runs.replays_delivered hruns hbooted)

/-- **No gap on `events`**: in every run in which commands are appended while
the engine reads and the engine is killed only when it is quiet, whenever it
is about to read, it is the fold of the commands up to the group's cursor,
every batch of them is on `events`, and so is every sequence number below its
next one. -/
theorem events_gapless {engine : Engine} {since : ℕ}
    (hruns : Runs (World.step cfg) (fun w a => attended w a = true) .init w)
    (hwait : w.process = .running engine since [] .next) :
    (∃ h, cfg.fold (w.commands.upTo w.cursor) = .ok (engine, h)) ∧
      Delivered cfg (w.commands.upTo w.cursor) w.events ∧
      ∀ n < engine.nextSeq, ∃ batch ∈ w.events, batch.seq = n := by
  have hw := Runs.emitted hruns
  have hsound := hw.sound.process
  have hdel := hw.process
  rw [hwait] at hsound hdel
  obtain ⟨done, hread⟩ := hsound
  have hdone : done = w.cursor := (hread.handled hw.sound.cursor).symm
  rw [hdone] at hread
  obtain ⟨h, hfold⟩ := hread.here.fold
  exact ⟨⟨h, hfold⟩, hdel, hdel.seqs hfold⟩

end

/-! ## One command, with the engine up and with the engine down -/

/-- Whether the snapshot file stays readable. -/
def readableCheck (_ : World) : Action → Bool
  | .fault _ => false
  | _ => true

theorem readable_of_check (w : World) (a : Action) (h : readableCheck w a = true) :
    ∀ file, a ≠ .fault file := by
  rintro file rfl
  cases h

/-- Whether the engine is about to read, and meets `p`. -/
def waitingCheck (p : Engine → Bool) (w : World) : Bool :=
  match w.process with
  | .running engine _ [] .next => p engine
  | _ => false

theorem waitingCheck_iff {p : Engine → Bool} {w : World} (h : waitingCheck p w = true) :
    ∃ engine since, w.process = .running engine since [] .next ∧ p engine = true := by
  rw [waitingCheck] at h
  split at h
  · exact ⟨_, _, ‹_›, h⟩
  · cases h

/-- A command handled before the engine restarts. -/
theorem events_gapless_restart : ∃ (w : World) (engine : Engine) (since : ℕ),
    w.process = .running engine since [] .next ∧ engine.nextSeq = 1 ∧
      (∃ h, everyCommand.fold (w.commands.upTo w.cursor) = .ok (engine, h)) ∧
      Delivered everyCommand (w.commands.upTo w.cursor) w.events ∧
      ∀ n < engine.nextSeq, ∃ batch ∈ w.events, batch.seq = n := by
  have hcheck : (exec (World.step everyCommand) attended .init
      (firstBoot ++ [.append (some (depositEnvelope 1)), .read] ++ handleCommand 0 ++
        .crash :: firstBoot)).any (waitingCheck fun engine => engine.nextSeq == 1) = true := by
    decide +kernel
  obtain ⟨w, hruns, hw⟩ := exists_run (fun _ _ hmeets => hmeets) hcheck
  obtain ⟨engine, since, hwait, hseq⟩ := waitingCheck_iff hw
  exact ⟨w, engine, since, hwait, beq_iff_eq.mp hseq, events_gapless hruns hwait⟩

/-- **A command appended while the engine is down**: the boot replays it
without a word and sets the cursor past it; the engine waits for the next
command, and its batch is on no stream. -/
theorem silentReplay : ∃ (w : World) (engine : Engine) (since : ℕ),
    Runs (World.step everyCommand) (fun _ a => ∀ file, a ≠ .fault file) .init w ∧
      w.process = .running engine since [] .next ∧
      ¬ Delivered everyCommand (w.commands.upTo w.cursor) w.events ∧
      ¬ ∀ n < engine.nextSeq, ∃ batch ∈ w.events, batch.seq = n := by
  have hcheck : (exec (World.step everyCommand) readableCheck .init
      (firstBoot ++ [.crash, .append (some (depositEnvelope 1))] ++ firstBoot)).any (fun w =>
        waitingCheck (fun engine => 0 < engine.nextSeq) w && w.events.isEmpty &&
          okWith (everyCommand.fold (w.commands.upTo w.cursor)) fun r => 0 < r.1.nextSeq)
      = true := by
    decide +kernel
  obtain ⟨w, hruns, hw⟩ := exists_run readable_of_check hcheck
  rw [Bool.and_eq_true, Bool.and_eq_true] at hw
  obtain ⟨⟨hwait, hempty⟩, hfold⟩ := hw
  obtain ⟨engine, since, hwait, hseq⟩ := waitingCheck_iff hwait
  obtain ⟨⟨e, h⟩, hfold, hpos⟩ := okWith_iff.mp hfold
  have hnone : ∀ n : UInt64, ¬ ∃ batch ∈ w.events, batch.seq = n := by
    rintro n ⟨batch, hmem, _⟩
    rw [List.isEmpty_iff.mp hempty] at hmem
    cases hmem
  refine ⟨w, engine, since, hruns, hwait, fun hdel => ?_, fun hall => ?_⟩
  · exact hnone 0 (hdel.seqs hfold 0 (of_decide_eq_true hpos))
  · exact hnone 0 (hall 0 (of_decide_eq_true hseq))

end MatchingEngine
