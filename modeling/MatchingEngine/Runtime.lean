import MatchingEngine.Lib.Log
import MatchingEngine.Lib.System
import MatchingEngine.Snapshot

/-!
# Runtime: the engine process and the two streams

`runtime.rs` and the boot of `bin/engine.rs`, one step of the process at a
time. Redis keeps the `commands` stream, its consumer group and `events`; the
process keeps an engine and what it has read, and loses both in a crash.
`Stepped` says once what each action does, the invariants go by cases on it.

An entry that has no `data` or does not deserialize is `none`. The ids
`<ms>-<seq>` are increasing, so an entry's id is its place in the stream. A
panic ends the process, as a Redis error does; the second is a `crash`.

Two replies of Redis do not end it. The result of `PUBLISH` is ignored, and
`publish` has both outcomes. The result of `XGROUP SETID` is discarded too; an
error there, which would leave the cursor where it was and have the run loop
read again what was replayed, is assumed away: `align` moves the cursor.
-/

namespace MatchingEngine

open RustArith HashModel LogModel SystemModel

/-- `Uuid::new_v4`; that ids are fresh is a guard of `Gateway.step`. -/
abbrev Uuid : Type := BitVec 128

/-- An entry of `commands`: who sent it, under which key, and the id the reply
will carry. -/
structure CommandEnvelope where
  correlationId : Uuid
  accountId : AccountId
  clientOrderId : UInt64
  command : Command

/-- A message on `results`. -/
structure ResponseEnvelope where
  correlationId : Uuid
  response : CommandResponse

/-- What the process is started with: the snapshot's `every`, if there is a
snapshot at all. -/
structure Config where
  build : Build
  limits : Limits
  snapshot : Option ℕ

/-! ## `recover` -/

/-- The calls a replay makes; it drains the sets in some order each time. -/
def replay (o : ℕ → Drains) (entries : List (Option CommandEnvelope × ℕ)) : List Submission :=
  entries.filterMap fun (entry, id) =>
    entry.map fun env =>
      { accountId := env.accountId
        clientOrderId := env.clientOrderId
        command := env.command
        drains := o id }

/-- The snapshot a boot finds; none where snapshots are off, whatever is in the file. -/
def Config.loaded (cfg : Config) (file : SnapshotFile SavedEngine) :
    Option (Snapshot SavedEngine) :=
  cfg.snapshot.bind fun _ => file.load

/-- The id a replay starts after. -/
def Config.loadedId (cfg : Config) (file : SnapshotFile SavedEngine) : ℕ :=
  ((cfg.loaded file).map Snapshot.lastId).getD 0

/-- The engine a replay starts from: the snapshot's under this process's
limits, or a new one. -/
def Config.loadedEngine (cfg : Config) (file : SnapshotFile SavedEngine) : Engine :=
  match cfg.loaded file with
  | some snap => snap.state.restore cfg.limits
  | none => Engine.new cfg.limits

/-- `recover` up to the realignment: the engine, and the last id replayed. -/
def recover (cfg : Config) (o : ℕ → Drains) (file : SnapshotFile SavedEngine)
    (commands : Log CommandEnvelope) : Exec (Engine × Option ℕ) := do
  let entries := commands.after (cfg.loadedId file)
  let (engine, _) ← run (Engine.step cfg.build) (cfg.loadedEngine file) (replay o entries)
  pure (engine, Log.lastParsed entries)

/-! ## The process -/

/-- How far the entry at hand is: `run_engine` between two of its awaits. -/
inductive Stage where
  /-- at the top of the loop; with nothing left of the reply, about to read -/
  | next
  | applied (id : ℕ) (response : ResponseEnvelope) (batch : Option EventBatch)
  | emitted (id : ℕ) (response : ResponseEnvelope)
  | published (id : ℕ)
  | acked (id : ℕ)
  | saved (id : ℕ)

/-- Where the engine process is, and what it keeps in memory there. -/
inductive Process where
  | down
  /-- the group exists, nothing is recovered yet -/
  | booted
  /-- replayed, the group's cursor still where it was -/
  | recovered (engine : Engine) (lastId : Option ℕ)
  | running (engine : Engine) (sinceSnapshot : ℕ)
      (reply : List (Option CommandEnvelope × ℕ)) (stage : Stage)

/-- The streams, the consumer group and the snapshot file, which outlive a
crash, and the engine process, which does not. -/
structure World where
  commands : Log CommandEnvelope
  /-- `engine-group` on `commands` -/
  group : Option Group
  events : List EventBatch
  /-- what was published on `results` -/
  results : List ResponseEnvelope
  file : SnapshotFile SavedEngine
  process : Process

/-- Before anything happened. -/
def World.init : World where
  commands := .empty
  group := none
  events := []
  results := []
  file := .missing
  process := .down

/-- The group's cursor; 0 where there is no group. -/
def World.cursor (w : World) : ℕ := (w.group.map Group.cursor).getD 0

/-- What can happen next: a client appends, the process dies, it gets to its
next await (`boot` to `trim`, in the order of the source), or the snapshot
file goes bad. -/
inductive Action where
  /-- a client, at any time -/
  | append (entry : Option CommandEnvelope)
  | crash
  | boot
  | recover (o : ℕ → Drains)
  /-- `XGROUP SETID` -/
  | align
  /-- `XREADGROUP ">"`, also when it times out -/
  | read
  /-- acknowledge an entry that does not parse -/
  | skip
  | apply (o : Drains)
  /-- `XADD` to `events` -/
  | emit
  /-- the result of `PUBLISH` is ignored -/
  | publish (delivered : Bool)
  | ack
  /-- count the command; when due, `save`, which may fail -/
  | save (written : Bool)
  /-- `XTRIM MINID ~`: any `n` leading entries below the id -/
  | trim (n : ℕ)
  /-- the snapshot file turns into one that does not load -/
  | fault (file : SnapshotFile SavedEngine)

/-- The next state, `none` where the action cannot be taken: an await of the
process is taken in its own place only, an append, a crash and a fault
anywhere. -/
def World.step (cfg : Config) (w : World) : Action → Option World
  | .append entry => some { w with commands := w.commands.append entry }
  | .crash => some { w with process := .down }
  | .boot =>
      match w.process with
      | .down =>
          -- an existing group (`BUSYGROUP`) is kept, a new one starts at `$`
          some { w with
            group := some (w.group.getD (.create w.commands.lastId))
            process := .booted }
      | _ => none
  | .recover o =>
      match w.process with
      | .booted =>
          match recover cfg o w.file w.commands with
          | .ok (engine, lastId) => some { w with process := .recovered engine lastId }
          | .error _ => some { w with process := .down }
      | _ => none
  | .align =>
      match w.process with
      | .recovered engine (some lastId) =>
          some { w with
            group := w.group.map (Group.setId lastId)
            process := .running engine 0 [] .next }
      | .recovered engine none => some { w with process := .running engine 0 [] .next }
      | _ => none
  | .read =>
      match w.process, w.group with
      | .running engine since [] .next, some group =>
          let (reply, group) := group.read 10 w.commands
          some { w with group := some group, process := .running engine since reply .next }
      | _, _ => none
  | .skip =>
      match w.process with
      | .running engine since ((none, id) :: reply) .next =>
          some { w with
            group := w.group.map (Group.ack id)
            process := .running engine since reply .next }
      | _ => none
  | .apply o =>
      match w.process with
      | .running engine since ((some env, id) :: reply) .next =>
          match MatchingEngine.apply cfg.build o engine env.accountId env.clientOrderId
            env.command with
          | .ok (engine, response, batch) =>
              some { w with
                process := .running engine since reply (.applied id
                  { correlationId := env.correlationId, response := response } batch) }
          | .error _ => some { w with process := .down }
      | _ => none
  | .emit =>
      match w.process with
      | .running engine since reply (.applied id response batch) =>
          some { w with
            events := w.events ++ batch.toList
            process := .running engine since reply (.emitted id response) }
      | _ => none
  | .publish delivered =>
      match w.process with
      | .running engine since reply (.emitted id response) =>
          some { w with
            results := if delivered then w.results ++ [response] else w.results
            process := .running engine since reply (.published id) }
      | _ => none
  | .ack =>
      match w.process with
      | .running engine since reply (.published id) =>
          some { w with
            group := w.group.map (Group.ack id)
            process := .running engine since reply (.acked id) }
      | _ => none
  | .save written =>
      match w.process with
      | .running engine since reply (.acked id) =>
          match cfg.snapshot with
          | some every =>
              if since + 1 < every then
                some { w with process := .running engine (since + 1) reply .next }
              else if written then
                some { w with
                  file := .save id engine.serialize
                  process := .running engine 0 reply (.saved id) }
              else some { w with process := .running engine 0 reply .next }
          | none => some { w with process := .running engine (since + 1) reply .next }
      | _ => none
  | .trim n =>
      match w.process with
      | .running engine since reply (.saved id) =>
          if n < id then
            some { w with
              commands := w.commands.trim n
              process := .running engine since reply .next }
          else none
      | _ => none
  | .fault file =>
      if file.load.isNone then some { w with file := file } else none

/-! ## What an action does -/

/-- What each action can lead to, and from which process. The invariants go by cases on
this, and none of them unfolds the step. -/
inductive Stepped (cfg : Config) (w : World) : Action → World → Prop where
  | append (entry : Option CommandEnvelope) :
      Stepped cfg w (.append entry) { w with commands := w.commands.append entry }
  | crash : Stepped cfg w .crash { w with process := .down }
  /-- a replay that panics -/
  | recoverPanic {o : ℕ → Drains} {p : Panic} (hbooted : w.process = .booted)
      (hpanic : MatchingEngine.recover cfg o w.file w.commands = .error p) :
      Stepped cfg w (.recover o) { w with process := .down }
  /-- a command that panics -/
  | applyPanic {o : Drains} {p : Panic} {engine : Engine} {since id : ℕ} {env : CommandEnvelope}
      {reply : List (Option CommandEnvelope × ℕ)}
      (hrunning : w.process = .running engine since ((some env, id) :: reply) .next)
      (hpanic : MatchingEngine.apply cfg.build o engine env.accountId env.clientOrderId env.command
        = .error p) :
      Stepped cfg w (.apply o) { w with process := .down }
  | boot (hdown : w.process = .down) :
      Stepped cfg w .boot
        { w with
          group := some (w.group.getD (.create w.commands.lastId))
          process := .booted }
  | recover {o : ℕ → Drains} {engine : Engine} {lastId : Option ℕ} (hbooted : w.process = .booted)
      (hret : MatchingEngine.recover cfg o w.file w.commands = .ok (engine, lastId)) :
      Stepped cfg w (.recover o) { w with process := .recovered engine lastId }
  | align {engine : Engine} {lastId : Option ℕ} (hrec : w.process = .recovered engine lastId) :
      Stepped cfg w .align
        { w with
          group := w.group.map fun group => { group with cursor := lastId.getD group.cursor }
          process := .running engine 0 [] .next }
  | read {engine : Engine} {since : ℕ} {group : Group} (hgroup : w.group = some group)
      (hrunning : w.process = .running engine since [] .next) :
      Stepped cfg w .read
        { w with
          group := some (group.read 10 w.commands).2
          process := .running engine since (group.read 10 w.commands).1 .next }
  | skip {engine : Engine} {since id : ℕ} {reply : List (Option CommandEnvelope × ℕ)}
      (hrunning : w.process = .running engine since ((none, id) :: reply) .next) :
      Stepped cfg w .skip
        { w with
          group := w.group.map (Group.ack id)
          process := .running engine since reply .next }
  | apply {o : Drains} {engine engine' : Engine} {since id : ℕ} {env : CommandEnvelope}
      {reply : List (Option CommandEnvelope × ℕ)} {response : CommandResponse}
      {batch : Option EventBatch}
      (hrunning : w.process = .running engine since ((some env, id) :: reply) .next)
      (hret : MatchingEngine.apply cfg.build o engine env.accountId env.clientOrderId env.command
        = .ok (engine', response, batch)) :
      Stepped cfg w (.apply o)
        { w with
          process := .running engine' since reply
            (.applied id { correlationId := env.correlationId, response := response } batch) }
  | emit {engine : Engine} {since id : ℕ} {reply : List (Option CommandEnvelope × ℕ)}
      {response : ResponseEnvelope} {batch : Option EventBatch}
      (hrunning : w.process = .running engine since reply (.applied id response batch)) :
      Stepped cfg w .emit
        { w with
          events := w.events ++ batch.toList
          process := .running engine since reply (.emitted id response) }
  | publish {engine : Engine} {since id : ℕ} {reply : List (Option CommandEnvelope × ℕ)}
      {response : ResponseEnvelope} (delivered : Bool)
      (hrunning : w.process = .running engine since reply (.emitted id response)) :
      Stepped cfg w (.publish delivered)
        { w with
          results := if delivered then w.results ++ [response] else w.results
          process := .running engine since reply (.published id) }
  | ack {engine : Engine} {since id : ℕ} {reply : List (Option CommandEnvelope × ℕ)}
      (hrunning : w.process = .running engine since reply (.published id)) :
      Stepped cfg w .ack
        { w with
          group := w.group.map (Group.ack id)
          process := .running engine since reply (.acked id) }
  /-- not due, or not written -/
  | count {engine : Engine} {since id : ℕ} {reply : List (Option CommandEnvelope × ℕ)}
      (written : Bool) (since' : ℕ)
      (hrunning : w.process = .running engine since reply (.acked id)) :
      Stepped cfg w (.save written) { w with process := .running engine since' reply .next }
  | save {engine : Engine} {since id every : ℕ} {reply : List (Option CommandEnvelope × ℕ)}
      (hcfg : cfg.snapshot = some every)
      (hrunning : w.process = .running engine since reply (.acked id)) :
      Stepped cfg w (.save true)
        { w with
          file := .save id engine.serialize
          process := .running engine 0 reply (.saved id) }
  | trim {engine : Engine} {since id n : ℕ} {reply : List (Option CommandEnvelope × ℕ)}
      (hrunning : w.process = .running engine since reply (.saved id)) (hlt : n < id) :
      Stepped cfg w (.trim n)
        { w with
          commands := w.commands.trim n
          process := .running engine since reply .next }
  | fault {file : SnapshotFile SavedEngine} (hnone : file.load = none) :
      Stepped cfg w (.fault file) { w with file := file }

theorem World.step_cases {cfg : Config} {w w' : World} {a : Action}
    (h : w.step cfg a = some w') : Stepped cfg w a w' := by
  cases a with
  | append entry => cases h; exact .append entry
  | crash => cases h; exact .crash
  | boot =>
      simp only [World.step] at h
      split at h
      · cases h
        exact .boot ‹_›
      · cases h
  | recover o =>
      simp only [World.step] at h
      split at h
      · split at h
        · cases h
          exact .recover ‹_› ‹_›
        · cases h
          exact .recoverPanic ‹_› ‹_›
      · cases h
  | align =>
      simp only [World.step] at h
      split at h
      · cases h
        exact .align ‹_›
      · cases h
        rename_i engine hrec
        have hsame : w.group = w.group.map fun group =>
            { group with cursor := (none : Option ℕ).getD group.cursor } := by
          cases w.group <;> rfl
        have hto : Stepped cfg w .align _ := .align hrec
        rwa [← hsame] at hto
      · cases h
  | read =>
      simp only [World.step] at h
      split at h
      · cases h
        exact .read ‹_› ‹_›
      · cases h
  | skip =>
      simp only [World.step] at h
      split at h
      · cases h
        exact .skip ‹_›
      · cases h
  | apply o =>
      simp only [World.step] at h
      split at h
      · split at h
        · cases h
          exact .apply ‹_› ‹_›
        · cases h
          exact .applyPanic ‹_› ‹_›
      · cases h
  | emit =>
      simp only [World.step] at h
      split at h
      · cases h
        exact .emit ‹_›
      · cases h
  | publish delivered =>
      simp only [World.step] at h
      split at h
      · cases h
        exact .publish delivered ‹_›
      · cases h
  | ack =>
      simp only [World.step] at h
      split at h
      · cases h
        exact .ack ‹_›
      · cases h
  | save written =>
      simp only [World.step] at h
      split at h
      · rename_i hrunning
        split at h
        · rename_i hcfg
          split at h
          · cases h
            exact .count written _ hrunning
          · cases written with
            | true =>
                cases h
                exact .save hcfg hrunning
            | false =>
                cases h
                exact .count false 0 hrunning
        · cases h
          exact .count written _ hrunning
      · cases h
  | trim n =>
      simp only [World.step] at h
      split at h
      · split at h
        · cases h
          exact .trim ‹_› ‹_›
        · cases h
      · cases h
  | fault file =>
      simp only [World.step] at h
      split at h
      · rename_i hload
        cases h
        exact .fault (Option.isNone_iff_eq_none.mp hload)
      · cases h

end MatchingEngine
