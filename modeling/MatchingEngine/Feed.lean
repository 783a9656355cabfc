import MatchingEngine.BookStore
import MatchingEngine.DbWriter
import MatchingEngine.Lib.Log
import MatchingEngine.Lib.System
import MatchingEngine.Snapshot

/-!
# Feed: the consumers of `events`

`main` of `bin/db_writer.rs`, and `bootstrap` and `tail` of `bin/api/book.rs`,
one step of a process at a time: the writer with its consumer group and
Postgres, any number of API processes with a snapshot file each, and the one
key under which an API process says how far its book is saved. An entry's id
is its place in the stream, an entry that does not parse is `none`. An error
ends a process, as a crash does.
-/

namespace MatchingEngine

open RustArith HashModel LogModel SystemModel

/-! ## `db_writer` -/

/-- Batches between trim attempts. -/
def trimEveryBatches : ℕ := 100

/-- `snapshot::earlier`, of two ids that parse. -/
def earlier (a b : ℕ) : ℕ := if b < a then b else a

/-- `main` between two of its awaits, with the variables that are alive there. A crash
loses them. -/
inductive WriterProcess where
  | down
  /-- about to read -/
  | waiting (sinceTrim : ℕ)
  | delivered (sinceTrim : ℕ) (reply : List (Option EventBatch × ℕ))
  /-- `tx` not committed yet -/
  | staged (sinceTrim : ℕ) (tx : Tables) (staged poison : List ℕ)
  | acking (sinceTrim : ℕ) (staged rest : List ℕ)
  | trimming (cut : ℕ)

/-- The `db_writer` process with what outlives it: its consumer group and Postgres.
`committed` is written down for the statements alone; no process keeps it. -/
structure DbWriter where
  /-- `db-writers` on `events` -/
  group : Option Group
  /-- Postgres -/
  tables : Tables
  /-- the entries whose rows were committed -/
  committed : List ℕ
  process : WriterProcess

/-- Before the first start. -/
def DbWriter.init : DbWriter where
  group := none
  tables := .empty
  committed := []
  process := .down

/-- The group's cursor; 0 where there is no group. -/
def DbWriter.cursor (w : DbWriter) : ℕ := (w.group.map Group.cursor).getD 0

/-- What the writer does next, await by await, or that it dies. -/
inductive WriterAction where
  /-- also an exit with an error -/
  | crash
  | boot
  /-- `XREADGROUP ">"`, also when it times out -/
  | read
  /-- the statements of the transaction; `clock k i` is the time at event `i` of the
  `k`-th batch -/
  | stage (clock : ℕ → ℕ → ℤ)
  | commit
  | ack
  /-- count the read; when due, `GET` the key -/
  | finish
  /-- `XTRIM MINID ~`: any `n` leading entries below the id -/
  | trim (n : ℕ)

/-- The next state of the writer, and what it leaves of the stream. -/
def DbWriter.step (events : Log EventBatch) (bookSnapshotId : Option ℕ) (w : DbWriter) :
    WriterAction → Option (DbWriter × Log EventBatch)
  | .crash => some ({ w with process := .down }, events)
  | .boot =>
      match w.process with
      | .down =>
          -- an existing group (`BUSYGROUP`) is kept, a new one starts at 0
          some ({ w with group := some (w.group.getD (.create 0)), process := .waiting 0 }, events)
      | _ => none
  | .read =>
      match w.process, w.group with
      | .waiting since, some group =>
          let (reply, group) := group.read 10 events
          some ({ w with group := some group, process := .delivered since reply }, events)
      | _, _ => none
  | .stage clock =>
      match w.process with
      | .delivered since reply =>
          (w.tables.stageAll clock (Log.parsed reply)).map fun tx =>
            ({ w with
              process := .staged since tx (Log.parsedIds reply) (Log.unparsedIds reply) }, events)
      | _ => none
  | .commit =>
      match w.process with
      | .staged since tx staged poison =>
          some ({ w with
            tables := if staged.isEmpty then w.tables else tx
            committed := w.committed ++ staged
            process := .acking since staged (staged ++ poison) }, events)
      | _ => none
  | .ack =>
      match w.process with
      | .acking since staged (id :: rest) =>
          some ({ w with
            group := w.group.map (Group.ack id)
            process := .acking since staged rest }, events)
      | _ => none
  | .finish =>
      match w.process with
      | .acking since staged [] =>
          match staged.getLast? with
          | none => some ({ w with process := .waiting since }, events)
          | some committed =>
              if since + 1 < trimEveryBatches then
                some ({ w with process := .waiting (since + 1) }, events)
              else
                match bookSnapshotId with
                | none => some ({ w with process := .waiting 0 }, events)
                | some book =>
                    some ({ w with process := .trimming (earlier committed book) }, events)
      | _ => none
  | .trim n =>
      match w.process with
      | .trimming cut =>
          if n < cut then some ({ w with process := .waiting 0 }, events.trim n) else none
      | _ => none

/-! ## The API's book -/

/-- `bootstrap` and `tail` between two of their awaits, with the book and the id it is
as of. -/
inductive ApiProcess where
  | down
  /-- the snapshot is restored, the stream not read yet -/
  | loaded (state : BookState) (lastId : ℕ)
  /-- about to read -/
  | tailing (state : BookState) (lastId sinceSnapshot : ℕ)
  | tailed (state : BookState) (lastId sinceSnapshot : ℕ)
  /-- the id not published yet -/
  | saved (state : BookState) (lastId : ℕ)

/-- One API process and its snapshot file, as far as the book goes. -/
structure Api where
  file : SnapshotFile BookState
  process : ApiProcess

/-- Before the first start. -/
def Api.init : Api := { file := .missing, process := .down }

/-- What an API process does next, await by await, or what befalls it. -/
inductive ApiAction where
  | crash
  /-- start, up to the read of the snapshot -/
  | load
  /-- `XRANGE` and the replay -/
  | bootstrap
  /-- `XREAD` and the replay, also when it times out -/
  | read
  /-- when due, `save`, which may fail -/
  | save (written : Bool)
  /-- the result of `SET` is ignored -/
  | publish (delivered : Bool)
  /-- the snapshot file turns into one that does not load -/
  | fault (file : SnapshotFile BookState)

/-- The snapshot a start finds; `every` is `none` where there is no config. -/
def Api.loadedSnapshot (every : Option ℕ) (api : Api) : Option (Snapshot BookState) :=
  every.bind fun _ => api.file.load

/-- The next state of an API process, and of the key. -/
def Api.step (every : Option ℕ) (events : Log EventBatch) (bookSnapshotId : Option ℕ)
    (api : Api) : ApiAction → Option (Api × Option ℕ)
  | .crash => some ({ api with process := .down }, bookSnapshotId)
  | .load =>
      match api.process with
      | .down =>
          match api.loadedSnapshot every with
          | some snap =>
              some ({ api with process := .loaded snap.state snap.lastId }, bookSnapshotId)
          | none => some ({ api with process := .loaded .new 0 }, bookSnapshotId)
      | _ => none
  | .bootstrap =>
      match api.process with
      | .loaded state lastId =>
          let entries := events.after lastId
          let state := (Log.parsed entries).foldl BookState.applyBatch state
          let lastId := (Log.lastParsed entries).getD lastId
          some ({ api with process := .tailing state lastId 0 }, bookSnapshotId)
      | _ => none
  | .read =>
      match api.process with
      | .tailing state lastId since =>
          let entries := events.after lastId
          let state := (Log.parsed entries).foldl BookState.applyBatch state
          let lastId := (entries.getLast?.map Prod.snd).getD lastId
          let since := since + (Log.parsed entries).length
          some ({ api with process := .tailed state lastId since }, bookSnapshotId)
      | _ => none
  | .save written =>
      match api.process with
      | .tailed state lastId since =>
          match every with
          | some every =>
              if since < every then
                some ({ api with process := .tailing state lastId since }, bookSnapshotId)
              else if written then
                some ({ file := .save lastId state, process := .saved state lastId },
                  bookSnapshotId)
              else some ({ api with process := .tailing state lastId 0 }, bookSnapshotId)
          | none => some ({ api with process := .tailing state lastId since }, bookSnapshotId)
      | _ => none
  | .publish delivered =>
      match api.process with
      | .saved state lastId =>
          some ({ api with process := .tailing state lastId 0 },
            if delivered then some lastId else bookSnapshotId)
      | _ => none
  | .fault file =>
      if file.load.isNone then some ({ api with file := file }, bookSnapshotId) else none

/-! ## All of them -/

/-- The stream `events` with everybody who reads it: one writer, and as many API
processes as there are numbers. All of them share the one key. -/
structure Feed where
  events : Log EventBatch
  /-- `BOOK_SNAPSHOT_KEY` -/
  bookSnapshotId : Option ℕ
  writer : DbWriter
  apis : ℕ → Api

/-- An empty stream, and nobody started. -/
def Feed.init : Feed where
  events := .empty
  bookSnapshotId := none
  writer := .init
  apis := fun _ => .init

/-- Who moves: the engine appends, the writer takes a step, or an API process does. -/
inductive FeedAction where
  /-- the engine, at any time -/
  | append (entry : Option EventBatch)
  | writer (a : WriterAction)
  | api (i : ℕ) (a : ApiAction)

/-- The next state; `every i` is the snapshot config of API process `i`. -/
def Feed.step (every : ℕ → Option ℕ) (w : Feed) : FeedAction → Option Feed
  | .append entry => some { w with events := w.events.append entry }
  | .writer a =>
      (w.writer.step w.events w.bookSnapshotId a).map fun (writer, events) =>
        { w with writer := writer, events := events }
  | .api i a =>
      ((w.apis i).step (every i) w.events w.bookSnapshotId a).map fun (api, bookSnapshotId) =>
        { w with apis := Function.update w.apis i api, bookSnapshotId := bookSnapshotId }

/-- The writer at most trims the stream. -/
theorem DbWriter.step_events {events events' : Log EventBatch} {bookSnapshotId : Option ℕ}
    {w w' : DbWriter} {a : WriterAction}
    (h : w.step events bookSnapshotId a = some (w', events')) :
    events' = events ∨ ∃ n, events' = events.trim n := by
  cases a with
  | trim n =>
      simp only [DbWriter.step] at h
      split at h
      · split at h
        · cases h
          exact .inr ⟨n, rfl⟩
        · cases h
      · cases h
  | stage clock =>
      simp only [DbWriter.step] at h
      split at h
      · obtain ⟨tx, _, htx⟩ := Option.map_eq_some_iff.mp h
        cases htx
        exact .inl rfl
      · cases h
  | crash => cases h; exact .inl rfl
  | finish =>
      simp only [DbWriter.step] at h
      split at h
      · split at h
        · cases h; exact .inl rfl
        · split at h
          · cases h; exact .inl rfl
          · split at h <;> (cases h; exact .inl rfl)
      · cases h
  | boot | read | commit | ack =>
      simp only [DbWriter.step] at h
      split at h
      · cases h
        exact .inl rfl
      · cases h

end MatchingEngine
