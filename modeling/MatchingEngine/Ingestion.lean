import MatchingEngine.Feed

/-!
# Ingestion: what `db_writer` commits

The writer commits before it acknowledges, so while it runs Postgres holds the
batches of everything the group has delivered (`Committed`). After a crash it
asks for `>` alone: what was delivered and not committed is never delivered
again, and later batches are committed without it (`skippedBatch`).
-/

namespace MatchingEngine

open RustArith HashModel LogModel SystemModel

/-! ## Staging -/

theorem stageAll_later (clock : ℕ → ℕ → ℤ) (batches : List EventBatch) (n : ℕ) (tables : Tables) :
    (batches.zipIdx n).foldlM (fun tables (batch, k) => Tables.stageBatch (clock k) tables batch)
        tables
      = tables.stageAll (fun k => clock (n + k)) batches := by
  rw [Tables.stageAll, List.zipIdx_eq_map_add, List.foldlM_map]

theorem stageAll_append (clock : ℕ → ℕ → ℤ) (tables : Tables) (batches batches' : List EventBatch) :
    tables.stageAll clock (batches ++ batches')
      = (tables.stageAll clock batches).bind fun tables =>
          tables.stageAll (fun k => clock (batches.length + k)) batches' := by
  rw [Tables.stageAll, List.zipIdx_append, List.foldlM_append]
  simp only [Nat.zero_add, stageAll_later]
  rfl

/-- Only the times of the batches there are matter. -/
theorem stageAll_congr {clock clock' : ℕ → ℕ → ℤ} (tables : Tables) (batches : List EventBatch)
    (h : ∀ k < batches.length, clock k = clock' k) :
    tables.stageAll clock batches = tables.stageAll clock' batches := by
  induction batches using List.reverseRecOn with
  | nil => rfl
  | append_singleton batches batch ih =>
      rw [List.length_append, List.length_singleton] at h
      rw [stageAll_append, stageAll_append, ih fun k hk => h k (Nat.lt_succ_of_lt hk)]
      refine congrArg _ (funext fun tables => ?_)
      show Tables.stageAll (fun k => clock (batches.length + k)) tables [batch] = _
      have hlast := h batches.length (Nat.lt_succ_self _)
      simp [Tables.stageAll, hlast]

/-- Two stretches of the stream, staged one after the other. -/
theorem staged_append {tables tables' tables'' : Tables} {clock clock' : ℕ → ℕ → ℤ}
    {batches batches' : List EventBatch} (h : tables.stageAll clock batches = some tables')
    (h' : tables'.stageAll clock' batches' = some tables'') :
    ∃ clock'', tables.stageAll clock'' (batches ++ batches') = some tables'' := by
  refine ⟨fun k => if k < batches.length then clock k else clock' (k - batches.length), ?_⟩
  have hfirst : tables.stageAll
      (fun k => if k < batches.length then clock k else clock' (k - batches.length)) batches
        = some tables' := by
    rw [← h]
    exact stageAll_congr tables batches fun k hk => if_pos hk
  rw [stageAll_append, hfirst, Option.bind_some]
  have hclock : (fun k => if batches.length + k < batches.length then clock (batches.length + k)
      else clock' (batches.length + k - batches.length)) = clock' := by
    funext k
    rw [if_neg (by omega), Nat.add_sub_cancel_left]
  rw [hclock]
  exact h'

/-! ## What is committed -/

/-- Postgres holds the batches of the entries up to `done`, and no others. -/
structure Committed (events : Log EventBatch) (committed : List ℕ) (tables : Tables)
    (done : ℕ) : Prop where
  ids : committed = Log.parsedIds (events.segment 0 done)
  rows : ∃ clock, Tables.empty.stageAll clock (events.upTo done) = some tables

/-- The entries read and not committed. -/
def WriterProcess.uncommitted : WriterProcess → List ℕ
  | .delivered _ reply => Log.parsedIds reply
  | .staged _ _ ids _ => ids
  | _ => []

/-- What is committed and what is staged, wherever the writer is: a prefix of the
stream, and the next entries after it. -/
def WriterSound (events : Log EventBatch) (cursor : ℕ) (committed : List ℕ) (tables : Tables) :
    WriterProcess → Prop
  | .down => Committed events committed tables cursor
  | .waiting _ => Committed events committed tables cursor
  | .delivered _ reply => ∃ done ≤ cursor, Committed events committed tables done ∧
      reply = events.segment done cursor
  | .staged _ tx ids _ => ∃ done ≤ cursor, Committed events committed tables done ∧
      ids = Log.parsedIds (events.segment done cursor) ∧
      ∃ clock, Tables.empty.stageAll clock (events.upTo cursor) = some tx
  | .acking _ ids _ => Committed events committed tables cursor ∧ ∀ id ∈ ids, id ≤ cursor
  | .trimming cut => Committed events committed tables cursor ∧ cut ≤ cursor

/-- The writer has skipped nothing: what was trimmed was delivered to it. -/
structure DbWriter.Sound (events : Log EventBatch) (w : DbWriter) : Prop where
  trimmed : events.trimmed ≤ w.cursor
  cursor : w.cursor ≤ events.lastId
  process : WriterSound events w.cursor w.committed w.tables w.process

section

variable {events : Log EventBatch} {committed : List ℕ} {tables : Tables} {cursor done : ℕ}

theorem Committed.append (h : Committed events committed tables done) (hle : done ≤ events.lastId)
    (entry : Option EventBatch) : Committed (events.append entry) committed tables done where
  ids := by
    rw [Log.segment_append hle]
    exact h.ids
  rows := by
    rw [Log.upTo_append hle]
    exact h.rows

/-- Entries that do not parse need no commit. -/
theorem Committed.forward (h : Committed events committed tables done) (hle : done ≤ cursor)
    (hcursor : cursor ≤ events.lastId)
    (hnone : Log.parsedIds (events.segment done cursor) = []) :
    Committed events committed tables cursor where
  ids := by
    rw [Log.segment_split (Nat.zero_le done) hle (hle.trans hcursor), Log.parsedIds_append, hnone,
      List.append_nil]
    exact h.ids
  rows := by
    rw [Log.upTo_of_parsed_nil hle (Log.parsedIds_eq_nil.mp hnone)]
    exact h.rows

/-- What was read and staged is committed with all its ids. -/
theorem Committed.commit {tx : Tables} {clock : ℕ → ℕ → ℤ}
    (h : Committed events committed tables done) (hle : done ≤ cursor)
    (hcursor : cursor ≤ events.lastId)
    (htx : Tables.empty.stageAll clock (events.upTo cursor) = some tx) :
    Committed events (committed ++ Log.parsedIds (events.segment done cursor))
      (if (Log.parsedIds (events.segment done cursor)).isEmpty then tables else tx) cursor := by
  cases hids : Log.parsedIds (events.segment done cursor) with
  | nil =>
      rw [List.append_nil]
      exact h.forward hle hcursor hids
  | cons id ids =>
      constructor
      · rw [Log.segment_split (Nat.zero_le done) hle (hle.trans hcursor), Log.parsedIds_append,
          ← h.ids, hids]
      · exact ⟨clock, htx⟩

/-- The writer is always somewhere. -/
theorem committed_of_sound {process : WriterProcess}
    (h : WriterSound events cursor committed tables process) :
    ∃ done ≤ cursor, Committed events committed tables done := by
  cases process with
  | down => exact ⟨cursor, Nat.le_refl _, h⟩
  | waiting since => exact ⟨cursor, Nat.le_refl _, h⟩
  | delivered since reply =>
      obtain ⟨done, hle, hcommitted, _⟩ := h
      exact ⟨done, hle, hcommitted⟩
  | staged since tx ids poison =>
      obtain ⟨done, hle, hcommitted, _⟩ := h
      exact ⟨done, hle, hcommitted⟩
  | acking since ids rest => exact ⟨cursor, Nat.le_refl _, h.1⟩
  | trimming cut => exact ⟨cursor, Nat.le_refl _, h.1⟩

theorem WriterSound.append {process : WriterProcess}
    (h : WriterSound events cursor committed tables process) (hcursor : cursor ≤ events.lastId)
    (entry : Option EventBatch) :
    WriterSound (events.append entry) cursor committed tables process := by
  cases process with
  | down => exact Committed.append h hcursor entry
  | waiting since => exact Committed.append h hcursor entry
  | delivered since reply =>
      obtain ⟨done, hle, hcommitted, hreply⟩ := h
      refine ⟨done, hle, hcommitted.append (hle.trans hcursor) entry, ?_⟩
      rw [Log.segment_append hcursor]
      exact hreply
  | staged since tx ids poison =>
      obtain ⟨done, hle, hcommitted, hids, htx⟩ := h
      refine ⟨done, hle, hcommitted.append (hle.trans hcursor) entry, ?_⟩
      rw [Log.segment_append hcursor, Log.upTo_append hcursor]
      exact ⟨hids, htx⟩
  | acking since ids rest => exact ⟨h.1.append hcursor entry, h.2⟩
  | trimming cut => exact ⟨h.1.append hcursor entry, h.2⟩

theorem DbWriter.cursor_eq {w : DbWriter} {group : Group} (hgroup : w.group = some group) :
    w.cursor = group.cursor := by
  rw [DbWriter.cursor, hgroup]
  rfl

/-- **One step of the writer**: it keeps what is committed a prefix, when a
crash leaves nothing uncommitted behind. -/
theorem DbWriter.Sound.stepped {events' : Log EventBatch} {bookSnapshotId : Option ℕ}
    {w w' : DbWriter} {a : WriterAction} (hs : w.Sound events)
    (hmeets : a = .crash → w.process.uncommitted = [])
    (h : w.step events bookSnapshotId a = some (w', events')) : w'.Sound events' := by
  have hprocess := hs.process
  have hcursor := hs.cursor
  cases a with
  | crash =>
      cases h
      refine ⟨hs.trimmed, hs.cursor, ?_⟩
      have hnone := hmeets rfl
      show Committed events w.committed w.tables w.cursor
      cases hp : w.process with
      | down => rw [hp] at hprocess; exact hprocess
      | waiting since => rw [hp] at hprocess; exact hprocess
      | delivered since reply =>
          rw [hp] at hprocess hnone
          obtain ⟨done, hle, hcommitted, rfl⟩ := hprocess
          exact hcommitted.forward hle hcursor hnone
      | staged since tx ids poison =>
          rw [hp] at hprocess hnone
          obtain ⟨done, hle, hcommitted, rfl, _⟩ := hprocess
          exact hcommitted.forward hle hcursor hnone
      | acking since ids rest => rw [hp] at hprocess; exact hprocess.1
      | trimming cut => rw [hp] at hprocess; exact hprocess.1
  | boot =>
      simp only [DbWriter.step] at h
      split at h
      · rename_i hdown
        cases h
        rw [hdown] at hprocess
        cases hgroup : w.group with
        | some group =>
            have htrimmed := hs.trimmed
            rw [DbWriter.cursor_eq hgroup] at htrimmed hcursor hprocess
            exact ⟨htrimmed, hcursor, hprocess⟩
        | none =>
            have hzero : w.cursor = 0 := by rw [DbWriter.cursor, hgroup]; rfl
            have htrimmed := hs.trimmed
            rw [hzero] at htrimmed hcursor hprocess
            exact ⟨htrimmed, hcursor, hprocess⟩
      · cases h
  | read =>
      simp only [DbWriter.step] at h
      split at h
      · rename_i since group hwaiting hgroup
        cases h
        rw [hwaiting] at hprocess
        have htrimmed := hs.trimmed
        rw [DbWriter.cursor_eq hgroup] at htrimmed hcursor hprocess
        obtain ⟨hreply, hle, hlast⟩ := Group.read_eq htrimmed hcursor 10
        exact ⟨htrimmed.trans hle, hlast, group.cursor, hle, hprocess, hreply⟩
      · cases h
  | stage clock =>
      simp only [DbWriter.step] at h
      split at h
      · rename_i since reply hdelivered
        obtain ⟨tx, htx, heq⟩ := Option.map_eq_some_iff.mp h
        cases heq
        rw [hdelivered] at hprocess
        obtain ⟨done, hle, hcommitted, rfl⟩ := hprocess
        obtain ⟨clock', hrows⟩ := hcommitted.rows
        refine ⟨hs.trimmed, hs.cursor, done, hle, hcommitted, rfl, ?_⟩
        obtain ⟨clock'', hall⟩ := staged_append hrows htx
        rw [← Log.upTo_split hle] at hall
        exact ⟨clock'', hall⟩
      · cases h
  | commit =>
      simp only [DbWriter.step] at h
      split at h
      · rename_i since tx ids poison hstaged
        cases h
        rw [hstaged] at hprocess
        obtain ⟨done, hle, hcommitted, rfl, clock, htx⟩ := hprocess
        refine ⟨hs.trimmed, hs.cursor, hcommitted.commit hle hcursor htx, fun id hid => ?_⟩
        exact (Log.mem_parsedIds_segment.mp hid).2.1
      · cases h
  | ack =>
      simp only [DbWriter.step] at h
      split at h
      · rename_i since ids id rest hacking
        cases h
        rw [hacking] at hprocess
        have hsame : DbWriter.cursor
            { w with
              group := w.group.map (Group.ack id)
              process := .acking since ids rest } = w.cursor := by
          rw [DbWriter.cursor, Group.map_cursor_ack, DbWriter.cursor]
        constructor
        case trimmed => rw [hsame]; exact hs.trimmed
        case cursor => rw [hsame]; exact hs.cursor
        case process => rw [hsame]; exact hprocess
      · cases h
  | finish =>
      simp only [DbWriter.step] at h
      split at h
      · rename_i since ids hacking
        rw [hacking] at hprocess
        obtain ⟨hcommitted, hids⟩ := hprocess
        split at h
        · cases h
          exact ⟨hs.trimmed, hs.cursor, hcommitted⟩
        · rename_i last hlast
          split at h
          · cases h
            exact ⟨hs.trimmed, hs.cursor, hcommitted⟩
          · split at h
            · cases h
              exact ⟨hs.trimmed, hs.cursor, hcommitted⟩
            · rename_i book
              cases h
              refine ⟨hs.trimmed, hs.cursor, hcommitted, ?_⟩
              have hle := hids last (List.mem_of_getLast? hlast)
              rw [earlier]
              split
              · exact (Nat.le_of_lt ‹_›).trans hle
              · exact hle
      · cases h
  | trim n =>
      simp only [DbWriter.step] at h
      split at h
      · rename_i cut htrimming
        rw [htrimming] at hprocess
        split at h
        · cases h
          obtain ⟨hcommitted, hcut⟩ := hprocess
          refine ⟨?_, hs.cursor, ⟨hcommitted.ids, hcommitted.rows⟩⟩
          have htrimmed := hs.trimmed
          show max events.trimmed (min n events.lastId) ≤ w.cursor
          omega
        · cases h
      · cases h

end

/-! ## Runs -/

/-- The writer goes down only when everything it has read is committed, what
does not parse apart. -/
def Settles (w : Feed) (a : FeedAction) : Prop :=
  a = .writer .crash → w.writer.process.uncommitted = []

theorem Feed.writer_sound {every : ℕ → Option ℕ} {w : Feed}
    (hruns : Runs (Feed.step every) Settles .init w) : w.writer.Sound w.events := by
  refine hruns.invariant (motive := fun w => w.writer.Sound w.events)
    ⟨Nat.le_refl 0, Nat.le_refl 0, rfl, fun _ _ => 0, rfl⟩ ?_
  intro w a w' hs hmeets htaken
  cases a with
  | append entry =>
      cases htaken
      refine ⟨hs.trimmed, ?_, hs.process.append hs.cursor entry⟩
      rw [Log.lastId_append]
      exact Nat.le_succ_of_le hs.cursor
  | writer a =>
      obtain ⟨⟨writer, events⟩, hstep, heq⟩ := Option.map_eq_some_iff.mp htaken
      cases heq
      exact hs.stepped (fun ha => hmeets (by rw [ha])) hstep
  | api i a =>
      obtain ⟨_, _, heq⟩ := Option.map_eq_some_iff.mp htaken
      cases heq
      exact hs

/-- **No batch is skipped**: in every run in which the writer goes down only
when everything it has read is committed, the committed entries are those up
to some id that parse, in order, and the tables are what their batches give.
So an entry that is committed has all earlier ones that parse before it. -/
theorem committed_prefix {every : ℕ → Option ℕ} {w : Feed}
    (hruns : Runs (Feed.step every) Settles .init w) :
    (∃ done ≤ w.events.lastId, Committed w.events w.writer.committed w.writer.tables done) ∧
      ∀ id ∈ w.writer.committed, ∀ earlierId batch, 0 < earlierId → earlierId ≤ id →
        w.events.all[earlierId - 1]? = some (some batch) → earlierId ∈ w.writer.committed := by
  have hs := Feed.writer_sound hruns
  have hbegins : ∃ done ≤ w.events.lastId,
      Committed w.events w.writer.committed w.writer.tables done := by
    obtain ⟨done, hle, hcommitted⟩ := committed_of_sound hs.process
    exact ⟨done, hle.trans hs.cursor, hcommitted⟩
  refine ⟨hbegins, ?_⟩
  obtain ⟨done, _, hcommitted⟩ := hbegins
  intro id hid earlierId batch hpos hle hget
  rw [hcommitted.ids] at hid ⊢
  obtain ⟨_, hdone, _⟩ := Log.mem_parsedIds_segment.mp hid
  exact Log.mem_parsedIds_segment.mpr ⟨hpos, hle.trans hdone, batch, hget⟩

/-! ## Two batches, a crash after the commit and a crash before it -/

/-- A batch with a single level in it. -/
def levelBatch (seq : UInt64) (price : UInt64) : EventBatch where
  seq := seq
  events := [.bookDelta { base := .SOL, quote := .USD } .bid price 1]

/-- One read of the writer, up to the commit. -/
def ingest : List FeedAction :=
  [.writer .read, .writer (.stage fun _ _ => 0), .writer .commit]

/-- Whether the writer goes down only with all it read committed. -/
def settlesCheck (w : Feed) : FeedAction → Bool
  | .writer .crash => w.writer.process.uncommitted.isEmpty
  | _ => true

theorem settles_of_check (w : Feed) (a : FeedAction) (h : settlesCheck w a = true) :
    Settles w a := by
  rintro rfl
  exact List.isEmpty_iff.mp h

/-- A crash between the commit and the acknowledgement loses nothing. -/
theorem committed_prefix_crash : ∃ w : Feed, w.writer.committed = [1, 2] ∧
    (∃ done ≤ w.events.lastId, Committed w.events w.writer.committed w.writer.tables done) ∧
      ∀ id ∈ w.writer.committed, ∀ earlierId batch, 0 < earlierId → earlierId ≤ id →
        w.events.all[earlierId - 1]? = some (some batch) → earlierId ∈ w.writer.committed := by
  have hcheck : (exec (Feed.step fun _ => none) settlesCheck .init
      (.writer .boot :: .append (some (levelBatch 0 10)) :: ingest ++
        [.writer .crash, .append (some (levelBatch 1 11)), .writer .boot] ++ ingest)).any
      (fun w => w.writer.committed == [1, 2]) = true := by
    decide +kernel
  obtain ⟨w, hruns, hw⟩ := exists_run settles_of_check hcheck
  exact ⟨w, beq_iff_eq.mp hw, committed_prefix hruns⟩

/-- **A crash between the read and the commit**: the restarted writer asks for
`>`, gets the second batch and commits it; the first one stays pending. -/
theorem skippedBatch : ∃ w : Feed,
    Runs (Feed.step fun _ => none) (fun _ _ => True) .init w ∧
      ¬ ∀ id ∈ w.writer.committed, ∀ earlierId batch, 0 < earlierId → earlierId ≤ id →
        w.events.all[earlierId - 1]? = some (some batch) → earlierId ∈ w.writer.committed := by
  have hcheck : (exec (Feed.step fun _ => none) (fun _ _ => true) .init
      (.writer .boot :: .append (some (levelBatch 0 10)) :: .writer .read :: .writer .crash ::
        .append (some (levelBatch 1 11)) :: .writer .boot :: ingest)).any
      (fun w => w.writer.committed == [2] && w.events.all == [some (levelBatch 0 10),
        some (levelBatch 1 11)]) = true := by
    decide +kernel
  obtain ⟨w, hruns, hw⟩ := exists_run (fun _ _ _ => trivial) hcheck
  rw [Bool.and_eq_true] at hw
  refine ⟨w, hruns, fun hall => ?_⟩
  rw [beq_iff_eq.mp hw.1, beq_iff_eq.mp hw.2] at hall
  have hfirst := hall 2 (by simp) 1 (levelBatch 0 10) (by omega) (by omega) rfl
  simp at hfirst

end MatchingEngine
