import MatchingEngine.Ingestion

/-!
# Bootstrap: the public book of an API process

A process's book stands for the fold of `apply_batch` over the batches up to
some id, and so does its snapshot (`ApiSound`). Reading on keeps that when
nothing after the id it reads from was trimmed. `db_writer` trims by the one
key all processes share, whichever of them wrote it last: a process that is
behind it, or new, reads from a stream that no longer holds what it needs
(`freshApi`).
-/

namespace MatchingEngine

open RustArith HashModel LogModel SystemModel

/-- `apply_batch` over some batches, from `BookStore::new`. -/
def bookFold (batches : List EventBatch) : BookState :=
  batches.foldl BookState.applyBatch BookState.new

/-- A book is the fold of the batches up to `id`. -/
structure BookAt (events : Log EventBatch) (state : BookState) (id : ℕ) : Prop where
  there : id ≤ events.lastId
  fold : state = bookFold (events.upTo id)

/-- Wherever the process is, its book is the fold of the batches up to its id. -/
def ApiProcessSound (events : Log EventBatch) : ApiProcess → Prop
  | .down => True
  | .loaded state lastId => BookAt events state lastId
  | .tailing state lastId _ => BookAt events state lastId
  | .tailed state lastId _ => BookAt events state lastId
  | .saved state lastId => BookAt events state lastId

/-- So is the book in its snapshot file, when it loads. -/
structure ApiSound (every : Option ℕ) (events : Log EventBatch) (api : Api) : Prop where
  file : ∀ snap, api.loadedSnapshot every = some snap → BookAt events snap.state snap.lastId
  process : ApiProcessSound events api.process

/-- The id a process is about to read from. -/
def ApiProcess.readsFrom : ApiProcess → Option ℕ
  | .loaded _ lastId => some lastId
  | .tailing _ lastId _ => some lastId
  | _ => none

/-- Nothing after the id it reads from is gone. -/
def Api.Readable (events : Log EventBatch) (api : Api) : Prop :=
  ∀ id, api.process.readsFrom = some id → Log.parsed (events.segment id events.trimmed) = []

section

variable {every : Option ℕ} {events : Log EventBatch} {state : BookState} {id : ℕ}
  {bookSnapshotId bookSnapshotId' : Option ℕ} {api api' : Api} {a : ApiAction}

theorem bookAt_new (events : Log EventBatch) : BookAt events .new 0 where
  there := Nat.zero_le _
  fold := rfl

theorem BookAt.append (h : BookAt events state id) (entry : Option EventBatch) :
    BookAt (events.append entry) state id where
  there := by
    rw [Log.lastId_append]
    exact Nat.le_succ_of_le h.there
  fold := by
    rw [Log.upTo_append h.there]
    exact h.fold

theorem BookAt.trim (h : BookAt events state id) (n : ℕ) : BookAt (events.trim n) state id where
  there := h.there
  fold := h.fold

/-- Reading on to an id that stands for the end of the stream. -/
theorem BookAt.read (h : BookAt events state id)
    (hkept : Log.parsed (events.segment id events.trimmed) = []) {next : ℕ}
    (hnext : next ≤ events.lastId ∧ events.upTo next = events.upTo events.lastId) :
    BookAt events ((Log.parsed (events.after id)).foldl BookState.applyBatch state) next where
  there := hnext.1
  fold := by
    rw [hnext.2, Log.upTo_recover h.there hkept, bookFold, List.foldl_append, ← bookFold, ← h.fold]

theorem ApiSound.append (h : ApiSound every events api) (entry : Option EventBatch) :
    ApiSound every (events.append entry) api where
  file := fun snap hload => (h.file snap hload).append entry
  process := by
    have hprocess := h.process
    cases hp : api.process with
    | down => trivial
    | loaded state lastId | tailing state lastId since | tailed state lastId since
    | saved state lastId =>
        rw [hp] at hprocess
        exact BookAt.append hprocess entry

theorem ApiSound.trim (h : ApiSound every events api) (n : ℕ) :
    ApiSound every (events.trim n) api where
  file := fun snap hload => (h.file snap hload).trim n
  process := by
    have hprocess := h.process
    cases hp : api.process with
    | down => trivial
    | loaded state lastId | tailing state lastId since | tailed state lastId since
    | saved state lastId =>
        rw [hp] at hprocess
        exact BookAt.trim hprocess n

/-- **One step of an API process**: its book and its snapshot stay the folds
they stand for, when it reads from where the stream still goes on. -/
theorem ApiSound.stepped (hs : ApiSound every events api)
    (hmeets : a = .bootstrap ∨ a = .read → api.Readable events)
    (h : api.step every events bookSnapshotId a = some (api', bookSnapshotId')) :
    ApiSound every events api' := by
  have hprocess := hs.process
  cases a with
  | crash =>
      cases h
      exact ⟨hs.file, trivial⟩
  | load =>
      simp only [Api.step] at h
      split at h
      · split at h
        · rename_i snap hload
          cases h
          exact ⟨hs.file, hs.file snap hload⟩
        · cases h
          exact ⟨hs.file, bookAt_new events⟩
      · cases h
  | bootstrap =>
      simp only [Api.step] at h
      split at h
      · rename_i state lastId hloaded
        cases h
        have hkept := hmeets (.inl rfl) lastId (by rw [hloaded]; rfl)
        rw [hloaded] at hprocess
        have hat : BookAt events state lastId := hprocess
        exact ⟨hs.file, hat.read hkept (Log.upTo_lastParsed hat.there hkept)⟩
      · cases h
  | read =>
      simp only [Api.step] at h
      split at h
      · rename_i state lastId since htailing
        cases h
        have hkept := hmeets (.inr rfl) lastId (by rw [htailing]; rfl)
        rw [htailing] at hprocess
        have hat : BookAt events state lastId := hprocess
        exact ⟨hs.file, hat.read hkept (Log.upTo_last hat.there hkept)⟩
      · cases h
  | save written =>
      simp only [Api.step] at h
      split at h
      · rename_i state lastId since htailed
        rw [htailed] at hprocess
        split at h
        · split at h
          · cases h
            exact ⟨hs.file, hprocess⟩
          · split at h
            · cases h
              refine ⟨fun snap hload => ?_, hprocess⟩
              cases hload
              exact hprocess
            · cases h
              exact ⟨hs.file, hprocess⟩
        · cases h
          exact ⟨hs.file, hprocess⟩
      · cases h
  | publish delivered =>
      simp only [Api.step] at h
      split at h
      · rename_i state lastId hsaved
        cases h
        rw [hsaved] at hprocess
        exact ⟨hs.file, hprocess⟩
      · cases h
  | fault file =>
      simp only [Api.step] at h
      split at h
      · rename_i hnone
        cases h
        refine ⟨fun snap hload => ?_, hprocess⟩
        rw [Api.loadedSnapshot, Option.isNone_iff_eq_none.mp hnone] at hload
        cases every <;> cases hload
      · cases h

end

theorem Api.init_sound (every : Option ℕ) (events : Log EventBatch) :
    ApiSound every events Api.init where
  file := fun snap hload => by cases every <;> cases hload
  process := trivial

/-! ## Runs -/

/-- An API process reads only from where the stream still goes on. -/
def ReadsOn (w : Feed) (action : FeedAction) : Prop :=
  ∀ i, action = .api i .bootstrap ∨ action = .api i .read → (w.apis i).Readable w.events

theorem Feed.api_sound {every : ℕ → Option ℕ} {w : Feed}
    (hruns : Runs (Feed.step every) ReadsOn .init w) (i : ℕ) :
    ApiSound (every i) w.events (w.apis i) := by
  refine hruns.invariant (motive := fun w => ∀ i, ApiSound (every i) w.events (w.apis i))
    (fun i => Api.init_sound (every i) .empty) ?_ i
  intro w action w' hs hmeets htaken i
  cases action with
  | append entry =>
      cases htaken
      exact (hs i).append entry
  | writer a =>
      obtain ⟨⟨writer, events⟩, hstep, heq⟩ := Option.map_eq_some_iff.mp htaken
      cases heq
      rcases DbWriter.step_events hstep with rfl | ⟨n, rfl⟩
      · exact hs i
      · exact (hs i).trim n
  | api j a =>
      obtain ⟨⟨api, key⟩, hstep, heq⟩ := Option.map_eq_some_iff.mp htaken
      cases heq
      show ApiSound (every i) w.events (Function.update w.apis j api i)
      by_cases hij : i = j
      · subst hij
        rw [Function.update_self]
        refine (hs i).stepped (fun hread => hmeets i ?_) hstep
        exact hread.imp (congrArg (FeedAction.api i)) (congrArg (FeedAction.api i))
      · rw [Function.update_of_ne hij]
        exact hs i

/-- **A bootstrap rebuilds the whole book**: in every run in which no API
process reads on from an id after which a batch that parses is gone, the book
after a bootstrap is the fold of every batch ever appended up to the id it
returns. -/
theorem bootstrap_complete {every : ℕ → Option ℕ} {w w' : Feed} {i lastId since : ℕ}
    {state : BookState} (hruns : Runs (Feed.step every) ReadsOn .init w)
    (hmeets : (w.apis i).Readable w.events)
    (hstep : w.step every (.api i .bootstrap) = some w')
    (hend : (w'.apis i).process = .tailing state lastId since) :
    state = bookFold (w'.events.upTo lastId) := by
  have hnext : Runs (Feed.step every) ReadsOn .init w' := by
    refine hruns.next (fun j hj => ?_) hstep
    rcases hj with heq | heq
    · cases heq
      exact hmeets
    · cases heq
  have hprocess := (Feed.api_sound hnext i).process
  rw [hend] at hprocess
  exact hprocess.fold

/-! ## A hundred batches, and the first trim -/

/-- One batch appended, read, committed and acknowledged. -/
def ingestEntry (batch : EventBatch) : List FeedAction :=
  .append (some batch) :: ingest ++ [.writer .ack]

/-- API process 0 has saved its book at entry 100 and said so, the writer has
just committed that entry, and now trims all before it. -/
def trimmedFeed : List FeedAction :=
  [.api 0 .load, .api 0 .bootstrap, .writer .boot] ++
    ingestEntry (levelBatch 0 10) ++ [.writer .finish] ++
    (List.replicate 98 (ingestEntry (levelBatch 1 11) ++ [.writer .finish])).flatten ++
    ingestEntry (levelBatch 1 11) ++
    [.api 0 .read, .api 0 (.save true), .api 0 (.publish true), .writer .finish, .writer (.trim 99)]

/-- The level of the first batch. -/
def firstLevel (state : BookState) : Option UInt64 :=
  (state.book { base := .SOL, quote := .USD }).level (.bid, 10)

/-- What a bootstrap leaves behind, as a check on the book and the batches. -/
def bootstrapCheck (i : ℕ) (p : BookState → List EventBatch → Bool) (w : Feed) : Bool :=
  (w.step (fun _ => some 1) (.api i .bootstrap)).any fun w' =>
    match (w'.apis i).process with
    | .tailing state lastId _ => p state (w'.events.upTo lastId)
    | _ => false

theorem bootstrapCheck_iff {i : ℕ} {p : BookState → List EventBatch → Bool} {w : Feed}
    (h : bootstrapCheck i p w = true) :
    ∃ w' state lastId since, w.step (fun _ => some 1) (.api i .bootstrap) = some w' ∧
      (w'.apis i).process = .tailing state lastId since ∧
      p state (w'.events.upTo lastId) = true := by
  rw [bootstrapCheck] at h
  obtain ⟨w', hstep, h⟩ := (Option.any_eq_true _ _).mp h
  split at h
  · exact ⟨w', _, _, _, hstep, ‹_›, h⟩
  · cases h

/-- Whether nothing the process is about to read is trimmed. -/
def readableFromCheck (events : Log EventBatch) (api : Api) : Bool :=
  match api.process.readsFrom with
  | some id => (Log.parsed (events.segment id events.trimmed)).isEmpty
  | none => true

theorem readable_from_check {events : Log EventBatch} {api : Api}
    (h : readableFromCheck events api = true) : api.Readable events := by
  intro id hid
  rw [readableFromCheck, hid] at h
  exact List.isEmpty_iff.mp h

/-- Whether no process reads where a batch it lacks is gone. -/
def readsOnCheck (w : Feed) : FeedAction → Bool
  | .api i .bootstrap => readableFromCheck w.events (w.apis i)
  | .api i .read => readableFromCheck w.events (w.apis i)
  | _ => true

theorem readsOn_of_check (w : Feed) (action : FeedAction) (h : readsOnCheck w action = true) :
    ReadsOn w action := by
  rintro i (rfl | rfl)
  · exact readable_from_check h
  · exact readable_from_check h

/-- The process whose key it was restarts, and misses nothing. -/
theorem bootstrap_complete_trimmed : ∃ (w w' : Feed) (state : BookState) (lastId since : ℕ),
    w.events.trimmed = 99 ∧ w.step (fun _ => some 1) (.api 0 .bootstrap) = some w' ∧
      (w'.apis 0).process = .tailing state lastId since ∧
      state = bookFold (w'.events.upTo lastId) := by
  have hcheck : (exec (Feed.step fun _ => some 1) readsOnCheck .init
      (trimmedFeed ++ [.api 0 .crash, .api 0 .load])).any (fun w =>
        w.events.trimmed == 99 && readableFromCheck w.events (w.apis 0) &&
          bootstrapCheck 0 (fun _ _ => true) w) = true := by
    decide +kernel
  obtain ⟨w, hruns, hw⟩ := exists_run readsOn_of_check hcheck
  rw [Bool.and_eq_true, Bool.and_eq_true] at hw
  obtain ⟨⟨htrimmed, hreadable⟩, hboot⟩ := hw
  obtain ⟨w', state, lastId, since, hstep, hend, _⟩ := bootstrapCheck_iff hboot
  exact ⟨w, w', state, lastId, since, beq_iff_eq.mp htrimmed, hstep, hend,
    bootstrap_complete hruns (readable_from_check hreadable) hstep hend⟩

/-- **A second API process**: it starts without a snapshot, and the stream it
replays "from the start" starts at entry 100. -/
theorem freshApi : ∃ (w w' : Feed) (state : BookState) (lastId since : ℕ),
    Runs (Feed.step fun _ => some 1) (fun _ _ => True) .init w ∧
      w.step (fun _ => some 1) (.api 1 .bootstrap) = some w' ∧
      (w'.apis 1).process = .tailing state lastId since ∧
      state ≠ bookFold (w'.events.upTo lastId) := by
  have hcheck : (exec (Feed.step fun _ => some 1) (fun _ _ => true) .init
      (trimmedFeed ++ [.api 1 .load])).any
      (bootstrapCheck 1 fun state batches => firstLevel state != firstLevel (bookFold batches))
        = true := by
    decide +kernel
  obtain ⟨w, hruns, hw⟩ := exists_run (fun _ _ _ => trivial) hcheck
  obtain ⟨w', state, lastId, since, hstep, hend, hne⟩ := bootstrapCheck_iff hw
  refine ⟨w, w', state, lastId, since, hruns, hstep, hend, fun heq => ?_⟩
  exact bne_iff_ne.mp hne (congrArg firstLevel heq)

end MatchingEngine
