import Mathlib.Data.List.ReduceOption
import Mathlib.Data.List.Basic

/-!
# Log: an append-only stream that is trimmed from the front

Entries get consecutive ids, the first one is 1; an id stands for everything
up to it, 0 for nothing. What was trimmed is still part of the log's history
(`all`), a reader only gets the rest. An entry that does not parse is `none`.
`upTo` is what a reader who missed nothing has read, and `upTo_recover` says
when a snapshot and the entries after it make up for it.
-/

namespace LogModel

/-- A stream with all of its past. Trimming only moves a mark, so that an id means the
same before and after. -/
structure Log (α : Type) where
  /-- everything ever appended -/
  all : List (Option α)
  /-- how many of the first entries are gone -/
  trimmed : ℕ
  trimmed_le : trimmed ≤ all.length

namespace Log

variable {α : Type}

/-- Nothing was appended yet. -/
def empty : Log α := { all := [], trimmed := 0, trimmed_le := Nat.le_refl 0 }

/-- The id of the last entry. -/
def lastId (log : Log α) : ℕ := log.all.length

/-- One entry more; it gets the next id. -/
def append (log : Log α) (entry : Option α) : Log α where
  all := log.all ++ [entry]
  trimmed := log.trimmed
  trimmed_le := by
    have := log.trimmed_le
    rw [List.length_append]
    omega

/-- Drop further leading entries, so that `n` of them are gone. -/
def trim (log : Log α) (n : ℕ) : Log α where
  all := log.all
  trimmed := max log.trimmed (min n log.lastId)
  trimmed_le := Nat.max_le.mpr ⟨log.trimmed_le, Nat.min_le_right ..⟩

/-- The entries with an id above `lo` and up to `hi`, each with its id. -/
def segment (log : Log α) (lo hi : ℕ) : List (Option α × ℕ) :=
  ((log.all.take hi).drop lo).zipIdx (lo + 1)

/-- The entries there are with a greater id: what a reader gets that has read up to it.
-/
def after (log : Log α) (id : ℕ) : List (Option α × ℕ) :=
  (log.segment log.trimmed log.lastId).filter fun entry => id < entry.2

/-- The parsed entries up to an id, those that are gone included. -/
def upTo (log : Log α) (id : ℕ) : List α := (log.all.take id).reduceOption

/-- What parsed of some entries. -/
def parsed (entries : List (Option α × ℕ)) : List α := (entries.map Prod.fst).reduceOption

/-- The ids of the entries that parse. -/
def parsedIds (entries : List (Option α × ℕ)) : List ℕ :=
  (entries.filter fun entry => entry.1.isSome).map Prod.snd

/-- The ids of those that do not. -/
def unparsedIds (entries : List (Option α × ℕ)) : List ℕ :=
  (entries.filter fun entry => entry.1.isNone).map Prod.snd

/-- The id of the last entry that parsed. -/
def lastParsed (entries : List (Option α × ℕ)) : Option ℕ :=
  entries.foldl (fun last entry => if entry.1.isSome then some entry.2 else last) none

/-- Up to where was handled, when of what was read up to `hi` some entries are
left. -/
def handled (hi : ℕ) : List (Option α × ℕ) → ℕ
  | [] => hi
  | (_, id) :: _ => id - 1

variable {log : Log α} {lo hi id : ℕ} {entry : Option α}

@[simp] theorem lastId_append : (log.append entry).lastId = log.lastId + 1 := by
  simp [lastId, append]

@[simp] theorem trimmed_append : (log.append entry).trimmed = log.trimmed := rfl

@[simp] theorem lastId_trim (n : ℕ) : (log.trim n).lastId = log.lastId := rfl

@[simp] theorem upTo_trim (n : ℕ) : (log.trim n).upTo id = log.upTo id := rfl

@[simp] theorem segment_trim (n : ℕ) : (log.trim n).segment lo hi = log.segment lo hi := rfl

@[simp] theorem upTo_zero : log.upTo 0 = [] := rfl

theorem trimmed_le_lastId (log : Log α) : log.trimmed ≤ log.lastId := log.trimmed_le

/-- What was read does not change as the log grows. -/
theorem upTo_append (h : id ≤ log.lastId) : (log.append entry).upTo id = log.upTo id := by
  rw [upTo, append, List.take_append_of_le_length h, upTo]

theorem upTo_append_last :
    (log.append entry).upTo (log.append entry).lastId = log.upTo log.lastId ++ entry.toList := by
  rw [upTo, upTo, lastId, lastId, append, List.take_length, List.take_length,
    List.reduceOption_append]
  cases entry <;> rfl

theorem segment_append (h : hi ≤ log.lastId) :
    (log.append entry).segment lo hi = log.segment lo hi := by
  rw [segment, append, List.take_append_of_le_length h, segment]

/-! ## Segments -/

theorem getElem?_segment (log : Log α) (lo hi i : ℕ) :
    (log.segment lo hi)[i]?
      = if lo + i < hi then log.all[lo + i]?.map fun entry => (entry, lo + i + 1) else none := by
  rw [segment, List.getElem?_zipIdx, List.getElem?_drop, List.getElem?_take]
  split
  · rw [show lo + 1 + i = lo + i + 1 by omega]
  · rfl

theorem segment_self (log : Log α) (h : hi ≤ lo) : log.segment lo hi = [] := by
  refine List.ext_getElem? fun i => ?_
  rw [getElem?_segment, if_neg (by omega), List.getElem?_nil]

/-- The last entry of a segment. -/
theorem segment_succ (hlo : lo ≤ hi) (hget : log.all[hi]? = some entry) :
    log.segment lo (hi + 1) = log.segment lo hi ++ [(entry, hi + 1)] := by
  obtain ⟨hlt, _⟩ := List.getElem?_eq_some_iff.mp hget
  have hlen : (log.all.take hi).length = hi := by
    rw [List.length_take]
    omega
  rw [segment, segment, List.take_add_one, hget, List.drop_append_of_le_length (by omega),
    List.zipIdx_append, List.length_drop, hlen, show lo + 1 + (hi - lo) = hi + 1 by omega]
  rfl

/-- The first entry of a segment is the one after `lo`. -/
theorem segment_cons {rest : List (Option α × ℕ)} (h : log.segment lo hi = (entry, id) :: rest) :
    lo < hi ∧ id = lo + 1 ∧ log.all[lo]? = some entry ∧ rest = log.segment (lo + 1) hi := by
  have hdrop : (log.all.take hi).drop lo
      = entry :: (log.all.take hi).drop (lo + 1) ∧ id = lo + 1 := by
    rw [segment] at h
    cases hd : (log.all.take hi).drop lo with
    | nil => rw [hd] at h; cases h
    | cons x xs =>
        rw [hd, List.zipIdx_cons] at h
        obtain ⟨hhead, _⟩ := List.cons.inj h
        cases hhead
        refine ⟨?_, rfl⟩
        rw [← List.drop_drop, hd]
        rfl
  have hget : (log.all.take hi)[lo]? = some entry := by
    rw [← List.head?_drop, hdrop.1]
    rfl
  rw [List.getElem?_take] at hget
  split at hget
  · rename_i hlt
    refine ⟨hlt, hdrop.2, hget, ?_⟩
    rw [segment, hdrop.1, List.zipIdx_cons] at h
    exact (List.cons.inj h).2.symm
  · cases hget

theorem handled_segment (hlo : lo ≤ hi) (hhi : hi ≤ log.lastId) :
    handled hi (log.segment lo hi) = lo := by
  cases hseg : log.segment lo hi with
  | nil =>
      by_contra hne
      have hlt : lo < hi := Nat.lt_of_le_of_ne hlo fun heq => hne (by rw [handled, heq])
      have hget := log.getElem?_segment lo hi 0
      rw [hseg, Nat.add_zero, if_pos hlt,
        List.getElem?_eq_getElem (Nat.lt_of_lt_of_le hlt hhi)] at hget
      cases hget
  | cons entry rest =>
      obtain ⟨entry, id⟩ := entry
      obtain ⟨_, rfl, _⟩ := segment_cons hseg
      rfl

theorem take_segment (log : Log α) (lo hi n : ℕ) :
    (log.segment lo hi).take n = log.segment lo (min hi (lo + n)) := by
  refine List.ext_getElem? fun i => ?_
  rw [List.getElem?_take, getElem?_segment, getElem?_segment]
  by_cases hi' : i < n
  · have hmin : lo + i < min hi (lo + n) ↔ lo + i < hi := by omega
    simp only [if_pos hi', hmin]
  · rw [if_neg hi', if_neg (by omega)]

/-- The entries after an id are consecutive. -/
theorem after_eq (log : Log α) (id : ℕ) :
    log.after id = log.segment (max log.trimmed id) log.lastId := by
  have hfilter : ∀ (l : List (Option α)) (n : ℕ),
      ((l.zipIdx n).filter fun entry => id < entry.2)
        = (l.drop (id + 1 - n)).zipIdx (max n (id + 1)) := by
    intro l
    induction l with
    | nil => intro n; simp
    | cons entry l ih =>
        intro n
        rw [List.zipIdx_cons]
        by_cases hlt : id < n
        · rw [List.filter_cons_of_pos (by simpa using hlt), ih, show id + 1 - n = 0 by omega,
            show id + 1 - (n + 1) = 0 by omega, show max (n + 1) (id + 1) = n + 1 by omega,
            show max n (id + 1) = n by omega, List.drop_zero, List.drop_zero, List.zipIdx_cons]
        · rw [List.filter_cons_of_neg (by simpa using hlt), ih,
            show id + 1 - n = (id + 1 - (n + 1)) + 1 by omega, List.drop_succ_cons,
            show max (n + 1) (id + 1) = max n (id + 1) by omega]
  rw [after, segment, segment, hfilter, List.drop_drop,
    show log.trimmed + (id + 1 - (log.trimmed + 1)) = max log.trimmed id by omega,
    show max (log.trimmed + 1) (id + 1) = max log.trimmed id + 1 by omega]

/-! ## Reading on -/

theorem parsed_segment (log : Log α) (lo hi : ℕ) :
    parsed (log.segment lo hi) = ((log.all.take hi).drop lo).reduceOption := by
  rw [parsed, segment, List.zipIdx_map_fst]

/-- From one id to a later one. -/
theorem upTo_split (h : lo ≤ hi) : log.upTo hi = log.upTo lo ++ parsed (log.segment lo hi) := by
  have hsplit := List.take_append_drop lo (log.all.take hi)
  rw [List.take_take, Nat.min_eq_left h] at hsplit
  rw [parsed_segment, upTo, upTo, ← List.reduceOption_append, hsplit]

theorem upTo_succ (h : log.all[lo]? = some entry) :
    log.upTo (lo + 1) = log.upTo lo ++ entry.toList := by
  rw [upTo, List.take_add_one, h, List.reduceOption_append, upTo]
  cases entry <;> rfl

/-- An entry has one place, if some part of it tells all entries apart. -/
theorem place_unique {β : Type} {f : α → β} (hnodup : (log.all.reduceOption.map f).Nodup)
    {j k : ℕ} {x y : α} (hx : log.all[j]? = some (some x)) (hy : log.all[k]? = some (some y))
    (hf : f x = f y) : j = k := by
  have hpairs : log.all.Pairwise fun a b => ∀ u ∈ a, ∀ v ∈ b, f u ≠ f v :=
    List.pairwise_filterMap.mp (List.pairwise_map.mp hnodup)
  have hapart : ∀ {j k : ℕ} {x y}, log.all[j]? = some (some x) → log.all[k]? = some (some y) →
      j < k → f x ≠ f y := by
    intro j k x y hx hy hlt
    obtain ⟨hj, hx⟩ := List.getElem?_eq_some_iff.mp hx
    obtain ⟨hk, hy⟩ := List.getElem?_eq_some_iff.mp hy
    exact List.pairwise_iff_getElem.mp hpairs j k hj hk hlt x hx y hy
  rcases Nat.lt_trichotomy j k with hlt | heq | hlt
  · exact absurd hf (hapart hx hy hlt)
  · exact heq
  · exact absurd hf.symm (hapart hy hx hlt)

/-- **Recovery**: a reader that has read up to an id, and now reads what there
is after it, has read everything when nothing in between is gone. -/
theorem upTo_recover (hid : id ≤ log.lastId)
    (hkept : parsed (log.segment id log.trimmed) = []) :
    log.upTo log.lastId = log.upTo id ++ parsed (log.after id) := by
  rw [after_eq]
  rcases Nat.le_total log.trimmed id with hle | hle
  · rw [Nat.max_eq_right hle]
    exact upTo_split hid
  · rw [Nat.max_eq_left hle, upTo_split log.trimmed_le_lastId, upTo_split hle, hkept,
      List.append_nil]

/-- A read of nothing that parses moves no reader. -/
theorem upTo_of_parsed_nil (h : lo ≤ hi) (hnone : parsed (log.segment lo hi) = []) :
    log.upTo hi = log.upTo lo := by
  rw [upTo_split h, hnone, List.append_nil]

theorem segment_split {mid : ℕ} (hlo : lo ≤ mid) (hhi : mid ≤ hi) (hmid : mid ≤ log.lastId) :
    log.segment lo hi = log.segment lo mid ++ log.segment mid hi := by
  refine List.ext_getElem? fun i => ?_
  have hlen : (log.segment lo mid).length = mid - lo := by
    rw [segment, List.length_zipIdx, List.length_drop, List.length_take,
      Nat.min_eq_left (show mid ≤ log.all.length from hmid)]
  by_cases hi' : lo + i < mid
  · rw [List.getElem?_append_left (by omega), getElem?_segment, getElem?_segment, if_pos hi',
      if_pos (by omega)]
  · rw [List.getElem?_append_right (by omega), hlen, getElem?_segment, getElem?_segment,
      show mid + (i - (mid - lo)) = lo + i by omega]

theorem mem_segment {x : Option α × ℕ} :
    x ∈ log.segment lo hi ↔ lo < x.2 ∧ x.2 ≤ hi ∧ log.all[x.2 - 1]? = some x.1 := by
  obtain ⟨entry, id⟩ := x
  rw [List.mem_iff_getElem?]
  constructor
  · rintro ⟨i, hi'⟩
    rw [getElem?_segment] at hi'
    split at hi'
    · obtain ⟨entry', hget, heq⟩ := Option.map_eq_some_iff.mp hi'
      cases heq
      exact ⟨by omega, by omega, hget⟩
    · cases hi'
  · rintro ⟨hlt, hle, hget⟩
    refine ⟨id - lo - 1, ?_⟩
    dsimp only at hlt hle hget
    rw [getElem?_segment, if_pos (by omega), show lo + (id - lo - 1) = id - 1 by omega, hget,
      Option.map_some, show id - 1 + 1 = id by omega]

theorem mem_parsedIds_segment :
    id ∈ parsedIds (log.segment lo hi) ↔
      lo < id ∧ id ≤ hi ∧ ∃ x, log.all[id - 1]? = some (some x) := by
  rw [parsedIds, List.mem_map]
  constructor
  · rintro ⟨⟨entry, id'⟩, hmem, rfl⟩
    obtain ⟨hmem, hsome⟩ := List.mem_filter.mp hmem
    obtain ⟨hlt, hle, hget⟩ := mem_segment.mp hmem
    obtain ⟨x, rfl⟩ := Option.isSome_iff_exists.mp hsome
    exact ⟨hlt, hle, x, hget⟩
  · rintro ⟨hlt, hle, x, hget⟩
    exact ⟨(some x, id), List.mem_filter.mpr ⟨mem_segment.mpr ⟨hlt, hle, hget⟩, rfl⟩, rfl⟩

theorem parsedIds_append (entries entries' : List (Option α × ℕ)) :
    parsedIds (entries ++ entries') = parsedIds entries ++ parsedIds entries' := by
  simp [parsedIds]

theorem parsedIds_eq_nil {entries : List (Option α × ℕ)} :
    parsedIds entries = [] ↔ parsed entries = [] := by
  induction entries with
  | nil => exact ⟨fun _ => rfl, fun _ => rfl⟩
  | cons entry entries ih =>
      obtain ⟨entry, id⟩ := entry
      cases entry with
      | none => exact ih
      | some x => exact ⟨fun h => (nomatch h), fun h => (nomatch h)⟩

/-- Where two ids have read the same, so has every id in between. -/
theorem upTo_between {mid : ℕ} (hlo : lo ≤ mid) (hhi : mid ≤ hi) (h : log.upTo lo = log.upTo hi) :
    log.upTo mid = log.upTo lo := by
  refine upTo_of_parsed_nil hlo ?_
  have hmid : log.upTo hi = log.upTo mid ++ parsed (log.segment mid hi) := upTo_split hhi
  rw [← h, upTo_split hlo, List.append_assoc] at hmid
  exact (List.append_eq_nil_iff.mp (List.self_eq_append_right.mp hmid)).1

/-- What there is up to the last entry that parsed is all there is. -/
theorem lastParsed_segment (log : Log α) (lo : ℕ) : ∀ hi, hi ≤ log.lastId →
    (∀ id, lastParsed (log.segment lo hi) = some id →
      lo < id ∧ id ≤ hi ∧ log.upTo id = log.upTo hi) ∧
    (lastParsed (log.segment lo hi) = none → parsed (log.segment lo hi) = []) := by
  intro hi
  induction hi with
  | zero =>
      intro _
      rw [log.segment_self (Nat.zero_le lo)]
      exact ⟨fun _ h => (nomatch h), fun _ => rfl⟩
  | succ hi ih =>
      intro hhi
      by_cases hlo : lo ≤ hi
      · obtain ⟨hsome, hnone⟩ := ih (Nat.le_of_succ_le hhi)
        have hget : log.all[hi]? = some (log.all.get ⟨hi, hhi⟩) := List.getElem?_eq_getElem hhi
        have hupTo := upTo_succ hget
        rw [segment_succ hlo hget, lastParsed, List.foldl_append, ← lastParsed]
        cases hentry : log.all.get ⟨hi, hhi⟩ with
        | none =>
            rw [hentry, Option.toList_none, List.append_nil] at hupTo
            constructor
            · intro id h
              obtain ⟨hlt, hle, heq⟩ := hsome id h
              exact ⟨hlt, Nat.le_succ_of_le hle, heq.trans hupTo.symm⟩
            · intro h
              have hrest := hnone h
              rw [parsed] at hrest ⊢
              rw [List.map_append, List.reduceOption_append, hrest]
              rfl
        | some x =>
            constructor
            · intro id h
              cases h
              exact ⟨Nat.lt_succ_of_le hlo, Nat.le_refl _, rfl⟩
            · intro h
              cases h
      · rw [log.segment_self (by omega)]
        exact ⟨fun _ h => (nomatch h), fun _ => rfl⟩

/-- The id a reader continues from, when it takes that of the last entry that
parsed. -/
theorem upTo_lastParsed (hid : id ≤ log.lastId)
    (hkept : parsed (log.segment id log.trimmed) = []) :
    (lastParsed (log.after id)).getD id ≤ log.lastId ∧
      log.upTo ((lastParsed (log.after id)).getD id) = log.upTo log.lastId := by
  have hall := upTo_recover hid hkept
  rw [after_eq] at hall ⊢
  obtain ⟨hsome, hnone⟩ :=
    lastParsed_segment log (max log.trimmed id) log.lastId (Nat.le_refl _)
  cases hlast : lastParsed (log.segment (max log.trimmed id) log.lastId) with
  | some last =>
      obtain ⟨_, hle, hupTo⟩ := hsome last hlast
      exact ⟨hle, hupTo⟩
  | none =>
      rw [hnone hlast, List.append_nil] at hall
      exact ⟨hid, hall.symm⟩

/-- The same, when it takes that of the last entry. -/
theorem upTo_last (hid : id ≤ log.lastId)
    (hkept : parsed (log.segment id log.trimmed) = []) :
    ((log.after id).getLast?.map Prod.snd).getD id ≤ log.lastId ∧
      log.upTo (((log.after id).getLast?.map Prod.snd).getD id) = log.upTo log.lastId := by
  have hall := upTo_recover hid hkept
  rw [after_eq] at hall ⊢
  cases hlast : log.lastId with
  | zero =>
      rw [log.segment_self (Nat.zero_le _)]
      exact ⟨hlast ▸ hid, by rw [show id = 0 by omega]; rfl⟩
  | succ last =>
      rw [hlast] at hall
      by_cases hmore : max log.trimmed id ≤ last
      · have hget : last < log.all.length := by
          rw [lastId] at hlast
          omega
        rw [segment_succ hmore (List.getElem?_eq_getElem hget), List.getLast?_concat]
        exact ⟨Nat.le_refl _, rfl⟩
      · rw [log.segment_self (Nat.lt_of_not_le hmore)] at hall ⊢
        rw [show parsed ([] : List (Option α × ℕ)) = [] from rfl, List.append_nil] at hall
        exact ⟨hlast ▸ hid, hall.symm⟩

end Log

/-! ## Consumer groups -/

/-- A consumer group: up to where entries were delivered, and which of them
are not acknowledged yet. -/
structure Group where
  cursor : ℕ
  pending : List ℕ

namespace Group

variable {α : Type} {log : Log α} {g : Group}

/-- A group from an id on. -/
def create (id : ℕ) : Group := { cursor := id, pending := [] }

/-- Deliver the next entries that were never delivered, `count` at most. -/
def read (count : ℕ) (log : Log α) (g : Group) : List (Option α × ℕ) × Group :=
  let reply := (log.after g.cursor).take count
  (reply,
    { cursor := (reply.getLast?.map Prod.snd).getD g.cursor
      pending := g.pending ++ reply.map Prod.snd })

/-- `XACK`: an entry is not pending any more. -/
def ack (id : ℕ) (g : Group) : Group := { g with pending := g.pending.erase id }

/-- `XGROUP SETID`: what comes next is what is after the id. -/
def setId (id : ℕ) (g : Group) : Group := { g with cursor := id }

@[simp] theorem cursor_ack (id : ℕ) : (g.ack id).cursor = g.cursor := rfl

@[simp] theorem cursor_setId (id : ℕ) : (g.setId id).cursor = id := rfl

/-- Acknowledging moves no cursor. -/
theorem map_cursor_ack (group : Option Group) (id : ℕ) :
    (group.map (ack id)).map cursor = group.map cursor := by
  cases group <;> rfl

/-- A group that is not behind what was trimmed misses nothing. -/
theorem read_eq (htrim : log.trimmed ≤ g.cursor) (hcursor : g.cursor ≤ log.lastId)
    (count : ℕ) :
    (g.read count log).1 = log.segment g.cursor (g.read count log).2.cursor ∧
      g.cursor ≤ (g.read count log).2.cursor ∧ (g.read count log).2.cursor ≤ log.lastId := by
  have hreply : (log.after g.cursor).take count
      = log.segment g.cursor (min log.lastId (g.cursor + count)) := by
    rw [Log.after_eq, Nat.max_eq_right htrim, Log.take_segment]
  rw [read, hreply]
  dsimp only
  cases hnext : min log.lastId (g.cursor + count) with
  | zero =>
      have hzero : g.cursor = 0 := by omega
      rw [hzero, log.segment_self (Nat.le_refl 0)]
      exact ⟨rfl, Nat.le_refl _, Nat.zero_le _⟩
  | succ last =>
      by_cases hmore : g.cursor ≤ last
      · have hlast : last < log.all.length := by
          have := Nat.min_le_left log.lastId (g.cursor + count)
          rw [Log.lastId] at *
          omega
        have hsucc := Log.segment_succ hmore (List.getElem?_eq_getElem hlast)
        rw [hsucc, List.getLast?_concat]
        exact ⟨hsucc.symm, Nat.le_succ_of_le hmore, hlast⟩
      · rw [log.segment_self (Nat.lt_of_not_le hmore)]
        exact ⟨(log.segment_self (Nat.le_refl _)).symm, Nat.le_refl _, hcursor⟩

end Group

end LogModel
