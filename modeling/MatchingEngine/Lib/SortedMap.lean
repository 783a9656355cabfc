import Mathlib.Data.List.Basic
import Mathlib.Data.List.Sort
import Mathlib.Order.Basic

/-!
# SortedMap: finite maps with ascending keys

The specification of an ordered tree map: a list of entries whose keys
ascend strictly, the order being a field of the structure. Two maps with
the same lookups are equal (`SortedMap.ext_get?`), the first and the last
entry are the least and the greatest key, and an operation leaves all entries
but the one it touches.
-/

/-- A finite map from `κ` to `β`, its entries in ascending key order. -/
structure SortedMap (κ β : Type) [LinearOrder κ] where
  entries : List (κ × β)
  sorted : entries.Pairwise (fun x y => x.1 < y.1)

namespace SortedMap

variable {κ β : Type} [LinearOrder κ]

theorem ext {m m' : SortedMap κ β} (h : m.entries = m'.entries) : m = m' := by
  cases m; cases m'; cases h; rfl

instance [DecidableEq β] : DecidableEq (SortedMap κ β) := fun m m' =>
  decidable_of_iff (m.entries = m'.entries) ⟨ext, fun h => h ▸ rfl⟩

/-- The map without entries. -/
def empty : SortedMap κ β := ⟨[], List.Pairwise.nil⟩

instance : EmptyCollection (SortedMap κ β) := ⟨empty⟩

instance : Inhabited (SortedMap κ β) := ⟨∅⟩

@[simp] theorem entries_empty : (∅ : SortedMap κ β).entries = [] := rfl

/-! ## Entry lists -/

/-- Put `(k, v)` at its place, replacing an entry with the same key. -/
def insertEntry (k : κ) (v : β) : List (κ × β) → List (κ × β)
  | [] => [(k, v)]
  | (k', v') :: rest =>
      if k < k' then (k, v) :: (k', v') :: rest
      else if k = k' then (k, v) :: rest
      else (k', v') :: insertEntry k v rest

theorem mem_insertEntry {k : κ} {v : β} {e : κ × β} {l : List (κ × β)}
    (h : e ∈ insertEntry k v l) : e = (k, v) ∨ e ∈ l := by
  induction l with
  | nil => simpa [insertEntry] using h
  | cons hd rest ih =>
      obtain ⟨k', v'⟩ := hd
      simp only [insertEntry] at h
      split at h
      · exact List.mem_cons.mp h
      · split at h
        · exact (List.mem_cons.mp h).imp_right (List.mem_cons_of_mem _)
        · rcases List.mem_cons.mp h with h | h
          · exact .inr (h ▸ List.mem_cons_self)
          · exact (ih h).imp_right (List.mem_cons_of_mem _)

theorem sorted_insertEntry (k : κ) (v : β) {l : List (κ × β)}
    (h : l.Pairwise (fun x y => x.1 < y.1)) :
    (insertEntry k v l).Pairwise (fun x y => x.1 < y.1) := by
  induction l with
  | nil => simp [insertEntry]
  | cons hd rest ih =>
      obtain ⟨k', v'⟩ := hd
      have hrest := List.pairwise_cons.mp h
      simp only [insertEntry]
      split
      · rename_i hlt
        refine List.pairwise_cons.mpr ⟨fun e he => ?_, h⟩
        rcases List.mem_cons.mp he with rfl | he
        · exact hlt
        · exact hlt.trans (hrest.1 e he)
      · split
        · rename_i heq
          subst heq
          exact List.pairwise_cons.mpr hrest
        · rename_i hge hne
          refine List.pairwise_cons.mpr ⟨fun e he => ?_, ih hrest.2⟩
          rcases mem_insertEntry he with rfl | he
          · exact lt_of_le_of_ne (not_lt.mp hge) (Ne.symm hne)
          · exact hrest.1 e he

/-! ## Operations -/

/-- The value at `k`. -/
def get? (m : SortedMap κ β) (k : κ) : Option β :=
  (m.entries.find? fun e => e.1 = k).map Prod.snd

/-- Set the value at `k`. -/
def insert (m : SortedMap κ β) (k : κ) (v : β) : SortedMap κ β :=
  ⟨insertEntry k v m.entries, sorted_insertEntry k v m.sorted⟩

/-- Drop the entry at `k`. -/
def erase (m : SortedMap κ β) (k : κ) : SortedMap κ β :=
  ⟨m.entries.filter fun e => e.1 ≠ k, m.sorted.filter _⟩

/-- The entry with the least key. -/
def firstKeyValue? (m : SortedMap κ β) : Option (κ × β) := m.entries.head?

/-- The entry with the greatest key. -/
def lastKeyValue? (m : SortedMap κ β) : Option (κ × β) := m.entries.getLast?

/-- Drop the entry with the least key. -/
def popFirst (m : SortedMap κ β) : SortedMap κ β :=
  ⟨m.entries.tail, m.sorted.sublist (List.tail_sublist _)⟩

/-- Drop the entry with the greatest key. -/
def popLast (m : SortedMap κ β) : SortedMap κ β :=
  ⟨m.entries.dropLast, m.sorted.sublist (List.dropLast_sublist _)⟩

/-- The map with `f` applied to every value. -/
def mapValues {γ : Type} (f : β → γ) (m : SortedMap κ β) : SortedMap κ γ :=
  ⟨m.entries.map fun e => (e.1, f e.2), List.pairwise_map.mpr m.sorted⟩

/-! ## Lookup -/

theorem nodup_keys (m : SortedMap κ β) : (m.entries.map Prod.fst).Nodup :=
  List.pairwise_map.mpr (m.sorted.imp fun hlt => hlt.ne)

theorem key_unique {m : SortedMap κ β} {k : κ} {v v' : β}
    (h : (k, v) ∈ m.entries) (h' : (k, v') ∈ m.entries) : v = v' :=
  congrArg Prod.snd (List.inj_on_of_nodup_map m.nodup_keys h h' rfl)

theorem get?_eq_some {m : SortedMap κ β} {k : κ} {v : β} :
    m.get? k = some v ↔ (k, v) ∈ m.entries := by
  constructor
  · intro h
    obtain ⟨e, he, hv⟩ := Option.map_eq_some_iff.mp h
    have hk : e.1 = k := by simpa using List.find?_some he
    obtain ⟨k', v'⟩ := e
    cases hk; cases hv
    exact List.mem_of_find?_eq_some he
  · intro h
    have hs : (m.entries.find? fun e => e.1 = k).isSome :=
      List.find?_isSome.mpr ⟨(k, v), h, by simp⟩
    obtain ⟨⟨k', v'⟩, he⟩ := Option.isSome_iff_exists.mp hs
    have hk : k' = k := by simpa using List.find?_some he
    subst hk
    rw [get?, he, Option.map_some, key_unique (List.mem_of_find?_eq_some he) h]

theorem get?_eq_none {m : SortedMap κ β} {k : κ} :
    m.get? k = none ↔ ∀ v, (k, v) ∉ m.entries := by
  rw [Option.eq_none_iff_forall_ne_some]
  exact forall_congr' fun v => not_congr get?_eq_some

@[simp] theorem get?_empty (k : κ) : (∅ : SortedMap κ β).get? k = none := rfl

theorem mem_insert {m : SortedMap κ β} {k k' : κ} {v v' : β} :
    (k', v') ∈ (m.insert k v).entries ↔
      (k' = k ∧ v' = v) ∨ (k' ≠ k ∧ (k', v') ∈ m.entries) := by
  obtain ⟨l, hl⟩ := m
  simp only [insert]
  induction l with
  | nil => simp [insertEntry]
  | cons hd rest ih =>
      obtain ⟨k₀, v₀⟩ := hd
      have hrest := List.pairwise_cons.mp hl
      have hk₀ : ∀ v, (k₀, v) ∉ rest := fun v hv => (hrest.1 _ hv).ne rfl
      simp only [insertEntry]
      split
      · rename_i hlt
        have hk : ∀ v, (k, v) ∉ (k₀, v₀) :: rest := by
          intro v hv
          rcases List.mem_cons.mp hv with hv | hv
          · exact hlt.ne (congrArg Prod.fst hv)
          · exact (hlt.trans (hrest.1 _ hv)).ne rfl
        rw [List.mem_cons, Prod.mk.injEq]
        refine or_congr_right ⟨fun h => ⟨fun he => hk v' (he ▸ h), h⟩, And.right⟩
      · split
        · rename_i heq
          subst heq
          grind
        · rename_i hge hne
          rw [List.mem_cons, ih hrest.2, List.mem_cons]
          grind

theorem get?_insert (m : SortedMap κ β) (k k' : κ) (v : β) :
    (m.insert k v).get? k' = if k' = k then some v else m.get? k' := by
  apply Option.ext
  intro w
  rw [get?_eq_some, mem_insert]
  split
  · rename_i h; simp [h, eq_comm]
  · rename_i h; simp [h, get?_eq_some]

theorem mem_erase {m : SortedMap κ β} {k : κ} {e : κ × β} :
    e ∈ (m.erase k).entries ↔ e ∈ m.entries ∧ e.1 ≠ k := by
  simp [erase]

theorem get?_erase (m : SortedMap κ β) (k k' : κ) :
    (m.erase k).get? k' = if k' = k then none else m.get? k' := by
  apply Option.ext
  intro w
  rw [get?_eq_some, mem_erase]
  split
  · rename_i h; simp [h]
  · rename_i h; simp [h, get?_eq_some]

theorem nodup_entries (m : SortedMap κ β) : m.entries.Nodup :=
  m.sorted.imp fun hlt heq => hlt.ne (congrArg Prod.fst heq)

theorem get?_mapValues {γ : Type} (f : β → γ) (m : SortedMap κ β) (k : κ) :
    (m.mapValues f).get? k = (m.get? k).map f := by
  rw [get?, mapValues, List.find?_map, Option.map_map, get?, Option.map_map]
  rfl

/-- **Extensionality**: a map is its lookups. -/
theorem ext_get? {m m' : SortedMap κ β} (h : ∀ k, m.get? k = m'.get? k) :
    m = m' := by
  have hmem : ∀ e, e ∈ m.entries ↔ e ∈ m'.entries := by
    intro ⟨k, v⟩
    rw [← get?_eq_some, ← get?_eq_some, h]
  exact ext (((List.perm_ext_iff_of_nodup m.nodup_entries m'.nodup_entries).mpr
    hmem).eq_of_pairwise
    (fun _ _ _ _ hab hba => absurd hab hba.asymm) m.sorted m'.sorted)

/-! ## The two ends -/

/-- Setting the value at the least key replaces the head. -/
theorem insert_first {m : SortedMap κ β} {k : κ} {v : β} {rest : List (κ × β)}
    (h : m.entries = (k, v) :: rest) (v' : β) :
    (m.insert k v').entries = (k, v') :: rest := by
  simp [insert, h, insertEntry]

/-- Setting the value at the greatest key replaces the last entry. -/
theorem insert_last {m : SortedMap κ β} {k : κ} {v : β} {init : List (κ × β)}
    (h : m.entries = init ++ [(k, v)]) (v' : β) :
    (m.insert k v').entries = init ++ [(k, v')] := by
  obtain ⟨l, hl⟩ := m
  simp only at h
  subst h
  simp only [insert]
  induction init with
  | nil => simp [insertEntry]
  | cons hd init ih =>
      have hp := List.pairwise_cons.mp hl
      have hlt : hd.1 < k := hp.1 (k, v) (by simp)
      simp only [List.cons_append, insertEntry, hlt.not_gt, hlt.ne', if_false]
      rw [ih hp.2]

/-! ## Thresholds

A test that fails for everything behind the first failure cuts an ordered
list in two. -/

theorem takeWhile_eq_filter {α : Type} {R : α → α → Prop} {p : α → Bool}
    (hp : ∀ x y, R x y → p y = true → p x = true) {l : List α} (hl : l.Pairwise R) :
    l.takeWhile p = l.filter p := by
  induction l with
  | nil => rfl
  | cons x xs ih =>
      have ⟨hx, hxs⟩ := List.pairwise_cons.mp hl
      by_cases hpx : p x = true
      · rw [List.takeWhile_cons_of_pos hpx, List.filter_cons_of_pos hpx, ih hxs]
      · have hnone : (x :: xs).filter p = [] := by
          rw [List.filter_eq_nil_iff]
          intro y hy hpy
          rcases List.mem_cons.mp hy with rfl | hy
          · exact hpx hpy
          · exact hpx (hp x y (hx y hy) hpy)
        rw [List.takeWhile_cons_of_neg hpx, hnone]

theorem of_mem_dropWhile {α : Type} {R : α → α → Prop} {p : α → Bool}
    (hp : ∀ x y, R x y → p y = true → p x = true) {l : List α} (hl : l.Pairwise R)
    {x : α} (hx : x ∈ l.dropWhile p) : p x = false := by
  induction l with
  | nil => cases hx
  | cons y ys ih =>
      have ⟨hy, hys⟩ := List.pairwise_cons.mp hl
      by_cases hpy : p y = true
      · rw [List.dropWhile_cons_of_pos hpy] at hx
        exact ih hys hx
      · rw [List.dropWhile_cons_of_neg hpy] at hx
        rcases List.mem_cons.mp hx with rfl | hx
        · simpa using hpy
        · by_contra hpx
          exact hpy (hp y x (hy x hx) (by simpa using hpx))

/-! ## The touched entry

As unordered collections, the entries of a map are the one at `k` and the
others. -/

/-- Setting `k` puts one entry in front of the others. -/
theorem insert_perm (m : SortedMap κ β) (k : κ) (v : β) :
    (m.insert k v).entries.Perm ((k, v) :: (m.erase k).entries) := by
  have hnd : ((k, v) :: (m.erase k).entries).Nodup :=
    List.nodup_cons.mpr ⟨fun h => (mem_erase.mp h).2 rfl, (m.erase k).nodup_entries⟩
  rw [List.perm_ext_iff_of_nodup (nodup_entries _) hnd]
  rintro ⟨k', v'⟩
  rw [mem_insert, List.mem_cons, mem_erase, Prod.mk.injEq, and_comm (a := k' ≠ k)]

theorem perm_of_get? {m : SortedMap κ β} {k : κ} {v : β} (h : m.get? k = some v) :
    m.entries.Perm ((k, v) :: (m.erase k).entries) := by
  have hself : m.insert k v = m := by
    refine ext_get? fun k' => ?_
    rw [get?_insert]
    split
    · rename_i hk; rw [hk, h]
    · rfl
  have hperm := insert_perm m k v
  rwa [hself] at hperm

theorem erase_of_get?_none {m : SortedMap κ β} {k : κ} (h : m.get? k = none) :
    m.erase k = m := by
  refine ext_get? fun k' => ?_
  rw [get?_erase]
  split
  · rename_i hk; rw [hk, h]
  · rfl

end SortedMap
