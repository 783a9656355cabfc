import Mathlib.Data.Finmap
import Mathlib.Data.Finset.Basic
import Mathlib.Data.List.Sort
import MatchingEngine.Lib.Writes

/-!
# HashMap: maps and sets without an order

A hash map is a finite map (`Finmap`), a hash set a finite set: neither
has an iteration order. The one place where a program sees an order is
when it drains a set into a list, and which one it sees is not its own
choice. `DrainOrder` is that choice: any way of listing every set, each
element once.
-/

namespace HashModel

/-- A hash map from `κ` to `β`. -/
abbrev HashMap (κ β : Type) := Finmap fun _ : κ => β

section Map

variable {κ β : Type} [DecidableEq κ]

theorem lookup_insert_ite (k k' : κ) (v : β) (m : HashMap κ β) :
    (m.insert k v).lookup k' = if k' = k then some v else m.lookup k' := by
  split
  · rename_i h; subst h; exact Finmap.lookup_insert m
  · rename_i h; exact Finmap.lookup_insert_of_ne m h

theorem lookup_erase_ite (k k' : κ) (m : HashMap κ β) :
    (m.erase k).lookup k' = if k' = k then none else m.lookup k' := by
  split
  · rename_i h; subst h; exact Finmap.lookup_erase _ m
  · rename_i h; exact Finmap.lookup_erase_ne h

/-- Writing back what is already there changes nothing. -/
theorem insert_lookup_self {k : κ} {v : β} {m : HashMap κ β}
    (h : m.lookup k = some v) : m.insert k v = m := by
  apply Finmap.ext_lookup
  intro k'
  rw [lookup_insert_ite]
  split
  · rename_i hk; rw [hk, h]
  · rfl

/-- Dropping some keys. -/
theorem lookup_foldl_erase (ks : List κ) : ∀ (m : HashMap κ β) (k : κ),
    (ks.foldl (fun m k => m.erase k) m).lookup k = if k ∈ ks then none else m.lookup k := by
  induction ks with
  | nil => intro m k; simp
  | cons k' ks ih =>
      intro m k
      rw [List.foldl_cons, ih, lookup_erase_ite]
      by_cases hk : k ∈ ks
      · simp [hk]
      · by_cases heq : k = k'
        · simp [heq]
        · simp [hk, heq]

/-- A map as contents, under inserts. -/
theorem lookup_foldl_insert (ws : List (κ × β)) (m : HashMap κ β) (k : κ) :
    (ws.foldl (fun m w => m.insert w.1 w.2) m).lookup k
      = Writes.sets (fun k => m.lookup k) (ws.map fun w => (w.1, some w.2)) k := by
  let read : HashMap κ β → κ → Option β := fun m k => m.lookup k
  have hread : ∀ m (w : κ × β), read (m.insert w.1 w.2) = Writes.set (read m) (w.1, some w.2) := by
    intro m w
    funext k
    rw [Writes.set, Function.update_apply]
    exact lookup_insert_ite w.1 k w.2 m
  exact congrFun (Writes.read_foldl hread m ws) k

/-- A map after writing each of some keys. -/
theorem lookup_foldl_insert_keys (f : κ → β) (keys : List κ) (k : κ) : ∀ m : HashMap κ β,
    ((keys.map fun k => (k, f k)).foldl (fun m w => m.insert w.1 w.2) m).lookup k
      = if k ∈ keys then some (f k) else m.lookup k := by
  induction keys with
  | nil => intro m; rfl
  | cons k' keys ih =>
      intro m
      rw [List.map_cons, List.foldl_cons, ih, lookup_insert_ite]
      by_cases hin : k ∈ keys
      · simp [hin]
      · by_cases hk : k = k'
        · simp [hk]
        · simp [hin, hk]

/-- The same inserts again change nothing. -/
theorem foldl_insert_again (ws : List (κ × β)) (m : HashMap κ β) :
    ws.foldl (fun m w => m.insert w.1 w.2) (ws.foldl (fun m w => m.insert w.1 w.2) m)
      = ws.foldl (fun m w => m.insert w.1 w.2) m := by
  have hread : (fun k => (ws.foldl (fun m w => m.insert w.1 w.2) m).lookup k)
      = Writes.sets (fun k => m.lookup k) (ws.map fun w => (w.1, some w.2)) :=
    funext fun k => lookup_foldl_insert ws m k
  apply Finmap.ext_lookup
  intro k
  rw [lookup_foldl_insert, hread, Writes.sets_sets, ← hread]

/-- Writes to different keys commute, so a list of them can come in any order. -/
theorem foldl_perm {σ α : Type} {f : σ → α → σ} {key : α → κ}
    (hcomm : ∀ x y s, key x ≠ key y → f (f s x) y = f (f s y) x) {xs ys : List α}
    (hperm : xs.Perm ys) (hkeys : (xs.map key).Nodup) (s : σ) :
    xs.foldl f s = ys.foldl f s := by
  refine hperm.foldl_eq' (fun x hx y hy s => ?_) s
  by_cases hkey : key x = key y
  · rw [List.inj_on_of_nodup_map hkeys hx hy hkey]
  · exact hcomm x y s hkey

theorem foldl_insert_perm {ws ws' : List (κ × β)} (hperm : ws.Perm ws')
    (hkeys : (ws.map Prod.fst).Nodup) (m : HashMap κ β) :
    ws.foldl (fun m w => m.insert w.1 w.2) m = ws'.foldl (fun m w => m.insert w.1 w.2) m :=
  foldl_perm (fun _ _ m hne => m.insert_insert_of_ne hne) hperm hkeys m

/-- The same keys, the values mapped. -/
def mapValues {γ : Type} (f : β → γ) (m : HashMap κ β) : HashMap κ γ where
  entries := m.entries.map fun entry => ⟨entry.1, f entry.2⟩
  nodupKeys := by
    have hkeys := Multiset.nodup_keys.mpr m.nodupKeys
    rw [← Multiset.nodup_keys, Multiset.keys, Multiset.map_map]
    exact hkeys

theorem lookup_mapValues {γ : Type} (f : β → γ) (m : HashMap κ β) (k : κ) :
    (mapValues f m).lookup k = (m.lookup k).map f := by
  apply Option.ext
  intro v
  rw [Finmap.lookup_eq_some_iff, Option.map_eq_some_iff]
  constructor
  · intro h
    obtain ⟨entry, hentry, heq⟩ := Multiset.mem_map.mp h
    cases heq
    exact ⟨entry.2, Finmap.lookup_eq_some_iff.mpr hentry, rfl⟩
  · rintro ⟨v, hv, rfl⟩
    exact Multiset.mem_map.mpr ⟨⟨k, v⟩, Finmap.lookup_eq_some_iff.mp hv, rfl⟩

end Map

/-- One way of draining hash sets over `α`: a list for every set, holding
each of its elements once. -/
structure DrainOrder (α : Type) where
  toList : Finset α → List α
  nodup : ∀ s, (toList s).Nodup
  mem_toList : ∀ s x, x ∈ toList s ↔ x ∈ s

namespace DrainOrder

variable {α : Type}

@[simp] theorem toList_empty (o : DrainOrder α) : o.toList ∅ = [] :=
  List.eq_nil_iff_forall_not_mem.mpr fun x hx => by
    simpa using (o.mem_toList ∅ x).mp hx

theorem toList_eq_nil {o : DrainOrder α} {s : Finset α} :
    o.toList s = [] ↔ s = ∅ := by
  constructor
  · intro h
    refine Finset.eq_empty_of_forall_notMem fun x hx => ?_
    simpa [h] using (o.mem_toList s x).mpr hx
  · rintro rfl
    exact o.toList_empty

/-- The same elements, last one first. -/
def reverse (o : DrainOrder α) : DrainOrder α where
  toList s := (o.toList s).reverse
  nodup s := List.nodup_reverse.mpr (o.nodup s)
  mem_toList s x := List.mem_reverse.trans (o.mem_toList s x)

/-- Sorting by a key that tells elements apart is a drain order that
evaluates. -/
def byKey (key : α → ℕ) (hkey : Function.Injective key) : DrainOrder α where
  toList s := Quot.liftOn s.val (List.insertionSort fun x y => key x ≤ key y)
    fun _ _ h => List.Perm.eq_of_pairwise
      (fun _ _ _ _ hab hba => hkey (le_antisymm hab hba))
      (List.pairwise_insertionSort _ _) (List.pairwise_insertionSort _ _)
      (((List.perm_insertionSort _ _).trans h).trans
        (List.perm_insertionSort _ _).symm)
  nodup := by
    rintro ⟨⟨l⟩, hl⟩
    exact (List.perm_insertionSort _ l).nodup_iff.mpr hl
  mem_toList := by
    rintro ⟨⟨l⟩, hl⟩ x
    exact (List.perm_insertionSort _ l).mem_iff

end DrainOrder

end HashModel
