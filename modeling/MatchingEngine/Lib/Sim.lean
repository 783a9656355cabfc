import Mathlib.Data.List.Perm.Basic
import MatchingEngine.Lib.HashMap
import MatchingEngine.Lib.Arith

/-!
# Sim: two computations that return related results

`Sim R x y`: whatever `x` returns, `y` returns something related to it. It
goes through `bind` and through `mapM`, also when the second computation takes
the elements in another order, as it does when they come out of a hash set.
-/

namespace RustArith

open HashModel

/-- What `x` returns is matched by `y`; a panic of `x` says nothing. -/
def Sim {α β : Type} (R : α → β → Prop) (x : Exec α) (y : Exec β) : Prop :=
  ∀ r, x = .ok r → ∃ r', y = .ok r' ∧ R r r'

namespace Sim

variable {α β γ δ : Type} {R : α → β → Prop} {S : γ → δ → Prop}

theorem refl (x : Exec α) : Sim Eq x x := fun r h => ⟨r, h, rfl⟩

theorem ok {a : α} {b : β} (h : R a b) : Sim R (.ok a) (.ok b) := by
  intro r hr
  cases hr
  exact ⟨b, rfl, h⟩

theorem bind {x : Exec α} {y : Exec β} {f : α → Exec γ} {g : β → Exec δ} (hxy : Sim R x y)
    (hfg : ∀ a b, R a b → Sim S (f a) (g b)) : Sim S (x >>= f) (y >>= g) := by
  intro r h
  obtain ⟨a, ha, h⟩ := bind_ok.mp h
  obtain ⟨b, hb, hab⟩ := hxy a ha
  obtain ⟨r', hr', hrel⟩ := hfg a b hab r h
  exact ⟨r', bind_ok.mpr ⟨b, hb, hr'⟩, hrel⟩

/-- The same computation first, then two that are related for each result. -/
theorem bind_same {x : Exec α} {f : α → Exec γ} {g : α → Exec δ}
    (hfg : ∀ a, Sim S (f a) (g a)) : Sim S (x >>= f) (x >>= g) :=
  (refl x).bind fun a _ hab => hab ▸ hfg a

/-- The results of a list taken in another order. -/
theorem mapM_perm {f : α → Exec β} {xs ys : List α} (h : xs.Perm ys) :
    Sim List.Perm (xs.mapM f) (ys.mapM f) := by
  intro zs hzs
  obtain ⟨ws, hys, hperm⟩ := List.perm_comp_forall₂ h.symm (mapM_ok.mp hzs)
  exact ⟨ws, mapM_ok.mpr hys, hperm.symm⟩

/-- The results for the elements of a hash set, drained in another order. -/
theorem mapM_drain {f : α → Exec β} (o o' : DrainOrder α) (s : Finset α) :
    Sim List.Perm ((o.toList s).mapM f) ((o'.toList s).mapM f) :=
  mapM_perm ((List.perm_ext_iff_of_nodup (o.nodup s) (o'.nodup s)).mpr fun x => by
    rw [o.mem_toList, o'.mem_toList])

end Sim

end RustArith
