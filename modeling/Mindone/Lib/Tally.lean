import Mathlib.Logic.Function.Basic

/-!
# Mindone.Lib.Tally

Resources that are held and the slots that they are recorded in. `Tallies held slot` says that
**what is held is what is recorded, each in one slot**; filling a free slot with a new resource
and clearing a slot together with its resource keep it.
-/

namespace Mindone.Lib

variable {ρ ι κ : Type} [DecidableEq ρ] [DecidableEq ι]

/-- The held resources, each marked with what it is, are those in the slots, and no resource is
in two of them. -/
structure Tallies (held : ρ → Option κ) (slot : ι → Option ρ) : Prop where
  recorded : ∀ r, held r ≠ none ↔ ∃ i, slot i = some r
  once : ∀ {i j r}, slot i = some r → slot j = some r → i = j

namespace Tallies

variable {held : ρ → Option κ} {slot : ι → Option ρ}

omit [DecidableEq ρ] [DecidableEq ι] in
theorem isHeld (h : Tallies held slot) {i : ι} {r : ρ} (hi : slot i = some r) : held r ≠ none :=
  (h.recorded r).mpr ⟨i, hi⟩

/-- A new resource in a free slot. -/
theorem fill (h : Tallies held slot) {i : ι} {r : ρ} (hi : slot i = none) (hr : held r = none)
    (k : κ) : Tallies (Function.update held r (some k)) (Function.update slot i (some r)) := by
  -- a new resource is in no slot yet
  have hnew : ∀ j, slot j ≠ some r := fun j hj => h.isHeld hj hr
  constructor
  · intro s
    by_cases hs : s = r
    · subst hs
      rw [Function.update_self]
      exact ⟨fun _ => ⟨i, Function.update_self ..⟩, fun _ => nofun⟩
    · rw [Function.update_of_ne hs, h.recorded]
      constructor
      · rintro ⟨j, hj⟩
        have hji : j ≠ i := by
          rintro rfl
          rw [hi] at hj
          cases hj
        exact ⟨j, (Function.update_of_ne hji ..).trans hj⟩
      · rintro ⟨j, hj⟩
        by_cases hji : j = i
        · subst hji
          rw [Function.update_self] at hj
          exact absurd (Option.some.inj hj).symm hs
        · rw [Function.update_of_ne hji] at hj
          exact ⟨j, hj⟩
  · intro j j' s hj hj'
    by_cases hji : j = i <;> by_cases hji' : j' = i
    · rw [hji, hji']
    · subst hji
      rw [Function.update_self] at hj
      rw [Function.update_of_ne hji', ← hj] at hj'
      exact absurd hj' (hnew j')
    · subst hji'
      rw [Function.update_self] at hj'
      rw [Function.update_of_ne hji, ← hj'] at hj
      exact absurd hj (hnew j)
    · rw [Function.update_of_ne hji] at hj
      rw [Function.update_of_ne hji'] at hj'
      exact h.once hj hj'

/-- The other slots designate what they did. -/
theorem fill_other (h : Tallies held slot) {i : ι} {r : ρ} (hi : slot i = none)
    (hr : held r = none) (k : κ) {j : ι} {o : κ} (hj : (slot j).bind held = some o) :
    (Function.update slot i (some r) j).bind (Function.update held r (some k)) = some o := by
  obtain ⟨s, hs, ho⟩ := Option.bind_eq_some_iff.mp hj
  have hji : j ≠ i := by
    rintro rfl
    rw [hi] at hs
    cases hs
  have hsr : s ≠ r := by
    rintro rfl
    exact h.isHeld hs hr
  rw [Function.update_of_ne hji, hs]
  exact (Function.update_of_ne hsr ..).trans ho

/-- A resource goes, and its slot is cleared. -/
theorem clear (h : Tallies held slot) {i : ι} {r : ρ} (hi : slot i = some r) :
    Tallies (Function.update held r none) (Function.update slot i none) := by
  constructor
  · intro s
    -- The resource that goes is in no slot any more; the others keep theirs.
    by_cases hs : s = r
    · subst hs
      rw [Function.update_self]
      refine ⟨fun hne => absurd rfl hne, ?_⟩
      rintro ⟨j, hj⟩
      by_cases hji : j = i
      · subst hji
        rw [Function.update_self] at hj
        cases hj
      · rw [Function.update_of_ne hji] at hj
        exact absurd (h.once hj hi) hji
    · rw [Function.update_of_ne hs, h.recorded]
      constructor
      · rintro ⟨j, hj⟩
        have hji : j ≠ i := by
          rintro rfl
          rw [hi] at hj
          exact hs (Option.some.inj hj).symm
        exact ⟨j, (Function.update_of_ne hji ..).trans hj⟩
      · rintro ⟨j, hj⟩
        by_cases hji : j = i
        · subst hji
          rw [Function.update_self] at hj
          cases hj
        · rw [Function.update_of_ne hji] at hj
          exact ⟨j, hj⟩
  · intro j j' s hj hj'
    -- A slot that is set is not the cleared one.
    have hne : ∀ {k}, Function.update slot i none k = some s → k ≠ i := by
      rintro k hk rfl
      rw [Function.update_self] at hk
      cases hk
    have hji := hne hj
    have hji' := hne hj'
    rw [Function.update_of_ne hji] at hj
    rw [Function.update_of_ne hji'] at hj'
    exact h.once hj hj'

theorem clear_other (h : Tallies held slot) {i : ι} {r : ρ} (hi : slot i = some r) {j : ι}
    (hji : j ≠ i) {o : κ} (hj : (slot j).bind held = some o) :
    (Function.update slot i none j).bind (Function.update held r none) = some o := by
  obtain ⟨s, hs, ho⟩ := Option.bind_eq_some_iff.mp hj
  have hsr : s ≠ r := by
    rintro rfl
    exact hji (h.once hs hi)
  rw [Function.update_of_ne hji, hs]
  exact (Function.update_of_ne hsr ..).trans ho

end Tallies

end Mindone.Lib
