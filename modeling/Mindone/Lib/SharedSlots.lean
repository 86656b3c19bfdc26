import Mathlib.Data.Finset.Basic
import Mathlib.Data.Set.Insert

/-!
# Mindone.Lib.SharedSlots

**A table of bounded size that several owners share.** A slot is free, or it holds a key with the
set of the owners that have claimed it. An owner releases all its keys at once; a key without an
owner frees its slot. A claim goes to the first slot that holds the key or is free, so that a key can
stand in several slots: what an owner has is a set (`keysOf`), and neither a claim nor a release
changes what another owner has.
-/

namespace Mindone.Lib

/-- The slots in their order. -/
abbrev Slots (κ ω : Type) := List (Option (κ × Finset ω))

namespace Slots

variable {κ ω : Type} [DecidableEq κ] [DecidableEq ω]

/-- A slot without the owner. -/
def releaseSlot (owner : ω) : Option (κ × Finset ω) → Option (κ × Finset ω)
  | none => none
  | some (key, owners) =>
      if owner ∈ owners then
        if owners.erase owner = ∅ then none else some (key, owners.erase owner)
      else some (key, owners)

def release (owner : ω) (slots : Slots κ ω) : Slots κ ω := slots.map (releaseSlot owner)

/-- The slots with the key for the owner, if there is room for it. -/
def claim (owner : ω) (key : κ) : Slots κ ω → Option (Slots κ ω)
  | [] => none
  | none :: rest => some (some (key, {owner}) :: rest)
  | some (held, owners) :: rest =>
      if held = key then some (some (held, insert owner owners) :: rest)
      else (claim owner key rest).map (some (held, owners) :: ·)

/-- The keys are claimed until there is no room: whether all of them were. -/
def claimAll (owner : ω) : List κ → Slots κ ω → Bool × Slots κ ω
  | [], slots => (true, slots)
  | key :: keys, slots =>
      match claim owner key slots with
      | none => (false, slots)
      | some slots => claimAll owner keys slots

/-- What an owner has. -/
def keysOf (owner : ω) (slots : Slots κ ω) : Set κ :=
  { key | ∃ owners, some (key, owners) ∈ slots ∧ owner ∈ owners }

/-! ### What an owner has -/

section Keys

variable {owner other : ω} {key held : κ} {owners : Finset ω} {slots slots' : Slots κ ω}

omit [DecidableEq κ] [DecidableEq ω] in
@[simp] theorem keysOf_nil : keysOf owner ([] : Slots κ ω) = ∅ := by
  simp [keysOf]

omit [DecidableEq κ] [DecidableEq ω] in
@[simp] theorem keysOf_free : keysOf owner (none :: slots) = keysOf owner slots := by
  simp [keysOf]

omit [DecidableEq κ] [DecidableEq ω] in
theorem keysOf_owned (h : owner ∈ owners) :
    keysOf owner (some (held, owners) :: slots) = insert held (keysOf owner slots) := by
  ext key
  simp only [keysOf, Set.mem_ofPred_eq, List.mem_cons, Option.some.injEq, Prod.mk.injEq,
    Set.mem_insert_iff]
  constructor
  · rintro ⟨_, ⟨rfl, rfl⟩ | hmem, howner⟩
    · exact .inl rfl
    · exact .inr ⟨_, hmem, howner⟩
  · rintro (rfl | ⟨owners, hmem, howner⟩)
    · exact ⟨_, .inl ⟨rfl, rfl⟩, h⟩
    · exact ⟨owners, .inr hmem, howner⟩

omit [DecidableEq κ] [DecidableEq ω] in
theorem keysOf_not_owned (h : owner ∉ owners) :
    keysOf owner (some (held, owners) :: slots) = keysOf owner slots := by
  ext key
  simp only [keysOf, Set.mem_ofPred_eq, List.mem_cons, Option.some.injEq, Prod.mk.injEq]
  constructor
  · rintro ⟨_, ⟨rfl, rfl⟩ | hmem, howner⟩
    · exact absurd howner h
    · exact ⟨_, hmem, howner⟩
  · rintro ⟨owners, hmem, howner⟩
    exact ⟨owners, .inr hmem, howner⟩

omit [DecidableEq κ] [DecidableEq ω] in
/-- Slots that differ in their first owners only. -/
theorem keysOf_congr {owners' : Finset ω} (h : owner ∈ owners ↔ owner ∈ owners')
    (hrest : keysOf owner slots = keysOf owner slots') :
    keysOf owner (some (held, owners) :: slots) = keysOf owner (some (held, owners') :: slots') := by
  by_cases howner : owner ∈ owners
  · rw [keysOf_owned howner, keysOf_owned (h.mp howner), hrest]
  · rw [keysOf_not_owned howner, keysOf_not_owned fun h' => howner (h.mpr h'), hrest]

/-! ### Releasing -/

omit [DecidableEq κ] in
theorem keysOf_release_self (owner : ω) (slots : Slots κ ω) :
    keysOf owner (release owner slots) = ∅ := by
  induction slots with
  | nil => exact keysOf_nil
  | cons slot slots ih =>
      rw [release, List.map_cons]
      cases slot with
      | none => exact keysOf_free.trans ih
      | some entry =>
          simp only [releaseSlot]
          split
          · split
            · exact keysOf_free.trans ih
            · exact (keysOf_not_owned (Finset.notMem_erase _ _)).trans ih
          · rename_i hnot
            exact (keysOf_not_owned hnot).trans ih

omit [DecidableEq κ] in
/-- A release leaves the keys of other owners. -/
theorem keysOf_release_other (hne : other ≠ owner) (slots : Slots κ ω) :
    keysOf other (release owner slots) = keysOf other slots := by
  induction slots with
  | nil => rfl
  | cons slot slots ih =>
      rw [release, List.map_cons]
      cases slot with
      | none => exact keysOf_free.trans (ih.trans keysOf_free.symm)
      | some entry =>
          obtain ⟨held, owners⟩ := entry
          have hmem : other ∈ owners ↔ other ∈ owners.erase owner := by
            rw [Finset.mem_erase]
            exact ⟨fun h => ⟨hne, h⟩, And.right⟩
          simp only [releaseSlot]
          split
          · split
            · -- the owner was the only one
              rename_i hempty
              rw [hempty] at hmem
              rw [keysOf_free, keysOf_not_owned fun h => absurd (hmem.mp h) (Finset.notMem_empty _)]
              exact ih
            · exact (keysOf_congr hmem ih.symm).symm
          · exact keysOf_congr Iff.rfl ih

/-! ### Claiming -/

/-- **A claim gives the owner the key.** -/
theorem keysOf_claim_self (h : claim owner key slots = some slots') :
    keysOf owner slots' = insert key (keysOf owner slots) := by
  induction slots generalizing slots' with
  | nil => cases h
  | cons slot slots ih =>
      cases slot with
      | none =>
          cases h
          rw [keysOf_owned (Finset.mem_singleton_self _), keysOf_free]
      | some entry =>
          obtain ⟨held, owners⟩ := entry
          simp only [claim] at h
          split at h
          · rename_i heq
            subst heq
            cases h
            rw [keysOf_owned (Finset.mem_insert_self _ _)]
            by_cases howner : owner ∈ owners
            · rw [keysOf_owned howner, Set.insert_idem]
            · rw [keysOf_not_owned howner]
          · obtain ⟨rest, hrest, rfl⟩ := Option.map_eq_some_iff.mp h
            by_cases howner : owner ∈ owners
            · rw [keysOf_owned howner, keysOf_owned howner, ih hrest, Set.insert_comm]
            · rw [keysOf_not_owned howner, keysOf_not_owned howner, ih hrest]

/-- A claim leaves the others what they have. -/
theorem keysOf_claim_other (hne : other ≠ owner) (h : claim owner key slots = some slots') :
    keysOf other slots' = keysOf other slots := by
  induction slots generalizing slots' with
  | nil => cases h
  | cons slot slots ih =>
      cases slot with
      | none =>
          cases h
          rw [keysOf_not_owned (by simpa using hne), keysOf_free]
      | some entry =>
          obtain ⟨held, owners⟩ := entry
          simp only [claim] at h
          split at h
          · cases h
            exact keysOf_congr (by simp [hne]) rfl
          · obtain ⟨rest, hrest, rfl⟩ := Option.map_eq_some_iff.mp h
            exact keysOf_congr Iff.rfl (ih hrest)

theorem keysOf_claimAll_other (hne : other ≠ owner) (keys : List κ) (slots : Slots κ ω) :
    keysOf other (claimAll owner keys slots).2 = keysOf other slots := by
  induction keys generalizing slots with
  | nil => rfl
  | cons key keys ih =>
      unfold claimAll
      split
      · rfl
      · rename_i slots' hclaim
        exact (ih slots').trans (keysOf_claim_other hne hclaim)

/-- **When there was room for all of them**, the owner has the keys and what it had. -/
theorem keysOf_claimAll_self {keys : List κ} (h : (claimAll owner keys slots).1 = true) :
    keysOf owner (claimAll owner keys slots).2 = { key | key ∈ keys } ∪ keysOf owner slots := by
  induction keys generalizing slots with
  | nil => simp [claimAll]
  | cons key keys ih =>
      unfold claimAll at h ⊢
      split at h
      · cases h
      · rename_i slots' hclaim
        rw [ih h, keysOf_claim_self hclaim]
        ext x
        simp only [Set.mem_union, Set.mem_ofPred_eq, Set.mem_insert_iff, List.mem_cons]
        exact or_left_comm.trans (or_assoc.symm)

end Keys

end Slots

end Mindone.Lib
