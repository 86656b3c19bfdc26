import Mathlib.Data.List.Chain

/-!
# Mindone.Lib.Coalesce

Queues that keep only the last of several entries in a row. `Coalesced r all kept` says that
`kept` is `all` with some runs of adjacent entries, each related by `r` to the next one,
replaced by their last entry; nothing else is dropped, moved or altered.

The relation grows with the two lists, and it can be cut at every place where two neighbours
are not related.
-/

namespace Mindone.Lib

variable {α : Type*} {r : α → α → Prop}

/-- The runs make up `all`, and their last entries `kept`. -/
def Coalesced (r : α → α → Prop) (all kept : List α) : Prop :=
  ∃ runs : List (List α), all = runs.flatten ∧ kept.map some = runs.map List.getLast? ∧
    ∀ run ∈ runs, run.IsChain r

namespace Coalesced

theorem nil : Coalesced r [] [] := ⟨[], by simp⟩

/-- A run of its own. -/
theorem snoc {all kept : List α} (h : Coalesced r all kept) (new : α) :
    Coalesced r (all ++ [new]) (kept ++ [new]) := by
  obtain ⟨runs, rfl, hkept, hruns⟩ := h
  refine ⟨runs ++ [[new]], by simp, by simp [hkept], ?_⟩
  intro run hrun
  rcases List.mem_append.mp hrun with hrun | hrun
  · exact hruns run hrun
  · rw [List.mem_singleton.mp hrun]
    exact .singleton new

/-- The last run goes on: its last entry is replaced. -/
theorem replace {all kept : List α} {last new : α} (h : Coalesced r all (kept ++ [last]))
    (hr : r last new) : Coalesced r (all ++ [new]) (kept ++ [new]) := by
  obtain ⟨runs, rfl, hkept, hruns⟩ := h
  rcases List.eq_nil_or_concat runs with rfl | ⟨runs, run, rfl⟩
  · simp at hkept
  rw [List.concat_eq_append] at hkept hruns ⊢
  simp only [List.map_append, List.map_cons, List.map_nil] at hkept
  obtain ⟨hkept, hlast⟩ := List.append_inj' hkept rfl
  have hlast : run.getLast? = some last := (List.cons.inj hlast).1.symm
  refine ⟨runs ++ [run ++ [new]], by simp, by simp [hkept], ?_⟩
  intro other hother
  rcases List.mem_append.mp hother with hother | hother
  · exact hruns other (List.mem_append_left _ hother)
  · rw [List.mem_singleton.mp hother]
    refine (hruns run (by simp)).append (.singleton new) ?_
    intro x hx y hy
    rw [hlast] at hx
    cases hx
    cases hy
    exact hr

theorem cons {run all kept : List α} {last : α} (hrun : run.IsChain r)
    (hlast : run.getLast? = some last) (h : Coalesced r all kept) :
    Coalesced r (run ++ all) (last :: kept) := by
  obtain ⟨runs, rfl, hkept, hruns⟩ := h
  refine ⟨run :: runs, by simp, by simp [hkept, hlast], ?_⟩
  intro other hother
  rcases List.mem_cons.mp hother with rfl | hother
  · exact hrun
  · exact hruns other hother

/-- A cut between two entries that are not related is a cut of what is kept. -/
theorem split {before after kept : List α} (h : Coalesced r (before ++ after) kept)
    (hcut : ∀ x ∈ before.getLast?, ∀ y ∈ after.head?, ¬ r x y) :
    ∃ keptBefore keptAfter, kept = keptBefore ++ keptAfter ∧
      Coalesced r before keptBefore ∧ Coalesced r after keptAfter := by
  obtain ⟨runs, hall, hkept, hruns⟩ := h
  -- the run that the cut falls into has nothing on one side of it
  induction runs generalizing before kept with
  | nil =>
      obtain ⟨rfl, rfl⟩ := List.append_eq_nil_iff.mp hall
      obtain rfl : kept = [] := by simpa using hkept
      exact ⟨[], [], rfl, nil, nil⟩
  | cons run runs ih =>
      obtain ⟨last, kept, rfl⟩ : ∃ last rest, kept = last :: rest := by
        cases kept with
        | nil => simp at hkept
        | cons last rest => exact ⟨last, rest, rfl⟩
      simp only [List.map_cons, List.cons.injEq] at hkept
      have hrest : ∀ other ∈ runs, other.IsChain r := fun other hother =>
        hruns other (List.mem_cons_of_mem _ hother)
      rcases List.append_eq_append_iff.mp hall with ⟨middle, rfl, hafter⟩ | ⟨middle, rfl, hrun⟩
      · have hchain := List.isChain_append.mp (hruns _ List.mem_cons_self)
        rcases List.eq_nil_or_concat before with rfl | ⟨before, x, rfl⟩
        · exact ⟨[], last :: kept, rfl, nil, middle :: runs, by simpa using hafter, by simp [hkept],
            hruns⟩
        cases middle with
        | nil =>
            rw [List.append_nil] at hkept
            refine ⟨[last], kept, rfl, ?_, runs, by simpa using hafter, hkept.2, hrest⟩
            have hone := cons hchain.1 hkept.1.symm (nil (r := r))
            rwa [List.append_nil] at hone
        | cons y middle =>
            refine absurd (hchain.2.2 x (by simp) y rfl) (hcut x (by simp) y ?_)
            rw [hafter]
            rfl
      · have hcut : ∀ x ∈ middle.getLast?, ∀ y ∈ after.head?, ¬ r x y := by
          intro x hx y hy
          refine hcut x ?_ y hy
          rw [List.getLast?_append, hx]
          rfl
        obtain ⟨keptBefore, keptAfter, rfl, hleft, hright⟩ := ih hcut hrun.symm hkept.2 hrest
        exact ⟨last :: keptBefore, keptAfter, rfl, cons (hruns run (by simp)) hkept.1.symm hleft,
          hright⟩

/-- What is kept ends as the whole does. -/
theorem getLast?_eq {all kept : List α} (h : Coalesced r all kept) :
    kept.getLast? = all.getLast? := by
  obtain ⟨runs, rfl, hkept, -⟩ := h
  rcases List.eq_nil_or_concat runs with rfl | ⟨runs, run, rfl⟩
  · simpa using hkept
  rcases List.eq_nil_or_concat kept with rfl | ⟨kept, last, rfl⟩
  · simp at hkept
  simp only [List.concat_eq_append, List.map_append, List.map_cons, List.map_nil] at hkept ⊢
  have hlast : some last = run.getLast? := (List.cons.inj (List.append_inj' hkept rfl).2).1
  simp [List.getLast?_append, ← hlast]

theorem length_le {all kept : List α} (h : Coalesced r all kept) : kept.length ≤ all.length := by
  obtain ⟨runs, rfl, hkept, -⟩ := h
  induction runs generalizing kept with
  | nil =>
      obtain rfl : kept = [] := by simpa using hkept
      exact Nat.le_refl _
  | cons run runs ih =>
      cases kept with
      | nil => simp at hkept
      | cons last kept =>
          simp only [List.map_cons, List.cons.injEq] at hkept
          have hrest := ih hkept.2
          have hrun : 0 < run.length := by
            cases run with
            | nil => cases hkept.1
            | cons first run => exact Nat.succ_pos _
          simp only [List.length_cons, List.flatten_cons, List.length_append]
          omega

/-- An entry that is not related to the next one is kept. -/
theorem cut {before after kept : List α} {entry : α}
    (h : Coalesced r (before ++ entry :: after) kept) (hcut : ∀ y ∈ after.head?, ¬ r entry y) :
    ∃ keptBefore keptAfter, kept = keptBefore ++ entry :: keptAfter ∧
      Coalesced r (before ++ [entry]) (keptBefore ++ [entry]) ∧ Coalesced r after keptAfter := by
  rw [List.append_cons] at h
  obtain ⟨left, right, rfl, hleft, hright⟩ := h.split (by simpa using hcut)
  have hlast := hleft.getLast?_eq
  rw [List.getLast?_concat, List.getLast?_eq_some_iff] at hlast
  obtain ⟨keptBefore, rfl⟩ := hlast
  exact ⟨keptBefore, right, by simp, hleft, hright⟩

/-- An entry that is related to none of its neighbours is kept between what is kept of the
entries before it and behind it. -/
theorem around {before after kept : List α} {entry : α}
    (h : Coalesced r (before ++ entry :: after) kept)
    (hbefore : ∀ x ∈ before.getLast?, ¬ r x entry) (hafter : ∀ y ∈ after.head?, ¬ r entry y) :
    ∃ keptBefore keptAfter, kept = keptBefore ++ entry :: keptAfter ∧
      Coalesced r before keptBefore ∧ Coalesced r after keptAfter := by
  obtain ⟨left, right, rfl, hleft, hright⟩ := h.split (by simpa using hbefore)
  obtain ⟨middle, keptAfter, rfl, hentry, hrest⟩ :=
    (show Coalesced r ([] ++ entry :: after) right from hright).cut hafter
  obtain rfl : middle = [] := by
    have hlength := hentry.length_le
    simp only [List.nil_append, List.length_append, List.length_singleton] at hlength
    exact List.length_eq_zero_iff.mp (by omega)
  exact ⟨left, keptAfter, rfl, hleft, hrest⟩

end Coalesced

end Mindone.Lib
