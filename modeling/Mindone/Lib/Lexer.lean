import Mathlib.Data.List.Basic
import Mathlib.Tactic.Common

/-!
# Mindone.Lib.Lexer

**Incremental lexers.** A lexer looks at the input that has arrived so far and
either waits for more or emits some tokens and drops a non-empty prefix. The
one law asked of it is `stable`: a decision taken on some input is taken on
every longer input too. From that law alone the outcome of reading a stream
does not depend on how the stream is cut into chunks (`feed_eq_run`).

`trace` records where each step was taken. Every position of the stream is
either the place of a step, strictly inside a step, or at or after the point
where the lexer is still waiting (`position_cases`).
-/

namespace Mindone.Lib

/-- A function that reads tokens off the front of its input: `none` waits for
more input, `some (out, n)` emits `out` and drops `n` symbols. -/
structure Lexer (α β : Type*) where
  step : List α → Option (List β × Nat)
  step_pos : ∀ {xs out n}, step xs = some (out, n) → 0 < n
  step_le : ∀ {xs out n}, step xs = some (out, n) → n ≤ xs.length
  stable : ∀ {xs r}, step xs = some r → ∀ ys, step (xs ++ ys) = some r

namespace Lexer

variable {α β : Type*} (L : Lexer α β)

/-! ### Running to a wait -/

/-- At most `fuel` steps: the tokens emitted and the input left. -/
def runFuel : Nat → List α → List β × List α
  | 0, xs => ([], xs)
  | fuel + 1, xs =>
      match L.step xs with
      | none => ([], xs)
      | some (out, n) =>
          let r := runFuel fuel (xs.drop n)
          (out ++ r.1, r.2)

/-- Step until the lexer waits. Every step drops a symbol, so the length of
the input is enough fuel. -/
def run (xs : List α) : List β × List α := L.runFuel xs.length xs

theorem step_nil : L.step [] = none := by
  cases h : L.step [] with
  | none => rfl
  | some r =>
      obtain ⟨out, n⟩ := r
      have hpos := L.step_pos h
      have hle := L.step_le h
      simp only [List.length_nil] at hle
      omega

theorem runFuel_of_step_none {xs : List α} (h : L.step xs = none) :
    ∀ fuel, L.runFuel fuel xs = ([], xs)
  | 0 => rfl
  | fuel + 1 => by simp [runFuel, h]

/-- Fuel beyond the number of symbols changes nothing. -/
theorem runFuel_fuel : ∀ (k l : Nat) (xs : List α), xs.length ≤ k → xs.length ≤ l →
    L.runFuel k xs = L.runFuel l xs := by
  intro k
  induction k with
  | zero =>
      intro l xs hk _
      obtain rfl : xs = [] := List.length_eq_zero_iff.mp (by omega)
      rw [L.runFuel_of_step_none L.step_nil, L.runFuel_of_step_none L.step_nil]
  | succ k ih =>
      intro l xs hk hl
      cases hs : L.step xs with
      | none => rw [L.runFuel_of_step_none hs, L.runFuel_of_step_none hs]
      | some r =>
          obtain ⟨out, n⟩ := r
          have hpos := L.step_pos hs
          have hle := L.step_le hs
          obtain ⟨l, rfl⟩ : ∃ m, l = m + 1 := ⟨l - 1, by omega⟩
          have hdrop : (xs.drop n).length = xs.length - n := List.length_drop
          simp only [runFuel, hs]
          rw [ih l (xs.drop n) (by omega) (by omega)]

theorem run_of_step_none {xs : List α} (h : L.step xs = none) : L.run xs = ([], xs) :=
  L.runFuel_of_step_none h _

/-- One step of `run`. -/
theorem run_of_step_some {xs : List α} {out : List β} {n : Nat}
    (h : L.step xs = some (out, n)) :
    L.run xs = (out ++ (L.run (xs.drop n)).1, (L.run (xs.drop n)).2) := by
  have hpos := L.step_pos h
  have hle := L.step_le h
  have hdrop : (xs.drop n).length = xs.length - n := List.length_drop
  obtain ⟨m, hm⟩ : ∃ m, xs.length = m + 1 := ⟨xs.length - 1, by omega⟩
  rw [run, hm]
  simp only [runFuel, h]
  rw [run, L.runFuel_fuel m (xs.drop n).length _ (by omega) (Nat.le_refl _)]

/-- Induction along a run: either the lexer waits, or it steps and the rest of
the input is handled already. -/
theorem run_induction {motive : List α → Prop}
    (wait : ∀ xs, L.step xs = none → motive xs)
    (step : ∀ xs out n, L.step xs = some (out, n) → motive (xs.drop n) → motive xs)
    (xs : List α) : motive xs := by
  induction hk : xs.length using Nat.strongRecOn generalizing xs with
  | _ k ih =>
      subst hk
      cases hs : L.step xs with
      | none => exact wait xs hs
      | some r =>
          obtain ⟨out, n⟩ := r
          have hpos := L.step_pos hs
          have hle := L.step_le hs
          refine step xs out n hs (ih (xs.drop n).length ?_ _ rfl)
          rw [List.length_drop]
          omega

/-- A run ends where the lexer waits. -/
theorem step_run_rest (xs : List α) : L.step (L.run xs).2 = none := by
  induction xs using L.run_induction with
  | wait xs h => rw [L.run_of_step_none h]; exact h
  | step xs out n h ih => rw [L.run_of_step_some h]; exact ih

/-- The input left is a suffix of the input. -/
theorem run_rest_suffix (xs : List α) : (L.run xs).2 <:+ xs := by
  induction xs using L.run_induction with
  | wait xs h =>
      have hrest : (L.run xs).2 = xs := by rw [L.run_of_step_none h]
      exact hrest.symm ▸ List.suffix_refl xs
  | step xs out n h ih =>
      rw [L.run_of_step_some h]
      exact ih.trans (List.drop_suffix n xs)

/-- Input that arrives later is read from where the run stopped: nothing that
was decided is decided again, and nothing is skipped. -/
theorem run_append (xs ys : List α) :
    L.run (xs ++ ys) =
      ((L.run xs).1 ++ (L.run ((L.run xs).2 ++ ys)).1, (L.run ((L.run xs).2 ++ ys)).2) := by
  induction xs using L.run_induction with
  | wait xs h => simp [L.run_of_step_none h]
  | step xs out n h ih =>
      have hdrop : (xs ++ ys).drop n = xs.drop n ++ ys :=
        List.drop_append_of_le_length (L.step_le h)
      rw [L.run_of_step_some (L.stable h ys), hdrop, ih, L.run_of_step_some h]
      simp

/-! ### Partial runs -/

/-- `L.Steps xs out ys`: some steps lead from `xs` to `ys` and emit `out`. -/
inductive Steps : List α → List β → List α → Prop
  | refl (xs : List α) : Steps xs [] xs
  | step {xs ys : List α} {out outs : List β} {n : Nat} :
      L.step xs = some (out, n) → Steps (xs.drop n) outs ys → Steps xs (out ++ outs) ys

variable {L}

theorem Steps.trans {xs ys zs : List α} {os ps : List β}
    (h : L.Steps xs os ys) (h' : L.Steps ys ps zs) : L.Steps xs (os ++ ps) zs := by
  induction h with
  | refl xs => exact h'
  | step hs _ ih =>
      rw [List.append_assoc]
      exact .step hs (ih h')

theorem Steps.single {xs : List α} {out : List β} {n : Nat} (h : L.step xs = some (out, n)) :
    L.Steps xs out (xs.drop n) := by
  simpa using Steps.step h (.refl _)

/-- A run continues from wherever some of its steps have led. -/
theorem Steps.run_eq {xs ys : List α} {out : List β} (h : L.Steps xs out ys) :
    L.run xs = (out ++ (L.run ys).1, (L.run ys).2) := by
  induction h with
  | refl xs => simp
  | step hs _ ih =>
      rw [L.run_of_step_some hs, ih]
      simp

variable (L)

/-! ### Chunked input -/

/-- Push one chunk after the other onto the input left, running after each. -/
def feed : List α → List (List α) → List β × List α
  | rest, [] => ([], rest)
  | rest, chunk :: chunks =>
      let r := L.run (rest ++ chunk)
      let q := feed r.2 chunks
      (r.1 ++ q.1, q.2)

/-- **Chunk invariance.** Feeding chunks to a waiting lexer is running it once
over their concatenation. -/
theorem feed_eq_run {rest : List α} (h : L.step rest = none) (chunks : List (List α)) :
    L.feed rest chunks = L.run (rest ++ chunks.flatten) := by
  induction chunks generalizing rest with
  | nil => simp [feed, L.run_of_step_none h]
  | cons chunk chunks ih =>
      rw [List.flatten_cons, ← List.append_assoc, L.run_append (rest ++ chunk)]
      simp only [feed]
      rw [ih (L.step_run_rest _)]

/-! ### Where the steps are taken -/

/-- One step of a run: its place, the number of symbols it drops and what it
emits. -/
structure Located (β : Type*) where
  place : Nat
  size : Nat
  out : List β

/-- At most `fuel` steps from `place` on, with their places. -/
def traceFuel : Nat → Nat → List α → List (Located β)
  | 0, _, _ => []
  | fuel + 1, place, xs =>
      match L.step xs with
      | none => []
      | some (out, n) => ⟨place, n, out⟩ :: traceFuel fuel (place + n) (xs.drop n)

/-- The steps of a run over `xs`, in order. -/
def trace (xs : List α) : List (Located β) := L.traceFuel xs.length 0 xs

theorem traceFuel_flatMap_out : ∀ (fuel place : Nat) (xs : List α),
    (L.traceFuel fuel place xs).flatMap Located.out = (L.runFuel fuel xs).1
  | 0, _, _ => rfl
  | fuel + 1, place, xs => by
      cases hs : L.step xs with
      | none => simp [traceFuel, runFuel, hs]
      | some r => simp [traceFuel, runFuel, hs, traceFuel_flatMap_out fuel]

/-- The tokens of a run are those its steps emit. -/
theorem trace_flatMap_out (xs : List α) :
    (L.trace xs).flatMap Located.out = (L.run xs).1 :=
  L.traceFuel_flatMap_out _ _ _

theorem traceFuel_step {fuel place : Nat} {xs : List α} {e : Located β}
    (h : e ∈ L.traceFuel fuel place xs) :
    place ≤ e.place ∧ L.step (xs.drop (e.place - place)) = some (e.out, e.size) := by
  induction fuel generalizing place xs with
  | zero => simp [traceFuel] at h
  | succ fuel ih =>
      cases hs : L.step xs with
      | none => simp [traceFuel, hs] at h
      | some r =>
          obtain ⟨out, n⟩ := r
          simp only [traceFuel, hs, List.mem_cons] at h
          rcases h with rfl | h
          · exact ⟨Nat.le_refl _, by simpa using hs⟩
          · obtain ⟨hle, hstep⟩ := ih h
            refine ⟨by omega, ?_⟩
            rw [List.drop_drop] at hstep
            rwa [show e.place - place = n + (e.place - (place + n)) by omega]

/-- A recorded step is the lexer's own decision at its place. -/
theorem trace_step {xs : List α} {e : Located β} (h : e ∈ L.trace xs) :
    L.step (xs.drop e.place) = some (e.out, e.size) := by
  simpa using (L.traceFuel_step h).2

/-- Every position begins a token, is inside one, or has not been reached. -/
theorem traceFuel_position_cases : ∀ (fuel place : Nat) (xs : List α) (i : Nat),
    xs.length ≤ fuel → place ≤ i → i ≤ place + xs.length →
    (∃ e ∈ L.traceFuel fuel place xs, e.place = i) ∨
    (∃ e ∈ L.traceFuel fuel place xs, e.place < i ∧ i < e.place + e.size) ∨
    place + xs.length - (L.runFuel fuel xs).2.length ≤ i := by
  intro fuel
  induction fuel with
  | zero =>
      intro place xs i hf hp _
      refine Or.inr (Or.inr ?_)
      simp only [runFuel]
      omega
  | succ fuel ih =>
      intro place xs i hf hp hi
      cases hs : L.step xs with
      | none =>
          refine Or.inr (Or.inr ?_)
          simp only [runFuel, hs]
          omega
      | some r =>
          obtain ⟨out, n⟩ := r
          have hpos := L.step_pos hs
          have hle := L.step_le hs
          have hdrop : (xs.drop n).length = xs.length - n := List.length_drop
          simp only [traceFuel, runFuel, hs, List.mem_cons, exists_eq_or_imp]
          rcases Nat.lt_trichotomy i place with hlt | rfl | hgt
          · omega
          · exact Or.inl (Or.inl rfl)
          · rcases Nat.lt_or_ge i (place + n) with hin | hout
            · exact Or.inr (Or.inl (Or.inl ⟨hgt, hin⟩))
            · rcases ih (place + n) (xs.drop n) i (by omega) hout (by omega) with h | h | h
              · exact Or.inl (Or.inr h)
              · exact Or.inr (Or.inl (Or.inr h))
              · refine Or.inr (Or.inr ?_)
                rw [hdrop] at h
                omega

/-- Every position is the place of a step, strictly inside one, or not before
the input left. -/
theorem position_cases (xs : List α) {i : Nat} (hi : i ≤ xs.length) :
    (∃ e ∈ L.trace xs, e.place = i) ∨
    (∃ e ∈ L.trace xs, e.place < i ∧ i < e.place + e.size) ∨
    xs.length - (L.run xs).2.length ≤ i := by
  have h := L.traceFuel_position_cases xs.length 0 xs i (Nat.le_refl _) (Nat.zero_le _)
    (by simpa using hi)
  rwa [Nat.zero_add] at h

end Lexer
end Mindone.Lib
