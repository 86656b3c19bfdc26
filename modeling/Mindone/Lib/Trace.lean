import Mathlib.Data.List.Induction

/-!
# Mindone.Lib.Trace

Traces of a system, read from their end. A trace is the list of what happened so far and
grows at its end; the notions below are what histories need:

* `Since start stop trace`: something happened that is a `start`, and no `stop` came after it;
* `Each P trace`: every entry of the trace stands to what came before it, and to the entry
  right after it, as `P` says;
* `monitor next s trace`: the state that a partial automaton reaches, if it accepts the trace.

Each comes with a rule for the trace that grows.
-/

namespace Mindone.Lib

variable {α : Type*} {start : List α → α → Prop} {stop : α → Prop}

/-- A `start` and no `stop` after it. Whether an entry is a start may depend on what came
before it. -/
def Since (start : List α → α → Prop) (stop : α → Prop) (trace : List α) : Prop :=
  ∃ before mark after, trace = before ++ mark :: after ∧ start before mark ∧
    ∀ later ∈ after, ¬ stop later

theorem not_since_nil : ¬ Since start stop [] := by
  rintro ⟨before, mark, after, heq, -⟩
  cases before <;> cases heq

/-- The last entry is the start, or it is no stop. -/
theorem since_snoc (trace : List α) (mark : α) :
    Since start stop (trace ++ [mark]) ↔
      start trace mark ∨ ¬ stop mark ∧ Since start stop trace := by
  constructor
  · rintro ⟨before, first, after, heq, hstart, hquiet⟩
    rcases List.eq_nil_or_concat after with rfl | ⟨after, last, rfl⟩
    · obtain ⟨rfl, hlast⟩ := List.append_inj' heq rfl
      cases hlast
      exact .inl hstart
    · rw [List.concat_eq_append] at heq hquiet
      rw [← List.cons_append, ← List.append_assoc] at heq
      obtain ⟨rfl, hlast⟩ := List.append_inj' heq rfl
      cases hlast
      refine .inr ⟨hquiet mark (by simp), before, first, after, rfl, hstart, ?_⟩
      intro later hlater
      exact hquiet later (List.mem_append_left _ hlater)
  · rintro (hstart | ⟨hstop, before, first, after, rfl, hstart, hquiet⟩)
    · exact ⟨trace, mark, [], rfl, hstart, by simp⟩
    · refine ⟨before, first, after ++ [mark], by simp, hstart, ?_⟩
      intro later hlater
      rcases List.mem_append.mp hlater with hlater | hlater
      · exact hquiet later hlater
      · rw [List.mem_singleton.mp hlater]
        exact hstop

/-- Every entry stands to what came before it and to the next entry as `P` says. -/
def Each (P : List α → α → Option α → Prop) (trace : List α) : Prop :=
  ∀ before mark after, trace = before ++ mark :: after → P before mark after.head?

variable {P : List α → α → Option α → Prop}

theorem each_nil : Each P [] := by
  intro before mark after heq
  cases before <;> cases heq

/-- What is appended is in its place, and the entry that was last may have the new one after
it. -/
theorem Each.append {trace new : List α} (h : Each P trace)
    (hlast : ∀ before mark, P before mark none → P before mark new.head?)
    (hnew : ∀ before mark after, new = before ++ mark :: after →
      P (trace ++ before) mark after.head?) : Each P (trace ++ new) := by
  intro before mark after heq
  rcases List.append_eq_append_iff.mp heq with ⟨middle, rfl, hsplit⟩ | ⟨middle, rfl, hsplit⟩
  · exact hnew middle mark after hsplit
  · cases middle with
    | nil =>
        simpa using hnew [] mark after hsplit.symm
    | cons first middle =>
        obtain ⟨rfl, rfl⟩ := List.cons.inj hsplit
        have hold := h before mark middle rfl
        cases middle with
        | nil => exact hlast before mark hold
        | cons next middle => exact hold

theorem Each.snoc {trace : List α} {new : α} (h : Each P trace)
    (hlast : ∀ before mark, P before mark none → P before mark (some new))
    (hnew : P trace new none) : Each P (trace ++ [new]) := by
  refine h.append hlast ?_
  intro before mark after heq
  rcases List.append_eq_singleton_iff.mp heq.symm with ⟨rfl, hmark⟩ | ⟨-, hmark⟩
  · cases hmark
    simpa using hnew
  · cases hmark

/-! ### Monitors -/

section Monitor

variable {S : Type*} {next : S → α → Option S} {s s' : S}

/-- Run a partial automaton over a trace. -/
def monitor (next : S → α → Option S) (s : S) (trace : List α) : Option S :=
  trace.foldl (fun state mark => state.bind (next · mark)) (some s)

theorem monitor_snoc (trace : List α) (mark : α) :
    monitor next s (trace ++ [mark]) = (monitor next s trace).bind (next · mark) := by
  simp [monitor]

/-- An accepted trace passes an accepting state at each of its entries, and what comes after
the entry is accepted from there. -/
theorem monitor_split {before after : List α} {mark : α}
    (h : monitor next s (before ++ mark :: after) = some s') :
    ∃ s₁ s₂, monitor next s before = some s₁ ∧ next s₁ mark = some s₂ ∧
      monitor next s₂ after = some s' := by
  have hstuck : ∀ trace : List α,
      trace.foldl (fun state mark => state.bind (next · mark)) none = none := by
    intro trace
    induction trace with
    | nil => rfl
    | cons mark rest ih => exact ih
  unfold monitor at h ⊢
  rw [List.foldl_append, List.foldl_cons] at h
  cases hbefore : before.foldl (fun state mark => state.bind (next · mark)) (some s) with
  | none =>
      rw [hbefore, Option.bind_none, hstuck] at h
      cases h
  | some s₁ =>
      rw [hbefore, Option.bind_some] at h
      cases hnext : next s₁ mark with
      | none =>
          rw [hnext, hstuck] at h
          cases h
      | some s₂ =>
          rw [hnext] at h
          exact ⟨s₁, s₂, rfl, hnext, h⟩

/-- **The invariant rule of a monitor.** -/
theorem monitor_invariant {I : List α → S → Prop} (hnil : I [] s)
    (hsnoc : ∀ trace s₁ mark s₂, I trace s₁ → next s₁ mark = some s₂ → I (trace ++ [mark]) s₂)
    {trace : List α} (h : monitor next s trace = some s') : I trace s' := by
  induction trace using List.reverseRecOn generalizing s' with
  | nil =>
      cases h
      exact hnil
  | append_singleton trace mark ih =>
      rw [monitor_snoc] at h
      obtain ⟨s₁, htrace, hnext⟩ := Option.bind_eq_some_iff.mp h
      exact hsnoc trace s₁ mark s' (ih htrace) hnext

/-- **At most once.** Entries of a kind that are taken from `A` only, where `A` is never
entered again and such an entry leaves it. -/
theorem monitor_once {A : S → Prop} {p : α → Bool}
    (hfrom : ∀ s mark s', next s mark = some s' → p mark = true → A s)
    (hinto : ∀ s mark s', next s mark = some s' → A s' → A s ∧ p mark = false)
    {trace : List α} (h : monitor next s trace = some s') : trace.countP p ≤ 1 := by
  have hcount : trace.countP p ≤ 1 ∧ (A s' → trace.countP p = 0) := by
    refine monitor_invariant (I := fun trace s => trace.countP p ≤ 1 ∧ (A s → trace.countP p = 0))
      ⟨by simp, by simp⟩ ?_ h
    rintro trace s₁ mark s₂ ⟨hle, hzero⟩ hnext
    rw [List.countP_append, List.countP_singleton]
    cases hmark : p mark with
    | true =>
        have hnone := hzero (hfrom s₁ mark s₂ hnext hmark)
        refine ⟨by simp [hnone], fun hA => ?_⟩
        exact absurd (hinto s₁ mark s₂ hnext hA).2 (by simp [hmark])
    | false =>
        refine ⟨by simpa using hle, fun hA => ?_⟩
        simpa using hzero (hinto s₁ mark s₂ hnext hA).1
  exact hcount.1

/-- **Not without it.** States that are entered by one entry only. -/
theorem monitor_mem {B : S → Prop} {mark : α} (hs : ¬ B s)
    (hinto : ∀ s mark' s', next s mark' = some s' → B s' → B s ∨ mark' = mark)
    {trace : List α} (h : monitor next s trace = some s') (hB : B s') : mark ∈ trace := by
  refine monitor_invariant (I := fun trace s => B s → mark ∈ trace) (fun hB => absurd hB hs) ?_ h hB
  intro trace s₁ mark' s₂ hmem hnext hB
  rcases hinto s₁ mark' s₂ hnext hB with hB | rfl
  · exact List.mem_append_left _ (hmem hB)
  · exact List.mem_append_right _ (List.mem_singleton_self _)

end Monitor

end Mindone.Lib
