import Mindone.Power.LocksSound

/-!
# Mindone.Power.LocksBoosts

**What the backend was told last.** `State.Boosted` says of a hint that its last boost on this
connection lasts until the latest expiry of the locks that hold it, and is off, or was never sent,
when none does. It depends only on these expiries, on that boost and on the clock
(`State.Boosted.same`), and a successful `apply` makes it hold (`boosted_of_apply`).
-/

namespace Mindone.Power

open Mindone.Lib

/-- Some lock holds the hint until then. -/
def State.HeldUntil (s : State) (hint : String) (untilNs : Nat) : Prop :=
  ∃ e ∈ s.locks, hint ∈ e.hints ∧ e.untilNs = untilNs

/-- The boost lasts until then, up to the next millisecond. -/
def Boost.Until : Boost → Nat → Prop
  | .off, _ => False
  | .lasting since ms, untilNs =>
      untilNs ≤ since + ms * nanosPerMs ∧ since + ms * nanosPerMs < untilNs + nanosPerMs

/-- The last boost for a hint is what its locks ask for. -/
structure State.Boosted (s : State) (hint : String) : Prop where
  latest : ∀ untilNs, s.time < untilNs → s.HeldUntil hint untilNs →
    (∀ other, s.HeldUntil hint other → other ≤ untilNs) →
    ∃ boost, s.boosts hint = some boost ∧ boost.Until untilNs
  off : (∀ untilNs, ¬ s.HeldUntil hint untilNs) →
    s.boosts hint = none ∨ s.boosts hint = some .off

section Boosted

variable {s s' : State} {hint : String}

theorem State.Boosted.same (h : s.Boosted hint)
    (hheld : ∀ untilNs, s'.HeldUntil hint untilNs ↔ s.HeldUntil hint untilNs)
    (hboosts : s'.boosts hint = s.boosts hint) (htime : s.time ≤ s'.time) : s'.Boosted hint where
  latest := by
    intro untilNs hlt hmem hmax
    rw [hboosts]
    exact h.latest untilNs (Nat.lt_of_le_of_lt htime hlt) ((hheld _).mp hmem)
      fun other hother => hmax other ((hheld other).mpr hother)
  off := by
    intro hnone
    rw [hboosts]
    exact h.off fun untilNs hmem => hnone untilNs ((hheld untilNs).mpr hmem)

theorem heldUntil_of_locks (h : s'.locks = s.locks) (untilNs : Nat) :
    s'.HeldUntil hint untilNs ↔ s.HeldUntil hint untilNs := by
  unfold State.HeldUntil
  rw [h]

theorem Calm.boosted (h : Calm s s') (hboosts : s'.boosts hint = s.boosts hint)
    (hs : s.Boosted hint) : s'.Boosted hint :=
  hs.same (heldUntil_of_locks h.locks) hboosts h.time

/-- A change of one lock that does not matter for the hint. -/
theorem heldUntil_modify {e : Entry} {f : Entry → Entry} (hs : s.Sound) (he : e ∈ s.locks)
    (hhints : hint ∈ (f e).hints ↔ hint ∈ e.hints)
    (htime : hint ∈ e.hints → (f e).untilNs = e.untilNs) (untilNs : Nat) :
    (s.modifyLock e.handle f).HeldUntil hint untilNs ↔ s.HeldUntil hint untilNs := by
  constructor
  · rintro ⟨b, hb, hmem, rfl⟩
    rcases (mem_modify hs.keys he).mp hb with ⟨hb, -⟩ | rfl
    · exact ⟨b, hb, hmem, rfl⟩
    · exact ⟨e, he, hhints.mp hmem, (htime (hhints.mp hmem)).symm⟩
  · rintro ⟨b, hb, hmem, rfl⟩
    by_cases hk : b.handle = e.handle
    · obtain rfl := eq_of_key hs.keys hb he hk
      exact ⟨f b, (mem_modify hs.keys he).mpr (.inr rfl), hhints.mpr hmem, htime hmem⟩
    · exact ⟨b, (mem_modify hs.keys he).mpr (.inl ⟨hb, hk⟩), hmem, rfl⟩

/-! ### The latest expiry -/

theorem latest_cons (e : Entry) (locks : List Entry) (hint : String) (time : Nat) :
    latest (e :: locks) hint time =
      latest locks hint (if hint ∈ e.hints then max time e.untilNs else time) := rfl

theorem latest_le {locks : List Entry} {time bound : Nat} (htime : time ≤ bound)
    (h : ∀ e ∈ locks, hint ∈ e.hints → e.untilNs ≤ bound) : latest locks hint time ≤ bound := by
  induction locks generalizing time with
  | nil => exact htime
  | cons e locks ih =>
      rw [latest_cons]
      refine ih ?_ fun e he => h e (.tail _ he)
      split
      · rename_i hmem
        exact Nat.max_le.mpr ⟨htime, h e (.head _) hmem⟩
      · exact htime

theorem le_latest_time (locks : List Entry) (hint : String) (time : Nat) :
    time ≤ latest locks hint time := by
  induction locks generalizing time with
  | nil => exact Nat.le_refl _
  | cons e locks ih =>
      rw [latest_cons]
      refine Nat.le_trans ?_ (ih _)
      split
      · exact Nat.le_max_left _ _
      · exact Nat.le_refl _

theorem le_latest {locks : List Entry} {e : Entry} (he : e ∈ locks) (hmem : hint ∈ e.hints)
    (time : Nat) : e.untilNs ≤ latest locks hint time := by
  induction locks generalizing time with
  | nil => cases he
  | cons a locks ih =>
      rw [latest_cons]
      rcases List.mem_cons.mp he with rfl | he
      · rw [if_pos hmem]
        exact Nat.le_trans (Nat.le_max_right _ _) (le_latest_time locks hint _)
      · exact ih he _

theorem ceilMs_until {now untilNs : Nat} (hlt : now < untilNs)
    (hle : untilNs ≤ now + int32Max * nanosPerMs) :
    (Boost.lasting now (ceilMs untilNs now)).Until untilNs := by
  unfold ceilMs Boost.Until
  simp only [int32Max, nanosPerMs] at hle ⊢
  omega

/-- **A successful `apply` makes the boost what the locks ask for.** `locks` are those that it has
looked at: they are the ones that hold the hint, apart from some that have expired. -/
theorem boosted_of_apply {locks : List Entry} {time : Nat}
    (hboosts : s'.boosts hint =
      some (.lasting s'.time (ceilMs (latest locks hint time) s'.time)))
    (hheld : ∀ e ∈ s'.locks, hint ∈ e.hints → ∃ a ∈ locks, hint ∈ a.hints ∧ a.untilNs = e.untilNs)
    (hlocks : ∀ e ∈ locks, hint ∈ e.hints → e.untilNs ≤ s'.time ∨ s'.HeldUntil hint e.untilNs)
    (htime : time ≤ s'.time ∨ s'.HeldUntil hint time) (hs : s'.Sound)
    (hsome : ∃ e ∈ s'.locks, hint ∈ e.hints) : s'.Boosted hint where
  latest := by
    rintro untilNs hlt ⟨e, he, hmem, rfl⟩ hmax
    have hlatest : latest locks hint time = e.untilNs := by
      refine Nat.le_antisymm (latest_le ?_ fun a ha hmem' => ?_) ?_
      · rcases htime with h | h
        · exact h.trans (Nat.le_of_lt hlt)
        · exact hmax time h
      · rcases hlocks a ha hmem' with h | h
        · exact h.trans (Nat.le_of_lt hlt)
        · exact hmax _ h
      · obtain ⟨a, ha, hmem', heq⟩ := hheld e he hmem
        rw [← heq]
        exact le_latest ha hmem' time
    rw [hlatest] at hboosts
    exact ⟨_, hboosts, ceilMs_until hlt (hs.bound e he)⟩
  off := by
    intro hnone
    obtain ⟨e, he, hmem⟩ := hsome
    exact absurd ⟨e, he, hmem, rfl⟩ (hnone e.untilNs)

/-- An `apply` over the locks as they are. -/
theorem boosted_of_apply_same {time : Nat} (hcalm : Calm s s')
    (hboosts : s'.boosts = Function.update s.boosts hint
      (some (.lasting s'.time (ceilMs (latest s.locks hint time) s'.time))))
    (htime : time ≤ s'.time ∨ s'.HeldUntil hint time) (hs : s'.Sound)
    (hsome : ∃ e ∈ s'.locks, hint ∈ e.hints) : s'.Boosted hint := by
  have hboost : s'.boosts hint =
      some (.lasting s'.time (ceilMs (latest s.locks hint time) s'.time)) := by
    rw [hboosts, Function.update_self]
  refine boosted_of_apply hboost ?_ ?_ htime hs hsome
  · rw [hcalm.locks]
    exact fun e he hmem => ⟨e, he, hmem, rfl⟩
  · intro e he hmem
    refine .inr ⟨e, ?_, hmem, rfl⟩
    rw [hcalm.locks]
    exact he

end Boosted

end Mindone.Power
