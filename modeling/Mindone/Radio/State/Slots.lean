import Mathlib.Data.List.DropRight
import Mindone.Lib.SortedMap
import Mindone.Radio.State.Model

/-!
# Mindone.Radio.State.Slots

The signals of the model: **one slot for each key, by increasing key, with a value of the key's
kind**. An observation that is not older than the slots fills the slot of its key and leaves the
others.
-/

namespace Mindone.Radio.State

open Mindone.Lib

/-! ### Keys -/

def Before (a b : SignalRat) : Prop := a.before b = true

instance : Std.Irrefl Before where
  irrefl a := by cases a <;> simp [Before, SignalRat.before]

instance : IsTrans SignalRat Before where
  trans a b c hab hbc := by
    cases a <;> cases b <;> cases c <;> simp [Before, SignalRat.before] at hab hbc ⊢
    omega

/-- Two keys are the same or one is before the other. -/
theorem before_of_ne {a b : SignalRat} (hne : b ≠ a) (hnot : a.before b ≠ true) : Before b a := by
  cases a <;> cases b <;> simp [Before, SignalRat.before] at hne hnot ⊢
  omega

/-- What a slot holds. -/
def Kind : SignalRat → Signal → Prop
  | .gsmCsq, .gsm _ => True
  | .mtkUnverified rat, .lte .. => rat = 4096 ∨ rat = 8192
  | .mtkUnverified rat, .quarterUnitsUnverified .. => rat ≠ 4096 ∧ rat ≠ 8192
  | _, _ => False

theorem fromEcsq_kind (report : Ecsq) : Kind (Signal.fromEcsq report).1 (Signal.fromEcsq report).2 := by
  unfold Signal.fromEcsq
  dsimp only
  split
  · trivial
  split
  · assumption
  · rename_i hlte
    exact not_or.mp hlte

/-! ### Lines -/

/-- What is trimmed has no blanks at its ends. -/
theorem trim_trim (line : Text) : At.trim (At.trim line) = At.trim line := by
  let blank : UInt8 → Bool := fun byte => byte == 0x20
  have htrim : ∀ text : Text, At.trim text = (text.dropWhile blank).rdropWhile blank := fun _ => rfl
  have hleft : ∀ text : Text, ((text.dropWhile blank).rdropWhile blank).dropWhile blank =
      (text.dropWhile blank).rdropWhile blank := by
    intro text
    rw [List.dropWhile_eq_self_iff]
    intro hpos
    have hstart := List.rdropWhile_prefix blank (text.dropWhile blank)
    have hlength := Nat.lt_of_lt_of_le hpos hstart.length_le
    have hself : (text.dropWhile blank).dropWhile blank = text.dropWhile blank :=
      List.dropWhile_idempotent ..
    rw [hstart.getElem hpos]
    exact List.dropWhile_eq_self_iff.mp hself hlength
  rw [htrim, htrim, hleft]
  exact List.rdropWhile_idempotent ..

/-- **A line that parses as a signal report is observed as one.** -/
theorem observeLine_ecsq {line : Text} (h : (ecsq line).toOption.isSome) :
    ∃ rat signal, observeLine line = some (.signal rat signal) ∧ Kind rat signal := by
  have hfields : fields (At.trim line) (text "+ECSQ:") = fields line (text "+ECSQ:") := by
    unfold fields
    rw [trim_trim]
  have hsame : ecsq (At.trim line) = ecsq line := by
    unfold ecsq
    rw [hfields]
  have hstart : (text "+ECSQ:").isPrefixOf (At.trim line) := by
    by_contra hnot
    have hnone : stripStart (text "+ECSQ:") (At.trim line) = none := if_neg hnot
    have herror : ecsq line = .error .prefixMissing := by
      unfold ecsq fields
      rw [hnone]
      rfl
    rw [herror] at h
    cases h
  obtain ⟨report, hreport⟩ := Option.isSome_iff_exists.mp h
  refine ⟨(Signal.fromEcsq report).1, (Signal.fromEcsq report).2, ?_, fromEcsq_kind report⟩
  unfold observeLine
  dsimp only
  rw [if_pos hstart, hsame, hreport]
  rfl

/-! ### Slots -/

structure Slots (now : Nat) (signals : List (SignalRat × Observation Signal)) : Prop where
  sorted : signals.Pairwise fun a b => Before a.1 b.1
  kinds : ∀ entry ∈ signals, Kind entry.1 entry.2.value
  times : ∀ entry ∈ signals, entry.2.observedMs ≤ now

theorem slots_nil (now : Nat) : Slots now [] := ⟨.nil, by simp, by simp⟩

theorem Slots.later {now now' : Nat} {signals : List (SignalRat × Observation Signal)}
    (h : Slots now signals) (hnow : now ≤ now') : Slots now' signals :=
  ⟨h.sorted, h.kinds, fun entry hentry => Nat.le_trans (h.times entry hentry) hnow⟩

theorem Slots.tail {now : Nat} {entry : SignalRat × Observation Signal}
    {rest : List (SignalRat × Observation Signal)} (h : Slots now (entry :: rest)) : Slots now rest :=
  ⟨(List.pairwise_cons.mp h.sorted).2, fun other hother => h.kinds other (List.mem_cons_of_mem _ hother),
    fun other hother => h.times other (List.mem_cons_of_mem _ hother)⟩

/-- An observation that is not too old is taken. -/
theorem observe_now {α : Type} [DecidableEq α] {slot : Observation α} {now : Nat}
    (h : slot.observedMs ≤ now) (value : α) (source : Source) :
    (observe slot value now source).2 = ⟨value, now, source⟩ := by
  unfold observe
  rw [if_neg (Nat.not_lt.mpr h)]

section Observed

variable {now : Nat} {signals : List (SignalRat × Observation Signal)} (rat : SignalRat)
  (signal : Signal) (source : Source)

/-- An observation is the new one or was there before. -/
theorem mem_observeSignal (h : Slots now signals) {entry : SignalRat × Observation Signal}
    (hentry : entry ∈ (Model.observeSignal rat signal now source signals).2) :
    entry = (rat, ⟨signal, now, source⟩) ∨ entry ∈ signals := by
  induction signals with
  | nil => exact .inl (List.mem_singleton.mp hentry)
  | cons first rest ih =>
      obtain ⟨key, slot⟩ := first
      unfold Model.observeSignal at hentry
      dsimp only at hentry
      split at hentry
      · rename_i hkey
        have hslot := observe_now (h.times _ (List.mem_cons_self ..)) signal source
        rcases List.mem_cons.mp hentry with rfl | hrest
        · left
          rw [hkey]
          exact congrArg _ hslot
        · exact .inr (List.mem_cons_of_mem _ hrest)
      split at hentry
      · exact List.mem_cons.mp hentry
      · rcases List.mem_cons.mp hentry with rfl | hrest
        · exact .inr (List.mem_cons_self ..)
        · exact (ih h.tail hrest).imp_right (List.mem_cons_of_mem _)

/-- **The slot of the key is filled**, and no other. -/
theorem lookup_observeSignal (h : Slots now signals) (key : SignalRat) :
    (Model.observeSignal rat signal now source signals).2.lookup key =
      if key = rat then some ⟨signal, now, source⟩ else signals.lookup key := by
  induction signals with
  | nil =>
      by_cases hkey : key = rat
      · simp [Model.observeSignal, hkey]
      · have hne : (key == rat) = false := by simpa using hkey
        simp [Model.observeSignal, List.lookup_cons, hkey, hne]
  | cons first rest ih =>
      obtain ⟨held, slot⟩ := first
      unfold Model.observeSignal
      dsimp only
      split
      · rename_i hheld
        have hslot := observe_now (h.times _ (List.mem_cons_self ..)) signal source
        subst hheld
        by_cases hkey : key = held
        · simp only [List.lookup_cons, hkey, beq_self_eq_true, if_true, hslot]
        · have hne : (key == held) = false := by simpa using hkey
          simp only [List.lookup_cons, hne, hkey, if_false]
      split
      · by_cases hkey : key = rat
        · simp [hkey]
        · have hne : (key == rat) = false := by simpa using hkey
          simp only [List.lookup_cons, hne, hkey, if_false]
      · rename_i hheld _
        by_cases hsame : key = held
        · have hne : held ≠ rat := hheld
          simp only [List.lookup_cons, hsame, beq_self_eq_true, hne, if_false]
        · have hne : (key == held) = false := by simpa using hsame
          simp only [List.lookup_cons, hne]
          exact ih h.tail

/-- An observation is entered with the time it was made. -/
theorem Slots.observeSignal (h : Slots now signals) (hkind : Kind rat signal) :
    Slots now (Model.observeSignal rat signal now source signals).2 where
  kinds := by
    intro entry hentry
    rcases mem_observeSignal rat signal source h hentry with rfl | hold
    · exact hkind
    · exact h.kinds entry hold
  times := by
    intro entry hentry
    rcases mem_observeSignal rat signal source h hentry with rfl | hold
    · exact Nat.le_refl _
    · exact h.times entry hold
  sorted := by
    induction signals with
    | nil => exact List.pairwise_singleton ..
    | cons first rest ih =>
        obtain ⟨held, slot⟩ := first
        obtain ⟨hfirst, hrest⟩ := List.pairwise_cons.mp h.sorted
        unfold Model.observeSignal
        dsimp only
        split
        · exact List.pairwise_cons.mpr ⟨hfirst, hrest⟩
        split
        · rename_i hbefore
          refine List.pairwise_cons.mpr ⟨fun other hother => ?_, h.sorted⟩
          rcases List.mem_cons.mp hother with rfl | hother
          · exact hbefore
          · exact IsTrans.trans _ _ _ (show Before rat held from hbefore) (hfirst other hother)
        · rename_i hheld hnot
          refine List.pairwise_cons.mpr ⟨fun other hother => ?_, ih h.tail⟩
          rcases mem_observeSignal rat signal source h.tail hother with rfl | hother
          · exact before_of_ne hheld hnot
          · exact hfirst other hother

end Observed

end Mindone.Radio.State
