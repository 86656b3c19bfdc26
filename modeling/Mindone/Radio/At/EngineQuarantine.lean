import Mindone.Lib.Trace
import Mindone.Radio.At.EngineLedger

/-!
# Mindone.Radio.At.EngineQuarantine

**What happens in quarantine.** From the error that leads into quarantine until the engine is
resynchronised or fails, nothing but the probe is offered for writing; a probe is offered
only after a silence; and the engine is resynchronised exactly by the `OK` that follows the
answer to the last probe. All of this is read off the `history` of an engine.
-/

namespace Mindone.Radio.At

open Mindone.Lib Engine

/-- An error has led into quarantine and the engine is not resynchronised since. -/
def InStay (history : List Note) : Prop :=
  Since (fun _ mark => ∃ now, mark = .entered now) (· = .resynchronized) history

/-- What takes a probe's answer its meaning: a final line, a line that is too long, a new
probe. -/
def Disturbs : Note → Prop
  | .line _ _ terminal => terminal = true
  | .oversized => True
  | .probe _ => True
  | _ => False

/-- The last byte of a probe has been accepted, and nothing disturbed it since. -/
def Written (history : List Note) : Prop :=
  Since (fun _ mark => mark = .probeWritten) Disturbs history

/-- A line that answers the probe was completed after its last byte was accepted, and
nothing disturbed it before or since. -/
def Answered (history : List Note) : Prop :=
  Since (fun before mark => ∃ phase text, mark = .line phase text false ∧
    probeAnswer text = true ∧ Written before) Disturbs history

/-- How a note stands to what happened before it and to the next note. -/
def Justified (before : List Note) (mark : Note) (next : Option Note) : Prop :=
  match mark with
  | .probe now => ∀ t, .fed t ∈ before ∨ .entered t ∈ before → t + silenceMs ≤ now
  | .started _ => ¬ InStay before
  | .line phase text _ =>
      next = some .resynchronized ↔
        phase = .quarantine .reading ∧ text = okText ∧ Answered before
  | .resynchronized =>
      ∃ earlier, before = earlier ++ [Note.line (.quarantine .reading) okText true]
  | _ => True

/-- The times at which probes were offered. -/
def probeTimes (history : List Note) : List Nat :=
  history.filterMap fun mark =>
    match mark with
    | .probe now => some now
    | _ => none

/-- How often the engine said that it is resynchronised. -/
def resynchronizations (events : List Event) : Nat :=
  events.countP fun event =>
    match event with
    | .resynchronized => true
    | _ => false

/-! ### Histories that grow -/

section Snoc

variable (history : List Note) (mark : Note)

@[simp] theorem inStay_snoc : InStay (history ++ [mark]) ↔
    (∃ now, mark = .entered now) ∨ mark ≠ .resynchronized ∧ InStay history :=
  since_snoc ..

@[simp] theorem written_snoc : Written (history ++ [mark]) ↔
    mark = .probeWritten ∨ ¬ Disturbs mark ∧ Written history :=
  since_snoc ..

@[simp] theorem answered_snoc : Answered (history ++ [mark]) ↔
    (∃ phase text, mark = .line phase text false ∧ probeAnswer text = true ∧ Written history) ∨
      ¬ Disturbs mark ∧ Answered history :=
  since_snoc ..

end Snoc

theorem Answered.written {history : List Note} (h : Answered history) : Written history := by
  induction history using List.reverseRecOn with
  | nil => exact absurd h not_since_nil
  | append_singleton history mark ih =>
      rw [written_snoc]
      rcases (answered_snoc history mark).mp h with ⟨phase, text, rfl, -, hwritten⟩ | ⟨hquiet, hold⟩
      · exact .inr ⟨by simp [Disturbs], hwritten⟩
      · exact .inr ⟨hquiet, ih hold⟩

/-- Only a resynchronisation matters to the note before it. -/
theorem justified_next {next : Note} (hnext : next ≠ .resynchronized) (before : List Note)
    (mark : Note) (h : Justified before mark none) : Justified before mark (some next) := by
  cases mark with
  | line phase text terminal => simpa [Justified, hnext] using h
  | _ => exact h

/-- A line that is not final does not end quarantine. -/
theorem justified_other {e : Engine} {line : List UInt8} (before : List Note)
    (h : e.terminal line = false) : Justified before (.line e.phase line false) none := by
  simp only [Justified, reduceCtorEq, false_iff]
  rintro ⟨-, rfl, -⟩
  simp [Engine.terminal, standardFinal_ok] at h

/-- **Quarantine and its history.** -/
structure Isolated (e : Engine) : Prop where
  stay : e.phase ≠ .failed → (InStay e.history ↔ e.isQuarantined = true)
  written : e.phase ≠ .failed → (Written e.history ↔ e.phase = .quarantine .reading)
  answered : e.phase ≠ .failed → (Answered e.history ↔ e.resyncIntermediate = true)
  times : e.phase ≠ .failed → ∀ t, .fed t ∈ e.history ∨ .entered t ∈ e.history →
    t ≤ e.lastNow ∧ (e.isQuarantined = true → t ≤ e.quietSince)
  justified : Each Justified e.history
  counted : resynchronizations e.emitted = e.history.count .resynchronized

/-- Moves that leave the quarantine's fields. -/
theorem Isolated.of_same {e e' : Engine} (h : Isolated e)
    (hin : e'.isQuarantined = e.isQuarantined)
    (hreading : e'.phase = .quarantine .reading ↔ e.phase = .quarantine .reading)
    (halive : e'.phase ≠ .failed → e.phase ≠ .failed) (hhistory : e'.history = e.history)
    (hintermediate : e'.resyncIntermediate = e.resyncIntermediate)
    (hnow : e.lastNow ≤ e'.lastNow) (hquiet : e'.quietSince = e.quietSince)
    (hemitted : resynchronizations e'.emitted = resynchronizations e.emitted) : Isolated e' := by
  refine ⟨?_, ?_, ?_, ?_, ?_, ?_⟩
  · intro hphase
    rw [hhistory, hin]
    exact h.stay (halive hphase)
  · intro hphase
    rw [hhistory, hreading]
    exact h.written (halive hphase)
  · intro hphase
    rw [hhistory, hintermediate]
    exact h.answered (halive hphase)
  · rw [hhistory, hin, hquiet]
    intro hphase t ht
    obtain ⟨hlast, hsilent⟩ := h.times (halive hphase) t ht
    exact ⟨hlast.trans hnow, hsilent⟩
  · rw [hhistory]
    exact h.justified
  · rw [hemitted, hhistory]
    exact h.counted

/-- An engine that fails has nothing more to justify. -/
theorem Aborted.isolated {e e' : Engine} {error : Error} {all : List Pending}
    (h : Aborted e e' error all) (hi : Isolated e) : Isolated e' := by
  have hnone : ∀ commands : List Pending, resynchronizations
      (commands.map fun pending => complete pending (.error error)) = 0 := by
    intro commands
    simp [resynchronizations, List.countP_map, Function.comp_def, complete]
  refine ⟨?_, ?_, ?_, ?_, ?_, ?_⟩
  · exact fun halive => absurd h.phase halive
  · exact fun halive => absurd h.phase halive
  · exact fun halive => absurd h.phase halive
  · exact fun halive => absurd h.phase halive
  · rw [h.history]
    exact hi.justified
  · rw [h.emitted, h.history, ← hi.counted]
    simp only [resynchronizations, List.countP_append] at hnone ⊢
    simp [hnone]

/-- An error leads into quarantine. What was said about the last probe is over, or nothing
had been said. -/
theorem isolated_enter {e : Engine} (now : Nat) (error : Error) (hclock : e.lastNow = now)
    (htimes : ∀ t, .fed t ∈ e.history ∨ .entered t ∈ e.history → t ≤ e.lastNow)
    (hjustified : Each Justified e.history)
    (hcounted : resynchronizations e.emitted = e.history.count .resynchronized)
    (hover : ¬ Written e.history) : Isolated (e.enter now error) := by
  have hunanswered : ¬ Answered e.history := fun hanswered => hover hanswered.written
  refine ⟨?_, ?_, ?_, ?_, ?_, ?_⟩
  · simp [isQuarantined]
  · simp [hover]
  · simp [hunanswered]
  · intro _ t ht
    have hpast : t ≤ now := by
      simp only [enter_history, List.mem_append, List.mem_singleton, reduceCtorEq, or_false,
        Note.entered.injEq] at ht
      rcases ht with hfed | hentered | rfl
      · exact hclock ▸ htimes t (.inl hfed)
      · exact hclock ▸ htimes t (.inr hentered)
      · exact le_refl t
    exact ⟨by rw [enter_lastNow, hclock]; exact hpast, fun _ => hpast⟩
  · rw [enter_history]
    exact hjustified.snoc (justified_next (by simp)) trivial
  · rw [enter_history, enter_emitted, List.count_append, ← hcounted]
    cases e.active <;> simp [resynchronizations, complete]

/-- Outside of `Quarantine(Reading)` no probe has been written. -/
theorem Isolated.unwritten {e : Engine} (h : Isolated e) (halive : e.phase ≠ .failed)
    (hphase : e.phase ≠ .quarantine .reading) : ¬ Written e.history :=
  fun hwritten => hphase ((h.written halive).mp hwritten)

/-! ### What each move keeps -/

/-- A note that is made in passing: no line, no step of a probe, no entry. -/
theorem Isolated.of_noted {e e' : Engine} (h : Isolated e) (mark : Note)
    (hhistory : e'.history = e.history ++ [mark]) (hphase : e'.phase = e.phase)
    (hintermediate : e'.resyncIntermediate = e.resyncIntermediate)
    (hstay : ∀ now, mark ≠ .entered now) (hback : mark ≠ .resynchronized)
    (hwritten : mark ≠ .probeWritten) (hquiet : ¬ Disturbs mark)
    (hanswer : ∀ phase text, mark = .line phase text false → probeAnswer text = true →
      ¬ Written e.history)
    (htimes : e.phase ≠ .failed → ∀ t, .fed t ∈ e'.history ∨ .entered t ∈ e'.history →
      t ≤ e'.lastNow ∧ (e'.isQuarantined = true → t ≤ e'.quietSince))
    (hjustified : Justified e.history mark none) (hemitted : e'.emitted = e.emitted) :
    Isolated e' := by
  have hin : e'.isQuarantined = e.isQuarantined := by
    unfold isQuarantined
    rw [hphase]
  have hunanswered : ¬ ∃ phase text, mark = .line phase text false ∧ probeAnswer text = true ∧
      Written e.history := by
    rintro ⟨phase, text, hmark, hprobe, hold⟩
    exact hanswer phase text hmark hprobe hold
  refine ⟨?_, ?_, ?_, ?_, ?_, ?_⟩
  · intro halive
    rw [hphase] at halive
    rw [hhistory, hin, ← h.stay halive]
    simp [hstay, hback]
  · intro halive
    rw [hphase] at halive
    rw [hhistory, hphase, ← h.written halive]
    simp [hwritten, hquiet]
  · intro halive
    rw [hphase] at halive
    rw [hhistory, hintermediate, ← h.answered halive, answered_snoc]
    simp [hunanswered, hquiet]
  · exact fun halive => htimes (hphase ▸ halive)
  · rw [hhistory]
    exact h.justified.snoc (justified_next hback) hjustified
  · rw [hemitted, hhistory, h.counted, List.count_append]
    simp [hback]

/-- The note is no byte and no entry, so the times stay. -/
theorem Isolated.times_noted {e e' : Engine} (h : Isolated e) (mark : Note)
    (hhistory : e'.history = e.history ++ [mark]) (hfed : ∀ t, mark ≠ .fed t)
    (hentered : ∀ t, mark ≠ .entered t) (halive : e.phase ≠ .failed) (t : Nat)
    (ht : .fed t ∈ e'.history ∨ .entered t ∈ e'.history) :
    t ≤ e.lastNow ∧ (e.isQuarantined = true → t ≤ e.quietSince) := by
  refine h.times halive t ?_
  rw [hhistory] at ht
  simpa [(hfed t).symm, (hentered t).symm] using ht

/-- A byte that is heard is only noted. -/
theorem isolated_hear {e : Engine} (h : Isolated e) (now : Nat) (byte : UInt8)
    (hclock : e.lastNow = now) : Isolated (e.hear now byte) := by
  refine h.of_noted (.fed now) rfl rfl rfl (by simp) (by simp) (by simp) (by simp [Disturbs])
    (by simp) ?_
    trivial rfl
  intro halive t ht
  have hpast : t ≤ now ∧ (e.isQuarantined = true → t ≤ e.quietSince ∨ t = now) := by
    simp only [hear, note, List.mem_append, List.mem_singleton, reduceCtorEq, or_false,
      Note.fed.injEq] at ht
    rcases ht with (hfed | rfl) | hentered
    · obtain ⟨hlast, hquiet⟩ := h.times halive t (.inl hfed)
      exact ⟨hclock ▸ hlast, fun hin => .inl (hquiet hin)⟩
    · exact ⟨le_refl t, fun _ => .inr rfl⟩
    · obtain ⟨hlast, hquiet⟩ := h.times halive t (.inr hentered)
      exact ⟨hclock ▸ hlast, fun hin => .inl (hquiet hin)⟩
  refine ⟨hclock.symm ▸ hpast.1, ?_⟩
  intro hin
  have hin : e.isQuarantined = true := hin
  show t ≤ if e.isQuarantined then now else e.quietSince
  rw [if_pos hin]
  exact hpast.1

theorem alive_of_quarantined {e : Engine} (h : e.isQuarantined = true) : e.phase ≠ .failed := by
  intro hfailed
  simp [isQuarantined, hfailed] at h

/-- A line that begins the silence anew. -/
theorem isolated_silenced {e : Engine} (h : Isolated e) (now : Nat) (line : List UInt8)
    (hin : e.isQuarantined = true) (hclock : e.lastNow = now)
    (hstays : ¬ (e.phase = .quarantine .reading ∧ e.resyncIntermediate ∧ line = okText)) :
    Isolated
      { (e.note (.line e.phase line true)).clearWrite with
        phase := .quarantine .silence
        quietSince := now
        resyncIntermediate := false } := by
  have halive := alive_of_quarantined hin
  refine ⟨?_, ?_, ?_, ?_, ?_, ?_⟩
  · intro _
    simpa [note, clearWrite, isQuarantined] using (h.stay halive).mpr hin
  · simp [note, clearWrite, Disturbs]
  · simp [note, clearWrite, Disturbs]
  · intro _ t ht
    have hpast := (h.times_noted (.line e.phase line true) rfl (by simp) (by simp) halive
      t ht).1
    rw [hclock] at hpast
    exact ⟨hclock.symm ▸ hpast, fun _ => hpast⟩
  · refine h.justified.snoc (justified_next (by simp)) ?_
    simp only [Justified, reduceCtorEq, false_iff]
    rintro ⟨hphase, rfl, hanswered⟩
    exact hstays ⟨hphase, (h.answered halive).mp hanswered, rfl⟩
  · simpa [note, clearWrite, List.count_append] using h.counted

theorem isolated_resynchronized {e : Engine} (h : Isolated e)
    (hphase : e.phase = .quarantine .reading) (hanswered : e.resyncIntermediate = true) :
    Isolated (({ e.note (.line e.phase okText true) with
        phase := .idle
        lateFinals := []
        resyncIntermediate := false }.note .resynchronized).emit .resynchronized) := by
  have halive : e.phase ≠ .failed := by simp [hphase]
  refine ⟨?_, ?_, ?_, ?_, ?_, ?_⟩
  · simp only [note, emit, inStay_snoc]
    simp [isQuarantined]
  · simp only [note, emit, written_snoc]
    simp [Disturbs]
  · simp only [note, emit, answered_snoc]
    simp [Disturbs]
  · intro _ t ht
    have hpast := (h.times halive t (by simpa [note, emit] using ht)).1
    exact ⟨hpast, by simp [note, emit, isQuarantined]⟩
  · have hboth : Each Justified
        (e.history ++ [Note.line e.phase okText true, .resynchronized]) := by
      refine h.justified.append (justified_next (by simp)) ?_
      rintro (_ | ⟨first, _ | ⟨second, rest⟩⟩) mark after heq
      · cases heq
        simp [Justified, hphase, (h.answered halive).mpr hanswered]
      · cases heq
        exact ⟨e.history, by rw [hphase]⟩
      · simp at heq
    simpa [note, emit] using hboth
  · have hcounted := h.counted
    simp only [note, emit, resynchronizations, List.countP_append, List.count_append] at hcounted ⊢
    simp [hcounted]

/-- The probe has been written. -/
theorem isolated_probeWhole {e : Engine} (h : Isolated e)
    (hphase : e.phase = .quarantine .writing) :
    Isolated ({ e.clearWrite with phase := .quarantine .reading }.note .probeWritten) := by
  have halive : e.phase ≠ .failed := by simp [hphase]
  have hunwritten := h.unwritten halive (by simp [hphase])
  have hunanswered : ¬ Answered e.history := fun hanswered => hunwritten hanswered.written
  refine ⟨?_, ?_, ?_, ?_, ?_, ?_⟩
  · intro _
    simpa [note, clearWrite, isQuarantined] using
      (h.stay halive).mpr (by simp [isQuarantined, hphase])
  · simp [note]
  · have hnone : e.resyncIntermediate = false :=
      Bool.eq_false_iff.mpr fun hsome => hunanswered ((h.answered halive).mpr hsome)
    simp [note, clearWrite, hunanswered, hnone]
  · intro _ t ht
    obtain ⟨hlast, hquiet⟩ :=
      h.times_noted .probeWritten rfl (by simp) (by simp) halive t ht
    exact ⟨hlast, fun _ => hquiet (by simp [isQuarantined, hphase])⟩
  · exact h.justified.snoc (justified_next (by simp)) trivial
  · simpa [note, clearWrite, List.count_append] using h.counted

/-- The line that answers the probe. -/
theorem isolated_answered {e : Engine} (h : Isolated e) (line : List UInt8)
    (hphase : e.phase = .quarantine .reading) (hterminal : e.terminal line = false)
    (hanswer : probeAnswer line = true) :
    Isolated { e.note (.line e.phase line false) with resyncIntermediate := true } := by
  have halive : e.phase ≠ .failed := by simp [hphase]
  have hwritten := (h.written halive).mpr hphase
  have hin : e.isQuarantined = true := by simp [isQuarantined, hphase]
  refine ⟨?_, ?_, ?_, ?_, ?_, ?_⟩
  · intro _
    simpa [note, isQuarantined, hphase] using (h.stay halive).mpr hin
  · intro _
    simpa [note, Disturbs, hphase] using hwritten
  · intro _
    simp only [note, answered_snoc, iff_true]
    exact .inl ⟨e.phase, line, rfl, hanswer, hwritten⟩
  · exact fun _ t ht =>
      h.times_noted (.line e.phase line false) rfl (by simp) (by simp) halive t ht
  · exact h.justified.snoc (justified_next (by simp)) (justified_other _ hterminal)
  · simpa [note, List.count_append] using h.counted

/-- **Every move keeps the quarantine isolated.** -/
theorem Move.isolated {strict : Bool} {e e' : Engine} (hmove : Move strict e e')
    (hb : Balanced e) (h : Isolated e) : Isolated e' := by
  cases hmove with
  -- The clock only goes forward.
  | clocked now _ hclock => exact h.of_same rfl Iff.rfl id rfl rfl hclock rfl rfl
  -- It is entered from outside: in quarantine no command is active.
  | entered now error halive hclock hout =>
      refine isolated_enter now error hclock (fun t ht => (h.times halive t ht).1) h.justified
        h.counted (h.unwritten halive ?_)
      intro hphase
      rcases hout with hout | hsome
      · exact hout (by simp [isQuarantined, hphase])
      · have hnone := hb.inactive (by simp [hphase]) (by simp [hphase])
        simp [hnone] at hsome
  | oversized now halive hclock _ =>
      refine isolated_enter now .lineTooLarge hclock ?_ ?_ ?_ ?_
      · exact fun t ht => (h.times_noted .oversized rfl (by simp) (by simp) halive t ht).1
      · exact h.justified.snoc (justified_next (by simp)) trivial
      · simpa [note, List.count_append] using h.counted
      · simp [note, Disturbs]
  | expired now =>
      refine h.of_same rfl Iff.rfl id rfl rfl (le_refl _) rfl ?_
      simp [expireQueue, resynchronizations, List.countP_map, Function.comp_def, complete]
  | aborted error _ haborted => exact haborted.isolated h
  | exhausted pending queue _ _ haborted => exact haborted.isolated h
  | tokensTaken count => exact h.of_same rfl Iff.rfl id rfl rfl (le_refl _) rfl rfl
  | part bytes _ _ => exact h.of_same rfl Iff.rfl id rfl rfl (le_refl _) rfl rfl
  | whole hphase =>
      exact h.of_same (by simp [isQuarantined, hphase]) (by simp [hphase]) (by simp [hphase])
        rfl rfl (le_refl _) rfl rfl
  -- The three moves of the quarantine itself have lemmas of their own.
  | probeWhole hphase => exact isolated_probeWhole h hphase
  | heard now byte _ hclock => exact isolated_hear h now byte hclock
  | framed framer => exact h.of_same rfl Iff.rfl id rfl rfl (le_refl _) rfl rfl
  | urc line _ =>
      refine h.of_same rfl Iff.rfl id rfl rfl (le_refl _) rfl ?_
      simp [Engine.urc, emit, resynchronizations]
  -- A line that is not the answer to the probe is noted and has no effect.
  | passed line hin hterminal hanswer =>
      have halive := alive_of_quarantined hin
      refine h.of_noted (.line e.phase line false) rfl rfl rfl (by simp) (by simp) (by simp)
        (by simp [Disturbs]) ?_ ?_ (justified_other _ hterminal) rfl
      · rintro _ _ hmark hprobe hwritten
        cases hmark
        exact hanswer ⟨(h.written halive).mp hwritten, hprobe⟩
      · exact fun _ t ht =>
          h.times_noted (.line e.phase line false) rfl (by simp) (by simp) halive t ht
  | answered line hphase hterminal hanswer => exact isolated_answered h line hphase hterminal hanswer
  | silenced now line hin hclock _ hstays => exact isolated_silenced h now line hin hclock hstays
  | resynchronized hphase hanswered => exact isolated_resynchronized h hphase hanswered
  | completed pending line hphase _ =>
      refine h.of_same (by simp [isQuarantined, emit, hphase]) (by simp [emit, hphase])
        (by simp [hphase]) rfl rfl (le_refl _) rfl ?_
      simp [emit, resynchronizations, complete]
  | intermediate pending line _ _ => exact h.of_same rfl Iff.rfl id rfl rfl (le_refl _) rfl rfl

/-- An offer to write keeps the quarantine isolated. -/
theorem Offer.isolated {now : Nat} {e e' : Engine} (hoffer : Offer now e e') (h : Isolated e) :
    Isolated e' := by
  cases hoffer with
  | probing hphase hclock hquiet _ =>
      have halive : e.phase ≠ .failed := by simp [hphase]
      have hin : e.isQuarantined = true := by simp [isQuarantined, hphase]
      refine ⟨?_, ?_, ?_, ?_, ?_, ?_⟩
      · intro _
        simpa [Engine.probing, note, isQuarantined] using (h.stay halive).mpr hin
      · simp [Engine.probing, note, Disturbs]
      · simp [Engine.probing, note, Disturbs]
      · intro _ t ht
        obtain ⟨hlast, hsilent⟩ :=
          h.times_noted (.probe now) rfl (by simp) (by simp) halive t ht
        exact ⟨hlast, fun _ => hsilent hin⟩
      · refine h.justified.snoc (justified_next (by simp)) ?_
        intro t ht
        have hpast := (h.times halive t ht).2 hin
        have hpositive : 0 < silenceMs := by decide
        omega
      · simpa [Engine.probing, note, List.count_append] using h.counted
  | starting pending queue hphase _ _ =>
      have halive : e.phase ≠ .failed := by simp [hphase]
      have hout : e.isQuarantined = false := by simp [isQuarantined, hphase]
      have hstay : ¬ InStay e.history := by simp [h.stay halive, hout]
      have hunwritten := h.unwritten halive (by simp [hphase])
      refine ⟨?_, ?_, ?_, ?_, ?_, ?_⟩
      · simp [Engine.starting, note, isQuarantined, hstay]
      · simp [Engine.starting, note, hunwritten]
      · intro _
        simpa [Engine.starting, note, Disturbs] using h.answered halive
      · intro _ t ht
        have hpast :=
          (h.times_noted (.started pending.id) rfl (by simp) (by simp) halive t ht).1
        exact ⟨hpast, by simp [Engine.starting, isQuarantined]⟩
      · exact h.justified.snoc (justified_next (by simp)) hstay
      · simpa [Engine.starting, note, List.count_append] using h.counted

/-! ### Runs -/

theorem RunWith.isolated {ok : Engine → Call → Prop} {issued : List Nat} {e : Engine}
    (h : RunWith ok issued e) : Balanced e ∧ Isolated e := by
  refine h.invariant (I := fun e => Balanced e ∧ Isolated e) false (by simp) ?_ ?_ ?_ ?_
  · intro now prefixes nextWrite e hnew
    have hnewRun : RunWith ok [] e := .new hnew
    refine ⟨hnewRun.balanced, ?_⟩
    unfold Engine.new at hnew
    split at hnew
    · cases hnew
    cases hnew
    exact ⟨fun _ => by simp [InStay, not_since_nil, isQuarantined],
      fun _ => by simp [Written, not_since_nil], fun _ => by simp [Answered, not_since_nil],
      by simp, each_nil, rfl⟩
  · exact fun _ _ hmove h => ⟨hmove.balanced h.1, hmove.isolated h.1 h.2⟩
  · exact fun _ _ _ hoffer h => ⟨hoffer.balanced h.1, hoffer.isolated h.2⟩
  · intro e command halive h
    exact ⟨balanced_enqueued h.1 command halive,
      h.2.of_same rfl Iff.rfl id rfl rfl (le_refl _) rfl rfl⟩

@[simp] theorem probeTimes_append (history more : List Note) :
    probeTimes (history ++ more) = probeTimes history ++ probeTimes more :=
  List.filterMap_append ..

theorem Move.probeTimes {strict : Bool} {e e' : Engine} (h : Move strict e e') :
    probeTimes e'.history = At.probeTimes e.history := by
  cases h with
  | aborted error _ haborted => rw [haborted.history]
  | exhausted pending queue _ _ haborted => rw [haborted.history]
  | _ => simp [At.probeTimes, note, clearWrite, hear, emit, Engine.urc, expireQueue]

theorem probeTimes_after (e : Engine) (call : Call) :
    probeTimes (e.after call).history = probeTimes e.history ∨
      ∃ now, call = .tick now ∧
        probeTimes (e.after call).history = probeTimes e.history ++ [now] := by
  rcases after_moves false e call (by simp) with
    ⟨⟨e', hmoves, hend⟩, -⟩ | ⟨command, -, -, -, heq⟩
  · have hmoved : probeTimes e'.history = probeTimes e.history :=
      invariant_of_steps (I := fun e' => probeTimes e'.history = probeTimes e.history)
        (fun _ _ hmove hsame => hmove.probeTimes.trans hsame) hmoves rfl
    rcases hend with heq | ⟨now, hcall, hoffer⟩
    · exact .inl (by rw [heq, hmoved])
    · rw [← hmoved]
      generalize e.after call = final at hoffer
      cases hoffer with
      | probing _ _ _ _ => exact .inr ⟨now, hcall, by simp [probing, note, probeTimes]⟩
      | starting _ _ _ _ _ => exact .inl (by simp [starting, note, probeTimes])
  · rw [heq]
    exact .inl rfl

/-- **Quarantine is isolated.** While an error is not resynchronised, only the probe is
offered for writing; each probe is offered by a `tick`, after the silence; and the engine is
resynchronised exactly by the `OK` that follows the answer to the last probe. -/
theorem quarantine_isolated {issued : List Nat} {e : Engine} (h : Run issued e) :
    (InStay e.history → e.phase ≠ .failed → e.isQuarantined = true ∧
      ∀ request, e.pendingWrite = some request → request.bytes <:+ probeText ++ [0x0d]) ∧
    (∀ call, probeTimes (e.after call).history = probeTimes e.history ∨
      ∃ now, call = .tick now ∧
        probeTimes (e.after call).history = probeTimes e.history ++ [now]) ∧
    Each Justified e.history ∧
    resynchronizations e.emitted = e.history.count .resynchronized := by
  obtain ⟨hbalanced, hisolated⟩ := h.isolated
  refine ⟨?_, probeTimes_after e, hisolated.justified, hisolated.counted⟩
  intro hstay halive
  have hin := (hisolated.stay halive).mp hstay
  refine ⟨hin, ?_⟩
  intro request hrequest
  obtain ⟨-, ⟨pending, hphase, -⟩ | ⟨-, hprobe⟩⟩ := hbalanced.pendingWrite hrequest
  · simp [isQuarantined, hphase] at hin
  · exact hprobe

/-- The line that answers the probe, and `OK`. -/
def probeReply : List UInt8 :=
  ascii ['+', 'C', 'M', 'E', 'E', ':', ' ', '1'] ++ [0x0d] ++ okText ++ [0x0d]

/-- A command that is not answered in time, then the probe and its answer. -/
def resyncScript : List Call :=
  [.enqueue (sampleCommand 10), .tick 0, .acceptWritten 1 1 9, .tick 20, .tick 320,
    .acceptWritten 321 2 9, .feed 322 probeReply]

theorem quarantine_isolated_scripted :
    ∃ issued e, Run issued e ∧ probeTimes e.history = [320] ∧ e.phase = .idle ∧
      e.history.count .resynchronized = 1 ∧ Each Justified e.history ∧
      resynchronizations e.emitted = e.history.count .resynchronized := by
  obtain ⟨issued, e, hrun, htimes, hphase, hcount⟩ :=
    RunWith.of_script (fun _ _ => True) resyncScript
      (fun _ e => probeTimes e.history = [320] ∧ e.phase = .idle ∧
        e.history.count .resynchronized = 1)
      (by decide +kernel)
  exact ⟨issued, e, hrun, htimes, hphase, hcount, (quarantine_isolated hrun).2.2.1,
    (quarantine_isolated hrun).2.2.2⟩

end Mindone.Radio.At
