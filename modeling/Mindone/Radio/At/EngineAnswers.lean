import Mindone.Radio.At.EngineLedger

/-!
# Mindone.Radio.At.EngineAnswers

**An answer is made of what came after the command was written.** `Pending::heard` keeps the
bytes that were fed since the last byte of the command was accepted; the lines of an answer
are lines that a new `Framer` makes of these bytes.

The framer of the engine is not new when the command has been written: it may hold the
beginning of a line. The result is true of the runs in which that beginning is not the
beginning of an answer (`Unmixed`); `stale_answer` is a run in which it is.
-/

namespace Mindone.Radio.At

open Mindone.Lib Engine
open Mindone.Mux (checkedAdd checkedAdd_eq u64Max)

/-! ### The lines of a new framer -/

def Record.lines : Option Record → List (List UInt8)
  | some (.line text) => [text]
  | _ => []

/-- A framer that takes a byte and keeps the lines. -/
def scanStep (s : Framer × List (List UInt8)) (byte : UInt8) : Framer × List (List UInt8) :=
  ((s.1.push byte).1, s.2 ++ Record.lines (s.1.push byte).2)

def scan (input : List UInt8) : Framer × List (List UInt8) := input.foldl scanStep (.new, [])

/-- The lines a new framer makes of the bytes. -/
def linesOf (input : List UInt8) : List (List UInt8) := (scan input).2

theorem scan_snoc (input : List UInt8) (byte : UInt8) :
    scan (input ++ [byte]) = scanStep (scan input) byte := by
  simp [scan]

/-- The line is an answer to the command, or a part of one. -/
def Command.answers (command : Command) (line : List UInt8) : Bool :=
  line ≠ command.text && (standardFinal line || command.extraFinals.contains line ||
    command.expectedPrefix.any fun start => start.isPrefixOf line)

/-- The lines of an answer are lines of what was heard. -/
def Fresh : Event → Prop
  | .completed ⟨_, intermediates, .ok line, heard⟩ =>
      List.Sublist (intermediates ++ [line]) (linesOf heard)
  | _ => True

/-- When the last byte of a command is accepted, the framer does not hold the beginning of
an answer to it. -/
def Unmixed (e : Engine) : Call → Prop
  | .acceptWritten _ _ bytes =>
      ∀ pending, e.phase = .writing → e.active = some pending →
        e.accepted + bytes = e.transmit.length → e.framer.bytes ≠ [] →
          ∀ rest, pending.command.answers (e.framer.bytes ++ rest) = false
  | _ => True

/-! ### The framer and what was heard -/

/-- **The framer against a new one** that took the bytes since the command was written:
they agree, or the framer still holds the beginning of a line that is no answer. -/
inductive Aligned (pending : Pending) (framer : Framer) : Prop
  | agree (hframer : framer = (scan pending.heard).1)
      (hlines : List.Sublist pending.intermediates (linesOf pending.heard))
  | ahead (start : List UInt8) (hstart : start ≠ [])
      (hframer : framer = ⟨start ++ (scan pending.heard).1.bytes, false⟩)
      (hbound : framer.bytes.length ≤ lineBytes)
      (hdropping : (scan pending.heard).1.dropping = false)
      (hlines : linesOf pending.heard = []) (hnone : pending.intermediates = [])
      (hother : ∀ rest, pending.command.answers (start ++ rest) = false)

/-- The command has heard one more byte. -/
def Pending.hearing (pending : Pending) (byte : UInt8) : Pending :=
  { pending with received := pending.received + 1, heard := pending.heard ++ [byte] }

theorem linesOf_snoc (input : List UInt8) (byte : UInt8) :
    linesOf (input ++ [byte]) =
      linesOf input ++ Record.lines ((scan input).1.push byte).2 := by
  unfold linesOf
  rw [scan_snoc]
  rfl

theorem scan_snoc_framer (input : List UInt8) (byte : UInt8) :
    (scan (input ++ [byte])).1 = ((scan input).1.push byte).1 := by
  rw [scan_snoc]
  rfl

theorem push_bound (framer : Framer) (byte : UInt8) (h : framer.bytes.length ≤ lineBytes) :
    (framer.push byte).1.bytes.length ≤ lineBytes := by
  unfold Framer.push
  split
  · split
    · exact h
    split
    · exact h
    · exact Nat.zero_le _
  split
  · exact h
  split
  · exact Nat.zero_le _
  · rename_i hroom
    simp only [List.length_append, List.length_singleton]
    omega

/-- What becomes of the beginning of a line when a byte comes. -/
theorem push_ahead (start bytes : List UInt8) (byte : UInt8) (hstart : start ≠ [])
    (hbound : (start ++ bytes).length ≤ lineBytes) :
    (Framer.push ⟨start ++ bytes, false⟩ byte =
        (⟨[], false⟩, some (.line (start ++ bytes))) ∧
      (Framer.push ⟨bytes, false⟩ byte).1 = ⟨[], false⟩) ∨
    (∃ more, Framer.push ⟨start ++ bytes, false⟩ byte = (⟨start ++ (bytes ++ more), false⟩, none) ∧
      Framer.push ⟨bytes, false⟩ byte = (⟨bytes ++ more, false⟩, none)) ∨
    (Framer.push ⟨start ++ bytes, false⟩ byte).2 = some .tooLarge := by
  unfold Framer.push
  by_cases hend : byte = 0x0d ∨ byte = 0x0a
  · refine .inl ⟨by simp [hend, hstart], ?_⟩
    by_cases hempty : bytes = []
    · simp [hend, hempty]
    · simp [hend, hempty]
  rw [if_neg hend, if_neg hend]
  by_cases hprint : isPrintable byte
  · by_cases hfull : (start ++ bytes).length = lineBytes
    · refine .inr (.inr ?_)
      simp only [Bool.false_eq_true, hprint, not_true_eq_false, or_self, if_false]
      rw [if_pos hfull]
    · refine .inr (.inl ⟨[byte], ?_⟩)
      have hshort : bytes.length ≠ lineBytes := by
        have hpositive := List.length_pos_iff.mpr hstart
        rw [List.length_append] at hbound hfull
        omega
      simp only [Bool.false_eq_true, hprint, not_true_eq_false, or_self, if_false]
      rw [if_neg hfull, if_neg hshort, List.append_assoc]
      exact ⟨rfl, rfl⟩
  · refine .inr (.inl ⟨[], ?_⟩)
    simp [hprint]

/-- A byte that ends no line keeps the framers aligned; one that ends a line makes them
agree. -/
theorem Aligned.push {pending : Pending} {framer : Framer} (h : Aligned pending framer)
    (byte : UInt8) :
    match (framer.push byte).2 with
    | none => Aligned (pending.hearing byte) (framer.push byte).1
    | some .tooLarge => True
    | some (.line line) =>
        (framer.push byte).1 = (scan (pending.heard ++ [byte])).1 ∧
          List.Sublist pending.intermediates (linesOf (pending.heard ++ [byte])) ∧
          (pending.command.answers line = true →
            List.Sublist (pending.intermediates ++ [line]) (linesOf (pending.heard ++ [byte]))) := by
  cases h with
  -- both framers do the same with the byte
  | agree hframer hlines =>
      have hscan := scan_snoc_framer pending.heard byte
      have hgrown := linesOf_snoc pending.heard byte
      rw [← hframer] at hscan hgrown
      cases hpush : (framer.push byte).2 with
      | none =>
          refine .agree hscan.symm ?_
          show List.Sublist pending.intermediates (linesOf (pending.heard ++ [byte]))
          rw [hgrown, hpush]
          simpa [Record.lines] using hlines
      | some record =>
          cases record with
          | tooLarge => trivial
          | line line =>
              dsimp only
              rw [hgrown, hpush]
              refine ⟨hscan.symm, hlines.trans (List.sublist_append_left _ _), fun _ => ?_⟩
              exact hlines.append (List.Sublist.refl [line])
  -- the engine's framer holds the beginning of a line that is no answer
  | ahead start hstart hframer hbound hdropping hlines hnone hother =>
      have hfresh : (scan pending.heard).1 = ⟨(scan pending.heard).1.bytes, false⟩ := by
        rw [← hdropping]
      have hscan := scan_snoc_framer pending.heard byte
      have hgrown := linesOf_snoc pending.heard byte
      rw [hfresh] at hscan hgrown
      have hkept := push_bound framer byte hbound
      rw [hframer] at hbound hkept ⊢
      generalize (scan pending.heard).1.bytes = bytes at *
      -- the line ends, it goes on, or it is too long
      rcases push_ahead start bytes byte hstart hbound with
        ⟨hpush, hnew⟩ | ⟨more, hpush, hnew⟩ | hover
      · rw [hpush]
        dsimp only
        refine ⟨?_, ?_, ?_⟩
        · rw [hscan, hnew]
        · rw [hnone]
          exact List.nil_sublist _
        · intro hanswer
          rw [hother] at hanswer
          cases hanswer
      · rw [hpush] at hkept ⊢
        dsimp only
        have hbytes : (scan (pending.heard ++ [byte])).1 = ⟨bytes ++ more, false⟩ := by
          rw [hscan, hnew]
        refine .ahead start hstart ?_ hkept ?_ ?_ hnone hother
        · show _ = (⟨start ++ (scan (pending.heard ++ [byte])).1.bytes, false⟩ : Framer)
          rw [hbytes]
        · show (scan (pending.heard ++ [byte])).1.dropping = false
          rw [hbytes]
        · show linesOf (pending.heard ++ [byte]) = []
          rw [hgrown, hlines, hnew]
          rfl
      · rw [hover]
        trivial

theorem push_dropping {framer : Framer} {byte : UInt8}
    (h : (framer.push byte).1.dropping = true) :
    framer.dropping = true ∨ (framer.push byte).2 = some .tooLarge := by
  unfold Framer.push at h ⊢
  split at h
  · split at h
    · cases h
    split at h
    · exact .inl h
    · exact .inl h
  rename_i hend
  rw [if_neg hend]
  split at h
  · exact .inl h
  rename_i hplain
  rw [if_neg hplain]
  split at h
  · rename_i hfull
    exact .inr (by rw [if_pos hfull])
  · exact .inl h

/-! ### Bytes -/

/-- Nothing has been heard for the command. -/
def Pending.Untouched (pending : Pending) : Prop :=
  pending.heard = [] ∧ pending.intermediates = []

/-- **The answers so far, and the one that is being read.** -/
structure Clean (e : Engine) : Prop where
  events : ∀ event ∈ e.emitted, Fresh event
  waiting : ∀ pending ∈ e.queue, pending.Untouched
  writing : e.phase = .writing → ∀ pending ∈ e.active, pending.Untouched
  reading : e.phase = .reading → ∀ pending ∈ e.active, Aligned pending e.framer
  dropping : e.framer.dropping = true → e.phase = .quarantine .silence
  bound : e.framer.bytes.length ≤ lineBytes

/-- No command is written or read. -/
def Outside (phase : Phase) : Prop := phase ≠ .writing ∧ phase ≠ .reading

theorem Clean.outside {e e' : Engine} (h : Clean e) (hphase : Outside e'.phase)
    (hqueue : ∀ pending ∈ e'.queue, pending ∈ e.queue)
    (hemitted : ∀ event ∈ e'.emitted, event ∈ e.emitted ∨ Fresh event)
    (hframer : e'.framer = e.framer)
    (hdropping : e.framer.dropping = true → e'.phase = .quarantine .silence) : Clean e' := by
  refine ⟨?_, ?_, ?_, ?_, ?_, ?_⟩
  · intro event hevent
    rcases hemitted event hevent with hold | hfresh
    · exact h.events event hold
    · exact hfresh
  · exact fun pending hpending => h.waiting pending (hqueue pending hpending)
  · exact fun hwriting => absurd hwriting hphase.1
  · exact fun hreading => absurd hreading hphase.2
  · rw [hframer]
    exact hdropping
  · rw [hframer]
    exact h.bound

/-- What quarantine needs of the engine that enters it. -/
theorem clean_enter {e : Engine} (now : Nat) (error : Error)
    (hevents : ∀ event ∈ e.emitted, Fresh event)
    (hwaiting : ∀ pending ∈ e.queue, pending.Untouched)
    (hbound : e.framer.bytes.length ≤ lineBytes) : Clean (e.enter now error) := by
  refine ⟨?_, ?_, ?_, ?_, fun _ => rfl, ?_⟩
  · intro event hevent
    simp only [enter_emitted, List.mem_append, List.mem_map, List.mem_singleton] at hevent
    rcases hevent with (hold | ⟨pending, -, rfl⟩) | rfl
    · exact hevents event hold
    · trivial
    · trivial
  · simpa using hwaiting
  · simp
  · simp
  · simpa using hbound

theorem Clean.enter {e : Engine} (h : Clean e) (now : Nat) (error : Error) :
    Clean (e.enter now error) := clean_enter now error h.events h.waiting h.bound

/-- Only the lists of the engine count while the phase and the framer stay. -/
theorem Clean.of_same {e e' : Engine} (h : Clean e) (hphase : e'.phase = e.phase)
    (hqueue : ∀ pending ∈ e'.queue, pending ∈ e.queue) (hactive : e'.active = e.active)
    (hframer : e'.framer = e.framer)
    (hemitted : ∀ event ∈ e'.emitted, event ∈ e.emitted ∨ Fresh event) : Clean e' := by
  refine ⟨?_, ?_, ?_, ?_, ?_, ?_⟩
  · intro event hevent
    rcases hemitted event hevent with hold | hfresh
    · exact h.events event hold
    · exact hfresh
  · exact fun pending hpending => h.waiting pending (hqueue pending hpending)
  · rw [hphase, hactive]
    exact h.writing
  · rw [hphase, hactive, hframer]
    exact h.reading
  · rw [hphase, hframer]
    exact h.dropping
  · rw [hframer]
    exact h.bound

theorem clean_urc {e : Engine} (h : Clean e) (line : List UInt8) : Clean (e.urc line) := by
  refine h.of_same rfl (fun _ hpending => hpending) rfl rfl ?_
  intro event hevent
  simp only [Engine.urc, emit, List.mem_append, List.mem_singleton] at hevent
  rcases hevent with hold | rfl
  · exact .inl hold
  · exact .inr trivial

theorem clean_recordStray {e : Engine} (h : Clean e) (now : Nat) (line : List UInt8) :
    Clean (e.recordStray now line) := by
  unfold recordStray
  split
  · exact h.enter now _
  · exact clean_urc h line

/-- A line in quarantine belongs to no answer. -/
theorem clean_recordQuarantined {e : Engine} (h : Clean e) (now : Nat) (line : List UInt8) :
    Clean (e.recordQuarantined now line) := by
  have hnoted : ∀ mark, Clean (e.note mark) := fun mark =>
    h.of_same rfl (fun _ hpending => hpending) rfl rfl (fun _ => .inl)
  unfold recordQuarantined
  dsimp only
  split
  · split
    · rename_i hback
      have hphase : e.phase = .quarantine .reading := hback.1
      refine h.outside (by simp [Outside, note, emit]) (fun _ hpending => hpending) ?_ rfl ?_
      · intro event hevent
        simp only [emit, note, List.mem_append, List.mem_singleton] at hevent
        rcases hevent with hold | rfl
        · exact .inl hold
        · exact .inr trivial
      · intro hdropping
        have hsilence := h.dropping hdropping
        rw [hphase] at hsilence
        cases hsilence
    · exact h.outside (by simp [Outside]) (fun _ hpending => hpending) (fun _ => .inl) rfl
        fun _ => rfl
  · split
    · exact h.of_same rfl (fun _ hpending => hpending) rfl rfl (fun _ => .inl)
    · split
      · exact clean_urc (hnoted _) line
      · exact hnoted _

/-- A line outside of `Reading` completes nothing. -/
theorem clean_record {e : Engine} (h : Clean e) (now : Nat) (line : List UInt8)
    (hphase : e.phase ≠ .reading) : Clean (e.record now line) := by
  unfold record
  split
  · exact clean_recordQuarantined h now line
  · split
    · unfold recordActive
      dsimp only
      split
      · exact h
      split
      · split
        · exact h.enter now _
        · exact clean_urc h line
      · exact clean_recordStray h now line
    · exact clean_recordStray h now line

/-- A line in `Reading` that ends where the new framer ends it. -/
theorem clean_recordReading {e : Engine} {pending : Pending} (h : Clean e) (now : Nat)
    (line : List UInt8) (hphase : e.phase = .reading) (hactive : e.active = some pending)
    (hframer : e.framer = (scan pending.heard).1)
    (hanswer : pending.command.answers line = true →
      List.Sublist (pending.intermediates ++ [line]) (linesOf pending.heard)) :
    Clean (e.record now line) := by
  have hactively : e.record now line = e.recordActive now pending line := by
    unfold record
    simp [isQuarantined, hphase, hactive]
  -- In `Reading` the framer is not in the middle of a line it drops.
  have hdropping : e.framer.dropping = false := by
    refine Bool.eq_false_iff.mpr fun hdropping => ?_
    have hsilence := h.dropping hdropping
    rw [hphase] at hsilence
    cases hsilence
  rw [hactively]
  unfold recordActive
  dsimp only
  split
  · exact h
  -- The echo of the command changes nothing.
  rename_i hecho
  split
  · rename_i hmatch
    -- A line of the answer is one of the lines heard since the command was written.
    have hlines := hanswer (by
      simp only [Command.answers, Bool.and_eq_true, decide_eq_true_eq]
      exact ⟨hecho, hmatch⟩)
    rw [if_neg (by simp [hphase])]
    split
    · refine ⟨?_, h.waiting, by simp [emit], by simp [emit], ?_, h.bound⟩
      · intro event hevent
        simp only [emit, List.mem_append, List.mem_singleton] at hevent
        rcases hevent with hold | rfl
        · exact h.events event hold
        · exact hlines
      · intro hdropping'
        rw [show e.framer.dropping = true from hdropping'] at hdropping
        cases hdropping
    · split
      · exact h.enter now _
      · refine ⟨h.events, h.waiting, ?_, ?_, h.dropping, h.bound⟩
        · intro hwriting
          rw [show e.phase = .writing from hwriting] at hphase
          cases hphase
        · intro _ other hother
          cases hother
          exact .agree hframer hlines
  -- Any other line is a stray one.
  · exact clean_recordStray h now line

/-- A byte outside of `Reading`: the framer takes it and nothing is completed. -/
theorem clean_pushed {e : Engine} (h : Clean e) (now : Nat) (byte : UInt8)
    (hphase : e.phase ≠ .reading) :
    Clean (e.pushed now byte) := by
  unfold pushed
  have hbound := push_bound e.framer byte h.bound
  split
  · rename_i line hpush
    refine clean_record ?_ now line hphase
    refine ⟨h.events, h.waiting, h.writing, fun hreading => absurd hreading hphase, ?_, hbound⟩
    intro hdropping
    rcases push_dropping hdropping with hold | hlarge
    · exact h.dropping hold
    · rw [hpush] at hlarge
      cases hlarge
  · -- the framer drops the rest of the line from now on
    exact clean_enter now _ h.events h.waiting hbound
  · rename_i hpush
    refine ⟨h.events, h.waiting, h.writing, fun hreading => absurd hreading hphase, ?_, hbound⟩
    intro hdropping
    rcases push_dropping hdropping with hold | hlarge
    · exact h.dropping hold
    · rw [hpush] at hlarge
      cases hlarge

/-- A byte in `Reading`. -/
theorem clean_read {e : Engine} {pending : Pending} (h : Clean e) (now : Nat) (byte : UInt8)
    (hphase : e.phase = .reading) (hactive : e.active = some pending) :
    Clean ((e.hear now byte).pushed now byte) := by
  -- The engine's framer and one that has heard only this answer take the byte alike.
  have haligned := (h.reading hphase pending hactive).push byte
  have hheard : (e.hear now byte).active = some (pending.hearing byte) := by
    simp [hear, hphase, hactive, Pending.hearing]
  -- A framer that begins to drop says so, and the engine enters quarantine.
  have hkeeps : ((e.framer.push byte).1.dropping = true →
      (e.framer.push byte).2 = some .tooLarge) := by
    intro hdropping
    rcases push_dropping hdropping with hold | hlarge
    · have hsilence := h.dropping hold
      rw [hphase] at hsilence
      cases hsilence
    · exact hlarge
  have hbound := push_bound e.framer byte h.bound
  unfold pushed
  rw [show (e.hear now byte).framer = e.framer from rfl]
  split
  · rename_i line hpush
    rw [hpush] at haligned hkeeps
    obtain ⟨hframer, hlines, hanswer⟩ := haligned
    -- The line is complete: the state before it is recorded is clean too.
    have hclean : Clean { e.hear now byte with framer := (e.framer.push byte).1 } := by
      refine ⟨h.events, h.waiting, ?_, ?_, ?_, hbound⟩
      · intro hwriting
        rw [show e.phase = .writing from hwriting] at hphase
        cases hphase
      · intro _ other hother
        rw [Option.mem_def, hheard] at hother
        cases hother
        exact .agree hframer hlines
      · intro hdropping
        cases hkeeps hdropping
    exact clean_recordReading hclean now line hphase hheard hframer hanswer
  · exact clean_enter now _ h.events h.waiting hbound
  · rename_i hpush
    rw [hpush] at haligned hkeeps
    refine ⟨h.events, h.waiting, ?_, ?_, ?_, hbound⟩
    · intro hwriting
      rw [show e.phase = .writing from hwriting] at hphase
      cases hphase
    · intro _ other hother
      rw [Option.mem_def, hheard] at hother
      cases hother
      exact haligned
    · intro hdropping
      cases hkeeps hdropping

theorem absorb_clean {e : Engine} (hb : Balanced e) (h : Clean e) (now : Nat) (byte : UInt8) :
    Clean (absorb now e byte) := by
  rw [absorb_eq]
  cases hflooded : (e.hear now byte).flooded with
  | true =>
      simp only [if_true]
      refine clean_pushed ?_ now byte (by simp)
      exact clean_enter now _ h.events h.waiting h.bound
  | false =>
      simp only [Bool.false_eq_true, if_false]
      by_cases hphase : e.phase = .reading
      · obtain ⟨pending, hactive⟩ := Option.isSome_iff_exists.mp (hb.active.mpr (.inr hphase))
        exact clean_read h now byte hphase hactive
      · refine clean_pushed ?_ now byte hphase
        refine ⟨h.events, h.waiting, ?_, fun hreading => absurd hreading hphase, h.dropping,
          h.bound⟩
        intro hwriting other hother
        simp only [hear, Option.mem_def, Option.map_eq_some_iff, if_neg hphase] at hother
        obtain ⟨pending, hactive, rfl⟩ := hother
        exact h.writing hwriting pending hactive

/-! ### Calls -/

theorem clean_abort {e : Engine} (error : Error) (hevents : ∀ event ∈ e.emitted, Fresh event) :
    Clean (e.abort error) := by
  refine ⟨?_, by simp [abort], by simp [abort], by simp [abort], by simp [abort, Framer.new],
    Nat.zero_le _⟩
  intro event hevent
  simp only [abort, List.mem_append, List.mem_map, List.mem_singleton] at hevent
  rcases hevent with (hold | ⟨pending, -, rfl⟩) | rfl
  · exact hevents event hold
  · trivial
  · trivial

theorem clean_timed {e : Engine} (h : Clean e) (now : Nat) : Clean (e.timed now) := by
  unfold timed
  split
  · exact h.enter now _
  · exact h

theorem clean_expireQueue {e : Engine} (h : Clean e) (now : Nat) : Clean (e.expireQueue now) := by
  refine h.of_same rfl (fun _ hpending => List.mem_of_mem_filter hpending) rfl rfl ?_
  intro event hevent
  simp only [expireQueue, List.mem_append, List.mem_map] at hevent
  rcases hevent with hold | ⟨pending, -, rfl⟩
  · exact .inl hold
  · exact .inr trivial

theorem clock_clean {e : Engine} (h : Clean e) (now : Nat) :
    Ends (clock now) e (fun _ e' => Clean e' ∧ e' = { e with lastNow := now })
      fun _ e' => Clean e' := by
  refine (clock_spec now e).mono ?_ ?_
  · rintro _ _ ⟨-, -, rfl⟩
    exact ⟨h.of_same rfl (fun _ hpending => hpending) rfl rfl (fun _ => .inl), rfl⟩
  · rintro _ _ (⟨-, -, rfl⟩ | ⟨-, rfl⟩)
    · exact h
    · exact clean_abort _ h.events

theorem expire_clean {e : Engine} (h : Clean e) (now : Nat) :
    Ends (expire now) e (fun _ e' => Clean e' ∧ e' = (e.timed now).expireQueue now)
      fun _ e' => Clean e' := by
  refine (expire_spec now e).mono ?_ ?_
  · rintro _ _ rfl
    exact ⟨clean_expireQueue (clean_timed h now) now, rfl⟩
  · rintro _ _ ⟨-, rfl, -⟩
    exact clean_abort _ (clean_timed h now).events

theorem settle_clean {e : Engine} (h : Clean e) (now : Nat) :
    Ends (settle now) e (fun _ e' => Clean e') fun _ e' => Clean e' := by
  unfold settle
  rw [ends_bind]
  refine (clock_clean h now).mono ?_ fun _ _ h => h
  rintro _ e₀ ⟨hclean, -⟩
  exact (expire_clean hclean now).mono (fun _ _ h => h.1) fun _ _ h => h

theorem clean_probing {e : Engine} (h : Clean e) (now : Nat) : Clean (e.probing now) :=
  ⟨h.events, h.waiting, by simp [probing], by simp [probing], by simp [probing, Framer.new],
    Nat.zero_le _⟩

theorem clean_starting {e : Engine} (h : Clean e) (pending : Pending) (queue : List Pending)
    (hphase : e.phase = .idle) (hqueue : e.queue = pending :: queue) :
    Clean (e.starting pending queue) := by
  refine ⟨h.events, ?_, ?_, by simp [starting], ?_, h.bound⟩
  · intro other hother
    exact h.waiting other (by rw [hqueue]; exact List.mem_cons_of_mem _ hother)
  · intro _ other hother
    cases hother
    exact h.waiting pending (by rw [hqueue]; exact List.mem_cons_self)
  · intro hdropping
    have hsilence := h.dropping hdropping
    rw [hphase] at hsilence
    cases hsilence

/-- `tick` keeps the answers clean. -/
theorem tick_clean {e : Engine} (h : Clean e) (now : Nat) :
    Ends (tick now) e (fun _ e' => Clean e') fun _ e' => Clean e' := by
  unfold tick
  rw [← bind_assoc, ends_bind]
  refine (settle_clean h now).mono ?_ fun _ _ h => h
  rintro _ e' hclean
  rw [ends_bind, ends_get, ends_ite]
  split
  · rw [ends_ite]
    split
    · exact ends_fail.mpr (clean_abort _ hclean.events)
    cases hdeadline : checkedAdd now resyncTimeoutMs with
    | none => exact ends_fail.mpr (clean_abort _ hclean.events)
    | some deadline =>
        rw [checkedAdd_eq hdeadline]
        dsimp only
        rw [ends_bind, ends_set, ends_bind]
        refine (write_spec _ _).mono ?_ ?_
        · rintro _ _ rfl
          exact ends_modify.mpr (clean_probing hclean now)
        · rintro _ _ rfl
          exact clean_abort _ hclean.events
  rw [ends_ite]
  split
  · rename_i hidle
    split
    · exact (ends_pure ..).mpr hclean
    · rename_i pending queue hqueue
      rw [ends_bind, ends_set, ends_bind]
      refine (write_spec _ _).mono ?_ ?_
      · rintro _ _ rfl
        exact ends_modify.mpr (clean_starting hclean pending queue hidle.1 hqueue)
      · rintro _ _ rfl
        exact clean_abort _ hclean.events
  · exact (ends_pure ..).mpr hclean

/-- The command has been written: what is in the framer is the beginning of another line. -/
theorem clean_whole {e : Engine} (h : Clean e) (hphase : e.phase = .writing)
    (hother : ∀ pending, e.active = some pending → e.framer.bytes ≠ [] →
      ∀ rest, pending.command.answers (e.framer.bytes ++ rest) = false) :
    Clean { e.clearWrite with phase := .reading } := by
  have hdropping : e.framer.dropping = false := by
    refine Bool.eq_false_iff.mpr fun hdropping => ?_
    have hsilence := h.dropping hdropping
    rw [hphase] at hsilence
    cases hsilence
  have hframer : e.framer = ⟨e.framer.bytes, false⟩ := by rw [← hdropping]
  refine ⟨h.events, h.waiting, by simp, ?_, ?_, h.bound⟩
  · intro _ pending hactive
    obtain ⟨hheard, hnone⟩ := h.writing hphase pending hactive
    show Aligned pending e.framer
    by_cases hempty : e.framer.bytes = []
    · refine .agree ?_ ?_
      · rw [hframer, hempty, hheard]
        rfl
      · rw [hnone]
        exact List.nil_sublist _
    · refine .ahead e.framer.bytes hempty ?_ h.bound ?_ ?_ hnone (hother pending hactive hempty)
      · rw [hheard]
        simpa [scan, Framer.new] using hframer
      · rw [hheard]
        rfl
      · rw [hheard]
        rfl
  · intro htrue
    rw [show e.framer.dropping = true from htrue] at hdropping
    cases hdropping

/-- A command written to the end begins its answer with what is heard next. -/
theorem acceptWritten_clean {e : Engine} (h : Clean e) (now token bytes : Nat)
    (hunmixed : Unmixed e (.acceptWritten now token bytes)) :
    Ends (acceptWritten now token bytes) e (fun _ e' => Clean e') fun _ e' => Clean e' := by
  unfold acceptWritten
  rw [ends_bind]
  refine (clock_clean h now).mono ?_ fun _ _ h => h
  rintro _ e₀ ⟨hclean₀, heq₀⟩
  rw [ends_bind, ends_get]
  dsimp only
  rw [ends_bind]
  refine (expire_clean hclean₀ now).mono ?_ fun _ _ h => h
  rintro _ e' ⟨hclean, heq⟩
  rw [ends_ite]
  split
  · exact (ends_throw _).mpr hclean
  rw [ends_bind, ends_get, ends_ite]
  split
  · exact ends_fail.mpr (clean_abort _ hclean.events)
  rw [ends_ite]
  split
  · exact ends_fail.mpr (clean_abort _ hclean.events)
  rw [ends_ite]
  split
  · rename_i hwhole
    split
    · rename_i hphase
      -- the active command is not overdue, so nothing has changed since the call began
      have hsame : e' = e₀.expireQueue now := by
        rw [heq]
        unfold timed
        split
        · rename_i hoverdue
          rw [heq, timed, if_pos hoverdue] at hphase
          cases hphase
        · rfl
      refine ends_set.mpr (clean_whole hclean hphase ?_)
      rw [hsame, heq₀] at hphase hwhole ⊢
      exact fun pending hactive => hunmixed pending hphase hactive hwhole
    · rename_i hphase
      refine ends_set.mpr (hclean.outside (by simp [Outside, note]) (fun _ hpending => hpending)
        (fun _ => .inl) rfl ?_)
      intro hdropping
      have hsilence := hclean.dropping hdropping
      rw [hphase] at hsilence
      cases hsilence
    · rw [ends_bind, ends_set]
      exact ends_fail.mpr (clean_abort _ hclean.events)
  · exact ends_set.mpr
      (hclean.of_same rfl (fun _ hpending => hpending) rfl rfl (fun _ => .inl))

theorem absorbAll_clean (now : Nat) (input : List UInt8) {e : Engine} (halive : Alive now e)
    (hb : Balanced e) (h : Clean e) : Clean (input.foldl (absorb now) e) := by
  induction input generalizing e with
  | nil => exact h
  | cons byte rest ih =>
      obtain ⟨hmoves, halive'⟩ := absorb_moves false byte halive (by simp)
      have hb' : Balanced (absorb now e byte) :=
        invariant_of_steps (fun _ _ hmove => hmove.balanced) hmoves hb
      exact ih halive' hb' (absorb_clean hb h now byte)

theorem feed_clean {e : Engine} (hb : Balanced e) (h : Clean e) (now : Nat)
    (input : List UInt8) :
    Ends (feed now input) e (fun _ e' => Clean e') fun _ e' => Clean e' := by
  rw [feed_eq, ends_bind]
  refine ((settle_clean h now).and (settle_moves false now e)).mono ?_ fun _ _ h => h.1
  rintro _ e' ⟨hclean, hmoves, halive⟩
  have hb' : Balanced e' := invariant_of_steps (fun _ _ hmove => hmove.balanced) hmoves hb
  exact ends_modify.mpr (absorbAll_clean now input halive hb' hclean)

/-! ### Runs -/

/-- **Unmixed runs keep the answers clean.** -/
theorem RunWith.clean {issued : List Nat} {e : Engine} (h : RunWith Unmixed issued e) :
    Clean e := by
  induction h with
  | new h =>
      unfold Engine.new at h
      split at h
      · cases h
      cases h
      exact ⟨by simp, by simp, by simp, by simp, by simp [Framer.new], Nat.zero_le _⟩
  | @call _ e hrun call hok ih =>
      cases call with
      | enqueue command =>
          rcases after_enqueue e command with ⟨-, hsame⟩ | ⟨-, -, heq⟩
          · rw [hsame]
            exact ih
          · rw [heq]
            refine ⟨ih.events, ?_, ih.writing, ih.reading, ih.dropping, ih.bound⟩
            intro pending hpending
            rcases List.mem_append.mp hpending with hold | hnew
            · exact ih.waiting pending hold
            · rw [List.mem_singleton.mp hnew]
              exact ⟨rfl, rfl⟩
      | tick now => exact ends_endState.mp (tick_clean ih now)
      | feed now input => exact ends_endState.mp (feed_clean hrun.balanced ih now input)
      | acceptWritten now token bytes =>
          exact ends_endState.mp (acceptWritten_clean ih now token bytes hok)
      | tokensTaken count =>
          exact ih.of_same rfl (fun _ hpending => hpending) rfl rfl (fun _ => .inl)

/-- **No stale bytes in an answer**: the lines of an answer, the last one included, are
lines of the bytes that came after the command was written. -/
theorem answer_fresh {issued : List Nat} {e : Engine} (h : RunWith Unmixed issued e)
    {response : Response} {line : List UInt8} (hresponse : .completed response ∈ e.emitted)
    (hline : response.result = .ok line) :
    List.Sublist (response.intermediates ++ [line]) (linesOf response.heard) := by
  obtain ⟨id, intermediates, result, heard⟩ := response
  cases hline
  exact h.clean.events _ hresponse

/-- The bytes with which an answer to the command can begin. -/
def Command.firsts (command : Command) : List UInt8 :=
  ascii ['O', 'E', 'N', '+'] ++
    (command.extraFinals ++ command.expectedPrefix.toList).filterMap List.head?

theorem first_numbered {start line : List UInt8} (hstart : start ≠ [])
    (h : numbered start line = true) : line.head? = start.head? := by
  obtain ⟨byte, start, rfl⟩ := List.exists_cons_of_ne_nil hstart
  simp only [numbered, Bool.and_eq_true, List.isPrefixOf_iff_prefix] at h
  obtain ⟨rest, rfl⟩ := h.1
  rfl

theorem standardFinal_first {line : List UInt8} (h : standardFinal line = true) :
    ∃ byte ∈ ascii ['O', 'E', 'N', '+'], line.head? = some byte := by
  simp only [standardFinal, Bool.or_eq_true, beq_iff_eq] at h
  rcases h with (((rfl | rfl) | rfl) | h) | h
  · exact ⟨_, by decide, rfl⟩
  · exact ⟨_, by decide, rfl⟩
  · exact ⟨_, by decide, rfl⟩
  · exact ⟨_, by decide, (first_numbered (by decide) h).trans rfl⟩
  · exact ⟨_, by decide, (first_numbered (by decide) h).trans rfl⟩

/-- An answer begins with one of these bytes. -/
theorem Command.answers_first {command : Command} {line : List UInt8}
    (h : command.answers line = true) : ∃ byte ∈ command.firsts, line.head? = some byte := by
  simp only [Command.answers, Bool.and_eq_true, Bool.or_eq_true, List.contains_iff_mem,
    Option.any_eq_true, List.isPrefixOf_iff_prefix] at h
  rcases h.2 with (hfinal | hextra) | ⟨start, hstart, hprefix⟩
  · obtain ⟨byte, hbyte, hhead⟩ := standardFinal_first hfinal
    exact ⟨byte, List.mem_append_left _ hbyte, hhead⟩
  · -- a text that passed the check has a first byte
    have hvalid := (command.finals_valid line hextra).1
    obtain ⟨byte, rest, rfl⟩ := List.exists_cons_of_ne_nil (show line ≠ [] by
      rintro rfl
      simp [validText] at hvalid)
    exact ⟨byte, List.mem_append_right _ (List.mem_filterMap.mpr
      ⟨_, List.mem_append_left _ hextra, rfl⟩), rfl⟩
  · have hvalid := command.prefix_valid start hstart
    obtain ⟨byte, rest, rfl⟩ := List.exists_cons_of_ne_nil (show start ≠ [] by
      rintro rfl
      simp [validText] at hvalid)
    obtain ⟨more, rfl⟩ := hprefix
    exact ⟨byte, List.mem_append_right _ (List.mem_filterMap.mpr
      ⟨_, List.mem_append_right _ (by simpa using hstart), rfl⟩), rfl⟩

/-- What the framer holds when a command has been written begins no answer to it. -/
def Elsewhere (e : Engine) : Call → Prop
  | .acceptWritten _ _ _ =>
      ∀ byte ∈ e.framer.bytes.head?, ∀ pending ∈ e.active, byte ∉ pending.command.firsts
  | _ => True

instance (e : Engine) (call : Call) : Decidable (Elsewhere e call) :=
  match call with
  | .acceptWritten _ _ _ => inferInstanceAs (Decidable (∀ byte ∈ e.framer.bytes.head?,
      ∀ pending ∈ e.active, byte ∉ pending.command.firsts))
  | .enqueue _ => isTrue trivial
  | .tick _ => isTrue trivial
  | .feed _ _ => isTrue trivial
  | .tokensTaken _ => isTrue trivial

theorem Elsewhere.unmixed (e : Engine) (call : Call) (h : Elsewhere e call) : Unmixed e call := by
  cases call with
  | acceptWritten now token bytes =>
      intro pending _ hactive _ hheld rest
      obtain ⟨byte, held, hbytes⟩ := List.exists_cons_of_ne_nil hheld
      by_contra hanswers
      obtain ⟨first, hfirst, hhead⟩ :=
        Command.answers_first (Bool.eq_true_of_not_eq_false hanswers)
      rw [hbytes] at hhead
      cases hhead
      exact h byte (by simp [hbytes]) pending hactive hfirst
  | _ => trivial

/-- The answers of the responses, with what was heard for them. -/
def answersOf (events : List Event) : List (List (List UInt8) × List UInt8) :=
  events.filterMap fun event =>
    match event with
    | .completed ⟨_, intermediates, .ok line, heard⟩ => some (intermediates ++ [line], heard)
    | _ => none

theorem mem_answersOf {events : List Event} {answer : List (List UInt8) × List UInt8}
    (h : answer ∈ answersOf events) :
    ∃ response line, .completed response ∈ events ∧ response.result = .ok line ∧
      answer = (response.intermediates ++ [line], response.heard) := by
  unfold answersOf at h
  obtain ⟨event, hevent, hanswer⟩ := List.mem_filterMap.mp h
  split at hanswer
  · rename_i id intermediates line heard
    exact ⟨⟨id, intermediates, .ok line, heard⟩, line, hevent, rfl, (Option.some.inj hanswer).symm⟩
  · cases hanswer

/-- The answer comes behind a line that began before the command was written. -/
theorem answer_fresh_scripted :
    ∃ issued e response, RunWith Unmixed issued e ∧ .completed response ∈ e.emitted ∧
      response.result = .ok okText ∧ response.heard = ascii ['N', 'G'] ++ 0x0d :: okText ++ [0x0d] ∧
      List.Sublist (response.intermediates ++ [okText]) (linesOf response.heard) := by
  obtain ⟨issued, e, hrun, hanswers⟩ := RunWith.of_script Elsewhere
    [.enqueue (sampleCommand 5000), .tick 0, .feed 1 (ascii ['R', 'I']), .acceptWritten 1 1 9,
      .feed 2 (ascii ['N', 'G'] ++ [0x0d]), .feed 3 (okText ++ [0x0d])]
    (fun _ e => answersOf e.emitted =
      [([okText], ascii ['N', 'G'] ++ 0x0d :: okText ++ [0x0d])]) (by decide +kernel)
  have hunmixed := hrun.mono Elsewhere.unmixed
  obtain ⟨response, line, hresponse, hline, hsplit⟩ :=
    mem_answersOf (show ([okText], ascii ['N', 'G'] ++ 0x0d :: okText ++ [0x0d]) ∈
      answersOf e.emitted by rw [hanswers]; simp)
  obtain ⟨hlines, hheard⟩ := Prod.mk.inj hsplit
  have hok : line = okText := by simpa using (congrArg List.getLast? hlines).symm
  subst hok
  exact ⟨issued, e, response, hunmixed, hresponse, hline, hheard.symm,
    answer_fresh hunmixed hresponse hline⟩

/-- **A stale answer.** `O` comes while the command is written, `K` after it: the command is
completed with `OK`, of which it heard only the `K`. -/
theorem stale_answer :
    ¬ ∀ issued e, Run issued e → ∀ response line, .completed response ∈ e.emitted →
      response.result = .ok line →
        List.Sublist (response.intermediates ++ [line]) (linesOf response.heard) := by
  intro hall
  obtain ⟨issued, e, hrun, hanswers⟩ := RunWith.of_script (fun _ _ => True)
    [.enqueue (sampleCommand 5000), .tick 0, .feed 1 (ascii ['O']), .acceptWritten 2 1 9,
      .feed 3 (ascii ['K'] ++ [0x0d])]
    (fun _ e => answersOf e.emitted = [([okText], ascii ['K'] ++ [0x0d])]) (by decide +kernel)
  obtain ⟨response, line, hresponse, hline, hsplit⟩ :=
    mem_answersOf
      (show ([okText], ascii ['K'] ++ [0x0d]) ∈ answersOf e.emitted by rw [hanswers]; simp)
  have hsublist := hall issued e hrun response line hresponse hline
  obtain ⟨hlines, hheard⟩ := Prod.mk.inj hsplit
  rw [← hlines, ← hheard] at hsublist
  revert hsublist
  decide

end Mindone.Radio.At
