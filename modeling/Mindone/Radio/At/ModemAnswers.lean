import Mindone.Radio.At.EngineQuarantine
import Mindone.Radio.At.Modem

/-!
# Mindone.Radio.At.ModemAnswers

**Whose answer is it?** Outside of quarantine the engine and the modem agree on the question
that is open: none while the engine is idle or writes, the active command's while it reads.
So the final line that completes a command is the one the modem sent for it.

The agreement is re-established by the resynchronisation, and only if nothing else is owed
then (`Settled`). The engine does not see to that: with two probes on their way, the answer to the
first one resynchronises it and the answer to the second one completes the next command
(`answer_of_another`).
-/

namespace Mindone.Radio.At

open Mindone.Lib Engine
open Mindone.Mux (checkedAdd u64Max)

/-! ### The wire -/

/-- The cells are lines, of the first of which `begun` has been delivered. -/
def Lined : List UInt8 → List Cell → Prop
  | begun, [] => begun = []
  | begun, .text byte :: rest => isPrintable byte = true ∧ Lined (begun ++ [byte]) rest
  | begun, .stop byte line :: rest =>
      isEnd byte = true ∧ line.text = begun ∧ begun ≠ [] ∧ Lined [] rest
  | begun, .blank byte :: rest => isEnd byte = true ∧ begun = [] ∧ Lined [] rest

/-- The end of a line that does not end the answer to the command. -/
def Harmless (command : Command) (cell : Cell) : Prop :=
  ∀ byte line, cell = .stop byte line → command.ends line.text = false

/-- The unsolicited lines are no answers. -/
def Strays (known : List Command) (wire : List Cell) : Prop :=
  ∀ byte line, .stop byte line ∈ wire → line.asker = none → isStray known line.text = true

theorem stray_ends {known : List Command} {command : Command} {line : List UInt8}
    (h : isStray known line = true) (hknown : command ∈ known) : command.ends line = false := by
  unfold isStray at h
  simp only [Bool.and_eq_true, Bool.not_eq_true', List.all_eq_true] at h
  obtain ⟨hstandard, hall⟩ := h
  unfold Command.ends
  rw [hstandard, (hall command hknown).1]
  rfl

/-- What is not solicited is harmless. -/
theorem Quiet.harmless {known : List Command} {wire : List Cell} {command : Command}
    (h : Quiet wire) (hstrays : Strays known wire) (hknown : command ∈ known) :
    ∀ cell ∈ wire, Harmless command cell := by
  rintro cell hcell byte line rfl
  refine stray_ends (hstrays byte line hcell ?_) hknown
  simpa [Cell.solicited] using h _ hcell

theorem lined_append {begun : List UInt8} {wire more : List Cell} (h : Lined begun wire)
    (hmore : Lined [] more) : Lined begun (wire ++ more) := by
  induction wire generalizing begun with
  | nil =>
      rw [show begun = [] from h]
      exact hmore
  | cons cell rest ih =>
      cases cell with
      | text byte => exact ⟨h.1, ih h.2⟩
      | stop byte line => exact ⟨h.1, h.2.1, h.2.2.1, ih h.2.2.2⟩
      | blank byte => exact ⟨h.1, h.2.1, ih h.2.2⟩

theorem lined_line {line : Sent} {ending : UInt8} (hending : isEnd ending = true)
    (hprint : line.text.all isPrintable = true) (hsome : line.text ≠ []) :
    Lined [] (line.text.map Cell.text ++ [Cell.stop ending line]) := by
  have hgeneral : ∀ before after : List UInt8, line.text = before ++ after →
      Lined before (after.map Cell.text ++ [Cell.stop ending line]) := by
    intro before after
    induction after generalizing before with
    | nil =>
        intro heq
        rw [List.append_nil] at heq
        exact ⟨hending, heq, heq ▸ hsome, rfl⟩
    | cons byte after ih =>
        intro heq
        refine ⟨?_, ih (before ++ [byte]) (by simp [heq])⟩
        exact List.all_eq_true.mp hprint byte (by simp [heq])
  exact hgeneral [] line.text rfl

/-- One cell is delivered. -/
theorem lined_tail {begun : List UInt8} {cell : Cell} {rest : List Cell}
    (h : Lined begun (cell :: rest)) : Lined (cell.grow begun) rest := by
  cases cell with
  | text byte => exact h.2
  | stop byte line => exact h.2.2.2
  | blank byte => exact h.2.2

/-! ### What a byte does to the engine -/

/-- The engine is where it was. -/
structure Kept (e e' : Engine) : Prop where
  phase : e'.phase = e.phase
  active : e'.active.map (fun pending => (pending.id, pending.command)) =
    e.active.map fun pending => (pending.id, pending.command)
  answered : answered e'.emitted = answered e.emitted

/-- The engine is in quarantine, or has failed. -/
structure Shut (e e' : Engine) : Prop where
  phase : e'.isQuarantined = true ∨ e'.phase = .failed
  answered : answered e'.emitted = answered e.emitted

theorem Kept.trans {e e' e'' : Engine} (h : Kept e e') (h' : Kept e' e'') : Kept e e'' :=
  ⟨h'.phase.trans h.phase, h'.active.trans h.active, h'.answered.trans h.answered⟩

theorem Kept.shut {e e' e'' : Engine} (h : Kept e e') (h' : Shut e' e'') : Shut e e'' :=
  ⟨h'.phase, h'.answered.trans h.answered⟩

theorem answered_append (events more : List Event) :
    answered (events ++ more) = answered events ++ answered more :=
  List.filterMap_append ..

@[simp] theorem answered_failed (commands : List Pending) (error : Error) :
    answered (commands.map fun pending => complete pending (.error error)) = [] := by
  induction commands with
  | nil => rfl
  | cons pending commands ih => exact ih

@[simp] theorem answered_urc (events : List Event) (line : List UInt8) (registered : Bool) :
    answered (events ++ [.urc line registered]) = answered events := by
  simp [answered]

theorem enter_shut {e e₀ : Engine} (now : Nat) (error : Error)
    (h : answered e.emitted = answered e₀.emitted) : Shut e₀ (e.enter now error) := by
  refine ⟨.inl (by simp [isQuarantined]), ?_⟩
  rw [enter_emitted, answered_append, answered_append, answered_failed, h]
  simp [answered]

theorem abort_shut {e e₀ : Engine} (error : Error)
    (h : answered e.emitted = answered e₀.emitted) : Shut e₀ (e.abort error) := by
  refine ⟨.inr rfl, ?_⟩
  show answered (e.emitted ++ _ ++ [.error error]) = _
  rw [answered_append, answered_append, answered_failed, h]
  simp [answered]

theorem urc_kept (e : Engine) (line : List UInt8) : Kept e (e.urc line) :=
  ⟨rfl, rfl, by simp [Engine.urc, emit]⟩

theorem printable_not_end {byte : UInt8} (h : isPrintable byte = true) : isEnd byte = false := by
  refine Bool.eq_false_iff.mpr fun hend => ?_
  have hend : byte = 0x0d ∨ byte = 0x0a := by simpa [isEnd] using hend
  rcases hend with rfl | rfl
  · exact absurd h (by decide)
  · exact absurd h (by decide)

/-- When a byte ends a line. -/
theorem push_line {framer : Framer} {byte : UInt8} {line : List UInt8}
    (h : (framer.push byte).2 = some (.line line)) :
    isEnd byte = true ∧ framer.dropping = false ∧ framer.bytes = line ∧
      (framer.push byte).1 = ⟨[], false⟩ := by
  unfold Framer.push at h ⊢
  split at h
  · rename_i hend
    rw [if_pos hend]
    split at h
    · cases h
    rename_i hdropping
    rw [if_neg hdropping]
    split at h
    · cases h
    rename_i hsome
    rw [if_neg hsome]
    cases h
    have hkept : framer.dropping = false := by simpa using hdropping
    exact ⟨by simpa [isEnd] using hend, hkept, rfl, by rw [hkept]⟩
  split at h
  · cases h
  split at h
  · cases h
  · cases h

/-- In quarantine a byte keeps the engine there or resynchronises it. -/
theorem pushed_quarantined {e : Engine} (now : Nat) (byte : UInt8) (hin : e.isQuarantined = true) :
    Shut e (e.pushed now byte) ∨
      e.resyncs byte = true ∧ (e.pushed now byte).phase = .idle ∧
        (e.pushed now byte).framer = ⟨[], false⟩ ∧
        answered (e.pushed now byte).emitted = answered e.emitted := by
  unfold pushed
  split
  · rename_i line hpush
    obtain ⟨hend, hdropping, hbytes, hframer⟩ := push_line hpush
    have hrecord : ({ e with framer := (e.framer.push byte).1 } : Engine).record now line =
        ({ e with framer := (e.framer.push byte).1 } : Engine).recordQuarantined now line :=
      if_pos hin
    rw [hrecord]
    unfold recordQuarantined
    dsimp only
    split
    · split
      · rename_i hback
        obtain ⟨hphase, hanswered, hok⟩ := hback
        refine .inr ⟨?_, rfl, hframer, ?_⟩
        · have hphase : e.phase = .quarantine .reading := hphase
          have hanswered : e.resyncIntermediate = true := hanswered
          simp [resyncs, hphase, hanswered, hdropping, hbytes, hok, hend]
        · simp [emit, note, answered]
      · exact .inl ⟨.inl rfl, rfl⟩
    · split
      · exact .inl ⟨.inl hin, rfl⟩
      · split
        · exact .inl ⟨.inl hin, (urc_kept _ line).answered⟩
        · exact .inl ⟨.inl hin, rfl⟩
  · exact .inl (enter_shut now _ rfl)
  · exact .inl ⟨.inl hin, rfl⟩

theorem hear_kept (e : Engine) (now : Nat) (byte : UInt8) : Kept e (e.hear now byte) := by
  refine ⟨rfl, ?_, rfl⟩
  simp [hear, Function.comp_def]

/-- A byte leads into quarantine, or it is heard and pushed. -/
theorem absorb_cases (e : Engine) (now : Nat) (byte : UInt8) :
    Shut e (absorb now e byte) ∨ absorb now e byte = (e.hear now byte).pushed now byte := by
  rw [absorb_eq]
  split
  · have hshut : Shut e ((e.hear now byte).enter now .transactionTooLarge) :=
      enter_shut now _ rfl
    rcases pushed_quarantined now byte (e := (e.hear now byte).enter now .transactionTooLarge) rfl with
      hpushed | ⟨hback, -⟩
    · exact .inl ⟨hpushed.phase, hpushed.answered.trans hshut.answered⟩
    · simp [resyncs] at hback
  · exact .inr rfl

/-- The beginning of a line that is not too long. -/
theorem pushed_text {e : Engine} {begun : List UInt8} (now : Nat) {byte : UInt8}
    (hframer : e.framer = ⟨begun, false⟩) (hprint : isPrintable byte = true) :
    Shut e (e.pushed now byte) ∨
      Kept e (e.pushed now byte) ∧ (e.pushed now byte).framer = ⟨begun ++ [byte], false⟩ := by
  have hend : ¬ (byte = 0x0d ∨ byte = 0x0a) := by
    simpa [isEnd] using printable_not_end hprint
  unfold pushed
  rw [hframer]
  unfold Framer.push
  rw [if_neg hend]
  by_cases hfull : begun.length = lineBytes
  · simp only [hprint, Bool.false_eq_true, not_true_eq_false, or_self, if_false, if_pos hfull]
    exact .inl (enter_shut now _ rfl)
  · simp only [hprint, Bool.false_eq_true, not_true_eq_false, or_self, if_false, if_neg hfull]
    exact .inr ⟨⟨rfl, rfl, rfl⟩, trivial⟩

/-- An empty line. -/
theorem pushed_blank {e : Engine} (now : Nat) {byte : UInt8} (hframer : e.framer = ⟨[], false⟩)
    (hend : isEnd byte = true) :
    Kept e (e.pushed now byte) ∧ (e.pushed now byte).framer = ⟨[], false⟩ := by
  have hend : byte = 0x0d ∨ byte = 0x0a := by simpa [isEnd] using hend
  unfold pushed
  rw [hframer]
  unfold Framer.push
  rw [if_pos hend]
  exact ⟨⟨rfl, rfl, rfl⟩, rfl⟩

theorem recordStray_cases (e : Engine) (now : Nat) (line : List UInt8) :
    Shut e (e.recordStray now line) ∨
      (e.recordStray now line).framer = e.framer ∧ Kept e (e.recordStray now line) := by
  unfold recordStray
  split
  · exact .inl (enter_shut now _ rfl)
  · exact .inr ⟨rfl, urc_kept e line⟩

/-- A line outside of quarantine: it leads into quarantine, changes nothing, or is the end
of the answer to the active command. -/
theorem record_cases {e : Engine} (now : Nat) (line : List UInt8)
    (hout : e.isQuarantined = false) :
    Shut e (e.record now line) ∨
      (e.record now line).framer = e.framer ∧
        (Kept e (e.record now line) ∨
          ∃ pending, e.phase = .reading ∧ e.active = some pending ∧
            pending.command.ends line = true ∧ (e.record now line).phase = .idle ∧
            answered (e.record now line).emitted = answered e.emitted ++ [(pending.id, line)]) := by
  -- A stray line enters quarantine or changes nothing.
  have hstray : Shut e (e.recordStray now line) ∨ (e.recordStray now line).framer = e.framer ∧
      (Kept e (e.recordStray now line) ∨
        ∃ pending, e.phase = .reading ∧ e.active = some pending ∧
          pending.command.ends line = true ∧ (e.recordStray now line).phase = .idle ∧
          answered (e.recordStray now line).emitted =
            answered e.emitted ++ [(pending.id, line)]) := by
    rcases recordStray_cases e now line with hshut | ⟨hframer, hkept⟩
    · exact .inl hshut
    · exact .inr ⟨hframer, .inl hkept⟩
  unfold record
  rw [if_neg (by simp [hout])]
  cases hactive : e.active with
  | none => simpa only [hactive] using hstray
  | some pending =>
      dsimp only
      unfold recordActive
      dsimp only
      -- The echo of the command.
      split
      · exact .inr ⟨rfl, .inl ⟨rfl, rfl, rfl⟩⟩
      split
      · split
        · split
          · exact .inl (enter_shut now _ rfl)
          · exact .inr ⟨rfl, .inl (urc_kept e line)⟩
        -- A line of the answer: its last one ends the command.
        · rename_i hreading
          split
          · rename_i hterminal
            refine .inr ⟨rfl, .inr ⟨pending, not_not.mp hreading, rfl, hterminal, rfl, ?_⟩⟩
            simp [emit, complete, answered]
          · split
            · exact .inl (enter_shut now _ rfl)
            · exact .inr ⟨rfl, .inl ⟨rfl, by simp [hactive], rfl⟩⟩
      · rw [hactive] at hstray
        exact hstray

/-- The end of a line outside of quarantine. -/
theorem pushed_stop {e : Engine} {line : List UInt8} (now : Nat) {byte : UInt8}
    (hout : e.isQuarantined = false) (hframer : e.framer = ⟨line, false⟩) (hsome : line ≠ [])
    (hend : isEnd byte = true) :
    Shut e (e.pushed now byte) ∨
      (e.pushed now byte).framer = ⟨[], false⟩ ∧
        (Kept e (e.pushed now byte) ∨
          ∃ pending, e.phase = .reading ∧ e.active = some pending ∧
            pending.command.ends line = true ∧ (e.pushed now byte).phase = .idle ∧
            answered (e.pushed now byte).emitted = answered e.emitted ++ [(pending.id, line)]) := by
  have hend : byte = 0x0d ∨ byte = 0x0a := by simpa [isEnd] using hend
  have hpush : e.framer.push byte = (⟨[], false⟩, some (.line line)) := by
    rw [hframer]
    unfold Framer.push
    simp [hend, hsome]
  have heq : e.pushed now byte = ({ e with framer := ⟨[], false⟩ } : Engine).record now line := by
    unfold pushed
    rw [hpush]
  rw [heq]
  rcases record_cases (e := { e with framer := ⟨[], false⟩ }) now line hout with
    hshut | ⟨hnew, hkept | hanswer⟩
  · exact .inl ⟨hshut.phase, hshut.answered⟩
  · exact .inr ⟨hnew, .inl ⟨hkept.phase, hkept.active, hkept.answered⟩⟩
  · exact .inr ⟨hnew, .inr hanswer⟩

/-! ### The agreement -/

/-- The modem's part while the engine reads the answer to the command. -/
inductive Awaiting (pending : Pending) (m : Modem) : Prop
  /-- The final line is still owed. -/
  | owed (question : Question) (howed : m.owed = [question])
      (hasker : question.asker = .command pending.id)
      (hfinals : question.extraFinals = pending.command.extraFinals)
      (hwire : ∀ cell ∈ m.wire, Harmless pending.command cell)
  /-- The final line is on its way. -/
  | sent (before : List Cell) (byte : UInt8) (line : Sent) (after : List Cell) (howed : m.owed = [])
      (hwire : m.wire = before ++ .stop byte line :: after)
      (hbefore : ∀ cell ∈ before, Harmless pending.command cell) (hafter : Quiet after)
      (hfinal : (pending.id, line.text) ∈ m.finals)
  /-- Nothing more will come. -/
  | missed (howed : m.owed = []) (hwire : Quiet m.wire)

/-- **The agreement outside of quarantine.** -/
structure Synced (e : Engine) (m : Modem) : Prop where
  framer : e.framer = ⟨m.begun, false⟩
  closed : e.phase ≠ .reading → m.owed = [] ∧ Quiet m.wire
  reading : e.phase = .reading → ∀ pending ∈ e.active, Awaiting pending m

/-- **What holds of the engine and the modem.** -/
structure Good (known : List Command) (e : Engine) (m : Modem) : Prop where
  lined : Lined m.begun m.wire
  strays : Strays known m.wire
  answered : ∀ answer ∈ answered e.emitted, answer ∈ m.finals
  synced : e.isQuarantined = false → e.phase ≠ .failed → Synced e m

/-- The commands that wait or are active are known. -/
def Familiar (known : List Command) (e : Engine) : Prop :=
  (∀ pending ∈ e.queue, pending.command ∈ known) ∧ ∀ pending ∈ e.active, pending.command ∈ known

theorem Awaiting.congr {pending other : Pending} {m : Modem} (h : Awaiting pending m)
    (hid : other.id = pending.id) (hcommand : other.command = pending.command) :
    Awaiting other m := by
  cases h with
  | owed question howed hasker hfinals hwire =>
      exact .owed question howed (hid ▸ hasker) (hcommand ▸ hfinals) (hcommand ▸ hwire)
  | sent before byte line after howed hwire hbefore hafter hfinal =>
      exact .sent before byte line after howed hwire (hcommand ▸ hbefore) hafter (hid ▸ hfinal)
  | missed howed hwire => exact .missed howed hwire

/-- One cell is delivered. -/
theorem Awaiting.tail {pending : Pending} {m : Modem} {cell : Cell} {rest : List Cell}
    {begun : List UInt8} (h : Awaiting pending m) (hcell : m.wire = cell :: rest) :
    Awaiting pending { m with wire := rest, begun := begun } := by
  cases h with
  | owed question howed hasker hfinals hwire =>
      refine .owed question howed hasker hfinals ?_
      exact fun other hother => hwire other (by rw [hcell]; exact List.mem_cons_of_mem _ hother)
  | sent before byte line after howed hwire hbefore hafter hfinal =>
      cases before with
      | nil =>
          rw [hcell] at hwire
          obtain ⟨-, rfl⟩ := List.cons.inj hwire
          exact .missed howed hafter
      | cons first before =>
          rw [hcell] at hwire
          obtain ⟨-, rfl⟩ := List.cons.inj hwire
          exact .sent before byte line after howed rfl
            (fun other hother => hbefore other (List.mem_cons_of_mem _ hother)) hafter hfinal
  | missed howed hwire =>
      exact .missed howed
        (fun other hother => hwire other (by rw [hcell]; exact List.mem_cons_of_mem _ hother))

/-- The line that ends the answer is the one the modem sent. -/
theorem Awaiting.answer {known : List Command} {pending : Pending} {m : Modem} {byte : UInt8}
    {line : Sent} {rest : List Cell} (h : Awaiting pending m) (hstrays : Strays known m.wire)
    (hknown : pending.command ∈ known) (hcell : m.wire = .stop byte line :: rest)
    (hends : pending.command.ends line.text = true) :
    m.owed = [] ∧ Quiet rest ∧ (pending.id, line.text) ∈ m.finals := by
  have hharmful : ∀ cells : List Cell, Cell.stop byte line ∈ cells →
      ¬ ∀ cell ∈ cells, Harmless pending.command cell := by
    intro cells hmem hall
    have hno := hall _ hmem byte line rfl
    rw [hends] at hno
    cases hno
  have hfirst : Cell.stop byte line ∈ m.wire := by
    rw [hcell]
    exact List.mem_cons_self
  cases h with
  | owed question howed hasker hfinals hwire => exact absurd hwire (hharmful m.wire hfirst)
  | sent before byte' line' after howed hwire hbefore hafter hfinal =>
      cases before with
      | nil =>
          rw [hcell] at hwire
          cases hwire
          exact ⟨howed, hafter, hfinal⟩
      | cons first before =>
          rw [hcell] at hwire
          obtain ⟨hsame, -⟩ := List.cons.inj hwire
          exact absurd hbefore (hharmful _ (by rw [hsame]; exact List.mem_cons_self))
  | missed howed hwire =>
      exact absurd (hwire.harmless hstrays hknown) (hharmful m.wire hfirst)

section Cell

variable {known : List Command} {e e' : Engine} {m : Modem} {cell : Cell} {rest : List Cell}

theorem Good.shut (h : Good known e m) {m' : Modem} (hshut : Shut e e')
    (hlined : Lined m'.begun m'.wire) (hstrays : Strays known m'.wire)
    (hfinals : ∀ answer ∈ m.finals, answer ∈ m'.finals) : Good known e' m' := by
  refine ⟨hlined, hstrays, ?_, ?_⟩
  · rw [hshut.answered]
    exact fun answer hanswer => hfinals answer (h.answered answer hanswer)
  · intro hout halive
    rcases hshut.phase with hin | hfailed
    · rw [hout] at hin
      cases hin
    · exact absurd hfailed halive

theorem Kept.outside (h : Kept e e') : e'.isQuarantined = e.isQuarantined := by
  unfold isQuarantined
  rw [h.phase]

theorem strays_tail (h : Strays known m.wire) (hcell : m.wire = cell :: rest) :
    Strays known rest := by
  intro byte line hline
  exact h byte line (by rw [hcell]; exact List.mem_cons_of_mem _ hline)

/-- The engine keeps its place while a cell is delivered. -/
theorem Good.kept (h : Good known e m) (hkept : Kept e e') (hcell : m.wire = cell :: rest)
    (hframer : e'.framer = ⟨cell.grow m.begun, false⟩) :
    Good known e' { m with wire := rest, begun := cell.grow m.begun } := by
  have hlined := h.lined
  rw [hcell] at hlined
  refine ⟨lined_tail hlined, strays_tail h.strays hcell, ?_, ?_⟩
  · rw [hkept.answered]
    exact h.answered
  · intro hout halive
    rw [hkept.outside] at hout
    rw [hkept.phase] at halive
    have hsynced := h.synced hout halive
    refine ⟨hframer, ?_, ?_⟩
    · intro hphase
      rw [hkept.phase] at hphase
      obtain ⟨howed, hquiet⟩ := hsynced.closed hphase
      exact ⟨howed, fun other hother =>
        hquiet other (by rw [hcell]; exact List.mem_cons_of_mem _ hother)⟩
    · intro hphase other hother
      rw [hkept.phase] at hphase
      have hactive := hkept.active
      rw [Option.mem_def.mp hother] at hactive
      obtain ⟨pending, hpending, hsame⟩ := Option.map_eq_some_iff.mp hactive.symm
      obtain ⟨hid, hcommand⟩ := Prod.mk.inj hsame
      exact ((hsynced.reading hphase pending hpending).congr hid.symm hcommand.symm).tail hcell

/-- A byte of the wire, in quarantine. -/
theorem absorb_quarantined_good (h : Good known e m) (now : Nat) (hin : e.isQuarantined = true)
    (hcell : m.wire = cell :: rest)
    (hsettled : e.resyncs cell.byte = true → m.owed = [] ∧ Quiet rest) :
    Good known (absorb now e cell.byte) { m with wire := rest, begun := cell.grow m.begun } := by
  have hlined := h.lined
  rw [hcell] at hlined
  have hshut : ∀ e', Shut e e' →
      Good known e' { m with wire := rest, begun := cell.grow m.begun } :=
    fun e' hshut => h.shut hshut (lined_tail hlined) (strays_tail h.strays hcell) fun _ => id
  rcases absorb_cases e now cell.byte with habsorbed | habsorbed
  · exact hshut _ habsorbed
  rw [habsorbed]
  rcases pushed_quarantined now cell.byte (e := e.hear now cell.byte) hin with
    hpushed | ⟨hback, hphase, hframer, hanswered⟩
  · exact hshut _ ((hear_kept e now cell.byte).shut hpushed)
  · have hback : e.resyncs cell.byte = true := hback
    obtain ⟨howed, hquiet⟩ := hsettled hback
    have hend : isEnd cell.byte = true := by
      simp only [resyncs, Bool.and_eq_true] at hback
      exact hback.2
    have hgrown : cell.grow m.begun = [] := by
      cases cell with
      | text byte =>
          rw [show (Cell.text byte).byte = byte from rfl, printable_not_end hlined.1] at hend
          cases hend
      | stop byte line => rfl
      | blank byte => rfl
    refine ⟨lined_tail hlined, strays_tail h.strays hcell, ?_, ?_⟩
    · rw [hanswered]
      exact h.answered
    · intro _ _
      refine ⟨by rw [hframer, hgrown], fun _ => ⟨howed, hquiet⟩, ?_⟩
      rw [hphase]
      exact fun hreading => by cases hreading

/-- A byte of the wire, outside of quarantine. -/
theorem absorb_outside_good (h : Good known e m) (hfamiliar : Familiar known e) (now : Nat)
    (hout : e.isQuarantined = false) (halive : e.phase ≠ .failed) (hcell : m.wire = cell :: rest) :
    Good known (absorb now e cell.byte) { m with wire := rest, begun := cell.grow m.begun } := by
  have hlined := h.lined
  rw [hcell] at hlined
  have hsynced := h.synced hout halive
  have hheard := hear_kept e now cell.byte
  have hshut : ∀ e', Shut e e' →
      Good known e' { m with wire := rest, begun := cell.grow m.begun } :=
    fun e' hshut => h.shut hshut (lined_tail hlined) (strays_tail h.strays hcell) fun _ => id
  rcases absorb_cases e now cell.byte with habsorbed | habsorbed
  · exact hshut _ habsorbed
  rw [habsorbed]
  cases cell with
  | text byte =>
      rcases pushed_text now (e := e.hear now byte) hsynced.framer hlined.1 with
        hpushed | ⟨hkept, hframer⟩
      · exact hshut _ (hheard.shut hpushed)
      · exact h.kept (hheard.trans hkept) hcell hframer
  | blank byte =>
      have hempty : e.framer = ⟨[], false⟩ := by rw [hsynced.framer, hlined.2.1]
      obtain ⟨hkept, hframer⟩ := pushed_blank now (e := e.hear now byte) hempty hlined.1
      exact h.kept (hheard.trans hkept) hcell hframer
  | stop byte line =>
      obtain ⟨hend, htext, hsome, -⟩ := hlined
      have hline : e.framer = ⟨line.text, false⟩ := by rw [hsynced.framer, htext]
      rcases pushed_stop now (e := e.hear now byte) hout hline (htext ▸ hsome) hend with
        hpushed | ⟨hframer, hkept | ⟨pending, hphase, hactive, hends, hidle, hanswered⟩⟩
      · exact hshut _ (hheard.shut hpushed)
      · exact h.kept (hheard.trans hkept) hcell hframer
      · -- the answer to the active command
        have hphase : e.phase = .reading := hphase
        obtain ⟨asked, hasked, hheard'⟩ := Option.map_eq_some_iff.mp hactive
        have hid : pending.id = asked.id := by rw [← hheard']
        have hcommand : pending.command = asked.command := by rw [← hheard']
        obtain ⟨howed, hquiet, hfinal⟩ := (hsynced.reading hphase asked hasked).answer h.strays
          (hfamiliar.2 asked hasked) hcell (hcommand ▸ hends)
        refine ⟨lined_tail (hcell ▸ h.lined), strays_tail h.strays hcell, ?_, ?_⟩
        · intro answer hanswer
          rw [show (Cell.stop byte line).byte = byte from rfl, hanswered] at hanswer
          rcases List.mem_append.mp hanswer with hold | hnew
          · exact h.answered answer hold
          · rw [List.mem_singleton.mp hnew, hid]
            exact hfinal
        · intro _ _
          refine ⟨hframer, fun _ => ⟨howed, hquiet⟩, ?_⟩
          rw [show (Cell.stop byte line).byte = byte from rfl, hidle]
          exact fun hreading => by cases hreading

end Cell

/-! ### Calls -/

section Familiar

variable {known : List Command}

/-- Every command in the engine is a known one. -/
theorem Move.familiar {strict : Bool} {e e' : Engine} (hmove : Move strict e e')
    (h : Familiar known e) : Familiar known e' := by
  cases hmove with
  | entered now error _ _ _ => exact ⟨by simpa using h.1, by simp⟩
  | oversized now _ _ _ => exact ⟨by simpa [note] using h.1, by simp⟩
  | expired now => exact ⟨fun pending hpending => h.1 pending (List.mem_of_mem_filter hpending), h.2⟩
  | aborted error _ haborted => exact ⟨by simp [haborted.queue], by simp [haborted.active]⟩
  | exhausted pending queue _ _ haborted =>
      exact ⟨by simp [haborted.queue], by simp [haborted.active]⟩
  | heard now byte _ _ =>
      refine ⟨h.1, ?_⟩
      intro other hother
      obtain ⟨pending, hpending, rfl⟩ := Option.map_eq_some_iff.mp hother
      exact h.2 pending hpending
  | completed pending line _ _ => exact ⟨h.1, by simp [emit]⟩
  | intermediate pending line _ hactive =>
      refine ⟨h.1, ?_⟩
      intro other hother
      cases hother
      exact h.2 pending hactive
  | _ => exact h

theorem Offer.familiar {now : Nat} {e e' : Engine} (hoffer : Offer now e e')
    (h : Familiar known e) : Familiar known e' := by
  cases hoffer with
  | probing _ _ _ _ => exact h
  | starting pending queue _ _ hqueue =>
      refine ⟨?_, ?_⟩
      · intro other hother
        exact h.1 other (by rw [hqueue]; exact List.mem_cons_of_mem _ hother)
      · intro other hother
        cases hother
        exact h.1 pending (by rw [hqueue]; exact List.mem_cons_self)

theorem after_familiar {e : Engine} (h : Familiar known e) (call : Call)
    (hcall : ∀ command, call = .enqueue command → command ∈ known) :
    Familiar known (e.after call) := by
  rcases after_moves false e call (by simp) with
    ⟨⟨e', hmoves, hend⟩, -⟩ | ⟨command, hcommand, -, -, heq⟩
  · have he' : Familiar known e' :=
      invariant_of_steps (fun _ _ hmove => hmove.familiar) hmoves h
    rcases hend with heq | ⟨now, -, hoffer⟩
    · rw [heq]
      exact he'
    · exact hoffer.familiar he'
  · rw [heq]
    refine ⟨?_, h.2⟩
    intro pending hpending
    rcases List.mem_append.mp hpending with hold | hnew
    · exact h.1 pending hold
    · rw [List.mem_singleton.mp hnew]
      exact hcall command hcommand

end Familiar

/-- The engine is where it was, with the same framer. -/
def Still (e e' : Engine) : Prop := Kept e e' ∧ e'.framer = e.framer

theorem timed_cases (e : Engine) (now : Nat) : Shut e (e.timed now) ∨ Still e (e.timed now) := by
  unfold timed
  split
  · exact .inl (enter_shut now _ rfl)
  · exact .inr ⟨⟨rfl, rfl, rfl⟩, rfl⟩

theorem expireQueue_still (e : Engine) (now : Nat) : Still e (e.expireQueue now) := by
  refine ⟨⟨rfl, rfl, ?_⟩, rfl⟩
  show answered (e.emitted ++ _) = _
  rw [answered_append, answered_failed, List.append_nil]

theorem Shut.still {e e' e'' : Engine} (h : Shut e e') (h' : Still e' e'') : Shut e e'' :=
  ⟨by rw [h'.1.outside, h'.1.phase]; exact h.phase, h'.1.answered.trans h.answered⟩

theorem Still.trans {e e' e'' : Engine} (h : Still e e') (h' : Still e' e'') : Still e e'' :=
  ⟨h.1.trans h'.1, h'.2.trans h.2⟩

theorem clock_cases (now : Nat) (e : Engine) :
    Ends (clock now) e (fun _ e' => e' = { e with lastNow := now } ∧ Still e e')
      fun _ e' => Shut e e' := by
  refine (clock_spec now e).mono ?_ ?_
  · rintro _ _ ⟨-, -, rfl⟩
    exact ⟨rfl, ⟨rfl, rfl, rfl⟩, rfl⟩
  · rintro _ _ (⟨hfailed, -, rfl⟩ | ⟨-, rfl⟩)
    · exact ⟨.inr hfailed, rfl⟩
    · exact abort_shut _ rfl

theorem expire_cases (now : Nat) (e : Engine) :
    Ends (expire now) e
      (fun _ e' => (e.overdue now = true → Shut e e') ∧ (Shut e e' ∨ Still e e' ∧
        e'.transmit = e.transmit ∧ e'.accepted = e.accepted ∧ e'.token = e.token ∧
        e'.active = e.active))
      fun _ e' => Shut e e' := by
  refine (expire_spec now e).mono ?_ ?_
  · rintro _ _ rfl
    refine ⟨?_, ?_⟩
    · intro hoverdue
      rw [timed, if_pos hoverdue]
      exact (enter_shut now .timeout rfl).still (expireQueue_still _ now)
    · unfold timed
      split
      · exact .inl ((enter_shut now .timeout rfl).still (expireQueue_still _ now))
      · exact .inr ⟨expireQueue_still e now, rfl, rfl, rfl, rfl⟩
  · rintro _ _ ⟨-, rfl, -⟩
    rcases timed_cases e now with hshut | hstill
    · exact abort_shut _ hshut.answered
    · exact abort_shut _ hstill.1.answered

theorem settle_cases (now : Nat) (e : Engine) :
    Ends (settle now) e (fun _ e' => Shut e e' ∨ Still e e') fun _ e' => Shut e e' := by
  unfold settle
  rw [ends_bind]
  refine (clock_cases now e).mono ?_ fun _ _ h => h
  rintro _ e₀ ⟨-, hstill⟩
  refine (expire_cases now e₀).mono ?_ ?_
  · rintro _ e' ⟨-, hshut | ⟨hsame, -⟩⟩
    · exact .inl (hstill.1.shut hshut)
    · exact .inr (hstill.trans hsame)
  · rintro _ e' hshut
    exact hstill.1.shut hshut

/-- `tick` leads into quarantine, changes nothing, or starts a command. -/
theorem tick_cases (now : Nat) (e : Engine) :
    Ends (tick now) e
      (fun _ e' => Shut e e' ∨ Still e e' ∨ e.phase = .idle ∧ e'.phase = .writing ∧
        e'.framer = e.framer ∧ answered e'.emitted = answered e.emitted)
      fun _ e' => Shut e e' := by
  unfold tick
  rw [← bind_assoc, ends_bind]
  refine (settle_cases now e).mono ?_ fun _ _ h => h
  rintro _ e' hsettled
  -- Settling answers nobody, whichever way it ends.
  have hanswered : answered e'.emitted = answered e.emitted := by
    rcases hsettled with hshut | hstill
    · exact hshut.answered
    · exact hstill.1.answered
  rw [ends_bind, ends_get, ends_ite]
  split
  -- In quarantine the time has come for another probe, or attempts have run out.
  · rw [ends_ite]
    split
    · exact ends_fail.mpr (abort_shut _ hanswered)
    cases hdeadline : checkedAdd now resyncTimeoutMs with
    | none => exact ends_fail.mpr (abort_shut _ hanswered)
    | some deadline =>
        dsimp only
        rw [ends_bind, ends_set, ends_bind]
        refine (write_spec _ _).mono ?_ ?_
        · rintro _ _ rfl
          exact ends_modify.mpr (.inl ⟨.inl rfl, hanswered⟩)
        · rintro _ _ rfl
          exact abort_shut _ hanswered
  rw [ends_ite]
  split
  -- Idle, and so not in quarantine: the next command is written if there is one.
  · rename_i hidle
    split
    · refine (ends_pure ..).mpr ?_
      rcases hsettled with hshut | hstill
      · exact .inl hshut
      · exact .inr (.inl hstill)
    · rename_i pending queue hqueue
      rw [ends_bind, ends_set, ends_bind]
      refine (write_spec _ _).mono ?_ ?_
      · rintro _ _ rfl
        refine ends_modify.mpr (.inr (.inr ?_))
        rcases hsettled with hshut | hstill
        · rcases hshut.phase with hin | hfailed
          · simp [isQuarantined, hidle.1] at hin
          · rw [hidle.1] at hfailed
            cases hfailed
        · exact ⟨hstill.1.phase ▸ hidle.1, rfl, hstill.2, hanswered⟩
      · rintro _ _ rfl
        exact abort_shut _ hanswered
  · refine (ends_pure ..).mpr ?_
    rcases hsettled with hshut | hstill
    · exact .inl hshut
    · exact .inr (.inl hstill)

/-- What the link accepted leads into quarantine, is a part of the command, or the rest
of it. -/
def Accepted (e : Engine) (count : Nat) (e' : Engine) : Prop :=
  Shut e e' ∨ Still e e' ∧ e.accepted + count < e.transmit.length ∨
    e.phase = .writing ∧ e.accepted + count = e.transmit.length ∧ e'.phase = .reading ∧
      e'.active = e.active ∧ e'.framer = e.framer ∧ answered e'.emitted = answered e.emitted

/-- Bytes are accepted, or the engine shuts. -/
theorem acceptWritten_cases (now token : Nat) {e : Engine} {count : Nat}
    (hroom : e.accepted + count ≤ e.transmit.length) :
    Ends (acceptWritten now token count) e (fun _ e' => Accepted e count e')
      fun _ e' => Shut e e' := by
  unfold acceptWritten
  rw [ends_bind]
  refine (clock_cases now e).mono ?_ fun _ _ h => h
  rintro _ e₀ ⟨heq, hstill₀⟩
  subst heq
  rw [ends_bind, ends_get]
  dsimp only
  rw [ends_bind]
  refine (expire_cases now _).mono ?_ fun _ _ h => hstill₀.1.shut h
  rintro _ e' ⟨hlate, hexpired⟩
  have hanswered : answered e'.emitted = answered e.emitted := by
    rcases hexpired with hshut | ⟨hstill, -⟩
    · exact hshut.answered
    · exact hstill.1.answered
  rw [ends_ite]
  split
  · rename_i hlate'
    exact (ends_throw _).mpr (hstill₀.1.shut (hlate hlate'.2))
  rw [ends_bind, ends_get, ends_ite]
  split
  · exact ends_fail.mpr (abort_shut _ hanswered)
  rw [ends_ite]
  split
  · exact ends_fail.mpr (abort_shut _ hanswered)
  rcases hexpired with hshut | ⟨hstill, htransmit, haccepted, -, hactive⟩
  · -- quarantine was entered, and what is written now is at most a probe
    rw [ends_ite]
    split
    · split
      · rename_i hphase
        rcases hshut.phase with hin | hfailed
        · simp [isQuarantined, hphase] at hin
        · rw [hphase] at hfailed
          cases hfailed
      · exact ends_set.mpr (.inl ⟨.inl rfl, hanswered⟩)
      · rw [ends_bind, ends_set]
        exact ends_fail.mpr (abort_shut _ hanswered)
    · exact ends_set.mpr (.inl ⟨hshut.phase, hanswered⟩)
  · have hkept : Still e e' := hstill₀.trans hstill
    rw [ends_ite]
    split
    · rename_i hwhole
      rw [htransmit, haccepted] at hwhole
      split
      · rename_i hphase
        exact ends_set.mpr (.inr (.inr
          ⟨hkept.1.phase ▸ hphase, hwhole, rfl, hactive, hkept.2, hanswered⟩))
      · exact ends_set.mpr (.inl ⟨.inl rfl, hanswered⟩)
      · rw [ends_bind, ends_set]
        exact ends_fail.mpr (abort_shut _ hanswered)
    · rename_i hpart
      rw [htransmit, haccepted] at hpart
      exact ends_set.mpr (.inr (.inl
        ⟨⟨⟨hkept.1.phase, hkept.1.active, hanswered⟩, hkept.2⟩, Nat.lt_of_le_of_ne hroom hpart⟩))

/-! ### The modem receives -/

section Receive

variable (m : Modem) (asker : Asker) (extraFinals : List (List UInt8)) (bytes : List UInt8)

theorem receive_frame : (m.receive asker extraFinals bytes).wire = m.wire ∧
    (m.receive asker extraFinals bytes).begun = m.begun ∧
    (m.receive asker extraFinals bytes).finals = m.finals := by
  unfold Modem.receive
  induction bytes generalizing m with
  | nil => exact ⟨rfl, rfl, rfl⟩
  | cons byte bytes ih =>
      obtain ⟨hwire, hbegun, hfinals⟩ := ih (Modem.take asker extraFinals m byte)
      have hone : (Modem.take asker extraFinals m byte).wire = m.wire ∧
          (Modem.take asker extraFinals m byte).begun = m.begun ∧
          (Modem.take asker extraFinals m byte).finals = m.finals := by
        unfold Modem.take
        split
        · exact ⟨rfl, rfl, rfl⟩
        · exact ⟨rfl, rfl, rfl⟩
      exact ⟨hwire.trans hone.1, hbegun.trans hone.2.1, hfinals.trans hone.2.2⟩

/-- A part of a question. -/
theorem receive_part (h : 0x0d ∉ bytes) : (m.receive asker extraFinals bytes).owed = m.owed := by
  unfold Modem.receive
  induction bytes generalizing m with
  | nil => rfl
  | cons byte bytes ih =>
      obtain ⟨hbyte, hbytes⟩ : (0x0d : UInt8) ≠ byte ∧ (0x0d : UInt8) ∉ bytes := by simpa using h
      rw [List.foldl_cons, ih _ hbytes]
      unfold Modem.take
      rw [if_neg (Ne.symm hbyte)]

/-- The rest of a question. -/
theorem receive_whole (h : 0x0d ∉ bytes) :
    ∃ text, (m.receive asker extraFinals (bytes ++ [0x0d])).owed =
      m.owed ++ [⟨asker, text, extraFinals⟩] := by
  have hpart := receive_part m asker extraFinals bytes h
  unfold Modem.receive at hpart ⊢
  rw [List.foldl_append]
  generalize List.foldl (Modem.take asker extraFinals) m bytes = m' at hpart
  refine ⟨m'.received, ?_⟩
  show (Modem.take asker extraFinals m' 0x0d).owed = _
  unfold Modem.take
  rw [if_pos rfl, ← hpart]

end Receive

/-- A command has no carriage return in it. -/
theorem Command.text_plain (command : Command) : (0x0d : UInt8) ∉ command.text := by
  intro hmem
  have hvalid := command.text_valid
  unfold validText at hvalid
  simp only [Bool.and_eq_true, List.all_eq_true] at hvalid
  exact absurd (hvalid.2 _ hmem) (by decide)

/-! ### Each command is asked once -/

/-- The command that asked, if it was one. -/
def Question.command? (question : Question) : Option Nat :=
  match question.asker with
  | .command id => some id
  | .probe => none

/-- The commands the modem has received, those it has answered last. -/
def Modem.asked (m : Modem) : List Nat :=
  m.owed.filterMap Question.command? ++ m.finals.map Prod.fst

/-- **A command is received at most once.** -/
structure Once (asked : List Nat) (e : Engine) : Prop where
  nodup : asked.Nodup
  started : ∀ id ∈ asked, id ∈ startedIds e.history
  active : ∀ pending ∈ e.active, pending.id ∈ startedIds e.history
  writing : e.phase = .writing → ∀ pending ∈ e.active, pending.id ∉ asked

theorem Move.startedIds {strict : Bool} {e e' : Engine} (h : Move strict e e') :
    startedIds e'.history = At.startedIds e.history := by
  cases h with
  | aborted error _ haborted => rw [haborted.history]
  | exhausted pending queue _ _ haborted => rw [haborted.history]
  | _ => simp [At.startedIds, note, clearWrite, hear, emit, Engine.urc, expireQueue]

/-- A move leaves the active command where it is, or ends it. -/
theorem Move.active {strict : Bool} {e e' : Engine} (h : Move strict e e') :
    (∀ pending' ∈ e'.active, ∃ pending ∈ e.active, pending'.id = pending.id) ∧
      (e'.phase = .writing → e.phase = .writing) := by
  have hsame : (∀ pending' ∈ e.active, ∃ pending ∈ e.active, pending'.id = pending.id) :=
    fun pending hpending => ⟨pending, hpending, rfl⟩
  cases h with
  | entered now error _ _ _ => exact ⟨by simp, by simp⟩
  | oversized now _ _ _ => exact ⟨by simp, by simp⟩
  | aborted error _ haborted => exact ⟨by simp [haborted.active], by simp [haborted.phase]⟩
  | exhausted pending queue _ _ haborted =>
      exact ⟨by simp [haborted.active], by simp [haborted.phase]⟩
  | whole hphase => exact ⟨hsame, fun _ => hphase⟩
  | probeWhole hphase => exact ⟨hsame, fun hwriting => by cases hwriting⟩
  | heard now byte _ _ =>
      refine ⟨?_, id⟩
      intro other hother
      obtain ⟨pending, hpending, rfl⟩ := Option.map_eq_some_iff.mp hother
      exact ⟨pending, hpending, rfl⟩
  | silenced now line _ _ _ _ => exact ⟨hsame, fun hwriting => by cases hwriting⟩
  | resynchronized _ _ => exact ⟨hsame, fun hwriting => by cases hwriting⟩
  | completed pending line _ _ => exact ⟨by simp [emit], fun hwriting => by cases hwriting⟩
  | intermediate pending line hphase hactive =>
      refine ⟨?_, id⟩
      intro other hother
      cases hother
      exact ⟨pending, hactive, rfl⟩
  | _ => exact ⟨hsame, id⟩

section Once

variable {asked : List Nat} {e e' : Engine}

theorem Once.of_started (h : Once asked e) (hstarted : startedIds e'.history = startedIds e.history)
    (hactive : ∀ pending' ∈ e'.active, ∃ pending ∈ e.active, pending'.id = pending.id)
    (hwriting : e'.phase = .writing → e.phase = .writing) : Once asked e' := by
  refine ⟨h.nodup, by rw [hstarted]; exact h.started, ?_, ?_⟩
  · intro other hother
    obtain ⟨pending, hpending, hid⟩ := hactive other hother
    rw [hstarted, hid]
    exact h.active pending hpending
  · intro hphase other hother
    obtain ⟨pending, hpending, hid⟩ := hactive other hother
    rw [hid]
    exact h.writing (hwriting hphase) pending hpending

/-- An offer asks a command for the first time. -/
theorem Once.offer {now : Nat} (h : Once asked e) (hb : Balanced e) (hoffer : Offer now e e') :
    Once asked e' := by
  cases hoffer with
  | probing _ _ _ _ =>
      refine h.of_started (by simp [probing, note, startedIds])
        (fun pending hpending => ⟨pending, hpending, rfl⟩) (fun hwriting => by cases hwriting)
  | starting pending queue _ _ hqueue =>
      have hgrown : startedIds (e.starting pending queue).history =
          startedIds e.history ++ [pending.id] := by
        simp [starting, note, startedIds]
      have hfresh : pending.id ∉ startedIds e.history := by
        intro hold
        have horder := hb.order
        rw [hqueue] at horder
        have hless := (List.pairwise_append.mp horder).2.2 _ hold pending.id (by simp [ids])
        exact Nat.lt_irrefl _ hless
      refine ⟨h.nodup, ?_, ?_, ?_⟩
      · intro id hid
        rw [hgrown]
        exact List.mem_append_left _ (h.started id hid)
      · intro other hother
        cases hother
        rw [hgrown]
        simp
      · intro _ other hother
        cases hother
        exact fun hasked => hfresh (h.started _ hasked)

theorem Once.after (h : Once asked e) (hb : Balanced e) (call : Call) :
    Once asked (e.after call) := by
  have hmoved : ∀ e', Moves false e e' → Balanced e' ∧ Once asked e' := by
    intro e' hmoves
    refine invariant_of_steps (I := fun e => Balanced e ∧ Once asked e) ?_ hmoves ⟨hb, h⟩
    rintro e e' hmove ⟨hb, h⟩
    exact ⟨hmove.balanced hb, h.of_started hmove.startedIds hmove.active.1 hmove.active.2⟩
  rcases after_moves false e call (by simp) with
    ⟨⟨e', hmoves, hend⟩, -⟩ | ⟨command, -, -, -, heq⟩
  · obtain ⟨hb', h'⟩ := hmoved e' hmoves
    rcases hend with heq | ⟨now, -, hoffer⟩
    · rw [heq]
      exact h'
    · exact h'.offer hb' hoffer
  · rw [heq]
    exact h.of_started rfl (fun pending hpending => ⟨pending, hpending, rfl⟩) id

end Once

/-! ### The system -/

/-- **What every act keeps.** -/
structure Sound (known : List Command) (s : System) : Prop where
  balanced : Balanced s.engine
  familiar : Familiar known s.engine
  good : Good known s.engine s.modem
  once : Once s.modem.asked s.engine

section Acts

variable {known : List Command} {e e' : Engine} {m m' : Modem}

theorem Awaiting.of_same {pending : Pending} (h : Awaiting pending m) (howed : m'.owed = m.owed)
    (hwire : m'.wire = m.wire) (hfinals : m'.finals = m.finals) : Awaiting pending m' := by
  cases h with
  | owed question hone hasker hextra hharmless =>
      exact .owed question (howed ▸ hone) hasker hextra (hwire ▸ hharmless)
  | sent before byte line after hnone hsplit hbefore hafter hfinal =>
      exact .sent before byte line after (howed ▸ hnone) (hwire ▸ hsplit) hbefore hafter
        (hfinals ▸ hfinal)
  | missed hnone hquiet => exact .missed (howed ▸ hnone) (hwire ▸ hquiet)

/-- The engine keeps its place, and so does the modem. -/
theorem Good.still (h : Good known e m) (hstill : Still e e') (howed : m'.owed = m.owed)
    (hwire : m'.wire = m.wire) (hbegun : m'.begun = m.begun) (hfinals : m'.finals = m.finals) :
    Good known e' m' := by
  obtain ⟨hkept, hframer⟩ := hstill
  refine ⟨by rw [hbegun, hwire]; exact h.lined, by rw [hwire]; exact h.strays, ?_, ?_⟩
  · rw [hkept.answered, hfinals]
    exact h.answered
  · intro hout halive
    rw [hkept.outside] at hout
    rw [hkept.phase] at halive
    have hsynced := h.synced hout halive
    refine ⟨by rw [hframer, hbegun]; exact hsynced.framer, ?_, ?_⟩
    · rw [hkept.phase, howed, hwire]
      exact hsynced.closed
    · intro hphase other hother
      rw [hkept.phase] at hphase
      have hactive := hkept.active
      rw [Option.mem_def.mp hother] at hactive
      obtain ⟨pending, hpending, hsame⟩ := Option.map_eq_some_iff.mp hactive.symm
      obtain ⟨hid, hcommand⟩ := Prod.mk.inj hsame
      exact ((hsynced.reading hphase pending hpending).congr hid.symm hcommand.symm).of_same howed
        hwire hfinals

/-- Unsolicited cells are put on the wire. -/
theorem Good.append (h : Good known e m) (hfamiliar : Familiar known e) {more : List Cell}
    (hlined : Lined [] more) (hstrays : Strays known more) (hquiet : Quiet more) :
    Good known e { m with wire := m.wire ++ more } := by
  have hall : Strays known (m.wire ++ more) := by
    intro byte line hline
    rcases List.mem_append.mp hline with hold | hnew
    · exact h.strays byte line hold
    · exact hstrays byte line hnew
  refine ⟨lined_append h.lined hlined, hall, h.answered, ?_⟩
  intro hout halive
  have hsynced := h.synced hout halive
  refine ⟨hsynced.framer, ?_, ?_⟩
  · intro hphase
    obtain ⟨howed, hold⟩ := hsynced.closed hphase
    refine ⟨howed, ?_⟩
    intro cell hcell
    rcases List.mem_append.mp hcell with hcell | hcell
    · exact hold cell hcell
    · exact hquiet cell hcell
  · intro hphase pending hpending
    cases hsynced.reading hphase pending hpending with
    | owed question howed hasker hfinals hwire =>
        refine .owed question howed hasker hfinals ?_
        intro cell hcell
        rcases List.mem_append.mp hcell with hcell | hcell
        · exact hwire cell hcell
        · exact hquiet.harmless hstrays (hfamiliar.2 pending hpending) cell hcell
    | sent before byte line after howed hwire hbefore hafter hfinal =>
        refine .sent before byte line (after ++ more) howed (by simp [hwire]) hbefore ?_ hfinal
        intro cell hcell
        rcases List.mem_append.mp hcell with hcell | hcell
        · exact hafter cell hcell
        · exact hquiet cell hcell
    | missed howed hwire =>
        refine .missed howed ?_
        intro cell hcell
        rcases List.mem_append.mp hcell with hcell | hcell
        · exact hwire cell hcell
        · exact hquiet cell hcell

/-- The cells of a line. -/
def Sent.cells (line : Sent) (ending : UInt8) : List Cell :=
  line.text.map .text ++ [.stop ending line]

theorem send_eq (line : Sent) (ending : UInt8) :
    m.send line ending = { m with wire := m.wire ++ line.cells ending } := by
  unfold Modem.send Sent.cells
  rw [List.append_assoc]

theorem lined_cells {line : Sent} {ending : UInt8} (h : isLine ending line.text = true) :
    Lined [] (line.cells ending) := by
  unfold isLine at h
  simp only [Bool.and_eq_true, decide_eq_true_eq] at h
  exact lined_line h.1.1 h.2 h.1.2

theorem mem_cells {line : Sent} {ending : UInt8} {cell : Cell} (h : cell ∈ line.cells ending) :
    (∃ byte, cell = .text byte) ∨ cell = .stop ending line := by
  rcases List.mem_append.mp h with htext | hstop
  · obtain ⟨byte, -, rfl⟩ := List.mem_map.mp htext
    exact .inl ⟨byte, rfl⟩
  · exact .inr (List.mem_singleton.mp hstop)

theorem harmless_text (command : Command) (byte : UInt8) : Harmless command (.text byte) := by
  intro _ _ heq
  cases heq

theorem strays_append {wire more : List Cell} (h : Strays known wire)
    (hmore : ∀ byte line, .stop byte line ∈ more → line.asker ≠ none) :
    Strays known (wire ++ more) := by
  intro byte line hline hasker
  rcases List.mem_append.mp hline with hold | hnew
  · exact h byte line hold hasker
  · exact absurd hasker (hmore byte line hnew)

/-- Another line of the answer. -/
theorem intermediate_good (h : Good known e m) {question : Question} {owed : List Question}
    {ending : UInt8} {text : List UInt8} (howed : m.owed = question :: owed)
    (hline : isLine ending text = true) (hends : question.ends text = false) :
    Good known e (m.send ⟨some question.asker, text⟩ ending) := by
  rw [send_eq]
  refine ⟨lined_append h.lined (lined_cells hline), strays_append h.strays ?_, h.answered, ?_⟩
  · intro byte line hmem
    rcases mem_cells hmem with ⟨_, heq⟩ | heq
    · cases heq
    · cases heq
      exact Option.some_ne_none _
  · intro hout halive
    have hsynced := h.synced hout halive
    refine ⟨hsynced.framer, ?_, ?_⟩
    · intro hphase
      rw [(hsynced.closed hphase).1] at howed
      cases howed
    · intro hphase pending hpending
      cases hsynced.reading hphase pending hpending with
      | owed question' howed' hasker hfinals hwire =>
          rw [howed'] at howed
          obtain ⟨rfl, -⟩ := List.cons.inj howed
          refine .owed question' howed' hasker hfinals ?_
          intro cell hcell
          rcases List.mem_append.mp hcell with hcell | hcell
          · exact hwire cell hcell
          · rcases mem_cells hcell with ⟨byte, rfl⟩ | rfl
            · exact harmless_text _ byte
            · intro _ _ heq
              cases heq
              unfold Command.ends
              rw [← hfinals]
              exact hends
      | sent before byte line after hnone hwire hbefore hafter hfinal =>
          rw [hnone] at howed
          cases howed
      | missed hnone hwire =>
          rw [hnone] at howed
          cases howed

/-- A final result on the wire belongs to the question it answers. -/
theorem final_good (h : Good known e m) {question : Question} {owed : List Question}
    {ending : UInt8} {text : List UInt8} {finals : List (Nat × List UInt8)}
    (howed : m.owed = question :: owed) (hline : isLine ending text = true)
    (hkept : ∀ answer ∈ m.finals, answer ∈ finals)
    (hnew : ∀ id, question.asker = .command id → (id, text) ∈ finals) :
    Good known e
      { m with
        owed
        wire := m.wire ++ (⟨some question.asker, text⟩ : Sent).cells ending
        finals } := by
  refine ⟨lined_append h.lined (lined_cells hline), strays_append h.strays ?_, ?_, ?_⟩
  · intro byte line hmem
    rcases mem_cells hmem with ⟨_, heq⟩ | heq
    · cases heq
    · cases heq
      exact Option.some_ne_none _
  · exact fun answer hanswer => hkept answer (h.answered answer hanswer)
  · intro hout halive
    -- Outside quarantine the wire carries what is still to be read.
    have hsynced := h.synced hout halive
    refine ⟨hsynced.framer, ?_, ?_⟩
    · intro hphase
      rw [(hsynced.closed hphase).1] at howed
      cases howed
    · intro hphase pending hpending
      cases hsynced.reading hphase pending hpending with
      -- The active command's answer is the one that goes out now.
      | owed question' howed' hasker hfinals hwire =>
          rw [howed'] at howed
          obtain ⟨rfl, rfl⟩ := List.cons.inj howed
          refine .sent (m.wire ++ text.map .text) ending ⟨some question'.asker, text⟩ [] rfl
            (by simp [Sent.cells]) ?_ (by simp [Quiet]) (hnew pending.id hasker)
          intro cell hcell
          rcases List.mem_append.mp hcell with hcell | hcell
          · exact hwire cell hcell
          · obtain ⟨byte, -, rfl⟩ := List.mem_map.mp hcell
            exact harmless_text _ byte
      -- Once it has been sent nothing is owed.
      | sent before byte line after hnone hwire hbefore hafter hfinal =>
          rw [hnone] at howed
          cases howed
      | missed hnone hwire =>
          rw [hnone] at howed
          cases howed

theorem unsolicited_good (h : Good known e m) (hfamiliar : Familiar known e) {ending : UInt8}
    {text : List UInt8} (hline : isLine ending text = true) (hstray : isStray known text = true) :
    Good known e (m.send ⟨none, text⟩ ending) := by
  rw [send_eq]
  refine h.append hfamiliar (lined_cells hline) ?_ ?_
  · intro byte line hmem _
    rcases mem_cells hmem with ⟨_, heq⟩ | heq
    · cases heq
    · cases heq
      exact hstray
  · intro cell hcell
    rcases mem_cells hcell with ⟨byte, rfl⟩ | rfl
    · rfl
    · rfl

/-- The cells are delivered one after the other. -/
theorem deliver_good (now : Nat) (piece rest : List Cell) (h : Good known e m)
    (hfamiliar : Familiar known e) (halive : Alive now e) (hwire : m.wire = piece ++ rest)
    (hsettled : SettledPiece m.owed rest now e piece) :
    Good known ((piece.map Cell.byte).foldl (absorb now) e)
      { m with wire := rest, begun := piece.foldl Cell.grow m.begun } := by
  induction piece generalizing e m with
  | nil =>
      rw [List.nil_append] at hwire
      rw [← hwire]
      exact h
  | cons cell piece ih =>
      obtain ⟨hmoves, halive'⟩ := absorb_moves false cell.byte halive (by simp)
      have hfamiliar' : Familiar known (absorb now e cell.byte) :=
        invariant_of_steps (fun _ _ hmove => hmove.familiar) hmoves hfamiliar
      have hgood : Good known (absorb now e cell.byte)
          { m with wire := piece ++ rest, begun := cell.grow m.begun } := by
        cases hin : e.isQuarantined with
        | true => exact absorb_quarantined_good h now hin hwire hsettled.1
        | false => exact absorb_outside_good h hfamiliar now hin halive.1 hwire
      exact ih hgood hfamiliar' halive' rfl hsettled.2

end Acts

section System

variable {known : List Command} {s : System}

theorem lined_delivered {begun : List UInt8} {wire : List Cell} (count : Nat)
    (h : Lined begun wire) : Lined ((wire.take count).foldl Cell.grow begun) (wire.drop count) := by
  induction count generalizing begun wire with
  | zero => exact h
  | succ count ih =>
      cases wire with
      | nil => exact h
      | cons cell wire => exact ih (lined_tail h)

/-- Bytes of the wire are delivered. -/
theorem deliver_sound (h : Sound known s) (now count : Nat)
    (hsettled : Settled s (.deliver now count)) : Sound known (s.after (.deliver now count)) := by
  refine ⟨after_balanced h.balanced _, ?_, ?_, h.once.after h.balanced _⟩
  · exact after_familiar h.familiar _ (by simp)
  have hlined := lined_delivered count h.good.lined
  have hstrays : Strays known (s.modem.wire.drop count) := by
    intro byte line hline
    exact h.good.strays byte line (List.mem_of_mem_drop hline)
  have hshut : ∀ e', Shut s.engine e' → Good known e' (s.modem.delivered count) :=
    fun e' hshut => h.good.shut hshut hlined hstrays fun _ => id
  have hends : Ends (feed now ((s.modem.wire.take count).map Cell.byte)) s.engine
      (fun _ e' => Good known e' (s.modem.delivered count))
      fun _ e' => Good known e' (s.modem.delivered count) := by
    rw [feed_eq, ends_bind]
    refine ((settle_cases now s.engine).and (settle_moves false now s.engine)).traced.mono ?_ ?_
    · rintro _ e' ⟨heq, hcases, hmoves, halive⟩
      refine ends_modify.mpr ?_
      have hgood : Good known e' s.modem := by
        rcases hcases with hshut | hstill
        · exact h.good.shut hshut h.good.lined h.good.strays fun _ => id
        · exact h.good.still hstill rfl rfl rfl rfl
      have hfamiliar : Familiar known e' :=
        invariant_of_steps (fun _ _ hmove => hmove.familiar) hmoves h.familiar
      have hpiece : SettledPiece s.modem.owed (s.modem.wire.drop count) now e'
          (s.modem.wire.take count) := by
        simpa [Settled, IfOk, heq] using hsettled
      exact deliver_good now _ _ hgood hfamiliar halive (List.take_append_drop count _).symm hpiece
    · rintro _ e' ⟨-, hcases, -⟩
      exact hshut e' hcases
  exact ends_endState.mp hends

theorem tick_sound (h : Sound known s) (now : Nat) : Sound known (s.after (.tick now)) := by
  refine ⟨after_balanced h.balanced _, after_familiar h.familiar _ (by simp), ?_,
    h.once.after h.balanced _⟩
  have hends : Ends (tick now) s.engine (fun _ e' => Good known e' s.modem)
      fun _ e' => Good known e' s.modem := by
    refine (tick_cases now s.engine).mono ?_ ?_
    · rintro _ e' (hshut | hstill | ⟨hidle, hwriting, hframer, hanswered⟩)
      · exact h.good.shut hshut h.good.lined h.good.strays fun _ => id
      · exact h.good.still hstill rfl rfl rfl rfl
      · have hsynced := h.good.synced (by simp [isQuarantined, hidle]) (by simp [hidle])
        refine ⟨h.good.lined, h.good.strays, by rw [hanswered]; exact h.good.answered, ?_⟩
        intro _ _
        refine ⟨by rw [hframer]; exact hsynced.framer, ?_, ?_⟩
        · exact fun _ => hsynced.closed (by simp [hidle])
        · rw [hwriting]
          exact fun hreading => by cases hreading
    · rintro _ e' hshut
      exact h.good.shut hshut h.good.lined h.good.strays fun _ => id
  exact ends_endState.mp hends

theorem enqueue_sound (h : Sound known s) {command : Command} (hknown : command ∈ known) :
    Sound known (s.after (.enqueue command)) := by
  refine ⟨after_balanced h.balanced _, after_familiar h.familiar _ ?_, ?_,
    h.once.after h.balanced _⟩
  · intro other hother
    cases hother
    exact hknown
  · show Good known (s.engine.after (.enqueue command)) s.modem
    rcases after_enqueue s.engine command with ⟨-, hsame⟩ | ⟨-, -, heq⟩
    · rw [hsame]
      exact h.good
    · rw [heq]
      exact h.good.still ⟨⟨rfl, rfl, rfl⟩, rfl⟩ rfl rfl rfl rfl

/-- What the link takes of a command. -/
theorem taken_of_command (text : List UInt8) {accepted count : Nat}
    (htext : (0x0d : UInt8) ∉ text) (haccepted : accepted < (text ++ [0x0d]).length)
    (hroom : accepted + count ≤ (text ++ [0x0d]).length) :
    (accepted + count < (text ++ [0x0d]).length ∧
      (0x0d : UInt8) ∉ ((text ++ [0x0d]).drop accepted).take count) ∨
    accepted + count = (text ++ [0x0d]).length ∧
      ((text ++ [0x0d]).drop accepted).take count = text.drop accepted ++ [0x0d] := by
  have hlength : (text ++ [0x0d]).length = text.length + 1 := by simp
  rw [hlength] at haccepted hroom ⊢
  have hdrop : (text ++ [0x0d]).drop accepted = text.drop accepted ++ [0x0d] :=
    List.drop_append_of_le_length (by omega)
  rw [hdrop]
  rcases Nat.lt_or_eq_of_le hroom with hless | heq
  · refine .inl ⟨hless, ?_⟩
    rw [List.take_append_of_le_length (by rw [List.length_drop]; omega)]
    exact fun hmem => htext (List.mem_of_mem_drop (List.mem_of_mem_take hmem))
  · refine .inr ⟨heq, List.take_of_length_le ?_⟩
    simp only [List.length_append, List.length_drop, List.length_singleton]
    omega

theorem after_acceptWritten (now token : Nat) {e : Engine} {count : Nat}
    (hroom : e.accepted + count ≤ e.transmit.length) :
    Accepted e count (e.after (.acceptWritten now token count)) := by
  have hends : Ends (acceptWritten now token count) e (fun _ e' => Accepted e count e')
      fun _ e' => Accepted e count e' :=
    (acceptWritten_cases now token hroom).mono (fun _ _ h => h) fun _ _ h => .inl h
  exact ends_endState.mp hends

/-- The probe is written: the modem receives it, and the engine stays in quarantine. -/
theorem write_probe_good {e : Engine} {m : Modem} (h : Good known e m) (now token : Nat)
    {count : Nat} (hphase : e.phase = .quarantine .writing)
    (hroom : e.accepted + count ≤ e.transmit.length) (asker : Asker)
    (extraFinals : List (List UInt8)) (bytes : List UInt8) :
    Good known (e.after (.acceptWritten now token count)) (m.receive asker extraFinals bytes) := by
  obtain ⟨hwire, hbegun, hfinals⟩ := receive_frame m asker extraFinals bytes
  have hshut : Shut e (e.after (.acceptWritten now token count)) := by
    rcases after_acceptWritten now token hroom with hshut | ⟨hstill, -⟩ | ⟨hwriting, -⟩
    · exact hshut
    · exact ⟨.inl (by rw [hstill.1.outside]; simp [isQuarantined, hphase]), hstill.1.answered⟩
    · rw [hphase] at hwriting
      cases hwriting
  exact h.shut hshut (by rw [hwire, hbegun]; exact h.lined) (by rw [hwire]; exact h.strays)
    (by rw [hfinals]; exact fun _ => id)

theorem asked_probe (m : Modem) (extraFinals : List (List UInt8)) (bytes : List UInt8) :
    (m.receive .probe extraFinals bytes).asked = m.asked := by
  unfold Modem.receive
  induction bytes generalizing m with
  | nil => rfl
  | cons byte bytes ih =>
      rw [List.foldl_cons, ih]
      unfold Modem.take Modem.asked
      split
      · simp [Question.command?]
      · rfl

/-- A command is written. -/
theorem write_command_sound (h : Sound known s) (now token : Nat) {count : Nat}
    {pending : Pending} (hphase : s.engine.phase = .writing)
    (hactive : s.engine.active = some pending)
    (htransmit : s.engine.transmit = pending.command.text ++ [0x0d])
    (haccepted : s.engine.accepted < s.engine.transmit.length)
    (hroom : s.engine.accepted + count ≤ s.engine.transmit.length) :
    Good known (s.engine.after (.acceptWritten now token count))
      (s.modem.receive (.command pending.id) pending.command.extraFinals
        ((s.engine.transmit.drop s.engine.accepted).take count)) ∧
    Once (s.modem.receive (.command pending.id) pending.command.extraFinals
        ((s.engine.transmit.drop s.engine.accepted).take count)).asked
      (s.engine.after (.acceptWritten now token count)) := by
  obtain ⟨hwire, hbegun, hfinals⟩ := receive_frame s.modem (.command pending.id)
    pending.command.extraFinals ((s.engine.transmit.drop s.engine.accepted).take count)
  have honce := h.once.after h.balanced (.acceptWritten now token count)
  have hcases := after_acceptWritten now token hroom
  have hshut : ∀ e', Shut s.engine e' →
      Good known e' (s.modem.receive (.command pending.id) pending.command.extraFinals
        ((s.engine.transmit.drop s.engine.accepted).take count)) := fun e' hshut =>
    h.good.shut hshut (by rw [hwire, hbegun]; exact h.good.lined)
      (by rw [hwire]; exact h.good.strays) (by rw [hfinals]; exact fun _ => id)
  rw [htransmit] at haccepted hroom
  rcases taken_of_command pending.command.text pending.command.text_plain haccepted hroom with
    ⟨hless, hplain⟩ | ⟨hwhole, htaken⟩
  · -- a part of it: the modem has no new question
    rw [← htransmit] at hless hplain
    have howed := receive_part s.modem (.command pending.id) pending.command.extraFinals _ hplain
    refine ⟨?_, ?_⟩
    · rcases hcases with hclosed | ⟨hstill, -⟩ | ⟨-, heq, -⟩
      · exact hshut _ hclosed
      · exact h.good.still hstill howed hwire hbegun hfinals
      · omega
    · unfold Modem.asked
      rw [howed, hfinals]
      exact honce
  · -- the rest of it: the modem has received the command
    rw [← htransmit] at hwhole htaken
    obtain ⟨text, howed⟩ := receive_whole s.modem (.command pending.id) pending.command.extraFinals
      _ (fun hmem => pending.command.text_plain (List.mem_of_mem_drop hmem) :
        (0x0d : UInt8) ∉ pending.command.text.drop s.engine.accepted)
    rw [← htaken] at howed
    have hrest : (s.engine.after (.acceptWritten now token count)).phase ≠ .writing ∧
        Good known (s.engine.after (.acceptWritten now token count))
          (s.modem.receive (.command pending.id) pending.command.extraFinals
            ((s.engine.transmit.drop s.engine.accepted).take count)) := by
      rcases hcases with hclosed | ⟨-, hless⟩ | ⟨-, -, hreading, hsame, hframer, hanswered⟩
      · refine ⟨?_, hshut _ hclosed⟩
        intro hwriting
        rcases hclosed.phase with hin | hfailed
        · simp [isQuarantined, hwriting] at hin
        · rw [hwriting] at hfailed
          cases hfailed
      · omega
      · refine ⟨by rw [hreading]; simp, ?_⟩
        have hsynced := h.good.synced (by simp [isQuarantined, hphase]) (by simp [hphase])
        obtain ⟨hnone, hquiet⟩ := hsynced.closed (by simp [hphase])
        refine ⟨by rw [hwire, hbegun]; exact h.good.lined, by rw [hwire]; exact h.good.strays,
          by rw [hanswered, hfinals]; exact h.good.answered, ?_⟩
        intro _ _
        refine ⟨by rw [hframer, hbegun]; exact hsynced.framer, ?_, ?_⟩
        · exact fun hother => absurd hreading hother
        · intro _ other hother
          rw [Option.mem_def, hsame, hactive] at hother
          cases hother
          refine .owed _ (by rw [howed, hnone]; rfl) rfl rfl ?_
          rw [hwire]
          exact hquiet.harmless h.good.strays (h.familiar.2 pending hactive)
    refine ⟨hrest.2, ?_⟩
    have hperm : (s.modem.receive (.command pending.id) pending.command.extraFinals
        ((s.engine.transmit.drop s.engine.accepted).take count)).asked.Perm
          (pending.id :: s.modem.asked) := by
      unfold Modem.asked
      rw [howed, hfinals, List.filterMap_append, List.append_assoc]
      exact List.perm_middle
    have hstarted : pending.id ∈ startedIds (s.engine.after (.acceptWritten now token count)).history := by
      have hmoves := ends_endState.mp (acceptWritten_moves false now token count s.engine)
      have hkept : startedIds (s.engine.after (.acceptWritten now token count)).history =
          startedIds s.engine.history :=
        invariant_of_steps (I := fun e => startedIds e.history = startedIds s.engine.history)
          (fun _ _ hmove hsame => hmove.startedIds.trans hsame) hmoves rfl
      rw [hkept]
      exact h.once.active pending hactive
    refine ⟨?_, ?_, honce.active, fun hwriting => absurd hwriting hrest.1⟩
    · exact (hperm.nodup_iff).mpr
        (List.nodup_cons.mpr ⟨h.once.writing hphase pending hactive, h.once.nodup⟩)
    · intro id hid
      rcases List.mem_cons.mp (hperm.mem_iff.mp hid) with rfl | hold
      · exact hstarted
      · exact honce.started id hold

/-- What the engine offers goes to the modem. -/
theorem write_sound (h : Sound known s) (now : Nat) {count : Nat} {request : WriteRequest}
    (hrequest : s.engine.pendingWrite = some request) (hcount : count ≤ request.bytes.length) :
    Sound known (s.after (.write now count)) := by
  unfold Engine.pendingWrite at hrequest
  obtain ⟨token, htoken, rfl⟩ := Option.map_eq_some_iff.mp hrequest
  have hsome : s.engine.token.isSome := by simp [htoken]
  obtain ⟨htransmit, haccepted⟩ := h.balanced.offered hsome
  have hroom : s.engine.accepted + count ≤ s.engine.transmit.length := by
    simp only [List.length_drop] at hcount
    omega
  have hafter : s.after (.write now count) =
      ⟨s.engine.after (.acceptWritten now token count),
        s.modem.receive s.engine.asker s.engine.askerFinals
          ((s.engine.transmit.drop s.engine.accepted).take count)⟩ := by
    simp [System.after, Engine.pendingWrite, htoken]
  rw [hafter]
  rcases h.balanced.token.mp hsome with hphase | hphase
  · obtain ⟨pending, hactive⟩ :=
      Option.isSome_iff_exists.mp (h.balanced.active.mpr (.inl hphase))
    have hoffer : s.engine.transmit = pending.command.text ++ [0x0d] := by
      rw [htransmit, Engine.offer, hactive]
    have hasker : s.engine.asker = .command pending.id := by simp [Engine.asker, hactive]
    have hextra : s.engine.askerFinals = pending.command.extraFinals := by
      simp [Engine.askerFinals, hactive]
    rw [hasker, hextra]
    obtain ⟨hgood, honce⟩ :=
      write_command_sound h now token hphase hactive hoffer haccepted hroom
    exact ⟨after_balanced h.balanced _, after_familiar h.familiar _ (by simp), hgood, honce⟩
  · have hnone : s.engine.active = none :=
      h.balanced.inactive (by simp [hphase]) (by simp [hphase])
    have hasker : s.engine.asker = .probe := by simp [Engine.asker, hnone]
    refine ⟨after_balanced h.balanced _, after_familiar h.familiar _ (by simp),
      write_probe_good h.good now token hphase hroom _ _ _, ?_⟩
    rw [hasker]
    show Once (s.modem.receive .probe _ _).asked _
    rw [asked_probe]
    exact h.once.after h.balanced _

/-- The commands that asked do not change when the modem answers one of them. -/
theorem asked_final {m : Modem} {question : Question} {owed : List Question}
    (howed : m.owed = question :: owed) :
    (owed.filterMap Question.command? ++
      (m.finals.map Prod.fst ++ question.command?.toList)).Perm m.asked := by
  unfold Modem.asked
  rw [howed]
  cases hcommand : question.command? with
  | none => simp [hcommand]
  | some id =>
      rw [List.filterMap_cons_some hcommand, Option.toList_some, ← List.append_assoc]
      exact List.perm_append_singleton ..

theorem Once.perm {asked other : List Nat} {e : Engine} (h : Once asked e)
    (hperm : other.Perm asked) : Once other e :=
  ⟨hperm.nodup_iff.mpr h.nodup, fun id hid => h.started id (hperm.mem_iff.mp hid), h.active,
    fun hphase pending hpending hid => h.writing hphase pending hpending (hperm.mem_iff.mp hid)⟩

/-- A final result answers the question that has waited longest. -/
theorem final_sound (h : Sound known s) {ending : UInt8} {text : List UInt8}
    {question : Question} (hline : isLine ending text = true)
    (hquestion : question ∈ s.modem.owed.head?) : Sound known (s.after (.final ending text)) := by
  cases howed : s.modem.owed with
  | nil =>
      rw [howed] at hquestion
      cases hquestion
  | cons first owed =>
      rw [howed] at hquestion
      cases hquestion
      have hperm := asked_final howed
      -- A command's answer is booked; that to a probe only goes over the wire.
      cases hasker : question.asker with
      | command id =>
          have hafter : s.after (.final ending text) =
              { s with
                modem :=
                  { s.modem with
                    owed
                    wire := s.modem.wire ++ (⟨some question.asker, text⟩ : Sent).cells ending
                    finals := s.modem.finals ++ [(id, text)] } } := by
            simp [System.after, howed, hasker, send_eq]
          rw [hafter]
          refine ⟨h.balanced, h.familiar, ?_, h.once.perm ?_⟩
          · refine final_good h.good howed hline (fun _ => List.mem_append_left _) ?_
            intro other hother
            rw [hasker] at hother
            cases hother
            simp
          · simpa [Modem.asked, Question.command?, hasker] using hperm
      | probe =>
          have hafter : s.after (.final ending text) =
              { s with
                modem :=
                  { s.modem with
                    owed
                    wire := s.modem.wire ++ (⟨some question.asker, text⟩ : Sent).cells ending
                    finals := s.modem.finals } } := by
            simp [System.after, howed, hasker, send_eq]
          rw [hafter]
          refine ⟨h.balanced, h.familiar, ?_, h.once.perm ?_⟩
          · refine final_good h.good howed hline (fun _ => id) ?_
            intro other hother
            rw [hasker] at hother
            cases hother
          · simpa [Modem.asked, Question.command?, hasker] using hperm

theorem intermediate_sound (h : Sound known s) {ending : UInt8} {text : List UInt8}
    {question : Question} (hline : isLine ending text = true)
    (hquestion : question ∈ s.modem.owed.head?) (hends : question.ends text = false) :
    Sound known (s.after (.intermediate ending text)) := by
  cases howed : s.modem.owed with
  | nil =>
      rw [howed] at hquestion
      cases hquestion
  | cons first owed =>
      rw [howed] at hquestion
      cases hquestion
      have hafter : s.after (.intermediate ending text) =
          { s with modem := s.modem.send ⟨some question.asker, text⟩ ending } := by
        simp [System.after, howed]
      rw [hafter]
      exact ⟨h.balanced, h.familiar, intermediate_good h.good howed hline hends, h.once⟩

/-- **Every act keeps engine and modem together.** -/
theorem act_sound (h : Sound known s) (act : Act) (hallowed : Allowed known s act)
    (hsettled : Settled s act) : Sound known (s.after act) := by
  cases act with
  | enqueue command => exact enqueue_sound h hallowed
  | tick now => exact tick_sound h now
  | tokensTaken count =>
      refine ⟨after_balanced h.balanced (.tokensTaken count),
        after_familiar h.familiar (.tokensTaken count) (by simp), ?_,
        h.once.after h.balanced (.tokensTaken count)⟩
      exact h.good.still ⟨⟨rfl, rfl, rfl⟩, rfl⟩ rfl rfl rfl rfl
  | write now count =>
      obtain ⟨-, request, hrequest, hcount⟩ := hallowed
      exact write_sound h now hrequest hcount
  | deliver now count => exact deliver_sound h now count hsettled
  | intermediate ending text =>
      obtain ⟨hline, question, hquestion, hends⟩ := hallowed
      exact intermediate_sound h hline hquestion hends
  | final ending text =>
      obtain ⟨hline, question, hquestion, -⟩ := hallowed
      exact final_sound h hline hquestion
  | unsolicited ending text =>
      exact ⟨h.balanced, h.familiar, unsolicited_good h.good h.familiar hallowed.1 hallowed.2,
        h.once⟩
  | blank ending =>
      refine ⟨h.balanced, h.familiar, ?_, h.once⟩
      exact h.good.append h.familiar ⟨hallowed, rfl, rfl⟩ (by simp [Strays]) (by simp [Quiet, Cell.solicited])

end System

/-! ### Runs -/

theorem Reach.sound {known : List Command} {s : System} (h : Reach known Settled s) :
    Sound known s := by
  induction h with
  | @new now nextWrite prefixes e h =>
      have hrun : Run [] e := .new h
      have hbalanced := hrun.balanced
      unfold Engine.new at h
      split at h
      · cases h
      cases h
      refine ⟨hbalanced, ⟨by simp, by simp⟩, ⟨rfl, by simp [Strays, Modem.new], by simp [answered], ?_⟩,
        ⟨by simp [Modem.asked, Modem.new], by simp [Modem.asked, Modem.new], by simp, by simp⟩⟩
      exact fun _ _ => ⟨rfl, fun _ => ⟨rfl, by simp [Quiet, Modem.new]⟩, by simp⟩
  | act _ act hallowed hok ih => exact act_sound ih act hallowed hok

theorem mem_answered {events : List Event} {response : Response} {line : List UInt8}
    (h : .completed response ∈ events) (hline : response.result = .ok line) :
    (response.id, line) ∈ answered events := by
  obtain ⟨id, intermediates, result, heard⟩ := response
  cases hline
  exact List.mem_filterMap.mpr ⟨_, h, rfl⟩

/-- **Every answer is the answer to its command**: the line that completed a command is the
final line the modem sent for it, and it sent only one. -/
theorem answer_attributed {known : List Command} {s : System} (h : Reach known Settled s)
    {response : Response} {line : List UInt8} (hresponse : .completed response ∈ s.engine.emitted)
    (hline : response.result = .ok line) :
    (response.id, line) ∈ s.modem.finals ∧ (s.modem.finals.map Prod.fst).Nodup := by
  have hsound := h.sound
  refine ⟨hsound.good.answered _ (mem_answered hresponse hline), ?_⟩
  exact (List.nodup_append.mp hsound.once.nodup).2.1

theorem of_mem_answered {events : List Event} {answer : Nat × List UInt8}
    (h : answer ∈ answered events) :
    ∃ response line, .completed response ∈ events ∧ response.result = .ok line ∧
      answer = (response.id, line) := by
  unfold answered at h
  obtain ⟨event, hevent, hanswer⟩ := List.mem_filterMap.mp h
  split at hanswer
  · rename_i id intermediates line heard
    exact ⟨⟨id, intermediates, .ok line, heard⟩, line, hevent, rfl, (Option.some.inj hanswer).symm⟩
  · cases hanswer

/-- The first command times out; its late answer and the probe's come before the engine is
resynchronised, and the second command is answered behind an unsolicited line. -/
def lateThenAnswered : List Act :=
  [.enqueue (sampleCommand 10), .tick 0, .write 0 4, .write 1 5, .tick 10,
    .final 0x0d okText, .deliver 20 3, .tick 320, .write 320 9,
    .intermediate 0x0d (ascii ['+', 'C', 'M', 'E', 'E', ':', ' ', '1']), .final 0x0d okText,
    .deliver 330 7, .deliver 331 5, .enqueue (sampleCommand 5000), .tick 332, .write 332 9,
    .unsolicited 0x0d (ascii ['R', 'I', 'N', 'G']), .final 0x0d okText, .deliver 340 8]

/-- A command that is answered behind a time-out and a resynchronisation. -/
theorem answer_attributed_scripted :
    ∃ s response, Reach [sampleCommand 10, sampleCommand 5000] Settled s ∧
      resynchronizations s.engine.emitted = 1 ∧ .completed response ∈ s.engine.emitted ∧
      response.id = 2 ∧ response.result = .ok okText ∧ (2, okText) ∈ s.modem.finals ∧
      (s.modem.finals.map Prod.fst).Nodup := by
  obtain ⟨s, hreach, hanswered, hresynchronized⟩ :=
    Reach.of_script [sampleCommand 10, sampleCommand 5000] Settled lateThenAnswered
      (fun s => answered s.engine.emitted = [(2, okText)] ∧
        resynchronizations s.engine.emitted = 1)
      (by decide +kernel)
  obtain ⟨response, line, hresponse, hline, hsame⟩ := of_mem_answered
    (show (2, okText) ∈ answered s.engine.emitted by rw [hanswered]; simp)
  obtain ⟨hid, rfl⟩ := Prod.mk.inj hsame
  obtain ⟨hfinal, hnodup⟩ := answer_attributed hreach hresponse hline
  rw [← hid] at hfinal
  exact ⟨s, response, hreach, hresynchronized, hresponse, hid.symm, hline, hfinal, hnodup⟩

/-- Two probes are on their way when the first one is answered: that resynchronises the
engine, and the answer to the second one completes the next command. -/
def twoProbes : List Act :=
  let answer := ascii ['+', 'C', 'M', 'E', 'E', ':', ' ', '1']
  [.enqueue (sampleCommand 10), .tick 0, .write 0 9, .tick 10, .tick 310, .write 310 9,
    .final 0x0d okText, .deliver 320 3, .tick 620, .write 620 9,
    .intermediate 0x0d answer, .final 0x0d okText, .deliver 700 12,
    .enqueue (sampleCommand 5000), .tick 701, .write 701 9,
    .intermediate 0x0d answer, .final 0x0d okText, .deliver 710 12]

/-- **An answer to another question**: the modem has not answered the second command, and
the engine has completed it. -/
theorem answer_of_another :
    ¬ ∀ known s, Reach known (fun _ _ => True) s → ∀ response line,
      .completed response ∈ s.engine.emitted → response.result = .ok line →
        (response.id, line) ∈ s.modem.finals := by
  intro hall
  obtain ⟨s, hreach, hanswered, hfinals⟩ :=
    Reach.of_script [sampleCommand 10, sampleCommand 5000] (fun _ _ => True) twoProbes
      (fun s => answered s.engine.emitted = [(2, okText)] ∧ s.modem.finals = [(1, okText)])
      (by decide +kernel)
  obtain ⟨response, line, hresponse, hline, hsame⟩ := of_mem_answered
    (show (2, okText) ∈ answered s.engine.emitted by rw [hanswered]; simp)
  have hfinal := hall _ s hreach response line hresponse hline
  rw [← hsame, hfinals] at hfinal
  revert hfinal
  decide

end Mindone.Radio.At
