import Mindone.Radio.At.Engine

/-!
# Mindone.Radio.At.EngineMoves

**What the AT engine can do.** Every call is a sequence of `Move`s, each of which does one
thing: read the clock, enter quarantine, take a line. Only `tick` offers something for
writing, and that is the last thing it does (`Offer`). What every move and every offer
keeps, every run keeps (`RunWith.invariant`).
-/

namespace Mindone.Radio.At

open Mindone.Lib
open Mindone.Mux (checkedAdd checkedAdd_eq u64Max)

namespace Engine

/-- What a byte changes before the line it belongs to is looked at. -/
def hear (e : Engine) (now : Nat) (byte : UInt8) : Engine :=
  { e.note (.fed now) with
    quietSince := if e.isQuarantined then now else e.quietSince
    active := e.active.map fun pending =>
      { pending with
        received := pending.received + 1
        heard := if e.phase = .reading then pending.heard ++ [byte] else pending.heard } }

/-- The probe is offered. -/
def probing (e : Engine) (now : Nat) : Engine :=
  { e.note (.probe now) with
    resyncDeadline := now + resyncTimeoutMs
    attempts := e.attempts + 1
    resyncIntermediate := false
    framer := .new
    phase := .quarantine .writing
    nextWrite := e.nextWrite + 1
    transmit := probeText ++ [0x0d]
    accepted := 0
    token := some (e.nextWrite + 1) }

/-- The next command is offered. -/
def starting (e : Engine) (pending : Pending) (queue : List Pending) : Engine :=
  { e.note (.started pending.id) with
    queue
    active := some pending
    phase := .writing
    nextWrite := e.nextWrite + 1
    transmit := pending.command.text ++ [0x0d]
    accepted := 0
    token := some (e.nextWrite + 1) }

/-- A command waits. -/
def enqueued (e : Engine) (command : Command) : Engine :=
  { e with
    nextId := e.nextId + 1
    queue := e.queue ++
      [{ id := e.nextId + 1, command, intermediates := [], received := 0, heard := [] }] }

/-- Lines in quarantine are terminal for what was active or waits. -/
def terminal (e : Engine) (line : List UInt8) : Bool :=
  standardFinal line || e.lateFinals.contains line || e.queuedFinal line

end Engine

open Engine

/-! ### What quarantine changes -/

section Enter

variable (e : Engine) (now : Nat) (error : Error)

@[simp] theorem enter_phase : (e.enter now error).phase = .quarantine .silence := rfl
@[simp] theorem enter_token : (e.enter now error).token = none := rfl
@[simp] theorem enter_quietSince : (e.enter now error).quietSince = now := rfl
@[simp] theorem enter_attempts : (e.enter now error).attempts = 0 := rfl
@[simp] theorem enter_resyncIntermediate : (e.enter now error).resyncIntermediate = false := rfl

@[simp] theorem enter_active : (e.enter now error).active = none := by
  unfold enter
  cases hactive : e.active <;> simp [note, emit, clearWrite, hactive]

@[simp] theorem enter_queue : (e.enter now error).queue = e.queue := by
  unfold enter
  cases hactive : e.active <;> simp [note, emit, clearWrite, hactive]

@[simp] theorem enter_nextId : (e.enter now error).nextId = e.nextId := by
  unfold enter
  cases hactive : e.active <;> simp [note, emit, clearWrite, hactive]

@[simp] theorem enter_lastNow : (e.enter now error).lastNow = e.lastNow := by
  unfold enter
  cases hactive : e.active <;> simp [note, emit, clearWrite, hactive]

@[simp] theorem enter_framer : (e.enter now error).framer = e.framer := by
  unfold enter
  cases hactive : e.active <;> simp [note, emit, clearWrite, hactive]

@[simp] theorem enter_nextWrite : (e.enter now error).nextWrite = e.nextWrite := by
  unfold enter
  cases hactive : e.active <;> simp [note, emit, clearWrite, hactive]

@[simp] theorem enter_history : (e.enter now error).history = e.history ++ [Note.entered now] := by
  unfold enter
  cases hactive : e.active <;> simp [note, emit, clearWrite, hactive]

@[simp] theorem enter_emitted : (e.enter now error).emitted =
    e.emitted ++ (e.active.toList.map fun pending => complete pending (.error error)) ++
      [Event.error error] := by
  unfold enter
  cases hactive : e.active <;> simp [note, emit, clearWrite, hactive]

end Enter

/-- The engine has failed and has answered `all` with the error. -/
structure Aborted (e e' : Engine) (error : Error) (all : List Pending) : Prop where
  phase : e'.phase = .failed
  token : e'.token = none
  active : e'.active = none
  queue : e'.queue = []
  nextId : e'.nextId = e.nextId
  emitted : e'.emitted =
    e.emitted ++ (all.map fun pending => complete pending (.error error)) ++ [.error error]
  history : e'.history = e.history

theorem abort_aborted (e : Engine) (error : Error) :
    Aborted e (e.abort error) error (e.active.toList ++ e.queue) :=
  ⟨rfl, rfl, rfl, rfl, rfl, rfl, rfl⟩

/-- **One move of the engine.** The strict moves are those of a run in which no line is too
long once a probe has been offered. -/
inductive Move (strict : Bool) : Engine → Engine → Prop
  | clocked {e : Engine} (now : Nat) (halive : e.phase ≠ .failed) (hclock : e.lastNow ≤ now) :
      Move strict e { e with lastNow := now }
  /-- An error outside of quarantine. -/
  | entered {e : Engine} (now : Nat) (error : Error) (halive : e.phase ≠ .failed)
      (hclock : e.lastNow = now) (hout : ¬ e.isQuarantined ∨ e.active.isSome) :
      Move strict e (e.enter now error)
  /-- A line is too long. -/
  | oversized {e : Engine} (now : Nat) (halive : e.phase ≠ .failed) (hclock : e.lastNow = now)
      (hstrict : strict = true → e.isQuarantined = true → e.attempts = 0) :
      Move strict e ((e.note .oversized).enter now .lineTooLarge)
  | expired {e : Engine} (now : Nat) : Move strict e (e.expireQueue now)
  | aborted {e e' : Engine} (error : Error) (halive : e.phase ≠ .failed)
      (h : Aborted e e' error (e.active.toList ++ e.queue)) : Move strict e e'
  /-- No write token is left for the next command. -/
  | exhausted {e e' : Engine} (pending : Pending) (queue : List Pending) (hphase : e.phase = .idle)
      (hqueue : e.queue = pending :: queue)
      (h : Aborted e e' .idExhausted (pending :: queue)) : Move strict e e'
  | tokensTaken {e : Engine} (count : Nat) : Move strict e { e with nextWrite := e.nextWrite + count }
  | part {e : Engine} (bytes : Nat) (htoken : e.token.isSome)
      (hroom : e.accepted + bytes < e.transmit.length) :
      Move strict e { e with accepted := e.accepted + bytes }
  | whole {e : Engine} (hphase : e.phase = .writing) :
      Move strict e { e.clearWrite with phase := .reading }
  | probeWhole {e : Engine} (hphase : e.phase = .quarantine .writing) :
      Move strict e ({ e.clearWrite with phase := .quarantine .reading }.note .probeWritten)
  | heard {e : Engine} (now : Nat) (byte : UInt8) (halive : e.phase ≠ .failed)
      (hclock : e.lastNow = now) :
      Move strict e (e.hear now byte)
  | framed {e : Engine} (framer : Framer) : Move strict e { e with framer }
  | urc {e : Engine} (line : List UInt8) (halive : e.phase ≠ .failed) : Move strict e (e.urc line)
  /-- A line in quarantine that is no final. -/
  | passed {e : Engine} (line : List UInt8) (hin : e.isQuarantined)
      (hterminal : e.terminal line = false)
      (hanswer : ¬ (e.phase = .quarantine .reading ∧ probeAnswer line)) :
      Move strict e (e.note (.line e.phase line false))
  | answered {e : Engine} (line : List UInt8) (hphase : e.phase = .quarantine .reading)
      (hterminal : e.terminal line = false) (hanswer : probeAnswer line = true) :
      Move strict e { e.note (.line e.phase line false) with resyncIntermediate := true }
  | silenced {e : Engine} (now : Nat) (line : List UInt8) (hin : e.isQuarantined)
      (hclock : e.lastNow = now) (hterminal : e.terminal line = true)
      (hstays : ¬ (e.phase = .quarantine .reading ∧ e.resyncIntermediate ∧ line = okText)) :
      Move strict e
        { (e.note (.line e.phase line true)).clearWrite with
          phase := .quarantine .silence
          quietSince := now
          resyncIntermediate := false }
  | resynchronized {e : Engine} (hphase : e.phase = .quarantine .reading)
      (hanswered : e.resyncIntermediate = true) :
      Move strict e
        (({ e.note (.line e.phase okText true) with
            phase := .idle
            lateFinals := []
            resyncIntermediate := false }.note .resynchronized).emit .resynchronized)
  | completed {e : Engine} (pending : Pending) (line : List UInt8) (hphase : e.phase = .reading)
      (hactive : e.active = some pending) :
      Move strict e ({ e with active := none, phase := .idle }.emit (complete pending (.ok line)))
  | intermediate {e : Engine} (pending : Pending) (line : List UInt8) (hphase : e.phase = .reading)
      (hactive : e.active = some pending) :
      Move strict e
        { e with active := some { pending with intermediates := pending.intermediates ++ [line] } }

abbrev Moves (strict : Bool) := Relation.ReflTransGen (Move strict)

/-- **What is offered for writing.** -/
inductive Offer (now : Nat) : Engine → Engine → Prop
  | probing {e : Engine} (hphase : e.phase = .quarantine .silence)
      (hclock : e.lastNow = now) (hquiet : silenceMs ≤ now - e.quietSince)
      (hattempts : e.attempts ≠ resyncAttempts) : Offer now e (e.probing now)
  | starting {e : Engine} (pending : Pending) (queue : List Pending) (hphase : e.phase = .idle)
      (hframer : e.framer.bufferedBytes = 0) (hqueue : e.queue = pending :: queue) :
      Offer now e (e.starting pending queue)

/-! ### A line -/

variable {strict : Bool}

theorem standardFinal_ok : standardFinal okText = true := by decide

/-- A line in quarantine is a move. -/
theorem recordQuarantined_moves {e : Engine} {now : Nat} (line : List UInt8)
    (hin : e.isQuarantined = true) (hclock : e.lastNow = now) :
    Moves strict e (e.recordQuarantined now line) := by
  have halive : e.phase ≠ .failed := by
    intro hfailed
    simp [isQuarantined, hfailed] at hin
  unfold recordQuarantined
  cases hterminal : e.terminal line with
  | true =>
      have hbool := hterminal
      unfold Engine.terminal at hbool
      simp only [hbool, if_true]
      split
      · rename_i hback
        obtain ⟨hphase, hanswered, rfl⟩ := hback
        exact .single (.resynchronized hphase hanswered)
      · rename_i hstays
        exact .single (.silenced now line hin hclock hterminal hstays)
  | false =>
      have hbool := hterminal
      unfold Engine.terminal at hbool
      simp only [hbool, Bool.false_eq_true, if_false]
      split
      · rename_i hanswer
        exact .single (.answered line hanswer.1 hterminal hanswer.2)
      · rename_i hanswer
        have hnoted : Moves strict e (e.note (.line e.phase line false)) :=
          .single (.passed line hin hterminal hanswer)
        split
        · exact hnoted.tail (.urc line halive)
        · exact hnoted

theorem recordStray_moves {e : Engine} {now : Nat} (line : List UInt8)
    (hout : e.isQuarantined = false) (halive : e.phase ≠ .failed) (hclock : e.lastNow = now) :
    Moves strict e (e.recordStray now line) := by
  unfold recordStray
  split
  · exact .single (.entered now _ halive hclock (.inl (by simp [hout])))
  · exact .single (.urc line halive)

/-- A line while a command is active. -/
theorem recordActive_moves {e : Engine} {now : Nat} (pending : Pending) (line : List UInt8)
    (hout : e.isQuarantined = false) (halive : e.phase ≠ .failed) (hclock : e.lastNow = now)
    (hactive : e.active = some pending) : Moves strict e (e.recordActive now pending line) := by
  have hentered : ∀ error, Moves strict e (e.enter now error) :=
    fun error => .single (.entered now error halive hclock (.inl (by simp [hout])))
  unfold recordActive
  dsimp only
  split
  · exact .refl
  split
  · split
    · split
      · exact hentered _
      · exact .single (.urc line halive)
    · rename_i hphase
      have hreading : e.phase = .reading := not_not.mp hphase
      split
      · exact .single (.completed pending line hreading hactive)
      · split
        · exact hentered _
        · exact .single (.intermediate pending line hreading hactive)
  · exact recordStray_moves line hout halive hclock

/-- **A line is a run of moves.** -/
theorem record_moves {e : Engine} {now : Nat} (line : List UInt8) (halive : e.phase ≠ .failed)
    (hclock : e.lastNow = now) : Moves strict e (e.record now line) := by
  unfold record
  split
  · rename_i hin
    exact recordQuarantined_moves line hin hclock
  · rename_i hout
    have hout : e.isQuarantined = false := by simpa using hout
    split
    · rename_i pending hactive
      exact recordActive_moves pending line hout halive hclock hactive
    · exact recordStray_moves line hout halive hclock

/-! ### Bytes -/

/-- The engine has not failed and knows the time. -/
def Alive (now : Nat) (e : Engine) : Prop := e.phase ≠ .failed ∧ e.lastNow = now

theorem enter_alive {e : Engine} {now : Nat} (error : Error) (h : Alive now e) :
    Alive now (e.enter now error) := by
  exact ⟨by simp, by rw [enter_lastNow, h.2]⟩

theorem recordStray_alive {e : Engine} {now : Nat} (line : List UInt8) (h : Alive now e) :
    Alive now (e.recordStray now line) := by
  unfold recordStray
  split
  · exact enter_alive _ h
  · exact h

theorem record_alive {e : Engine} {now : Nat} (line : List UInt8) (h : Alive now e) :
    Alive now (e.record now line) := by
  unfold record
  split
  · unfold recordQuarantined
    dsimp only
    split
    · split
      · exact ⟨by simp [emit, note], h.2⟩
      · exact ⟨by simp, h.2⟩
    · split
      · exact h
      · split
        · exact h
        · exact h
  · split
    · unfold recordActive
      dsimp only
      split
      · exact h
      split
      · split
        · split
          · exact enter_alive _ h
          · exact h
        · split
          · exact ⟨by simp [emit], h.2⟩
          · split
            · exact enter_alive _ h
            · exact h
      · exact recordStray_alive line h
    · exact recordStray_alive line h

/-- The active command has had too many bytes. -/
def Engine.flooded (e : Engine) : Bool :=
  e.active.any fun pending => transactionBytes < pending.received

/-- Counting a byte is hearing it, unless the answer has grown too large. -/
theorem count_eq (e : Engine) (now : Nat) (byte : UInt8) :
    (let e' := e.note (.fed now)
      let e' := if e'.isQuarantined then { e' with quietSince := now } else e'
      e'.count now byte) =
      if (e.hear now byte).flooded then (e.hear now byte).enter now .transactionTooLarge
      else e.hear now byte := by
  have hnoted : (if (e.note (.fed now)).isQuarantined then
      { e.note (.fed now) with quietSince := now } else e.note (.fed now)) =
      { e.note (.fed now) with
        quietSince := if e.isQuarantined then now else e.quietSince } := by
    show (if e.isQuarantined then _ else _) = _
    split
    · rfl
    · rfl
  dsimp only
  rw [hnoted]
  unfold count flooded hear
  cases hactive : e.active with
  | none => simp [note, hactive]
  | some pending => simp [note, hactive]

/-- The framer takes a byte, and the line that it may end is looked at. -/
def Engine.pushed (e : Engine) (now : Nat) (byte : UInt8) : Engine :=
  match (e.framer.push byte).2 with
  | some (.line line) => { e with framer := (e.framer.push byte).1 }.record now line
  | some .tooLarge =>
      ({ e with framer := (e.framer.push byte).1 }.note .oversized).enter now .lineTooLarge
  | none => { e with framer := (e.framer.push byte).1 }

theorem absorb_eq (e : Engine) (now : Nat) (byte : UInt8) :
    absorb now e byte =
      (if (e.hear now byte).flooded then (e.hear now byte).enter now .transactionTooLarge
        else e.hear now byte).pushed now byte := by
  rw [← count_eq]
  rfl

/-- The byte makes a line too long. -/
def Engine.overlong (e : Engine) (byte : UInt8) : Bool :=
  !e.framer.dropping && e.framer.bytes.length == lineBytes && isPrintable byte

/-- A line is too large for the framer when it is overlong. -/
theorem overlong_of_push {e : Engine} {byte : UInt8} (h : (e.framer.push byte).2 = some .tooLarge) :
    e.overlong byte = true := by
  unfold Framer.push at h
  split at h
  · split at h
    · cases h
    split at h
    · cases h
    · cases h
  split at h
  · cases h
  rename_i hplain
  split at h
  · rename_i hfull
    simp only [not_or, Bool.not_eq_true] at hplain
    simp [overlong, hplain, hfull]
  · cases h

variable (strict) in
/-- A byte is a run of moves. -/
theorem absorb_moves {e : Engine} {now : Nat} (byte : UInt8) (h : Alive now e)
    (hstrict : strict = true → e.overlong byte = true → e.isQuarantined = true →
      e.attempts = 0) :
    Moves strict e (absorb now e byte) ∧ Alive now (absorb now e byte) := by
  rw [absorb_eq]
  have hheard : Moves strict e (e.hear now byte) := .single (.heard now byte h.1 h.2)
  have hcounted : ∃ e', (if (e.hear now byte).flooded then
        (e.hear now byte).enter now .transactionTooLarge else e.hear now byte) = e' ∧
      Moves strict e e' ∧ Alive now e' ∧ e'.framer = e.framer ∧
      (strict = true → e.overlong byte = true → e'.isQuarantined = true → e'.attempts = 0) := by
    refine ⟨_, rfl, ?_⟩
    split
    · rename_i hflooded
      have hsome : (e.hear now byte).active.isSome := by
        unfold flooded at hflooded
        obtain ⟨pending, hpending, -⟩ := (Option.any_eq_true _ _).mp hflooded
        simp [hpending]
      refine ⟨hheard.tail (.entered now _ h.1 h.2 (.inr hsome)), enter_alive _ h, ?_, ?_⟩
      · rw [enter_framer]
        rfl
      · exact fun _ _ _ => rfl
    · exact ⟨hheard, h, rfl, hstrict⟩
  obtain ⟨e', heq, hmoves, halive, hframer, hstrict'⟩ := hcounted
  rw [heq]
  unfold pushed
  have hframed : Moves strict e { e' with framer := (e'.framer.push byte).1 } :=
    hmoves.tail (.framed _)
  split
  · exact ⟨hframed.trans (record_moves _ halive.1 halive.2), record_alive _ halive⟩
  · rename_i hpush
    rw [hframer] at hpush
    have hlong := overlong_of_push hpush
    exact ⟨hframed.tail (.oversized now halive.1 halive.2 fun hs => hstrict' hs hlong),
      enter_alive _ halive⟩
  · exact ⟨hframed, halive⟩

/-- No line is too long once a probe has been offered. -/
def TamePiece (now : Nat) : Engine → List UInt8 → Prop
  | _, [] => True
  | e, byte :: rest =>
      (e.overlong byte = true → e.isQuarantined = true → e.attempts = 0) ∧
        TamePiece now (absorb now e byte) rest

/-- So are the bytes of a piece. -/
theorem absorbAll_moves (now : Nat) (input : List UInt8) {e : Engine} (h : Alive now e)
    (hstrict : strict = true → TamePiece now e input) :
    Moves strict e (input.foldl (absorb now) e) ∧ Alive now (input.foldl (absorb now) e) := by
  induction input generalizing e with
  | nil => exact ⟨.refl, h⟩
  | cons byte rest ih =>
      obtain ⟨hmoves, halive⟩ := absorb_moves strict byte h fun hs => (hstrict hs).1
      obtain ⟨hrest, hend⟩ := ih halive fun hs => (hstrict hs).2
      exact ⟨hmoves.trans hrest, hend⟩

/-! ### Calls -/

@[simp] theorem ends_fail {α : Type} {error : Error} {e : Engine}
    {Q : α → Engine → Prop} {F : Error → Engine → Prop} :
    Ends (fail error : Step α) e Q F ↔ F error (e.abort error) := ends_of_error rfl

/-- The clock does not go back. -/
theorem clock_spec (now : Nat) (e : Engine) :
    Ends (clock now) e
      (fun _ e' => e.phase ≠ .failed ∧ e.lastNow ≤ now ∧ e' = { e with lastNow := now })
      (fun error e' => e.phase = .failed ∧ error = .failed ∧ e' = e ∨
        e.phase ≠ .failed ∧ e' = e.abort .clockRegression) := by
  unfold clock
  rw [ends_bind, ends_get, ends_ite]
  split
  · rename_i hfailed
    exact (ends_throw _).mpr (.inl ⟨hfailed, rfl, rfl⟩)
  rename_i halive
  rw [ends_ite]
  split
  · exact ends_fail.mpr (.inr ⟨halive, rfl⟩)
  · rename_i hclock
    exact ends_set.mpr ⟨halive, Nat.le_of_not_lt hclock, rfl⟩

/-- Quarantine is entered if the time of the active command is over. -/
def Engine.timed (e : Engine) (now : Nat) : Engine :=
  if e.overdue now then e.enter now .timeout else e

/-- **What `expire` does.** -/
theorem expire_spec (now : Nat) (e : Engine) :
    Ends (expire now) e
      (fun _ e' => e' = (e.timed now).expireQueue now)
      (fun error e' => error = .resyncFailed ∧ e' = (e.timed now).abort .resyncFailed ∧
        (e.timed now).phase ≠ .quarantine .silence) := by
  unfold expire
  rw [ends_bind, ends_modify]
  change Ends _ (e.timed now) _ _
  generalize e.timed now = e'
  rw [ends_bind, ends_get, ends_ite]
  split
  · rename_i hdue
    refine ends_fail.mpr ⟨rfl, rfl, ?_⟩
    rcases hdue.1 with hphase | hphase
    · simp [hphase]
    · simp [hphase]
  · exact ends_set.mpr rfl

variable (strict) in
theorem timed_moves {e : Engine} {now : Nat} (h : Alive now e) :
    Moves strict e (e.timed now) ∧ Alive now (e.timed now) := by
  unfold timed
  split
  · rename_i hoverdue
    have hsome : e.active.isSome := by
      obtain ⟨pending, hpending, -⟩ := (Option.any_eq_true _ _).mp hoverdue
      simp [hpending]
    exact ⟨.single (.entered now _ h.1 h.2 (.inr hsome)), enter_alive _ h⟩
  · exact ⟨.refl, h⟩

variable (strict) in
theorem clock_moves (now : Nat) (e : Engine) :
    Ends (clock now) e (fun _ e' => Moves strict e e' ∧ Alive now e')
      fun _ e' => Moves strict e e' := by
  refine (clock_spec now e).mono ?_ ?_
  · rintro _ _ ⟨halive, hclock, rfl⟩
    exact ⟨.single (.clocked now halive hclock), halive, rfl⟩
  · rintro _ _ (⟨-, -, rfl⟩ | ⟨halive, rfl⟩)
    · exact .refl
    · exact .single (.aborted _ halive (abort_aborted ..))

variable (strict) in
theorem expire_moves {now : Nat} {e : Engine} (h : Alive now e) :
    Ends (expire now) e (fun _ e' => Moves strict e e' ∧ Alive now e')
      fun _ e' => Moves strict e e' := by
  obtain ⟨htimed, halive⟩ := timed_moves strict h
  refine (expire_spec now e).mono ?_ ?_
  · rintro _ _ rfl
    exact ⟨htimed.tail (.expired now), halive⟩
  · rintro _ _ ⟨-, rfl, -⟩
    exact htimed.tail (.aborted _ halive.1 (abort_aborted ..))

/-- How `tick` and `feed` begin. -/
def settle (now : Nat) : Step Unit := do
  clock now
  expire now

variable (strict) in
/-- What every call does first is a run of moves. -/
theorem settle_moves (now : Nat) (e : Engine) :
    Ends (settle now) e (fun _ e' => Moves strict e e' ∧ Alive now e')
      fun _ e' => Moves strict e e' := by
  unfold settle
  rw [ends_bind]
  refine (clock_moves strict now e).mono ?_ fun _ _ h => h
  rintro _ e₀ ⟨hclock, halive⟩
  refine (expire_moves strict halive).mono ?_ fun _ _ h => hclock.trans h
  rintro _ e' ⟨hexpire, halive'⟩
  exact ⟨hclock.trans hexpire, halive'⟩

theorem feed_eq (now : Nat) (input : List UInt8) :
    feed now input = (do
      settle now
      modify fun e => input.foldl (absorb now) e) := by
  unfold feed settle
  rw [bind_assoc]

theorem feed_moves (now : Nat) (input : List UInt8) (e : Engine)
    (hstrict : strict = true → ∀ e', settle now e = .ok () e' → TamePiece now e' input) :
    Ends (feed now input) e (fun _ e' => Moves strict e e') fun _ e' => Moves strict e e' := by
  rw [feed_eq, ends_bind]
  refine (settle_moves strict now e).traced.mono ?_ fun _ _ h => h.2
  rintro _ e' ⟨heq, hmoves, halive⟩
  refine ends_modify.mpr ?_
  exact hmoves.trans (absorbAll_moves now input halive fun hs => hstrict hs e' heq).1

/-- Bytes to be written get the next token. -/
theorem write_spec (bytes : List UInt8) (e : Engine) :
    Ends (write bytes) e
      (fun _ e' => e' =
        { e with
          nextWrite := e.nextWrite + 1
          transmit := bytes
          accepted := 0
          token := some (e.nextWrite + 1) })
      fun _ e' => e' = e.abort .idExhausted := by
  unfold write
  rw [ends_bind, ends_get]
  cases htoken : checkedAdd e.nextWrite 1 with
  | none => exact ends_fail.mpr rfl
  | some token =>
      rw [checkedAdd_eq htoken]
      exact ends_set.mpr rfl

/-- `tick` is a run of moves, with an offer to write at its end or none. -/
theorem tick_moves (now : Nat) (e : Engine) :
    Ends (tick now) e
      (fun _ e' => ∃ e₁, Moves strict e e₁ ∧ (e' = e₁ ∨ Offer now e₁ e'))
      fun _ e' => Moves strict e e' := by
  unfold tick
  rw [← bind_assoc, ends_bind]
  refine (settle_moves strict now e).mono ?_ fun _ _ h => h
  rintro _ e' ⟨hmoves, halive⟩
  -- Any failure is one more move.
  have haborted : ∀ error, Moves strict e (e'.abort error) :=
    fun error => hmoves.tail (.aborted error halive.1 (abort_aborted ..))
  rw [ends_bind, ends_get, ends_ite]
  split
  -- A probe is due, if there are attempts left.
  · rename_i hdue
    rw [ends_ite]
    split
    · exact ends_fail.mpr (haborted _)
    rename_i hattempts
    cases hdeadline : checkedAdd now resyncTimeoutMs with
    | none => exact ends_fail.mpr (haborted _)
    | some deadline =>
        rw [checkedAdd_eq hdeadline]
        dsimp only
        rw [ends_bind, ends_set, ends_bind]
        refine (write_spec _ _).mono ?_ ?_
        · rintro _ _ rfl
          exact ends_modify.mpr
            ⟨e', hmoves, .inr (.probing hdue.1 halive.2 hdue.2 hattempts)⟩
        · rintro _ _ rfl
          exact hmoves.tail (.aborted .idExhausted halive.1 ⟨rfl, rfl, rfl, rfl, rfl, rfl, rfl⟩)
  rw [ends_ite]
  split
  -- Idle: the next command is offered.
  · rename_i hidle
    split
    · exact (ends_pure ..).mpr ⟨e', hmoves, .inl rfl⟩
    · rename_i pending queue hqueue
      rw [ends_bind, ends_set, ends_bind]
      refine (write_spec _ _).mono ?_ ?_
      · rintro _ _ rfl
        exact ends_modify.mpr ⟨e', hmoves, .inr (.starting pending queue hidle.1 hidle.2 hqueue)⟩
      · rintro _ _ rfl
        exact hmoves.tail
          (.exhausted pending queue hidle.1 hqueue ⟨rfl, rfl, rfl, rfl, rfl, rfl, rfl⟩)
  · exact (ends_pure ..).mpr ⟨e', hmoves, .inl rfl⟩

variable (strict) in
/-- What has been written is a run of moves. -/
theorem acceptWritten_moves (now token bytes : Nat) (e : Engine) :
    Ends (acceptWritten now token bytes) e (fun _ e' => Moves strict e e')
      fun _ e' => Moves strict e e' := by
  unfold acceptWritten
  rw [ends_bind]
  refine (clock_moves strict now e).mono ?_ fun _ _ h => h
  rintro _ e₀ ⟨hclock, halive₀⟩
  rw [ends_bind, ends_get]
  dsimp only
  rw [ends_bind]
  refine (expire_moves strict halive₀).mono ?_ fun _ _ h => hclock.trans h
  rintro _ e' ⟨hexpire, halive⟩
  have hmoves := hclock.trans hexpire
  have haborted : ∀ error, Moves strict e (e'.abort error) :=
    fun error => hmoves.tail (.aborted error halive.1 (abort_aborted ..))
  rw [ends_ite]
  split
  · exact (ends_throw _).mpr hmoves
  rw [ends_bind, ends_get, ends_ite]
  split
  · exact ends_fail.mpr (haborted _)
  rename_i htoken
  rw [ends_ite]
  split
  · exact ends_fail.mpr (haborted _)
  rename_i hbytes
  rw [ends_ite]
  split
  · split
    · rename_i hphase
      exact ends_set.mpr (hmoves.tail (.whole hphase))
    · rename_i hphase
      exact ends_set.mpr (hmoves.tail (.probeWhole hphase))
    · rw [ends_bind, ends_set]
      exact ends_fail.mpr (hmoves.tail
        (.aborted .invalidProgress halive.1 ⟨rfl, rfl, rfl, rfl, rfl, rfl, rfl⟩))
  · rename_i hpart
    have hsome : e'.token.isSome := by simp [not_not.mp htoken]
    exact ends_set.mpr (hmoves.tail (.part bytes hsome (by omega)))

/-- A command gets the next number, if there is room for it. -/
theorem enqueue_spec (command : Command) (e : Engine) :
    Ends (enqueue command) e
      (fun id e' => e.phase ≠ .failed ∧ id = e.nextId + 1 ∧ e' = e.enqueued command)
      fun _ e' => e' = e := by
  unfold enqueue
  rw [ends_bind, ends_get, ends_ite]
  split
  · exact (ends_throw _).mpr rfl
  rename_i halive
  rw [ends_ite]
  split
  · exact (ends_throw _).mpr rfl
  cases hid : checkedAdd e.nextId 1 with
  | none => exact (ends_throw _).mpr rfl
  | some id =>
      rw [checkedAdd_eq hid]
      dsimp only
      rw [ends_bind, ends_set, ends_pure]
      exact ⟨halive, rfl, rfl⟩

/-! ### Runs -/

/-- A call of the engine. -/
inductive Call
  | enqueue (command : Command)
  | tick (now : Nat)
  | feed (now : Nat) (input : List UInt8)
  | acceptWritten (now token bytes : Nat)
  /-- Another engine of the process took write tokens. -/
  | tokensTaken (count : Nat)

def Call.run : Call → Step Unit
  | .enqueue command => do
      let _ ← At.enqueue command
  | .tick now => At.tick now
  | .feed now input => At.feed now input
  | .acceptWritten now token bytes => At.acceptWritten now token bytes
  | .tokensTaken count => modify fun e => { e with nextWrite := e.nextWrite + count }

/-- The identifier a call returned. -/
def Call.issued (call : Call) (e : Engine) : List Nat :=
  match call with
  | .enqueue command =>
      match At.enqueue command e with
      | .ok id _ => [id]
      | .error _ _ => []
  | _ => []

/-- The engine after a call, whether the call returned or failed. -/
def Engine.after (e : Engine) (call : Call) : Engine := endState (call.run e)

/-- What holds of the engine if the step returned. -/
def IfOk (P : Engine → Prop) : EStateM.Result Error Engine Unit → Prop
  | .ok _ e => P e
  | .error _ _ => True

/-- In the call no line is too long once a probe has been offered. -/
def Tame (e : Engine) : Call → Prop
  | .feed now input => IfOk (TamePiece now · input) (settle now e)
  | _ => True

/-- **The engines that the calls which are `ok` can reach**, with the identifiers that were
returned. -/
inductive RunWith (ok : Engine → Call → Prop) : List Nat → Engine → Prop
  | new {now nextWrite : Nat} {prefixes : List (List UInt8)} {e : Engine}
      (h : Engine.new now prefixes nextWrite = .ok e) : RunWith ok [] e
  | call {issued : List Nat} {e : Engine} (h : RunWith ok issued e) (call : Call)
      (hok : ok e call) : RunWith ok (issued ++ call.issued e) (e.after call)

/-- **The engines a run can reach.** -/
abbrev Run : List Nat → Engine → Prop := RunWith fun _ _ => True

/-- Where a script leads, with the identifiers it returned. -/
def play (calls : List Call) (start : List Nat × Engine) : List Nat × Engine :=
  calls.foldl (fun s call => (s.1 ++ call.issued s.2, s.2.after call)) start

/-- Every call of a script is `ok`. -/
def Obeys (ok : Engine → Call → Prop) : List Call → Engine → Prop
  | [], _ => True
  | call :: calls, e => ok e call ∧ Obeys ok calls (e.after call)

instance Obeys.decide (ok : Engine → Call → Prop) [∀ e call, Decidable (ok e call)] :
    (calls : List Call) → (e : Engine) → Decidable (Obeys ok calls e)
  | [], _ => isTrue trivial
  | _ :: calls, _ => @instDecidableAnd _ _ _ (Obeys.decide ok calls _)

instance TamePiece.decide (now : Nat) :
    (input : List UInt8) → (e : Engine) → Decidable (TamePiece now e input)
  | [], _ => isTrue trivial
  | _ :: rest, _ => @instDecidableAnd _ _ _ (TamePiece.decide now rest _)

instance IfOk.decide (P : Engine → Prop) [DecidablePred P] :
    (result : EStateM.Result Error Engine Unit) → Decidable (IfOk P result)
  | .ok _ e => inferInstanceAs (Decidable (P e))
  | .error _ _ => isTrue trivial

instance (e : Engine) (call : Call) : Decidable (Tame e call) :=
  match call with
  | .feed now input =>
      inferInstanceAs (Decidable (IfOk (TamePiece now · input) (settle now e)))
  | .enqueue _ => isTrue trivial
  | .tick _ => isTrue trivial
  | .acceptWritten _ _ _ => isTrue trivial
  | .tokensTaken _ => isTrue trivial

section RunWith

variable {ok : Engine → Call → Prop}

theorem RunWith.play {s : List Nat × Engine} (h : RunWith ok s.1 s.2) (calls : List Call)
    (hobeys : Obeys ok calls s.2) : RunWith ok (play calls s).1 (play calls s).2 := by
  induction calls generalizing s with
  | nil => exact h
  | cons call calls ih =>
      exact ih (s := (s.1 ++ call.issued s.2, s.2.after call)) (h.call call hobeys.1) hobeys.2

theorem RunWith.mono {ok' : Engine → Call → Prop} (hok : ∀ e call, ok e call → ok' e call)
    {issued : List Nat} {e : Engine} (h : RunWith ok issued e) : RunWith ok' issued e := by
  induction h with
  | new h => exact .new h
  | call _ call hcall ih => exact ih.call call (hok _ call hcall)

variable (ok) in
/-- Where a script leads can be computed. -/
theorem RunWith.of_script [∀ e call, Decidable (ok e call)] (calls : List Call)
    (P : List Nat → Engine → Prop) [∀ issued e, Decidable (P issued e)]
    (h : (Engine.new 0 [] 0).toOption.any
      (fun e => decide (Obeys ok calls e ∧
        P (At.play calls ([], e)).1 (At.play calls ([], e)).2)) = true) :
    ∃ issued e, RunWith ok issued e ∧ P issued e := by
  obtain ⟨e, hnew, hP⟩ := (Option.any_eq_true _ _).mp h
  obtain ⟨hobeys, hP⟩ := of_decide_eq_true hP
  refine ⟨_, _, ?_, hP⟩
  cases hstart : Engine.new 0 [] 0 with
  | error error =>
      rw [hstart] at hnew
      cases hnew
  | ok e' =>
      rw [hstart] at hnew
      cases hnew
      exact RunWith.play (s := ([], e)) (.new hstart) calls hobeys

/-- `enqueue` changes nothing, or the command waits. -/
theorem after_enqueue (e : Engine) (command : Command) :
    (Call.enqueue command).issued e = [] ∧ e.after (.enqueue command) = e ∨
      e.phase ≠ .failed ∧ (Call.enqueue command).issued e = [e.nextId + 1] ∧
        e.after (.enqueue command) = e.enqueued command := by
  have hends := enqueue_spec command e
  unfold Engine.after Call.run Call.issued
  cases henqueue : enqueue command e with
  | ok id e' =>
      obtain ⟨halive, rfl, rfl⟩ := hends.of_ok henqueue
      refine .inr ⟨halive, by simp [henqueue], ?_⟩
      rw [endState_bind_pure, henqueue]
      rfl
  | error error e' =>
      have hsame := hends.of_error henqueue
      subst hsame
      refine .inl ⟨by simp [henqueue], ?_⟩
      rw [endState_bind_pure, henqueue]
      rfl

variable (strict) in
/-- **Every call but `enqueue` is a sequence of moves**, and at the end `tick` may make an
offer. -/
theorem after_moves (e : Engine) (call : Call) (htame : strict = true → Tame e call) :
    (∃ e', Moves strict e e' ∧
      (e.after call = e' ∨ ∃ now, call = .tick now ∧ Offer now e' (e.after call))) ∧
        call.issued e = [] ∨
      ∃ command, call = .enqueue command ∧ e.phase ≠ .failed ∧
        call.issued e = [e.nextId + 1] ∧ e.after call = e.enqueued command := by
  cases call with
  | enqueue command =>
      rcases after_enqueue e command with ⟨hissued, hsame⟩ | ⟨halive, hissued, heq⟩
      · exact .inl ⟨⟨e, .refl, .inl hsame⟩, hissued⟩
      · exact .inr ⟨command, rfl, halive, hissued, heq⟩
  | tick now =>
      refine .inl ⟨?_, rfl⟩
      have hends : Ends (tick now) e
          (fun _ e' => ∃ e₁, Moves strict e e₁ ∧ (e' = e₁ ∨ Offer now e₁ e'))
          fun _ e' => ∃ e₁, Moves strict e e₁ ∧ (e' = e₁ ∨ Offer now e₁ e') :=
        (tick_moves now e).mono (fun _ _ h => h) fun _ e' h => ⟨e', h, .inl rfl⟩
      obtain ⟨e₁, hmoves, heq | hoffer⟩ := ends_endState.mp hends
      · exact ⟨e₁, hmoves, .inl heq⟩
      · exact ⟨e₁, hmoves, .inr ⟨now, rfl, hoffer⟩⟩
  | feed now input =>
      refine .inl ⟨⟨_, ends_endState.mp (feed_moves now input e ?_), .inl rfl⟩, rfl⟩
      intro hstrict e' hsettle
      simpa [Tame, IfOk, hsettle] using htame hstrict
  | acceptWritten now token bytes =>
      exact .inl ⟨⟨_, ends_endState.mp (acceptWritten_moves strict now token bytes e), .inl rfl⟩, rfl⟩
  | tokensTaken count => exact .inl ⟨⟨_, .single (.tokensTaken count), .inl rfl⟩, rfl⟩

variable (strict) in
/-- **What every move, every offer and every new command keeps, every run keeps.** -/
theorem RunWith.invariant {I : Engine → Prop} {issued : List Nat} {e : Engine}
    (h : RunWith ok issued e) (htame : strict = true → ∀ e call, ok e call → Tame e call)
    (hnew : ∀ now prefixes nextWrite e, Engine.new now prefixes nextWrite = .ok e → I e)
    (hmove : ∀ e e', Move strict e e' → I e → I e')
    (hoffer : ∀ now e e', Offer now e e' → I e → I e')
    (henqueued : ∀ (e : Engine) command, e.phase ≠ .failed → I e → I (e.enqueued command)) :
    I e := by
  induction h with
  | new h => exact hnew _ _ _ _ h
  | @call _ e _ call hok ih =>
      rcases after_moves strict e call fun hs => htame hs e call hok with
        ⟨⟨e', hmoves, hend⟩, -⟩ | ⟨command, -, halive, -, heq⟩
      · have he' : I e' := invariant_of_steps hmove hmoves ih
        rcases hend with heq | ⟨now, -, hoffered⟩
        · rw [heq]
          exact he'
        · exact hoffer now _ _ hoffered he'
      · rw [heq]
        exact henqueued e command halive ih

end RunWith

end Mindone.Radio.At
