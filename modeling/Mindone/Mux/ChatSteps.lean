import Mindone.Mux.Chat

/-!
# Mindone.Mux.ChatSteps

**What each step of the AT dialogue can do.** A command is started (`Controller.starting`),
a complete line is taken (`Taken`), the clock ticks (`Ticked`); an error ends the dialogue
and adds nothing to its history but the line that caused it.
-/

namespace Mindone.Mux.Chat

open Mindone.Lib

/-- The dialogue after an error. -/
def Controller.failed (c : Controller) (error : Error) : Controller :=
  { c with
    phase := .failed
    error := some error
    token := none
    transmit := []
    accepted := 0
    record := []
    tokenUntil := none
    pin := none }

@[simp] theorem ends_fail {α : Type} {error : Error} {c : Controller}
    {Q : α → Controller → Prop} {F : Error → Controller → Prop} :
    Ends (fail error : Step α) c Q F ↔ F error (c.failed error) := ends_of_error rfl

/-! ### Starting a command -/

/-- How the last command begins. -/
def cmuxText : List UInt8 :=
  ascii ['A', 'T', '+', 'C', 'M', 'U', 'X', '=', '0', ',', '0', ',']

/-- The text of a command, without the closing carriage return. -/
def commandWords (pin : Option Pin) (baudIndex : Int) (frameLimit : Nat) : Command → List UInt8
  | .at | .atRetry => ascii ['A', 'T']
  | .reset => ascii ['A', 'T', 'Z']
  | .echoOff => ascii ['A', 'T', 'E', '0']
  | .pin => ascii ['A', 'T', '+', 'C', 'P', 'I', 'N', '='] ++ (pin.elim [] fun pin => pin.digits)
  | .cmux =>
      cmuxText ++
        ((if baudIndex < 0 then ascii ['-'] else []) ++
          (decimalDigits baudIndex.natAbs ++ (ascii [','] ++ decimalDigits frameLimit)))

def Controller.words (c : Controller) : Command → List UInt8 :=
  commandWords c.pin c.baudIndex c.frameLimit

/-- The dialogue after a command was started. -/
def Controller.starting (c : Controller) (command : Command) (now : Nat) : Controller :=
  { c.note (.started command) with
    nextWrite := c.nextWrite + 1
    transmit := c.words command ++ [0x0d]
    accepted := 0
    record := []
    pin := if command = .pin then none else c.pin
    deadline := now + commandTimeoutMs
    command := some command
    token := some (c.nextWrite + 1)
    phase := .writing }

/-- An error leaves the history alone. -/
def Failed (c : Controller) (_ : Error) (c' : Controller) : Prop :=
  c'.phase = .failed ∧ c'.history = c.history

theorem append_spec (value : List UInt8) (c : Controller) :
    Ends (append value) c (fun _ c' => c' = { c with transmit := c.transmit ++ value })
      (Failed c) := by
  unfold append
  rw [ends_bind, ends_get, ends_ite]
  split
  · exact ends_fail.mpr ⟨rfl, rfl⟩
  · exact ends_set.mpr rfl

/-- Appending one text after the other. -/
theorem ends_append {value : List UInt8} {c c₀ : Controller} {f : Unit → Step Unit}
    {Q : Unit → Controller → Prop} (hfailed : c.history = c₀.history)
    (h : Ends (f ()) { c with transmit := c.transmit ++ value } Q (Failed c₀)) :
    Ends (append value >>= f) c Q (Failed c₀) := by
  rw [ends_bind]
  refine (append_spec value c).mono ?_ ?_
  · rintro _ c' rfl
    exact h
  · rintro e c' ⟨hphase, hhistory⟩
    exact ⟨hphase, hhistory.trans hfailed⟩

/-- The text of a command is appended; the PIN is used up. -/
theorem commandText_spec (command : Command) (c : Controller) :
    Ends (commandText command) c
      (fun _ c' => c' = { c with
        transmit := c.transmit ++ c.words command
        pin := if command = .pin then none else c.pin })
      (Failed c) := by
  cases command with
  | «at» => exact append_spec _ c
  | atRetry => exact append_spec _ c
  | reset => exact append_spec _ c
  | echoOff => exact append_spec _ c
  -- Without a PIN the command fails, and with it the chat.
  | pin =>
      unfold commandText
      rw [ends_bind, ends_get]
      cases hpin : c.pin with
      | none => exact ends_fail.mpr ⟨rfl, rfl⟩
      | some pin =>
          dsimp only
          rw [ends_bind, ends_set]
          refine ends_append rfl ((append_spec _ _).mono ?_ fun _ _ h => h)
          rintro _ c' rfl
          simp [Controller.words, commandWords, hpin]
  -- The number is written with its sign in front, as the digits are of the absolute value.
  | cmux =>
      unfold commandText
      rw [ends_bind, ends_get]
      refine ends_append rfl ?_
      have hrest : ∀ sign : List UInt8, Ends (do
          append (decimalDigits c.baudIndex.natAbs)
          append (ascii [','])
          append (decimalDigits c.frameLimit))
          { c with transmit := c.transmit ++ cmuxText ++ sign }
          (fun _ c' => c' = { c with
            transmit := c.transmit ++ (cmuxText ++ (sign ++
              (decimalDigits c.baudIndex.natAbs ++
                (ascii [','] ++ decimalDigits c.frameLimit)))) })
          (Failed c) := by
        intro sign
        refine ends_append rfl (ends_append rfl ((append_spec _ _).mono ?_ fun _ _ h => h))
        rintro _ c' rfl
        simp
      dsimp only
      rw [ends_ite]
      split
      · rename_i hneg
        refine ends_append rfl ((hrest _).mono ?_ fun _ _ h => h)
        rintro _ c' rfl
        simp [Controller.words, commandWords, hneg]
      · rename_i hpos
        have hnone := hrest []
        rw [List.append_nil] at hnone
        refine hnone.mono ?_ fun _ _ h => h
        rintro _ c' rfl
        simp [Controller.words, commandWords, hpos]

/-- **A command is started**, or the dialogue is over. -/
theorem start_spec (command : Command) (now : Nat) (c : Controller) :
    Ends (start command now) c (fun _ c' => c' = c.starting command now) (Failed c) := by
  unfold start
  rw [ends_bind, ends_get]
  unfold deadlineAfter
  cases hdeadline : checkedAdd now commandTimeoutMs with
  | none => exact ends_fail.mpr ⟨rfl, rfl⟩
  | some deadline =>
      dsimp only
      cases htoken : checkedAdd c.nextWrite 1 with
      | none => exact ends_fail.mpr ⟨rfl, rfl⟩
      | some token =>
          have hafter := checkedAdd_eq hdeadline
          have hnext := checkedAdd_eq htoken
          subst hafter hnext
          dsimp only
          rw [ends_bind, ends_set, ends_bind]
          refine (commandText_spec command _).mono ?_ fun _ _ h => h
          rintro _ c₁ rfl
          refine ends_append rfl (ends_modify.mpr ?_)
          cases command with
          | «at» => rfl
          | atRetry => rfl
          | reset => rfl
          | echoOff => rfl
          | pin => rfl
          | cmux => rfl

/-! ### Taking a line -/

/-- The command that follows when the one before was answered `OK`. -/
def Controller.following (c : Controller) : Option Command :=
  match c.command with
  | some .at | some .atRetry => some .reset
  | some .reset => some .echoOff
  | some .echoOff => some (if c.pin.isSome then .pin else .cmux)
  | some .pin => some .cmux
  | some .cmux | none => none

/-- The dialogue after a line was taken while an answer was awaited. -/
def Controller.answered (c : Controller) (record : Record) : Controller :=
  { c with record := [] }.note (.answered record)

/-- **What a complete line does.** -/
inductive Taken (now : Nat) (c : Controller) : Controller → Prop
  /-- The modem reports that it is there. -/
  | begun (hphase : c.phase = .waitingReady) (hrecord : classify c.record = .ready) :
      Taken now c ({ c with record := [], indicationSeen := true }.starting .at now)
  /-- No answer is awaited. -/
  | ignored (hphase : c.phase ≠ .reading) : Taken now c { c with record := [] }
  | cmuxReady (hphase : c.phase = .reading) (hrecord : classify c.record = .cmuxReady)
      (hcommand : c.command = some .cmux) :
      Taken now c { c.answered .cmuxReady with cmuxReady := true }
  /-- The line is no answer. -/
  | noted (hphase : c.phase = .reading) (hrejected : classify c.record ≠ .rejected)
      (hok : classify c.record ≠ .ok) : Taken now c (c.answered (classify c.record))
  | retried (hphase : c.phase = .reading) (hrecord : classify c.record = .rejected)
      (hcommand : c.command = some .at) :
      Taken now c ((c.answered .rejected).starting .atRetry now)
  | advanced (hphase : c.phase = .reading) (hrecord : classify c.record = .ok) (next : Command)
      (hnext : c.following = some next) : Taken now c ((c.answered .ok).starting next now)
  /-- The multiplexer is known to be there already. -/
  | finished (hphase : c.phase = .reading) (hrecord : classify c.record = .ok)
      (hcommand : c.command = some .cmux) : Taken now c { c.answered .ok with phase := .ready }
  | settling (hphase : c.phase = .reading) (hrecord : classify c.record = .ok)
      (hcommand : c.command = some .cmux) :
      Taken now c { c.answered .ok with deadline := now + settleMs, phase := .settling }

/-- What can be recorded next. -/
inductive Due (c : Controller) : Mark → Prop
  | answered (hphase : c.phase = .reading) : Due c (.answered (classify c.record))
  | timedOut (hphase : c.phase = .reading) (hcommand : c.command = some .at) : Due c .timedOut
  | accepted (hphase : c.phase = .writing) (bytes : Nat) (hsome : bytes ≠ 0)
      (hroom : bytes ≤ c.transmit.length - c.accepted) :
      Due c (.accepted ((c.transmit.drop c.accepted).take bytes))

/-- An error ends the dialogue; only what caused it may be in the history. -/
def Dropped (c : Controller) (_ : Error) (c' : Controller) : Prop :=
  c'.phase = .failed ∧
    (c'.history = c.history ∨ ∃ mark, Due c mark ∧ c'.history = c.history ++ [mark])

theorem Failed.dropped {c c' : Controller} {error : Error} (h : Failed c error c') :
    Dropped c error c' := ⟨h.1, .inl h.2⟩

/-- What is due depends on the phase, the command, its bytes and the record only. -/
theorem Dropped.of_same {c c₁ c' : Controller} {error : Error} (h : Dropped c₁ error c')
    (hphase : c₁.phase = c.phase) (hcommand : c₁.command = c.command)
    (htransmit : c₁.transmit = c.transmit) (haccepted : c₁.accepted = c.accepted)
    (hrecord : c₁.record = c.record) (hhistory : c₁.history = c.history) :
    Dropped c error c' := by
  obtain ⟨hfailed, hsame | ⟨mark, hmark, hnote⟩⟩ := h
  · exact ⟨hfailed, .inl (hsame.trans hhistory)⟩
  · refine ⟨hfailed, .inr ⟨mark, ?_, hhistory ▸ hnote⟩⟩
    cases hmark with
    | answered h => exact hrecord ▸ .answered (hphase ▸ h)
    | timedOut h h' => exact .timedOut (hphase ▸ h) (hcommand ▸ h')
    | accepted h bytes hsome hroom =>
        rw [htransmit, haccepted] at hroom ⊢
        exact .accepted (hphase ▸ h) bytes hsome hroom

/-- The mark was made before the error. -/
theorem Failed.dropped_note {c c₁ c' : Controller} {error : Error} {mark : Mark}
    (h : Failed c₁ error c') (hmark : Due c mark) (hnote : c₁.history = c.history ++ [mark]) :
    Dropped c error c' := ⟨h.1, .inr ⟨mark, hmark, h.2.trans hnote⟩⟩

/-- What the answer `OK` does. -/
def Advanced (now : Nat) (c c' : Controller) : Prop :=
  (∃ next, c.following = some next ∧ c' = c.starting next now) ∨
    c.command = some .cmux ∧
      (c' = { c with phase := .ready } ∨
        c' = { c with deadline := now + settleMs, phase := .settling })

/-- The command that follows, or the end. -/
theorem advance_spec (now : Nat) (c : Controller) :
    Ends (advance now) c (fun _ c' => Advanced now c c') (Failed c) := by
  have hstart : ∀ next, c.following = some next →
      Ends (start next now) c (fun _ c' => Advanced now c c') (Failed c) := fun next hnext =>
    (start_spec next now c).mono (fun _ c' h => .inl ⟨next, hnext, h⟩) fun _ _ h => h
  unfold Controller.following at hstart
  unfold advance
  rw [ends_bind, ends_get]
  cases hcommand : c.command with
  | none => exact ends_fail.mpr ⟨rfl, rfl⟩
  | some command =>
      rw [hcommand] at hstart
      cases command with
      | «at» => exact hstart _ rfl
      | atRetry => exact hstart _ rfl
      | reset => exact hstart _ rfl
      | echoOff => exact hstart _ rfl
      | pin => exact hstart _ rfl
      | cmux =>
          dsimp only
          rw [ends_ite]
          split
          · exact ends_set.mpr (.inr ⟨hcommand, .inl (by rw [hcommand])⟩)
          · unfold deadlineAfter
            cases hdeadline : checkedAdd now settleMs with
            | none => exact ends_fail.mpr ⟨rfl, rfl⟩
            | some deadline =>
                have hafter := checkedAdd_eq hdeadline
                subst hafter
                exact ends_set.mpr (.inr ⟨hcommand, .inr (by rw [hcommand])⟩)

/-- **What a finished line does.** -/
theorem takeRecord_spec (now : Nat) (c : Controller) :
    Ends (takeRecord now) c (fun _ c' => Taken now c c') (Dropped c) := by
  unfold takeRecord
  rw [ends_bind, ends_get]
  dsimp only
  rw [ends_bind, ends_set, ends_ite]
  split
  · rename_i hready
    rw [ends_bind, ends_modify]
    refine (start_spec _ _ _).mono ?_ ?_
    · rintro _ c' rfl
      exact .begun hready.1 hready.2
    · exact fun _ _ h => ⟨h.1, .inl h.2⟩
  rw [ends_ite]
  split
  · rename_i hphase
    exact (ends_pure _).mpr (.ignored hphase)
  rename_i hphase
  have hreading : c.phase = .reading := not_not.mp hphase
  -- from here on the line is in the history, and an error adds nothing to it
  have hdropped : ∀ e c', Failed (c.answered (classify c.record)) e c' → Dropped c e c' :=
    fun _ _ h => h.dropped_note (.answered hreading) rfl
  rw [ends_bind, ends_modify, ends_ite]
  split
  · rename_i hcmux
    refine ends_modify.mpr ?_
    rw [hcmux.1]
    exact .cmuxReady hreading hcmux.1 hcmux.2
  rw [ends_ite]
  split
  · rename_i hretry
    refine (start_spec _ _ _).mono ?_ hdropped
    rintro _ c' rfl
    rw [hretry.1]
    exact .retried hreading hretry.1 hretry.2
  rw [ends_ite]
  split
  · exact ends_fail.mpr (hdropped _ _ ⟨rfl, rfl⟩)
  rename_i hrejected
  rw [ends_ite]
  split
  · rename_i hok
    refine (advance_spec now _).mono ?_ hdropped
    rintro _ c' (⟨next, hnext, rfl⟩ | ⟨hcommand, rfl | rfl⟩)
    · rw [hok]
      exact .advanced hreading hok next hnext
    · rw [hok]
      exact .finished hreading hok hcommand
    · rw [hok]
      exact .settling hreading hok hcommand
  · rename_i hok
    exact (ends_pure _).mpr (.noted hreading hrejected hok)

/-! ### The clock -/

theorem clock_spec (now : Nat) (c : Controller) :
    Ends (clock now) c
      (fun _ c' => c.phase ≠ .failed ∧ c.lastNow ≤ now ∧ c' = { c with lastNow := now })
      (Failed c) := by
  unfold clock
  rw [ends_bind, ends_get, ends_ite]
  split
  · rename_i hfailed
    exact (ends_throw _).mpr ⟨hfailed, rfl⟩
  rename_i hphase
  rw [ends_ite]
  split
  · exact ends_fail.mpr ⟨rfl, rfl⟩
  · rename_i hnow
    exact ends_set.mpr ⟨hphase, Nat.le_of_not_lt hnow, rfl⟩

/-- The line ends of an answer that closes the dialogue are not for the multiplexer. -/
def Controller.closed (c : Controller) : Controller :=
  if c.phase = .settling ∨ c.phase = .ready then { c with lineEnd := true } else c

/-- **What the clock does.** -/
inductive Ticked (now : Nat) (c : Controller) : Controller → Prop
  /-- More of an unframed result may still come. -/
  | held (due : Nat) (htoken : c.tokenUntil = some due) (hdue : now < due) :
      Ticked now c { c with lastNow := now }
  /-- An unframed result has stood alone for long enough. -/
  | taken (due : Nat) (htoken : c.tokenUntil = some due) (hdue : ¬ now < due) (c' : Controller)
      (htaken : Taken now { c with lastNow := now, tokenUntil := none } c') :
      Ticked now c c'.closed
  | still (htoken : c.tokenUntil = none) (hremains : now < c.deadline) :
      Ticked now c { c with lastNow := now }
  | begun (htoken : c.tokenUntil = none) (hphase : c.phase = .waitingReady) :
      Ticked now c ({ c with lastNow := now }.starting .at now)
  | retried (htoken : c.tokenUntil = none) (hphase : c.phase = .reading)
      (hcommand : c.command = some .at) :
      Ticked now c (({ c with lastNow := now }.note .timedOut).starting .atRetry now)
  | settled (htoken : c.tokenUntil = none) (hphase : c.phase = .settling) :
      Ticked now c { c with lastNow := now, phase := .ready }
  | ready (htoken : c.tokenUntil = none) (hphase : c.phase = .ready) :
      Ticked now c { c with lastNow := now }

/-- **What a tick does.** -/
theorem tick_spec (now : Nat) (c : Controller) :
    Ends (tick now) c (fun _ c' => Ticked now c c') (Dropped c) := by
  unfold tick
  rw [ends_bind]
  refine (clock_spec now c).mono ?_ fun _ _ h => h.dropped
  rintro _ _ ⟨hphase, -, rfl⟩
  rw [ends_bind, ends_get]
  dsimp only
  split
  -- A result without its line end is held: nothing happens before its time is up.
  · rename_i due htoken
    rw [ends_ite]
    split
    · rename_i hdue
      exact (ends_pure _).mpr (.held due htoken hdue)
    · rename_i hdue
      rw [ends_bind, ends_set, ends_bind]
      refine (takeRecord_spec now _).mono ?_ ?_
      · intro _ c' htaken
        -- Then it is taken as it stands, and the phase it leads to may be the last.
        have hticked := Ticked.taken due htoken hdue c' htaken
        rw [ends_bind, ends_get, ends_ite]
        unfold Controller.closed at hticked
        split
        · rename_i hover
          rw [if_pos hover] at hticked
          exact ends_set.mpr hticked
        · rename_i hover
          rw [if_neg hover] at hticked
          exact (ends_pure _).mpr hticked
      · exact fun _ _ h => h.of_same rfl rfl rfl rfl rfl rfl
  · rename_i htoken
    rw [ends_ite]
    split
    -- No token is held: what follows is decided by the time that remains in the phase.
    · rename_i hremains
      exact (ends_pure _).mpr (.still htoken (of_decide_eq_true hremains))
    · split
      · rename_i hp
        refine (start_spec _ _ _).mono ?_ fun _ _ h => ⟨h.1, .inl h.2⟩
        rintro _ c' rfl
        exact .begun htoken hp
      · rename_i hp
        rw [ends_ite]
        split
        -- The first command may be sent again; any other ends the chat.
        · rename_i hcommand
          rw [ends_bind, ends_set]
          refine (start_spec _ _ _).mono ?_ fun _ _ h =>
            h.dropped_note (.timedOut hp hcommand) rfl
          rintro _ c' rfl
          exact .retried htoken hp hcommand
        · exact ends_fail.mpr ⟨rfl, .inl rfl⟩
      · exact ends_fail.mpr ⟨rfl, .inl rfl⟩
      · rename_i hp
        exact ends_set.mpr (.settled htoken hp)
      · rename_i hp
        exact (ends_pure _).mpr (.ready htoken hp)
      · rename_i hp
        exact absurd hp hphase

/-! ### Reading the input -/

theorem completeLine_spec (now : Nat) (c : Controller) :
    Ends (completeLine now) c
      (fun finished c' => ∃ c₁, Taken now c c₁ ∧ c' = c₁.closed ∧
        (finished = true ↔ c₁.phase = .settling ∨ c₁.phase = .ready))
      (Dropped c) := by
  unfold completeLine
  rw [ends_bind]
  refine (takeRecord_spec now c).mono ?_ fun _ _ h => h
  intro _ c₁ htaken
  rw [ends_bind, ends_get, ends_ite]
  split
  · rename_i hsettled
    rw [ends_bind, ends_set, ends_pure]
    exact ⟨c₁, htaken, (if_pos hsettled).symm, by simp [hsettled]⟩
  · rename_i hsettled
    rw [ends_pure]
    exact ⟨c₁, htaken, (if_neg hsettled).symm, by simp [hsettled]⟩

/-- The controller with one more byte in its record. -/
def Controller.with (c : Controller) (byte : UInt8) : Controller :=
  { c with record := c.record ++ [byte] }

/-- **What a byte does**: it is dropped, kept, or held as the end of a result. -/
theorem feedByte_spec (now : Nat) (byte : UInt8) (next : Option UInt8) (c : Controller) :
    Ends (feedByte now byte next) c
      (fun complete c' => c' = c ∨ c' = c.with byte ∨
        (complete = false ∧ next = none ∧
          c' = { c.with byte with tokenUntil := some (now + tokenSettleMs) }))
      (Failed c) := by
  unfold feedByte
  rw [ends_bind, ends_get, ends_ite]
  split
  · exact (ends_pure _).mpr (.inl rfl)
  rw [ends_ite]
  split
  swap
  · exact (ends_pure _).mpr (.inl rfl)
  rw [ends_ite]
  split
  · exact ends_fail.mpr ⟨rfl, rfl⟩
  rw [ends_bind, ends_set, ends_bind, ends_get, ends_ite]
  split
  · exact (ends_pure _).mpr (.inr (.inl rfl))
  · cases next with
    | some next => exact (ends_pure _).mpr (.inr (.inl rfl))
    | none =>
        cases hdue : checkedAdd now tokenSettleMs with
        | none => exact ends_fail.mpr ⟨rfl, rfl⟩
        | some due =>
            obtain rfl := checkedAdd_eq hdue
            dsimp only
            rw [ends_bind, ends_set, ends_pure]
            exact .inr (.inr ⟨rfl, rfl, rfl⟩)

theorem handOff_spec (input : List UInt8) (offset : Nat) (c : Controller) :
    Ends (handOff input offset) c (fun _ c' => c' = c ∨ c' = { c with lineEnd := false })
      fun _ _ => False := by
  unfold handOff
  rw [ends_bind, ends_get]
  dsimp only
  generalize (if c.lineEnd = true then lineEndBytes (input.drop offset) else 0) = skipped
  rw [ends_ite]
  split
  · rw [ends_bind, ends_set, ends_pure]
    exact .inr rfl
  · exact (ends_pure _).mpr (.inl rfl)

/-! ### Reports of the line -/

/-- The bytes of the command that are written next. -/
def Controller.offered (c : Controller) (bytes : Nat) : List UInt8 :=
  (c.transmit.drop c.accepted).take bytes

/-- **What a report of written bytes does.** -/
inductive Written (now bytes : Nat) (c : Controller) : Controller → Prop
  | part (hphase : c.phase = .writing) (hsome : bytes ≠ 0)
      (hroom : bytes ≤ c.transmit.length - c.accepted)
      (hpart : c.accepted + bytes ≠ c.transmit.length) :
      Written now bytes c
        { c.note (.accepted (c.offered bytes)) with
          lastNow := now
          accepted := c.accepted + bytes }
  /-- The answer to the command is awaited. -/
  | whole (hphase : c.phase = .writing) (hsome : bytes ≠ 0)
      (hroom : bytes ≤ c.transmit.length - c.accepted)
      (hwhole : c.accepted + bytes = c.transmit.length) :
      Written now bytes c
        { c.note (.accepted (c.offered bytes)) with
          lastNow := now
          phase := .reading
          token := none
          transmit := []
          accepted := 0
          record := [] }

/-- **What happens when bytes have been written.** -/
theorem acceptWritten_spec (now token bytes : Nat) (c : Controller) :
    Ends (acceptWritten now token bytes) c (fun _ c' => Written now bytes c c') (Dropped c) := by
  have hfail : ∀ error, Dropped c error ({ c with lastNow := now }.failed error) :=
    fun _ => ⟨rfl, .inl rfl⟩
  unfold acceptWritten
  rw [ends_bind]
  refine (clock_spec now c).mono ?_ fun _ _ h => h.dropped
  rintro _ _ ⟨-, -, rfl⟩
  rw [ends_bind, ends_get, ends_ite]
  split
  · exact ends_fail.mpr (hfail _)
  rename_i hwriting
  have hphase : c.phase = .writing := not_not.mp hwriting
  rw [ends_ite]
  split
  · exact ends_fail.mpr (hfail _)
  rw [ends_ite]
  split
  · exact ends_fail.mpr (hfail _)
  rename_i hsome
  rw [ends_ite]
  split
  · exact ends_fail.mpr (hfail _)
  rename_i hroom
  have hroom : bytes ≤ c.transmit.length - c.accepted := Nat.le_of_not_lt hroom
  rw [ends_bind, ends_set, ends_ite]
  split
  · exact ends_fail.mpr ⟨rfl, .inr ⟨_, .accepted hphase bytes hsome hroom, rfl⟩⟩
  rw [ends_ite]
  split
  · rename_i hwhole
    exact ends_modify.mpr (.whole hphase hsome hroom hwhole)
  · rename_i hpart
    exact ends_modify.mpr (.part hphase hsome hroom hpart)

theorem faulted_spec (now : Nat) (fault : Transport.Fault) (c : Controller) :
    Ends (faulted now fault) c (fun _ c' => Ticked now c c') (Dropped c) := by
  cases fault with
  | interrupted => exact tick_spec now c
  | wouldBlock => exact tick_spec now c
  | busy => exact tick_spec now c
  | endOfStream => exact ends_fail.mpr ⟨rfl, .inl rfl⟩
  | deviceReset => exact ends_fail.mpr ⟨rfl, .inl rfl⟩
  | failure => exact ends_fail.mpr ⟨rfl, .inl rfl⟩

/-- Reading the clock twice at one time is reading it once. -/
theorem Ticked.of_clock {now : Nat} {c c' : Controller}
    (h : Ticked now { c with lastNow := now } c') : Ticked now c c' := by
  cases h with
  | held due htoken hdue => exact .held due htoken hdue
  | taken due htoken hdue c' htaken => exact Ticked.taken (c := c) due htoken hdue c' htaken
  | still htoken hremains => exact .still htoken hremains
  | begun htoken hphase => exact .begun htoken hphase
  | retried htoken hphase hcommand => exact .retried htoken hphase hcommand
  | settled htoken hphase => exact .settled htoken hphase
  | ready htoken hphase => exact .ready htoken hphase

theorem readFault_spec (now : Nat) (fault : Transport.Fault) (c : Controller) :
    Ends (readFault now fault) c (fun _ c' => Ticked now c c') (Dropped c) := by
  unfold readFault
  rw [ends_bind]
  refine (clock_spec now c).mono ?_ fun _ _ h => h.dropped
  rintro _ _ ⟨-, -, rfl⟩
  exact (faulted_spec now fault _).mono (fun _ _ h => h.of_clock)
    fun _ _ h => h.of_same rfl rfl rfl rfl rfl rfl

theorem writeFault_spec (now token : Nat) (fault : Transport.Fault) (c : Controller) :
    Ends (writeFault now token fault) c (fun _ c' => Ticked now c c') (Dropped c) := by
  unfold writeFault
  rw [ends_bind]
  refine (clock_spec now c).mono ?_ fun _ _ h => h.dropped
  rintro _ _ ⟨-, -, rfl⟩
  rw [ends_bind, ends_get, ends_ite]
  split
  · exact ends_fail.mpr ⟨rfl, .inl rfl⟩
  rw [ends_ite]
  split
  · exact ends_fail.mpr ⟨rfl, .inl rfl⟩
  · exact (faulted_spec now fault _).mono (fun _ _ h => h.of_clock)
      fun _ _ h => h.of_same rfl rfl rfl rfl rfl rfl

/-! ### Runs -/

/-- A call of the controller. -/
inductive Event
  | feed (now : Nat) (input : List UInt8)
  | tick (now : Nat)
  | acceptWritten (now token bytes : Nat)
  | writeFault (now token : Nat) (fault : Transport.Fault)
  | readFault (now : Nat) (fault : Transport.Fault)
  | cancel
  /-- Another controller of the process took write tokens. -/
  | tokensTaken (count : Nat)

def Event.call : Event → Step Unit
  | .feed now input => do
      let _ ← Chat.feed now input
  | .tick now => Chat.tick now
  | .acceptWritten now token bytes => Chat.acceptWritten now token bytes
  | .writeFault now token fault => Chat.writeFault now token fault
  | .readFault now fault => Chat.readFault now fault
  | .cancel => Chat.cancel
  | .tokensTaken count => modify fun c => { c with nextWrite := c.nextWrite + count }

/-- The controller after a call, whether the call returned or failed. -/
def Controller.after (c : Controller) (event : Event) : Controller := endState (event.call c)

/-- The controllers a dialogue can reach. -/
inductive Reachable (config : Config) : Controller → Prop
  | new {now nextWrite : Nat} {c : Controller} (h : Controller.new config now nextWrite = .ok c) :
      Reachable config c
  | after {c : Controller} (h : Reachable config c) (event : Event) :
      Reachable config (c.after event)

theorem Reachable.run {config : Config} {c : Controller} (h : Reachable config c)
    (events : List Event) : Reachable config (events.foldl Controller.after c) := by
  induction events generalizing c with
  | nil => exact h
  | cons event events ih => exact ih (h.after event)

/-- Where a script leads can be computed. -/
theorem Reachable.of_script (config : Config) (events : List Event) (P : Controller → Prop)
    [DecidablePred P]
    (h : (Controller.new config 0 0).toOption.any
      (fun c => decide (P (events.foldl Controller.after c))) = true) :
    ∃ c, Reachable config c ∧ P c := by
  obtain ⟨c, hnew, hc⟩ := (Option.any_eq_true _ _).mp h
  refine ⟨_, ?_, of_decide_eq_true hc⟩
  cases hstart : Controller.new config 0 0 with
  | error e =>
      rw [hstart] at hnew
      cases hnew
  | ok c' =>
      rw [hstart] at hnew
      cases hnew
      exact (Reachable.new hstart).run events

/-- What every call keeps holds of every controller that can be reached. -/
theorem Reachable.invariant {config : Config} {I : Controller → Prop}
    (hnew : ∀ now nextWrite c, Controller.new config now nextWrite = .ok c → I c)
    (hcall : ∀ c (event : Event), I c → Ends event.call c (fun _ => I) fun _ => I) {c : Controller}
    (h : Reachable config c) : I c := by
  induction h with
  | new h => exact hnew _ _ _ h
  | after _ event ih => exact ends_endState.mp (hcall _ event ih)

/-! ### The tail -/

/-- The bytes for the multiplexer are bytes of the input. -/
def TailWithin (input : List UInt8) (fed : Feed) : Prop :=
  ∀ tail, fed.muxTail = some tail → tail.length ≤ input.length

theorem handOff_tailWithin (input : List UInt8) (offset : Nat) (c : Controller) :
    Ends (handOff input offset) c (fun fed _ => TailWithin input fed) fun _ _ => True := by
  have hdrop : ∀ n m, TailWithin input ⟨m, some (input.drop n)⟩ := by
    intro n m tail htail
    cases htail
    rw [List.length_drop]
    exact Nat.sub_le _ _
  unfold handOff
  rw [ends_bind, ends_get]
  dsimp only
  generalize (if c.lineEnd = true then lineEndBytes (input.drop offset) else 0) = skipped
  rw [ends_ite]
  split
  · rw [ends_bind, ends_set, ends_pure]
    exact hdrop _ _
  · exact (ends_pure _).mpr (hdrop _ _)

theorem feedLoop_tailWithin (now : Nat) (input rest : List UInt8) (index : Nat) (c : Controller) :
    Ends (feedLoop now input index rest) c (fun fed _ => TailWithin input fed)
      fun _ _ => True := by
  induction rest generalizing index c with
  | nil => exact (ends_pure _).mpr fun tail htail => by cases htail
  | cons byte rest ih =>
      unfold feedLoop
      rw [ends_bind]
      refine (ends_true _ _).mono ?_ fun _ _ _ => trivial
      intro complete c' _
      rw [ends_ite]
      split
      · rw [ends_bind]
        refine (ends_true _ _).mono ?_ fun _ _ _ => trivial
        intro finished c'' _
        rw [ends_ite]
        split
        · exact handOff_tailWithin _ _ _
        · exact ih _ _
      · exact ih _ _

/-- What is handed off is the end of what was fed. -/
theorem feed_tailWithin (now : Nat) (input : List UInt8) (c : Controller) :
    Ends (feed now input) c (fun fed _ => TailWithin input fed) fun _ _ => True := by
  unfold feed
  rw [ends_bind]
  refine (ends_true _ _).mono ?_ fun _ _ _ => trivial
  intro _ c₁ _
  rw [ends_bind]
  refine (ends_true _ _).mono ?_ fun _ _ _ => trivial
  intro whole c₂ _
  rw [ends_ite]
  split
  · exact handOff_tailWithin _ _ _
  · rw [ends_bind]
    refine (ends_true _ _).mono ?_ fun _ _ _ => trivial
    intro _ c₃ _
    rw [ends_bind, ends_get, ends_ite]
    split
    · exact handOff_tailWithin _ _ _
    · rw [ends_ite]
      split
      · exact ends_fail.mpr trivial
      · exact feedLoop_tailWithin _ _ _ _ _

end Mindone.Mux.Chat
