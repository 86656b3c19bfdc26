import Mindone.Lib.Program
import Mindone.Mux.Frame

/-!
# Mindone.Radio.At.Engine

The AT engine of one radio channel (`modem/radio/at/engine.rs`, `line.rs`). Commands wait in
a queue, one of them is active: it is written, and the lines that come back are its answer
or unsolicited. What does not fit (a late answer, a line that is too long, a time-out) puts
the engine in **quarantine**: after a silence it writes the probe `AT+CMEE?` and goes on only
when the probe has been answered.

The callback `emit` is the list `emitted` of the events so far. Besides the fields of the
source an engine keeps a `history` and a pending command the bytes that came since it was
written (`heard`); the program never reads either.
-/

namespace Mindone.Radio.At

open Mindone.Lib
open Mindone.Mux (checkedAdd u64Max)

/-! ### Lines -/

def lineBytes : Nat := 4096

inductive Record
  | line (text : List UInt8)
  | tooLarge
  deriving DecidableEq

structure Framer where
  bytes : List UInt8
  dropping : Bool
  deriving DecidableEq

def isPrintable (byte : UInt8) : Bool := 0x20 ≤ byte && byte ≤ 0x7e

namespace Framer

def new : Framer := ⟨[], false⟩

def bufferedBytes (framer : Framer) : Nat := framer.bytes.length

def push (framer : Framer) (byte : UInt8) : Framer × Option Record :=
  if byte = 0x0d ∨ byte = 0x0a then
    if framer.dropping then ({ framer with dropping := false }, none)
    else if framer.bytes = [] then (framer, none)
    else ({ framer with bytes := [] }, some (.line framer.bytes))
  else if framer.dropping ∨ ¬ isPrintable byte then (framer, none)
  else if framer.bytes.length = lineBytes then ({ bytes := [], dropping := true }, some .tooLarge)
  else ({ framer with bytes := framer.bytes ++ [byte] }, none)

end Framer

/-! ### Commands -/

def queueCommands : Nat := 64
def transactionBytes : Nat := 65536
def silenceMs : Nat := 300
def resyncTimeoutMs : Nat := 5000
def resyncAttempts : Nat := 3
def maxPrefixes : Nat := 64
def maxExtraFinals : Nat := 64

inductive Error
  | configuration
  | queueFull
  | clockRegression
  | clockOverflow
  | idExhausted
  | staleProgress
  | invalidProgress
  | unexpectedFinal
  | timeout
  | lineTooLarge
  | transactionTooLarge
  | tooManyLines
  | resyncFailed
  | failed
  deriving DecidableEq

inductive Quarantine
  | silence
  | writing
  | reading
  deriving DecidableEq

inductive Phase
  | idle
  | writing
  | reading
  | quarantine (part : Quarantine)
  | failed
  deriving DecidableEq

/-- The bytes of an ASCII text. -/
def ascii (text : List Char) : List UInt8 := text.map fun c => UInt8.ofNat c.toNat

def validText (text : List UInt8) : Bool :=
  text ≠ [] && text.length ≤ lineBytes && text.all isPrintable

/-- A command that `Command::new` and `with_extra_finals` accepted. -/
structure Command where
  text : List UInt8
  expectedPrefix : Option (List UInt8)
  extraFinals : List (List UInt8)
  maxLines : Nat
  deadline : Nat
  text_valid : validText text = true
  text_at : ascii ['A', 'T'] <+: text
  prefix_valid : ∀ start ∈ expectedPrefix, validText start = true
  finals_valid : ∀ line ∈ extraFinals, validText line = true ∧ line ≠ text
  deriving DecidableEq

namespace Command

def new (text : List UInt8) (expectedPrefix : Option (List UInt8)) (maxLines deadline : Nat) :
    Except Error Command :=
  if h : validText text = true ∧ ascii ['A', 'T'] <+: text ∧ maxLines ≤ transactionBytes ∧
      ∀ start ∈ expectedPrefix, validText start = true then
    .ok
      { text, expectedPrefix, extraFinals := [], maxLines, deadline
        text_valid := h.1
        text_at := h.2.1
        prefix_valid := h.2.2.2
        finals_valid := fun _ hline => absurd hline (List.not_mem_nil) }
  else .error .configuration

def withExtraFinals (command : Command) (finals : List (List UInt8)) : Except Error Command :=
  if h : finals.length ≤ maxExtraFinals ∧
      ∀ line ∈ finals, validText line = true ∧ line ≠ command.text then
    .ok { command with extraFinals := finals, finals_valid := h.2 }
  else .error .configuration

end Command

structure WriteRequest where
  token : Nat
  bytes : List UInt8
  deriving DecidableEq

structure Response where
  id : Nat
  intermediates : List (List UInt8)
  result : Except Error (List UInt8)
  /-- Not in the source: the bytes that came since the command was written. -/
  heard : List UInt8

inductive Event
  | completed (response : Response)
  | urc (line : List UInt8) (registered : Bool)
  | error (error : Error)
  | resynchronized

structure Pending where
  id : Nat
  command : Command
  intermediates : List (List UInt8)
  received : Nat
  heard : List UInt8

/-- What the history records. -/
inductive Note
  /-- A command is offered for writing. -/
  | started (id : Nat)
  /-- A byte was fed. -/
  | fed (now : Nat)
  /-- A line was completed in quarantine. -/
  | line (phase : Phase) (text : List UInt8) (terminal : Bool)
  | oversized
  /-- An error led into quarantine, or there again. -/
  | entered (now : Nat)
  /-- A probe is offered for writing. -/
  | probe (now : Nat)
  | probeWritten
  | resynchronized
  deriving DecidableEq

/-- The engine. `nextWrite` is the process-wide counter `NEXT_WRITE`; `emitted` and
`history` are not in the source. -/
structure Engine where
  phase : Phase
  lastNow : Nat
  nextId : Nat
  queue : List Pending
  active : Option Pending
  prefixes : List (List UInt8)
  lateFinals : List (List UInt8)
  framer : Framer
  transmit : List UInt8
  accepted : Nat
  token : Option Nat
  quietSince : Nat
  resyncDeadline : Nat
  attempts : Nat
  resyncIntermediate : Bool
  nextWrite : Nat
  emitted : List Event
  history : List Note

def okText : List UInt8 := ascii ['O', 'K']

/-- `AT+CMEE?` -/
def probeText : List UInt8 := ascii ['A', 'T', '+', 'C', 'M', 'E', 'E', '?']

def trim (text : List UInt8) : List UInt8 :=
  ((text.dropWhile (· == 0x20)).reverse.dropWhile (· == 0x20)).reverse

def isDigit (byte : UInt8) : Bool := 0x30 ≤ byte && byte ≤ 0x39

/-- The line is `start` and then digits, with blanks around them. -/
def numbered (start line : List UInt8) : Bool :=
  start.isPrefixOf line &&
    let value := trim (line.drop start.length)
    value ≠ [] && value.all isDigit

def standardFinal (line : List UInt8) : Bool :=
  line == okText || line == ascii ['E', 'R', 'R', 'O', 'R'] ||
    line == ascii ['N', 'O', ' ', 'C', 'A', 'R', 'R', 'I', 'E', 'R'] ||
    numbered (ascii ['+', 'C', 'M', 'E', ' ', 'E', 'R', 'R', 'O', 'R', ':']) line ||
    numbered (ascii ['+', 'C', 'M', 'S', ' ', 'E', 'R', 'R', 'O', 'R', ':']) line

/-- The line that answers the probe, before its `OK`. -/
def probeAnswer (line : List UInt8) : Bool :=
  numbered (ascii ['+', 'C', 'M', 'E', 'E', ':']) line

namespace Engine

def new (now : Nat) (urcPrefixes : List (List UInt8)) (nextWrite : Nat) : Except Error Engine :=
  if urcPrefixes.length > maxPrefixes ∨ ¬ urcPrefixes.all validText then .error .configuration
  else
    .ok
      { phase := .idle
        lastNow := now
        nextId := 0
        queue := []
        active := none
        prefixes := urcPrefixes
        lateFinals := []
        framer := .new
        transmit := []
        accepted := 0
        token := none
        quietSince := now
        resyncDeadline := 0
        attempts := 0
        resyncIntermediate := false
        nextWrite
        emitted := []
        history := [] }

def isQuarantined (e : Engine) : Bool :=
  match e.phase with
  | .quarantine _ => true
  | _ => false

def pendingWrite (e : Engine) : Option WriteRequest :=
  e.token.map fun token => ⟨token, e.transmit.drop e.accepted⟩

def note (e : Engine) (mark : Note) : Engine := { e with history := e.history ++ [mark] }

def emit (e : Engine) (event : Event) : Engine := { e with emitted := e.emitted ++ [event] }

/-- `Engine::complete`: the event for a command. -/
def complete (pending : Pending) (result : Except Error (List UInt8)) : Event :=
  .completed ⟨pending.id, pending.intermediates, result, pending.heard⟩

def clearWrite (e : Engine) : Engine := { e with token := none, transmit := [], accepted := 0 }

/-- Every command is answered with the error, the active one first. -/
def abort (e : Engine) (error : Error) : Engine :=
  { e.clearWrite with
    phase := .failed
    framer := .new
    active := none
    queue := []
    emitted := e.emitted ++
      ((e.active.toList ++ e.queue).map fun pending => complete pending (.error error)) ++
      [.error error] }

/-- `Engine::quarantine`. -/
def enter (e : Engine) (now : Nat) (error : Error) : Engine :=
  let e := e.note (.entered now)
  let e :=
    match e.active with
    | some pending =>
        { e with active := none, lateFinals := pending.command.extraFinals }.emit
          (complete pending (.error error))
    | none => e
  { e.clearWrite with
    phase := .quarantine .silence
    quietSince := now
    attempts := 0
    resyncIntermediate := false }.emit (.error error)

/-- The queue without the commands whose time is over. -/
def expireQueue (e : Engine) (now : Nat) : Engine :=
  { e with
    queue := e.queue.filter fun pending => now < pending.command.deadline
    emitted := e.emitted ++
      ((e.queue.filter fun pending => pending.command.deadline ≤ now).map
        fun pending => complete pending (.error .timeout)) }

/-- The time of the active command is over. -/
def overdue (e : Engine) (now : Nat) : Bool :=
  e.active.any fun pending => pending.command.deadline ≤ now

def urc (e : Engine) (line : List UInt8) : Engine :=
  e.emit (.urc line (e.prefixes.any fun start => start.isPrefixOf line))

/-- A line that ends the answer to a command that waits. -/
def queuedFinal (e : Engine) (line : List UInt8) : Bool :=
  e.queue.any fun pending => pending.command.extraFinals.contains line

/-- `Engine::record` in quarantine. -/
def recordQuarantined (e : Engine) (now : Nat) (line : List UInt8) : Engine :=
  let terminal := standardFinal line || e.lateFinals.contains line || e.queuedFinal line
  let e := e.note (.line e.phase line terminal)
  if terminal then
    if e.phase = .quarantine .reading ∧ e.resyncIntermediate ∧ line = okText then
      ({ e with phase := .idle, lateFinals := [], resyncIntermediate := false }.note
        .resynchronized).emit .resynchronized
    else
      { e.clearWrite with
        phase := .quarantine .silence
        quietSince := now
        resyncIntermediate := false }
  else if e.phase = .quarantine .reading ∧ probeAnswer line then
    { e with resyncIntermediate := true }
  else if line ≠ probeText then e.urc line
  else e

/-- A line that is no answer to the active command. -/
def recordStray (e : Engine) (now : Nat) (line : List UInt8) : Engine :=
  if e.active.isNone ∧ (standardFinal line ∨ e.queuedFinal line) then e.enter now .unexpectedFinal
  else e.urc line

/-- `Engine::record` with an active command. -/
def recordActive (e : Engine) (now : Nat) (pending : Pending) (line : List UInt8) : Engine :=
  if line = pending.command.text then e
  else
    let terminal := standardFinal line || pending.command.extraFinals.contains line
    let intermediate := pending.command.expectedPrefix.any fun start => start.isPrefixOf line
    if terminal || intermediate then
      if e.phase ≠ .reading then
        if terminal then e.enter now .unexpectedFinal else e.urc line
      else if terminal then
        { e with active := none, phase := .idle }.emit (complete pending (.ok line))
      else if pending.intermediates.length = pending.command.maxLines then
        e.enter now .tooManyLines
      else
        { e with active := some { pending with intermediates := pending.intermediates ++ [line] } }
    else e.recordStray now line

def record (e : Engine) (now : Nat) (line : List UInt8) : Engine :=
  if e.isQuarantined then e.recordQuarantined now line
  else
    match e.active with
    | some pending => e.recordActive now pending line
    | none => e.recordStray now line

/-- What the active command counts of a byte. -/
def count (e : Engine) (now : Nat) (byte : UInt8) : Engine :=
  match e.active with
  | some pending =>
      let heard := if e.phase = .reading then pending.heard ++ [byte] else pending.heard
      let pending := { pending with received := pending.received + 1, heard }
      let e := { e with active := some pending }
      if pending.received > transactionBytes then e.enter now .transactionTooLarge else e
  | none => e

/-- The loop body of `feed`. -/
def absorb (now : Nat) (e : Engine) (byte : UInt8) : Engine :=
  let e := e.note (.fed now)
  let e := if e.isQuarantined then { e with quietSince := now } else e
  let e := e.count now byte
  let (framer, record) := e.framer.push byte
  let e := { e with framer }
  match record with
  | some (.line line) => e.record now line
  | some .tooLarge => (e.note .oversized).enter now .lineTooLarge
  | none => e

end Engine

/-! ### Calls -/

abbrev Step := EStateM Error Engine

def fail {α : Type} (error : Error) : Step α := fun e => .error error (e.abort error)

def clock (now : Nat) : Step Unit := do
  let e ← get
  if e.phase = .failed then throw .failed
  else if now < e.lastNow then fail .clockRegression
  else set { e with lastNow := now }

def expire (now : Nat) : Step Unit := do
  modify fun e => if e.overdue now then e.enter now .timeout else e
  let e ← get
  if (e.phase = .quarantine .writing ∨ e.phase = .quarantine .reading) ∧ e.resyncDeadline ≤ now then
    fail .resyncFailed
  else set (e.expireQueue now)

def write (bytes : List UInt8) : Step Unit := do
  let e ← get
  match checkedAdd e.nextWrite 1 with
  | none => fail .idExhausted
  | some token =>
      set { e with nextWrite := token, transmit := bytes, accepted := 0, token := some token }

def enqueue (command : Command) : Step Nat := do
  let e ← get
  if e.phase = .failed then throw .failed
  else if e.queue.length = queueCommands then throw .queueFull
  else
    match checkedAdd e.nextId 1 with
    | none => throw .idExhausted
    | some id =>
        let pending : Pending := { id, command, intermediates := [], received := 0, heard := [] }
        set { e with nextId := id, queue := e.queue ++ [pending] }
        return id

def tick (now : Nat) : Step Unit := do
  clock now
  expire now
  let e ← get
  if e.phase = .quarantine .silence ∧ silenceMs ≤ now - e.quietSince then
    if e.attempts = resyncAttempts then fail .resyncFailed
    else
      match checkedAdd now resyncTimeoutMs with
      | none => fail .clockOverflow
      | some deadline =>
          set
            { e with
              resyncDeadline := deadline
              attempts := e.attempts + 1
              resyncIntermediate := false
              framer := .new
              phase := .quarantine .writing }
          write (probeText ++ [0x0d])
          modify fun e => e.note (.probe now)
  else if e.phase = .idle ∧ e.framer.bufferedBytes = 0 then
    match e.queue with
    | [] => pure ()
    | pending :: queue =>
        set { e with queue, active := some pending, phase := .writing }
        write (pending.command.text ++ [0x0d])
        modify fun e => e.note (.started pending.id)
  else pure ()

def acceptWritten (now token bytes : Nat) : Step Unit := do
  clock now
  let e ← get
  let timedOut := e.token = some token ∧ e.overdue now
  expire now
  if timedOut then throw .timeout
  else
    let e ← get
    if e.token ≠ some token then fail .staleProgress
    else if bytes = 0 ∨ bytes > e.transmit.length - e.accepted then fail .invalidProgress
    else if e.accepted + bytes = e.transmit.length then
      match e.phase with
      | .writing => set { e.clearWrite with phase := .reading }
      | .quarantine .writing =>
          set ({ e.clearWrite with phase := .quarantine .reading }.note .probeWritten)
      | _ =>
          set { e with accepted := e.accepted + bytes }
          fail .invalidProgress
    else set { e with accepted := e.accepted + bytes }

def feed (now : Nat) (input : List UInt8) : Step Unit := do
  clock now
  expire now
  modify fun e => input.foldl (Engine.absorb now) e

end Mindone.Radio.At
