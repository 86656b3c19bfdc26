import Mindone.Mux.Transport

/-!
# Mindone.Mux.Chat

The AT dialogue that brings the serial line into multiplexer mode
(`modem/mux/chat.rs`). The controller waits for the modem, sends one command after
the other and reads the answers line by line; what follows the answer to `AT+CMUX`
already belongs to the multiplexer and is handed off.

The record and transmit buffers are kept as the lists of their live bytes: nothing
reads a dead cell. Besides the fields of the source the controller keeps a `history` of
the commands, the accepted bytes and the answers; the program never reads it.
-/

namespace Mindone.Mux.Chat

open Mindone.Lib Transport

def chatBytes : Nat := 4096
def commandBytes : Nat := 128
def commandTimeoutMs : Nat := 5000
def readyWaitMs : Nat := 20000
def userReadyWaitMs : Nat := 10000
def settleMs : Nat := 1000
def tokenSettleMs : Nat := 20

inductive Error
  | configuration
  | invalidPin
  | clockOverflow
  | clockRegression
  | epochExhausted
  | failed
  | unexpectedState
  | staleProgress
  | invalidProgress
  | noProgress
  | lateProgress
  | timeout
  | rejected
  | inputTooLarge
  | recordTooLarge
  | invalidRecord
  | endOfStream
  | deviceReset
  | ioFailure
  | cancelled
  deriving DecidableEq

/-- The bytes of an ASCII text. -/
def ascii (text : List Char) : List UInt8 := text.map fun c => UInt8.ofNat c.toNat

def isDigit (byte : UInt8) : Bool := 0x30 ≤ byte && byte ≤ 0x39

structure Pin where
  digits : List UInt8
  deriving DecidableEq

def Pin.new (input : List UInt8) : Except Error Pin :=
  if ¬ (4 ≤ input.length ∧ input.length ≤ 8) ∨ ¬ input.all isDigit then .error .invalidPin
  else .ok ⟨input⟩

structure Config where
  frameLimit : Nat
  baudIndex : Int
  userBuild : Bool
  pin : Option Pin

inductive Command
  | at
  | atRetry
  | reset
  | echoOff
  | pin
  | cmux
  deriving DecidableEq

inductive Phase
  | waitingReady
  | writing
  | reading
  | settling
  | ready
  | failed
  deriving DecidableEq

structure WriteRequest where
  token : Nat
  bytes : List UInt8

/-- What `feed` took of its input, and the rest when it is for the multiplexer. -/
structure Feed where
  consumed : Nat
  muxTail : Option (List UInt8)

inductive Record
  | other
  | ready
  | ok
  | rejected
  | cmuxReady
  deriving DecidableEq

/-- What the history records. -/
inductive Mark
  | started (command : Command)
  /-- Bytes of the command were reported as written. -/
  | accepted (bytes : List UInt8)
  /-- A line was read while the answer to the command was awaited. -/
  | answered (record : Record)
  /-- The time for the answer was over. -/
  | timedOut
  deriving DecidableEq

/-- `Deadline::after`. -/
def deadlineAfter (now duration : Nat) : Option Nat := checkedAdd now duration

/-- Whether `Deadline::remaining` is some time. -/
def remains (expiresAt now : Nat) : Bool := now < expiresAt

/-- The dialogue. `nextWrite` is the process-wide counter `NEXT_WRITE`, and `history` is
not in the source. -/
structure Controller where
  phase : Phase
  command : Option Command
  deadline : Nat
  lastNow : Nat
  pin : Option Pin
  frameLimit : Nat
  baudIndex : Int
  indicationSeen : Bool
  cmuxReady : Bool
  token : Option Nat
  transmit : List UInt8
  accepted : Nat
  record : List UInt8
  lineEnd : Bool
  tokenUntil : Option Nat
  error : Option Error
  nextWrite : Nat
  history : List Mark

def lineEndBytes (input : List UInt8) : Nat :=
  (input.takeWhile fun byte => byte == 0x0d || byte == 0x0a).length

def isPrintable (byte : UInt8) : Bool := 0x20 ≤ byte && byte ≤ 0x7e

def okText : List UInt8 := ascii ['O', 'K']
def errorText : List UInt8 := ascii ['E', 'R', 'R', 'O', 'R']
def readyText : List UInt8 := ascii ['+', 'E', 'I', 'N', 'D', ':', ' ', '1', '2', '8']
def cmuxReadyText : List UInt8 :=
  ascii ['+', 'C', 'M', 'U', 'X', ':', ' ', 'R', 'E', 'A', 'D', 'Y']

def tokenBoundary (token : List UInt8) (next : UInt8) : Bool :=
  !isPrintable next || (token == cmuxReadyText && (next == 0x4f || next == 0x45))

/-- A step of the dialogue. -/
abbrev Step := EStateM Error Controller

namespace Controller

def note (c : Controller) (mark : Mark) : Controller :=
  { c with history := c.history ++ [mark] }

def new (config : Config) (now nextWrite : Nat) : Except Error Controller :=
  if ¬ ValidLimit config.frameLimit then .error .configuration
  else
    match deadlineAfter now (if config.userBuild then userReadyWaitMs else readyWaitMs) with
    | none => .error .clockOverflow
    | some deadline =>
        .ok
          { phase := .waitingReady
            command := none
            deadline
            lastNow := now
            pin := config.pin
            frameLimit := config.frameLimit
            baudIndex := config.baudIndex
            indicationSeen := false
            cmuxReady := false
            token := none
            transmit := []
            accepted := 0
            record := []
            lineEnd := false
            tokenUntil := none
            error := none
            nextWrite
            history := [] }

def tokenPending (c : Controller) : Bool := c.tokenUntil.isSome

def expiresAt (c : Controller) : Option Nat :=
  if c.phase = .ready ∨ c.phase = .failed then none
  else some (c.tokenUntil.elim c.deadline fun due => min due c.deadline)

/-- The bytes of the command that are still to be written; `token` is set while
the phase is `Writing`. -/
def pendingWrite (c : Controller) : Option WriteRequest :=
  if c.phase = .writing then
    c.token.map fun token => ⟨token, c.transmit.drop c.accepted⟩
  else none

end Controller

/-- The error is returned and remembered; the dialogue is over. -/
def fail {α : Type} (error : Error) : Step α := fun c =>
  .error error
    { c with
      phase := .failed
      error := some error
      token := none
      transmit := []
      accepted := 0
      record := []
      tokenUntil := none
      pin := none }

def clock (now : Nat) : Step Unit := do
  let c ← get
  if c.phase = .failed then throw .failed
  else if now < c.lastNow then fail .clockRegression
  else set { c with lastNow := now }

def append (value : List UInt8) : Step Unit := do
  let c ← get
  if value.length > commandBytes - c.transmit.length then fail .configuration
  else set { c with transmit := c.transmit ++ value }

/-- The decimal digits of a number. -/
def decimalDigits (value : Nat) : List UInt8 :=
  if value < 10 then [UInt8.ofNat (48 + value)]
  else decimalDigits (value / 10) ++ [UInt8.ofNat (48 + value % 10)]
termination_by value
decreasing_by omega

/-- The text of a command, without the closing carriage return. -/
def commandText (command : Command) : Step Unit := do
  match command with
  | .at | .atRetry => append (ascii ['A', 'T'])
  | .reset => append (ascii ['A', 'T', 'Z'])
  | .echoOff => append (ascii ['A', 'T', 'E', '0'])
  | .pin =>
      let c ← get
      match c.pin with
      | none => fail .configuration
      | some pin =>
          set { c with pin := none }
          append (ascii ['A', 'T', '+', 'C', 'P', 'I', 'N', '='])
          append pin.digits
  | .cmux =>
      let c ← get
      append (ascii ['A', 'T', '+', 'C', 'M', 'U', 'X', '=', '0', ',', '0', ','])
      if c.baudIndex < 0 then append (ascii ['-'])
      append (decimalDigits c.baudIndex.natAbs)
      append (ascii [','])
      append (decimalDigits c.frameLimit)

def start (command : Command) (now : Nat) : Step Unit := do
  let c ← get
  match deadlineAfter now commandTimeoutMs with
  | none => fail .clockOverflow
  | some deadline =>
      match checkedAdd c.nextWrite 1 with
      | none => fail .epochExhausted
      | some token =>
          set { c with nextWrite := token, transmit := [], accepted := 0, record := [] }
          commandText command
          append [0x0d]
          modify fun c =>
            { c.note (.started command) with
              deadline
              command := some command
              token := some token
              phase := .writing }

/-- `OK` to the command before. -/
def advance (now : Nat) : Step Unit := do
  let c ← get
  match c.command with
  | some .at | some .atRetry => start .reset now
  | some .reset => start .echoOff now
  | some .echoOff => start (if c.pin.isSome then .pin else .cmux) now
  | some .pin => start .cmux now
  | some .cmux =>
      if c.cmuxReady then set { c with phase := .ready }
      else
        match deadlineAfter now settleMs with
        | none => fail .clockOverflow
        | some deadline => set { c with deadline, phase := .settling }
  | none => fail .unexpectedState

def classify (record : List UInt8) : Record :=
  if record = okText then .ok
  else if record = errorText then .rejected
  else if record = readyText then .ready
  else if record = cmuxReadyText then .cmuxReady
  else .other

/-- `Controller::record`: a complete line has been read. -/
def takeRecord (now : Nat) : Step Unit := do
  let c ← get
  let record := classify c.record
  set { c with record := [] }
  if c.phase = .waitingReady ∧ record = .ready then
    modify fun c => { c with indicationSeen := true }
    start .at now
  else if c.phase ≠ .reading then pure ()
  else
    modify fun c => c.note (.answered record)
    if record = .cmuxReady ∧ c.command = some .cmux then
      modify fun c => { c with cmuxReady := true }
    else if record = .rejected ∧ c.command = some .at then start .atRetry now
    else if record = .rejected then fail .rejected
    else if record = .ok then advance now
    else pure ()

def tick (now : Nat) : Step Unit := do
  clock now
  let c ← get
  match c.tokenUntil with
  | some due =>
      if now < due then pure ()
      else
        set { c with tokenUntil := none }
        takeRecord now
        let c ← get
        if c.phase = .settling ∨ c.phase = .ready then set { c with lineEnd := true } else pure ()
  | none =>
      if remains c.deadline now then pure ()
      else
        match c.phase with
        | .waitingReady => start .at now
        | .reading =>
            if c.command = some .at then
              set (c.note .timedOut)
              start .atRetry now
            else fail .timeout
        | .writing => fail .timeout
        | .settling => set { c with phase := .ready }
        | .ready => pure ()
        | .failed => throw .failed

def acceptWritten (now token bytes : Nat) : Step Unit := do
  clock now
  let c ← get
  if c.phase ≠ .writing then fail .unexpectedState
  else if some token ≠ c.token then fail .staleProgress
  else if bytes = 0 then fail .noProgress
  else if bytes > c.transmit.length - c.accepted then fail .invalidProgress
  else
    set (c.note (.accepted ((c.transmit.drop c.accepted).take bytes)))
    if ¬ remains c.deadline now then fail .lateProgress
    else if c.accepted + bytes = c.transmit.length then
      modify fun c =>
        { c with phase := .reading, token := none, transmit := [], accepted := 0, record := [] }
    else modify fun c => { c with accepted := c.accepted + bytes }

def cancel : Step Unit := fail .cancelled

/-- The end of both fault reports. -/
def faulted (now : Nat) (fault : Fault) : Step Unit :=
  match fault with
  | .interrupted | .wouldBlock | .busy => tick now
  | .endOfStream => fail .endOfStream
  | .deviceReset => fail .deviceReset
  | .failure => fail .ioFailure

def writeFault (now token : Nat) (fault : Fault) : Step Unit := do
  clock now
  let c ← get
  if c.phase ≠ .writing then fail .unexpectedState
  else if some token ≠ c.token then fail .staleProgress
  else faulted now fault

def readFault (now : Nat) (fault : Fault) : Step Unit := do
  clock now
  faulted now fault

def Controller.unframedCmuxResult (c : Controller) : Bool :=
  c.phase == .reading && c.command == some .cmux &&
    (c.record == okText || c.record == errorText || c.record == cmuxReadyText)

def handOff (input : List UInt8) (offset : Nat) : Step Feed := do
  let c ← get
  let rest := input.drop offset
  let skipped := if c.lineEnd then lineEndBytes rest else 0
  if skipped < rest.length then set { c with lineEnd := false } else pure ()
  return { consumed := offset + skipped, muxTail := some (input.drop (offset + skipped)) }

/-- `Controller::complete`: whether the line ends the dialogue. -/
def completeLine (now : Nat) : Step Bool := do
  takeRecord now
  let c ← get
  if c.phase = .settling ∨ c.phase = .ready then
    set { c with lineEnd := true }
    return true
  else return false

/-- What one byte of the input does to the record: whether a line is complete. -/
def feedByte (now : Nat) (byte : UInt8) (next : Option UInt8) : Step Bool := do
  let c ← get
  if byte = 0x0d ∨ byte = 0x0a then return c.record ≠ []
  else if isPrintable byte then
    if c.record.length = chatBytes then fail .recordTooLarge
    else
      set { c with record := c.record ++ [byte] }
      let c ← get
      if !c.unframedCmuxResult then return false
      else
        match next with
        | some next => return tokenBoundary c.record next
        | none =>
            match checkedAdd now tokenSettleMs with
            | none => fail .clockOverflow
            | some due =>
                set { c with tokenUntil := some due }
                return false
  else return false

/-- The loop of `feed`, with the bytes from `index` on still to come. -/
def feedLoop (now : Nat) (input : List UInt8) : Nat → List UInt8 → Step Feed
  | _, [] => pure { consumed := input.length, muxTail := none }
  | index, byte :: rest => do
      if ← feedByte now byte rest.head? then
        if ← completeLine now then handOff input (index + 1)
        else feedLoop now input (index + 1) rest
      else feedLoop now input (index + 1) rest

/-- The first lines of `feed`: the byte that ends an unframed result. Whether the input
is handed off whole. -/
def feedBoundary (now : Nat) (input : List UInt8) : Step Bool := do
  let c ← get
  match c.tokenUntil, input.head? with
  | some _, some first =>
      set { c with tokenUntil := none }
      if tokenBoundary c.record first then completeLine now else return false
  | _, _ => return false

def feed (now : Nat) (input : List UInt8) : Step Feed := do
  clock now
  if ← feedBoundary now input then handOff input 0
  else
    tick now
    let c ← get
    if c.phase = .settling ∨ c.phase = .ready then handOff input 0
    else if input.length > chatBytes then fail .inputTooLarge
    else feedLoop now input 0 input

end Mindone.Mux.Chat
