import Mindone.Mux.Runtime

/-!
# Mindone.Mux.Service

The owner of the multiplexer (`modem/mux/service.rs`, and the `Driver` of `platform.rs`): it
opens the modem, drives one runtime after the other, restarts it when it has closed, and
publishes what happened as system properties. The publication is shared with the runtime,
whose effects are property writes too.

Everything outside the process is an `Outside` over a world `ω`: devices, the property
backend, the opener, `poll` and two clocks, the one that the service is given and the one
behind `Instant`. The service's clock gives milliseconds; an `Instant` is a number of
nanoseconds, which the driver cuts to milliseconds since its own beginning. The `Host` is that
world with the publication, and with a `log` of the property writes and the openings that the
program never reads. A service also records the `escalations`: the instants that the driver had
read in the turns in which `recovery_tick` asked for a new multiplexer.
-/

namespace Mindone.Mux

open Mindone.Lib Transport

/-- `Pin::from_c_integer`: four digits at least, and none for a negative number. -/
def Chat.Pin.fromCInteger (value : Int) : Option Chat.Pin :=
  if value < 0 then none
  else
    let digits := (List.range 10).map fun i => value.toNat / 10 ^ (9 - i) % 10
    let zeros := (digits.takeWhile (· == 0)).length
    some ⟨(digits.drop (min 6 zeros)).map fun digit => UInt8.ofNat (0x30 + digit)⟩

namespace Runtime

variable {E ω : Type}

def recoveryCooldown (r : Runtime E ω) : Nat := r.session.recoveryCooldown r.lastNow

/-- The end of the wait that the state asks for. -/
def stateDeadline (r : Runtime E ω) : Option Nat :=
  match r.state with
  | .startup => r.chat.expiresAt
  | .multiplexing =>
      if r.localCloseAt.isSome then r.localCloseAt
      else
        let setup := if r.session.setupDone then none else some r.session.setupDeadline
        ([setup, r.session.recoveryDeadline, r.localCloseAt].filterMap id).min?
  | .peerClosing => r.closeAt
  | .closed | .failed => none

def retryPending (r : Runtime E ω) : Bool :=
  match r.state with
  | .startup => r.chat.pendingWrite.isSome
  | .multiplexing | .peerClosing => !r.context.tx.pending.isEmpty
  | .closed | .failed => false

def nextDeadline (r : Runtime E ω) : Option Nat :=
  if r.retryPending then
    let retry := max r.retryAt r.lastNow
    some (r.stateDeadline.elim retry fun due => min due retry)
  else r.stateDeadline

/-! ### Whether a turn asks for a new multiplexer -/

section Tick

variable (env : Env E ω)

/-- The call of `recovery_tick` in a turn, with its answer. -/
def tickRecovery (now : Nat) : Act E ω Bool := do
  if (← look (·.state)) = .multiplexing then
    let pending ← look fun r => !r.context.tx.pending.isEmpty
    let _ ← sessionDo (Session.pollTimeout now pending)
  else pure ()
  let r ← look id
  if r.state = .multiplexing ∧ r.localCloseAt = none then
    sessionDo (Session.recoveryTick (Context.sink env) now)
  else pure false

/-- A turn up to the answer of `recovery_tick`. -/
def turnTick (now : Nat) (events : List Ready) : Act E ω Bool := do
  let r ← look id
  if now < r.lastNow then throw .clockRegression
  else if events.length > maxChannels + 1 then throw .configuration
  else
    change fun r => { r with lastNow := now, polloutTurn := false }
    let readable ← look fun r => r.serialReadable events
    let r ← look id
    if r.state = .peerClosing ∧ r.closeAt.any fun due => decide (now ≥ due) then pure false
    else
      tickChat env now readable
      tickRecovery env now

/-- Whether `recovery_tick` answers `true` in this turn. -/
def escalates (r : Runtime E ω) (now : Nat) (events : List Ready) (limits : Limits) : Bool :=
  if r.state = .closed ∨ r.state = .failed then false
  else
    match TurnBudget.new limits.calls limits.bytes with
    | .error _ => false
    | .ok budget =>
        match turnTick env now events
            ⟨{ r with context := { r.context with discarded := 0 } }, budget, 0⟩ with
        | .ok answer _ => answer
        | .error _ _ => false

end Tick

end Runtime

namespace Service

open Mindone.Mux.Runtime (Env Event Interest Ready Limits Report)

def restartDelayMs : Nat := 5000
def reportWaitMs : Nat := 5000
def maxWaitMs : Nat := 1000

inductive Property
  | reporterRunning
  | modemException
  | muxReady
  | rilReady
  | atciUnavailable
  | reportCase
  | report
  | rilRestart
  deriving DecidableEq

inductive Value
  | zero
  | one
  | two
  deriving DecidableEq

/-! ### The world outside -/

/-- What `poll` comes back with: the events of each entry, an interruption, or an error. -/
inductive Polled
  | events (masks : List Nat)
  | interrupted
  | failed
  deriving DecidableEq

/-- The parts of an `Env` that are not the owner's, the property backend, the opener, the two
clocks and `poll`. -/
structure Outside (E ω : Type) where
  prepare : E → ω → Bool × ω
  descriptor : E → Int
  read : E → Nat → ω → (IoResult × List UInt8) × ω
  write : E → List UInt8 → ω → IoResult × ω
  openEndpoint : Dlci → ω → Option E × ω
  epochsTaken : ω → Nat × ω
  set : Property → Value → ω → Bool × ω
  openSerial : ω → Option (E × List ChannelConfig) × ω
  clock : ω → Option Nat × ω
  instant : ω → Nat × ω
  poll : List Interest → Nat → ω → Polled × ω

/-- The state of `Publication`. -/
structure Publication where
  initialized : Bool
  rilStarted : Bool
  rejected : Bool
  restartRil : Bool
  deriving DecidableEq

inductive Log
  /-- The backend was asked to set a property, and its answer. -/
  | wrote (property : Property) (value : Value) (accepted : Bool)
  /-- The opener was called. -/
  | opened
  deriving DecidableEq

structure Host (ω : Type) where
  world : ω
  publication : Publication
  log : List Log

namespace Host

variable {E ω : Type} (outside : Outside E ω)

/-- `PublicationState::set` -/
def set (property : Property) (value : Value) (h : Host ω) : Bool × Host ω :=
  if h.publication.rejected then (false, h)
  else
    let (accepted, w) := outside.set property value h.world
    let log := h.log ++ [.wrote property value accepted]
    if accepted then (true, { h with world := w, log })
    else (false, ⟨w, { h.publication with rejected := true }, log⟩)

/-- Two properties, the second one only after the first one was set. -/
def setBoth (first second : Property × Value) (h : Host ω) : Bool × Host ω :=
  let (accepted, h) := h.set outside first.1 first.2
  if accepted then h.set outside second.1 second.2 else (false, h)

/-- `Publication::initialize` -/
def initializeProperties (h : Host ω) : Bool × Host ω :=
  if h.publication.initialized then (!h.publication.rejected, h)
  else
    let (accepted, h) := h.setBoth outside (.reporterRunning, .zero) (.modemException, .zero)
    if accepted then (true, { h with publication := { h.publication with initialized := true } })
    else (false, h)

def recover (stage : Value) (h : Host ω) : Bool × Host ω :=
  if h.publication.initialized then h.setBoth outside (.reportCase, stage) (.report, .one)
  else (false, h)

/-- The first multiplexer starts the interface layer, the later ones restart it. -/
def ready (h : Host ω) : Bool × Host ω :=
  if h.publication.rilStarted then
    if h.publication.restartRil then h.set outside .rilRestart .one else (true, h)
  else
    let (accepted, h) := h.setBoth outside (.muxReady, .one) (.rilReady, .one)
    if accepted then (true, { h with publication := { h.publication with rilStarted := true } })
    else (false, h)

/-- `impl Effects for Publication` -/
def apply (event : Event) (h : Host ω) : Bool × Host ω :=
  if !h.publication.initialized || h.publication.rejected then (false, h)
  else
    match event with
    | .ready _ => h.ready outside
    | .atciUnavailable => h.set outside .atciUnavailable .one
    | .modemException => h.set outside .modemException .one

/-- A part of the world outside, for the host. -/
def lift {α : Type} (f : ω → α × ω) (h : Host ω) : α × Host ω :=
  ((f h.world).1, { h with world := (f h.world).2 })

/-- What the next reading of `Instant` will give. -/
def instant (h : Host ω) : Nat := (outside.instant h.world).1

end Host

/-- The world of the runtime. -/
def Outside.env {E ω : Type} (outside : Outside E ω) : Env E (Host ω) where
  prepare endpoint := Host.lift (outside.prepare endpoint)
  descriptor := outside.descriptor
  read endpoint size := Host.lift (outside.read endpoint size)
  write endpoint bytes := Host.lift (outside.write endpoint bytes)
  openEndpoint c := Host.lift (outside.openEndpoint c)
  apply := Host.apply outside
  epochsTaken := Host.lift outside.epochsTaken

/-! ### The driver -/

/-- The driver, with the instant at which its clock began. -/
structure Driver (E ω : Type) where
  runtime : Runtime E (Host ω)
  origin : Nat

/-- The nanoseconds in a millisecond. -/
def nanosPerMs : Nat := 1000000

/-- The events of one entry: `none` for an invalid descriptor. -/
def readyOf (interest : Interest) (mask : Nat) : Option (List Ready) :=
  if mask.testBit 3 then none
  else if mask = 0 then some []
  else
    some [{
      token := interest.token
      readable := mask.testBit 0 && interest.readable
      writable := mask.testBit 1 && interest.writable
      hangup := mask.testBit 2 }]

/-- The loop over the entries. -/
def readyLoop : List (Nat × Interest) → Option (List Ready)
  | [] => some []
  | (mask, interest) :: rest => do return (← readyOf interest mask) ++ (← readyLoop rest)

variable {E ω : Type} (outside : Outside E ω)

/-- `wait_ready`: `none` is an error. -/
def waitReady (interests : List Interest) (now : Nat) (deadline : Option Nat) (maximum : Nat)
    (h : Host ω) : Option (List Ready) × Host ω :=
  if interests.length > Runtime.maxChannels + 1 ∨ maximum > maxWaitMs then (none, h)
  else
    let timeout := deadline.elim maximum fun due => min maximum (due - now)
    match h.lift (outside.poll interests timeout) with
    | (.interrupted, h) => (some [], h)
    | (.failed, h) => (none, h)
    | (.events masks, h) => (readyLoop (masks.zip interests), h)

namespace Driver

/-- `origin.elapsed().as_millis()`, when it fits. -/
def now (driver : Driver E ω) (h : Host ω) : Option Nat × Host ω :=
  let (instant, h) := h.lift outside.instant
  let elapsed := (instant - driver.origin) / nanosPerMs
  (if elapsed ≤ u64Max then some elapsed else none, h)

/-- A turn of the runtime in the host's world: its report, the driver, the host, and the
instant behind `now` if `recovery_tick` asked for a new multiplexer. -/
def turn (driver : Driver E ω) (instant now : Nat) (events : List Ready) (limits : Limits)
    (h : Host ω) : Report × Driver E ω × Host ω × List Nat :=
  let runtime := { driver.runtime with context := { driver.runtime.context with world := h } }
  let (report, after) := Runtime.drive outside.env runtime now events limits
  (report, { driver with runtime := after }, after.context.world,
    if Runtime.escalates outside.env runtime now events limits then [instant] else [])

/-- `Driver::step`: `none` is an error, and then the runtime is stopped. -/
def step (driver : Driver E ω) (maximum : Nat) (limits : Limits) (h : Host ω) :
    Option Report × Driver E ω × Host ω × List Nat :=
  let stopped := { driver with runtime := driver.runtime.stop }
  let first := h.instant outside
  match driver.now outside h with
  | (none, h) => (none, stopped, h, [])
  | (some now, h) =>
      if driver.runtime.state = .closed ∨ driver.runtime.state = .failed then
        let (report, driver, h, escalations) := driver.turn outside first now [] limits h
        (some report, driver, h, escalations)
      else
        match waitReady outside driver.runtime.interests now driver.runtime.nextDeadline maximum
            h with
        | (none, h) => (none, stopped, h, [])
        | (some events, h) =>
            let second := h.instant outside
            match driver.now outside h with
            | (none, h) => (none, stopped, h, [])
            | (some now, h) =>
                let (report, driver, h, escalations) :=
                  driver.turn outside second now events limits h
                (some report, driver, h, escalations)

end Driver

/-! ### The service -/

structure Config where
  frameLimit : Nat
  baudIndex : Nat
  userBuild : Bool
  deriving DecidableEq

def Config.chat (config : Config) : Chat.Config :=
  { frameLimit := config.frameLimit
    baudIndex := config.baudIndex
    userBuild := config.userBuild
    pin := none }

inductive Exit
  | stopped
  | modemException
  | recoveryRequested
  | propertyRejected
  | unsupportedLocalClose
  | internalFailure
  deriving DecidableEq

inductive Phase
  | starting
  | running
  | restarting (deadline : Nat)
  | recovering (deadline : Nat)
  | finished (exit : Exit)
  deriving DecidableEq

def Phase.isFinished : Phase → Bool
  | .finished _ => true
  | _ => false

end Service

/-- The service of the source with its host; `generation` and `nextWrite` are the process-wide
counters that the next runtime goes on with. -/
structure Service (E ω : Type) where
  host : Service.Host ω
  config : Service.Config
  driver : Option (Service.Driver E ω)
  phase : Service.Phase
  lastNow : Nat
  runtimeError : Option Runtime.Error
  daemon : Option (Int × Int)
  escalationAfter : Nat
  generation : Nat
  nextWrite : Nat
  escalations : List Nat

namespace Service

open Mindone.Mux.Runtime (Limits Report)

variable {E ω : Type} (outside : Outside E ω)

def new (config : Config) (w : ω) (generation nextWrite : Nat) : Option (Service E ω) :=
  match Chat.Controller.new config.chat 0 nextWrite, outside.clock w with
  | .ok _, (some lastNow, w) =>
      some
        { host := ⟨w, ⟨false, false, false, false⟩, []⟩
          config
          driver := none
          phase := .starting
          lastNow
          runtimeError := none
          daemon := none
          escalationAfter := 0
          generation
          nextWrite
          escalations := [] }
  | _, _ => none

def daemonMode (s : Service E ω) (baud pin : Int) : Service E ω :=
  { s with
    daemon := some (baud, pin)
    host := { s.host with publication := { s.host.publication with restartRil := true } } }

/-- The driver is stopped; the counters of the process go on. -/
def close (s : Service E ω) : Service E ω :=
  match s.driver with
  | none => s
  | some driver =>
      { s with
        driver := none
        generation := driver.runtime.stop.context.generation
        nextWrite := driver.runtime.stop.chat.nextWrite }

def finish (s : Service E ω) (exit : Exit) : Service E ω := { s.close with phase := .finished exit }

def stop (s : Service E ω) : Service E ω :=
  if s.phase.isFinished then s else s.finish .stopped

/-- `Service::now`: without a time the service is finished. -/
def now (s : Service E ω) : Option Nat × Service E ω :=
  let (reading, host) := s.host.lift outside.clock
  let s := { s with host }
  match reading with
  | some now => if now ≥ s.lastNow then (some now, { s with lastNow := now })
      else (none, s.finish .internalFailure)
  | none => (none, s.finish .internalFailure)

def recovery (s : Service E ω) (now : Nat) : Service E ω :=
  let s := s.close
  match checkedAdd now reportWaitMs with
  | none => s.finish .internalFailure
  | some _ =>
      let (accepted, host) := s.host.recover outside .one
      let s := { s with host }
      if accepted then
        match s.now outside with
        | (none, s) => s
        | (some now, s) =>
            match checkedAdd now reportWaitMs with
            | none => s.finish .internalFailure
            | some deadline => { s with phase := .recovering deadline }
      else s.finish .propertyRejected

/-- The errors that end the service without a report. -/
def internalError : Runtime.Error → Bool
  | .clockRegression | .clockOverflow | .configuration | .invalidProgress => true
  | _ => false

def failed (s : Service E ω) (now : Nat) (error : Runtime.Error) : Service E ω :=
  let s := { s with runtimeError := some error }.close
  if s.host.publication.rejected then s.finish .propertyRejected
  else if error = .chat .deviceReset then
    let (accepted, host) := s.host.apply outside .modemException
    { s with host }.finish (if accepted then .modemException else .propertyRejected)
  else if error = .unsupportedLocalClose then s.finish .unsupportedLocalClose
  else if internalError error then s.finish .internalFailure
  else s.recovery outside now

/-- The chat of a driver: the daemon has its own baud rate and pin. -/
def chatConfig (s : Service E ω) : Chat.Config :=
  match s.daemon with
  | none => s.config.chat
  | some (baud, pin) =>
      { s.config.chat with baudIndex := baud, pin := Chat.Pin.fromCInteger pin }

/-- `Driver::new` -/
def newDriver (s : Service E ω) (serial : E) (channels : List ChannelConfig) :
    Except Runtime.Error (Driver E ω) × Service E ω :=
  let (origin, host) := s.host.lift outside.instant
  let s := { s with host }
  match Runtime.new outside.env serial channels s.chatConfig 0 s.host s.generation s.nextWrite with
  | (.error error, host) => (.error error, { s with host })
  | (.ok runtime, host) => (.ok ⟨runtime, origin⟩, { s with host })

/-- `Service::open` -/
def openModem (s : Service E ω) (now : Nat) : Service E ω :=
  let (accepted, host) := s.host.initializeProperties outside
  let s := { s with host }
  if accepted then
    let (parts, host) := s.host.lift outside.openSerial
    let s := { s with host := { host with log := host.log ++ [Log.opened] } }
    match parts with
    | none => s.recovery outside now
    | some (serial, channels) =>
        match s.newDriver outside serial channels with
        | (.error error, s) => s.failed outside now error
        | (.ok driver, s) =>
            let driver :=
              if s.daemon.isSome then
                { driver with runtime := driver.runtime.enableRecovery (s.escalationAfter - now) }
              else driver
            { s with driver := some driver, phase := .running }
  else s.finish .propertyRejected

def observed (s : Service E ω) (now : Nat) (report : Report) : Service E ω :=
  match report.state with
  | .failed => s.failed outside now (report.error.getD .io)
  | .closed =>
      let escalationAfter := s.driver.elim s.escalationAfter fun driver =>
        max s.escalationAfter (min (now + driver.runtime.recoveryCooldown) u64Max)
      let s := { s with escalationAfter }.close
      match checkedAdd now restartDelayMs with
      | none => s.finish .internalFailure
      | some deadline => { s with phase := .restarting deadline }
  | _ => s

/-- A step in `Running`, with the driver that the phase promises. -/
def drive (s : Service E ω) (driver : Driver E ω) (maximum : Nat) (limits : Limits) :
    Service E ω :=
  let (result, driver, host, escalations) := driver.step outside maximum limits s.host
  let s := { s with driver := some driver, host, escalations := s.escalations ++ escalations }
  match s.now outside with
  | (none, s) => s
  | (some now, s) =>
      match result with
      | some report => s.observed outside now report
      | none => s.recovery outside now

/-- A step in `Restarting` and `Recovering`. -/
def waitFor (s : Service E ω) (now deadline maximum : Nat) (due : Service E ω → Nat → Service E ω) :
    Service E ω :=
  let (waited, host) :=
    if now < deadline then waitReady outside [] now (some deadline) maximum s.host
    else (some [], s.host)
  let s := { s with host }
  match waited with
  | none => s.finish .internalFailure
  | some _ =>
      match s.now outside with
      | (none, s) => s
      | (some now, s) => if now ≥ deadline then due s now else s

/-- The second report, and the end. -/
def reportAgain (s : Service E ω) : Service E ω :=
  let (accepted, host) := s.host.recover outside .two
  { s with host }.finish (if accepted then .recoveryRequested else .propertyRejected)

def step (s : Service E ω) (maximum : Nat) (limits : Limits) : Service E ω :=
  if s.phase.isFinished then s
  else if maximum > maxWaitMs then s.finish .internalFailure
  else
    match s.now outside with
    | (none, s) => s
    | (some now, s) =>
        match s.phase with
        | .starting => s.openModem outside now
        | .running =>
            match s.driver with
            | some driver => s.drive outside driver maximum limits
            -- `expect`: a running service has a driver
            | none => s
        | .restarting deadline =>
            s.waitFor outside now deadline maximum fun s now => s.openModem outside now
        | .recovering deadline =>
            s.waitFor outside now deadline maximum fun s _ => s.reportAgain outside
        | .finished _ => s

/-! ### Runs -/

inductive Input
  | daemonMode (baud pin : Int)
  | step (maximum : Nat) (limits : Limits)
  | stop
  deriving DecidableEq

def next (s : Service E ω) : Input → Service E ω
  | .daemonMode baud pin => s.daemonMode baud pin
  | .step maximum limits => s.step outside maximum limits
  | .stop => s.stop

/-- The services that the owner can get to. -/
inductive Reach : Service E ω → Prop
  | new {config : Config} {w : ω} {generation nextWrite : Nat} {s : Service E ω}
      (h : Service.new outside config w generation nextWrite = some s) : Reach s
  | next {s : Service E ω} (h : Reach s) (input : Input) : Reach (s.next outside input)

end Service

end Mindone.Mux
