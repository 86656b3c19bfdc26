import Mindone.Radio.At.EngineMoves
import Mindone.Radio.Core.Types
import Mindone.Radio.Modem.Service
import Mindone.Radio.Network.Service

/-!
# Mindone.Radio.Core.Core

The radio core (`modem/radio/core/lib.rs`): the engines of the four command channels, the two
services, and the model of the modem's state. It boots the modem with a list of commands, holds
requests back until that is done, hands every event of an engine to the services, and **gives
everything up when an engine reports an error or a deadline passes** (`onReset`), until it is
connected again.

A method that can fail keeps what it did before it stopped (`Step`). The keys of `invocations` are
given in increasing order, so that the map is the list of its entries as they come. Besides the
fields of the source a core keeps the serials that were submitted; the program never reads them.
-/

set_option linter.dupNamespace false

namespace Mindone.Radio.Core

open At (Channels Event Framer Heard)
open State (Eind Knowledge Model Radio Source Update)
open Mindone.Lib (endState)
open Mindone.Mux (checkedAdd)

def channelIds : List Nat := [1, 3, 6, 8]
def requestLimit : Nat := 1024
def commandTimeoutMs : Nat := 5000
def bootTimeoutMs : Nat := 30000

def prefixes : List Text :=
  [text "+EREG:", text "+EGREG:", text "+ECSQ:", text "+ESIMS:", text "+EUSIM:", text "+CPIN:",
    text "+ECPIN:", text "+EIND:", text "+ESLOTSINFO:"]

structure Invocation where
  serial : Int
  deadline : Nat
  waiting : Option Request
  deriving DecidableEq

structure BootStep where
  channel : Nat
  command : Text
  expectedPrefix : Option Text
  required : Bool
  deriving DecidableEq

structure BootActive where
  channel : Nat
  id : Nat
  step : BootStep
  deriving DecidableEq

/-- The entry is of the command of the channel. -/
def BootActive.isOf (active : BootActive) (channel id : Nat) : Bool :=
  active.channel = channel && active.id = id

/-- An entry of `internal_deadlines`. -/
structure InternalDeadline where
  channel : Nat
  id : Nat
  deadline : Nat
  deriving DecidableEq

structure Core where
  channels : Channels
  notification : Framer
  model : Model
  network : Network.Network
  modem : Modem.Modem
  available : Bool
  ready : Bool
  now : Nat
  nextId : Int
  invocations : List (Int × Invocation)
  outputs : List Output
  boot : List BootStep
  bootActive : Option BootActive
  bootDeadline : Option Nat
  internalDeadlines : List InternalDeadline
  lastEind : Option Eind
  submitted : List Int

def bootSteps : List BootStep :=
  [⟨8, text "ATE0Q0V1", none, true⟩, ⟨8, text "AT+CMEE=1", none, true⟩,
    ⟨8, text "AT+CMER=1,0,0,2,0", none, true⟩, ⟨8, text "AT+ICCID=1", none, false⟩,
    ⟨8, text "AT+ESIMS=1", none, true⟩, ⟨8, text "AT+ESIMS", some (text "+ESIMS:"), true⟩,
    ⟨8, text "AT+EFUN=0", none, true⟩, ⟨1, text "AT+EREG=3", none, true⟩,
    ⟨1, text "AT+EGREG=3,1", none, true⟩, ⟨1, text "AT+PSBEARER=1", none, false⟩,
    ⟨1, text "AT+ECSQ=1", none, true⟩]

/-- What a boot goes on with where the modem does not know `AT+EGREG=3,1`. -/
def egregFallback : BootStep := ⟨1, text "AT+EGREG=3", none, true⟩

/-- A registration that only moved is told if the filter asks for it; the rest always is. -/
def isEssential (model : Model) : Update → Bool
  | .registration domain next =>
      let old :=
        match domain with
        | .cs => model.cs.value
        | .ps => model.ps.value
      match old with
      | .known previous =>
          previous.state != next.state || previous.rejectCause != next.rejectCause ||
            previous.emergencyStatusUnverified != next.emergencyStatusUnverified
      | .unknown => true
  | _ => true

/-- The loop body of `signal`, with the time of the LTE values so far. -/
def signalStep (acc : Network.SignalStrength × Option Nat)
    (observation : State.Observation State.Signal) : Network.SignalStrength × Option Nat :=
  match observation.value with
  | .gsm value => ({ acc.1 with gsm := some ⟨value.rssi, value.ber⟩ }, acc.2)
  | .lte rsrp rsrq rssnr =>
      if acc.2.all fun time => time ≤ observation.observedMs then
        ({ acc.1 with lte := some ⟨rsrp, rsrq, rssnr⟩ }, some observation.observedMs)
      else acc
  | .quarterUnitsUnverified .. => acc

namespace Core

def signal (c : Core) : Network.SignalStrength :=
  ((c.model.signals.map Prod.snd).foldl signalStep (.default, none)).1

def indicate (c : Core) (indication : Indication) : Core :=
  { c with outputs := c.outputs ++ [.indication indication] }

def apply (c : Core) (source : Source) (update : Update) (now : Nat) : Core :=
  let essential := isEssential c.model update
  let (changed, model) := c.model.apply ⟨c.model.generation, now, source, update⟩
  let c := { c with model }
  let input : State.Input := ⟨c.network.indicationFilter⟩
  match changed with
  | some (.registration _) =>
      if essential ∨ input.has State.fullNetworkState then c.indicate .networkStateChanged else c
  | some (.signal _) =>
      if input.has State.signalStrength then c.indicate (.currentSignalStrength c.signal) else c
  | some .radio => c.indicate (.radioStateChanged c.model.radio.value)
  | some .sim => c.indicate .simStatusChanged
  | none => c

/-- The answer to an invocation, if it is still there. -/
def finish (c : Core) (id : Int) (error : RadioError) (value : Option Value) : Core :=
  match c.invocations.lookup id with
  | none => c
  | some invocation =>
      { c with
        invocations := c.invocations.filter fun entry => entry.1 ≠ id
        outputs := c.outputs ++ [.response invocation.serial error value] }

/-- A response of a service, as the answer to an invocation. -/
structure Answer where
  id : Int
  error : RadioError
  value : Option Value

/-- The responses of the services, the network's first. -/
def answers (c : Core) : List Answer :=
  (c.network.responses.map fun response =>
    ⟨response.serial, networkError response.error, response.value.map .network⟩) ++
  c.modem.responses.map fun response =>
    ⟨response.serial, response.error, response.value.map .modem⟩

/-- The services without what is collected. -/
def collected (c : Core) : Core :=
  { c with
    network := { c.network with updates := [], responses := [] }
    modem :=
      { c.modem with
        updates := []
        responses := []
        serials :=
          c.modem.serials.filter fun serial =>
            c.modem.responses.all fun response => response.serial ≠ serial } }

def collect (c : Core) (now : Nat) : Core :=
  let updates := c.network.updates ++ c.modem.updates
  let c' := updates.foldl (fun c (update : Source × Update) => c.apply update.1 update.2 now) c.collected
  c.answers.foldl (fun c answer => c.finish answer.id answer.error answer.value) c'

/-- A request goes to its service. -/
def serve (c : Core) (id : Int) (request : Request) (deadline : Nat) : Core :=
  match request with
  | .network request =>
      let (network, channels) := c.network.submit id request deadline c.channels c.model
      { c with network, channels }
  | .modem request =>
      let (modem, channels) := c.modem.submit id request deadline c.channels c.model
      { c with modem, channels }

/-- An invocation gets another deadline. -/
def setDeadline (c : Core) (id : Int) (deadline : Nat) : Core :=
  { c with
    invocations :=
      c.invocations.map fun entry =>
        if entry.1 = id then (id, { entry.2 with deadline }) else entry }

def execute (c : Core) (id : Int) (request : Request) (now : Nat) : Core :=
  match checkedAdd now commandTimeoutMs with
  | none => c.finish id .internalErr none
  | some deadline => ((c.setDeadline id deadline).serve id request deadline).collect now

/-- The request of an invocation does not wait any more. -/
def clearWaiting (c : Core) (id : Int) : Core :=
  { c with
    invocations :=
      c.invocations.map fun entry =>
        if entry.1 = id then (id, { entry.2 with waiting := none }) else entry }

/-- The loop body of `advance_boot`: a request that waits is executed. -/
def executeWaiting (now : Nat) (c : Core) (id : Int) : Core :=
  match (c.invocations.lookup id).bind Invocation.waiting with
  | none => c
  | some request => (c.clearWaiting id).execute id request now

def nextDeadline (c : Core) : Option Nat :=
  if c.available then
    (c.invocations.map (fun entry => entry.2.deadline) ++ c.bootDeadline.toList ++
      c.internalDeadlines.map InternalDeadline.deadline ++ c.network.nextDeadline.toList ++
      c.modem.nextDeadline.toList).min?
  else none

/-- Every invocation is answered with an error. -/
def abandon (c : Core) : Core :=
  (c.invocations.map Prod.fst).foldl (fun c id => c.finish id .radioNotAvailable none) c

/-- The services and the model begin anew. -/
def renew (c : Core) (generation : Nat) : Core :=
  { c with model := .new generation, network := c.network.reset, modem := c.modem.reset }

def clearBoot (c : Core) : Core :=
  { c with
    boot := []
    bootActive := none
    bootDeadline := none
    internalDeadlines := []
    notification := .new
    lastEind := none }

/-- Everything is given up. -/
def failAll (c : Core) (generation now : Nat) : Core :=
  ((((c.abandon.renew generation).collect now).clearBoot.indicate
    (.modemReset generation))).indicate (.radioStateChanged .unavailable)

/-- A line may be an indication of the modem's start. -/
def noteEind (c : Core) (line : Text) : Core :=
  match State.eind line with
  | .ok eind => { c with lastEind := some eind }
  | .error _ => c

/-- A line that comes by itself tells of the state. -/
def observe (c : Core) (event : Event) (now : Nat) : Core :=
  match event with
  | .urc line _ =>
      match State.observeLine line with
      | some update => (c.noteEind line).apply .urc update now
      | none => c.noteEind line
  | _ => c

/-- The answer to a boot step. -/
structure BootAnswer where
  step : BootStep
  success : Bool
  plainError : Bool

/-- The answer to the boot step that is under way. -/
def bootAnswer (active : BootActive) (response : At.Response) : BootAnswer where
  step := active.step
  success := response.result.toOption = some At.okText
  plainError := response.result.toOption = some (text "ERROR")

/-- The deadline of a command is over. -/
def dropDeadline (c : Core) (channel id : Nat) : Core :=
  { c with
    internalDeadlines :=
      c.internalDeadlines.filter fun entry => entry.channel ≠ channel ∨ entry.id ≠ id }

/-- What the lines of an answer tell of the state. -/
def observeAll (c : Core) (lines : List Text) (now : Nat) : Core :=
  (lines.filterMap State.observeLine).foldl (fun c update => c.apply .query update now) c

/-- The answer to a boot step is taken. -/
def takeBoot (c : Core) (channel : Nat) (event : Event) (now : Nat) : Option BootAnswer × Core :=
  match event with
  | .completed response =>
      let c := c.dropDeadline channel response.id
      match c.bootActive.filter fun active => active.isOf channel response.id with
      | some active =>
          (some (bootAnswer active response),
            { c.observeAll response.intermediates now with bootActive := none })
      | none => (none, c)
  | _ => (none, c)

def networkEvent (c : Core) (channel : Nat) (event : Event) : Core :=
  let (network, channels) := c.network.onEvent channel event c.channels c.model
  { c with network, channels }

def modemEvent (c : Core) (channel : Nat) (event : Event) (heard : Heard) : Core :=
  let (modem, channels) := c.modem.onEvent channel event heard c.channels
  { c with modem, channels }

end Core

/-! ### Methods that can fail -/

abbrev Step := EStateM At.Error Core

def clock (now : Nat) : Step Unit := do
  let c ← get
  if now < c.now then throw .clockRegression
  else set { c with now }

/-- The step of a boot is with its engine. -/
def Core.booting (c : Core) (step : BootStep) (channels : Channels) (id deadline : Nat) : Core :=
  { c with
    channels
    internalDeadlines := c.internalDeadlines ++ [⟨step.channel, id, deadline⟩]
    bootActive := some ⟨step.channel, id, step⟩ }

/-- The next command of the boot. -/
def startBoot (step : BootStep) (now : Nat) : Step Unit := do
  match checkedAdd now commandTimeoutMs with
  | none => throw .clockOverflow
  | some deadline =>
      let c ← get
      let (result, channels) :=
        c.channels.request step.channel step.command step.expectedPrefix 32 deadline
      match result with
      | .error error =>
          set { c with channels }
          throw error
      | .ok id => set (c.booting step channels id deadline)

/-- The boot is over. -/
def Core.readied (c : Core) (now : Nat) : Core :=
  { c with bootActive := none, bootDeadline := none, ready := true }.apply .transport (.radio .off)
    now

/-- The network restores its policy. -/
def Core.restored (c : Core) (deadline now : Nat) : Core :=
  let (network, channels) := c.network.restore c.channels deadline
  { c with network, channels }.collect now

/-- The requests that waited are executed. -/
def Core.executeAll (now : Nat) (c : Core) : Core :=
  (c.invocations.map Prod.fst).foldl (Core.executeWaiting now) c

def finishBoot (now : Nat) : Step Unit := do
  modify fun c => c.readied now
  match checkedAdd now commandTimeoutMs with
  | none => throw .clockOverflow
  | some deadline => modify fun c => (c.restored deadline now).executeAll now

def advanceBoot (now : Nat) : Step Unit := do
  let c ← get
  match c.boot with
  | step :: boot =>
      set { c with boot }
      startBoot step now
  | [] => finishBoot now

def beginBoot (now : Nat) : Step Unit := do
  match checkedAdd now bootTimeoutMs with
  | none => throw .clockOverflow
  | some deadline =>
      modify fun c => { c with bootDeadline := some deadline, boot := bootSteps }
      advanceBoot now

/-- The core stops, until it is connected again. -/
def Core.halt (c : Core) : Core := { c with available := false, ready := false }

/-- What `on_reset` does behind the clock. -/
def giveUp (now : Nat) : Step Unit := do
  let c ← get
  if c.available then
    match checkedAdd c.model.generation 1 with
    | none =>
        set c.halt
        throw .idExhausted
    | some generation => set (c.halt.failAll generation now)

def onReset (now : Nat) : Step Unit := do
  clock now
  giveUp now

def isError : Event → Bool
  | .error _ => true
  | _ => false

/-- What the answer to a boot step leads to. -/
def bootCompleted (answer : Core.BootAnswer) (now : Nat) : Step Unit := do
  if answer.success then advanceBoot now
  else if answer.step.command = text "AT+EGREG=3,1" ∧ answer.plainError then
    modify fun c => { c with boot := egregFallback :: c.boot }
    advanceBoot now
  else if answer.step.required then onReset now
  else advanceBoot now

/-- The services get an event. -/
def Core.handle (c : Core) (channel : Nat) (event : Event) (heard : Heard) (now : Nat) : Core :=
  (((c.networkEvent channel event).collect now).modemEvent channel event heard).collect now

def dispatch (channel now : Nat) (event : Event × Heard) : Step Unit := do
  let c ← get
  if c.available then
    let (boot, c) := (c.observe event.1 now).takeBoot channel event.1 now
    set (c.handle channel event.1 event.2 now)
    if isError event.1 then onReset now
    else
      match boot with
      | none => pure ()
      | some answer => bootCompleted answer now

/-- What a call of an engine emits, each event with the command that was active. -/
def callEvents (channel : Nat) (call : At.Call) (e : At.Engine) : List (Event × Heard) :=
  match call with
  | .feed now input => At.feedEvents channel now e input
  | call => (At.newEvents e (e.after call)).map (·, ⟨channel, none⟩)

/-- The error that a call of an engine returned. -/
def callError (call : At.Call) (e : At.Engine) : Option At.Error :=
  match call.run e with
  | .ok _ _ => none
  | .error error _ => some error

/-- An engine is called. -/
def Core.called (c : Core) (channel : Nat) (call : At.Call) (e : At.Engine) : Core :=
  { c with channels := c.channels.put channel (e.after call) }

/-- A call of a channel's engine, with what it emitted; the engine's error resets the core. -/
def callEngine (channel : Nat) (call : At.Call) (now : Nat) : Step (Option At.Error) := do
  let c ← get
  match c.channels.get channel with
  | none => throw .configuration
  | some e =>
      set (c.called channel call e)
      (callEvents channel call e).forM (dispatch channel now)
      let c ← get
      if (callError call e).isSome ∧ c.available then onReset now
      return callError call e

/-- The loop of `pump`, with the channels that are left. -/
def pumpFrom (now : Nat) : List Nat → Step Unit
  | [] => pure ()
  | channel :: rest => do
      let _ ← callEngine channel (.tick now) now
      let c ← get
      if c.available then pumpFrom now rest

def pump (now : Nat) : Step Unit := do
  let c ← get
  if c.available then pumpFrom now channelIds

def expire (now : Nat) : Step Unit := do
  let c ← get
  if c.nextDeadline.any fun deadline => deadline ≤ now then onReset now

/-- A byte of the notification channel. -/
def notify (now : Nat) (byte : UInt8) : Step Unit := do
  let c ← get
  let (notification, record) := c.notification.push byte
  set { c with notification }
  match record with
  | some (.line line) => dispatch 0 now (.urc line true, ⟨0, none⟩)
  | _ => pure ()

def onReadable (channel : Nat) (bytes : List UInt8) (now : Nat) : Step Unit := do
  clock now
  let c ← get
  if c.available then
    expire now
    let c ← get
    if c.available then
      if channel = 0 then bytes.forM (notify now)
      else
        let _ ← callEngine channel (.feed now bytes) now
      pump now

def onWritten (channel token n now : Nat) : Step Unit := do
  clock now
  let c ← get
  match c.channels.get channel with
  | none => throw .configuration
  | some e =>
      if c.available ∧ e.pendingWrite.any fun write => write.token = token then
        expire now
        let c ← get
        if c.available then
          match ← callEngine channel (.acceptWritten now token n) now with
          | none => pure ()
          | some error => throw error
        else throw .timeout
      else throw .staleProgress

def tick (now : Nat) : Step Unit := do
  clock now
  expire now
  pump now

def onReconnect (now : Nat) : Step Unit := do
  clock now
  let c ← get
  if c.available then throw .configuration
  else
    match Channels.new now channelIds prefixes c.channels.nextWrite with
    | .error error => throw error
    | .ok channels =>
        set { c with channels, available := true }
        beginBoot now
        pump now

namespace Core

/-- The core before it boots. -/
def initial (now : Nat) (channels : Channels) : Core :=
  { channels
    notification := .new
    model := .new 0
    network := .new
    modem := .new
    available := true
    ready := false
    now
    nextId := 0
    invocations := []
    outputs := []
    boot := []
    bootActive := none
    bootDeadline := none
    internalDeadlines := []
    lastEind := none
    submitted := [] }

/-- The new core, where `NEXT_WRITE` is at `nextWrite`. -/
def new (now nextWrite : Nat) : Except At.Error Core :=
  match Channels.new now channelIds prefixes nextWrite with
  | .error error => .error error
  | .ok channels =>
      match (beginBoot now *> pump now : Step Unit) (initial now channels) with
      | .ok _ c => .ok c
      | .error error _ => .error error

def respond (c : Core) (serial : Int) (error : RadioError) : Core :=
  { c with outputs := c.outputs ++ [.response serial error none] }

/-- A request becomes an invocation. -/
def enter (c : Core) (id : Int) (request : Request) (serial : Int) (deadline now : Nat) : Core :=
  let invocation : Invocation := ⟨serial, deadline, if c.ready then none else some request⟩
  let c := { c with nextId := id, invocations := c.invocations ++ [(id, invocation)] }
  (if c.ready then c.execute id request now else c).collect now

/-- A serial was submitted. -/
def noteSubmitted (c : Core) (serial : Int) : Core :=
  { c with submitted := c.submitted ++ [serial] }

def submit (c : Core) (request : Request) (serial : Int) (now : Nat) : Core :=
  let c := c.noteSubmitted serial
  if now < c.now then c.respond serial .invalidArguments
  else
    let c := { c with now }
    if ¬ c.available then c.respond serial .radioNotAvailable
    else if requestLimit ≤ c.invocations.length ∨ c.nextId = i32Max then
      c.respond serial .internalErr
    else
      let id : Int := c.nextId + 1
      match checkedAdd now (if c.ready then commandTimeoutMs else bootTimeoutMs) with
      | none => ({ c with nextId := id } : Core).respond serial .internalErr
      | some deadline =>
          let c := c.enter id request serial deadline now
          if c.available then endState (pump now c) else c

end Core

end Mindone.Radio.Core
