import Mindone.Mux.Context

/-!
# Mindone.Mux.Runtime

The multiplexer runtime (`modem/mux/runtime.rs`): it owns the serial line, one
endpoint per channel and the queues between them, and drives the AT dialogue and then
the session from readiness events. `drive` runs one turn; an error ends the runtime
and closes everything it owns.
-/

namespace Mindone.Mux

open Mindone.Lib Transport

/-- The runtime of the source; slots, epochs, queue and the world are in `context`. -/
structure Runtime (E ω : Type) where
  serial : Option E
  serialToken : Option PollToken
  context : Runtime.Context E ω
  chat : Chat.Controller
  session : Session
  decoder : Decoder rxBytes
  heldTail : List UInt8
  state : Runtime.State
  error : Option Runtime.Error
  lastNow : Nat
  retryAt : Nat
  closeAt : Option Nat
  localCloseAt : Option Nat
  cursor : Nat
  writeFirst : Bool
  writeWakeup : Bool
  polloutTurn : Bool

namespace Runtime

variable {E ω : Type}

/-- The checks of `new` before it touches the serial line: the session and the chat. -/
def newParts (channels : List ChannelConfig) (config : Chat.Config) (now nextWrite : Nat) :
    Except Error (Session × Chat.Controller) := do
  if channels.length > maxChannels then throw .configuration
  let session ← (Session.new channels config.frameLimit).mapError .session
  let chat ← (Chat.Controller.new config now nextWrite).mapError .chat
  return (session, chat)

/-- A fresh runtime in a world, with the process-wide counters at the given values, and the
world that it leaves, also when it fails. -/
def new (env : Env E ω) (serial : E) (channels : List ChannelConfig) (config : Chat.Config)
    (now : Nat) (w : ω) (generation nextWrite : Nat) : Except Error (Runtime E ω) × ω :=
  match newParts channels config now nextWrite with
  | .error error => (.error error, w)
  | .ok (session, chat) =>
      match env.prepare serial w with
      | (false, w) => (.error .io, w)
      | (true, w) =>
          -- the session has refused a frame limit that the queue and the decoder would refuse
          match TransmitQueue.new config.frameLimit with
          | .error _ => (.error .configuration, w)
          | .ok tx =>
              let context : Context E ω :=
                { tx
                  slots := fun _ => none
                  epochs := .default
                  generation
                  frameLimit := config.frameLimit
                  discarded := 0
                  world := w
                  history := [] }
              match context.replaceEpoch env .serial (env.descriptor serial) with
              | (none, context) => (.error .configuration, context.world)
              | (some token, context) =>
                  match Decoder.new config.frameLimit with
                  | .error _ => (.error .configuration, context.world)
                  | .ok decoder =>
                      (.ok {
                        serial := some serial
                        serialToken := some token
                        context
                        chat
                        session
                        decoder
                        heldTail := []
                        state := .startup
                        error := none
                        lastNow := now
                        retryAt := now
                        closeAt := none
                        localCloseAt := none
                        cursor := 0
                        writeFirst := false
                        writeWakeup := false
                        polloutTurn := false }, context.world)

def enableRecovery (r : Runtime E ω) (escalationAfter : Nat) : Runtime E ω :=
  { r with session := r.session.enableRecovery escalationAfter }

/-- What the runtime waits for on the serial line: readable, writable. -/
def serialInterest (r : Runtime E ω) : Bool × Bool :=
  let delayed := r.writeWakeup && decide (r.lastNow < r.retryAt)
  match r.state with
  | .startup => (r.chat.phase != .writing && decide (r.heldTail.length < rxBytes),
      r.chat.pendingWrite.isSome && delayed)
  | .multiplexing => (true, !r.context.tx.pending.isEmpty && delayed)
  | .peerClosing => (false, !r.context.tx.pending.isEmpty && delayed)
  | _ => (false, false)

/-- A channel that recovery has taken out of service. -/
def suspended (r : Runtime E ω) (c : Dlci) : Bool :=
  r.session.recovery &&
    (r.session.channel (number c)).any fun state => !state.isOpen && !state.refused

def channelInterest (r : Runtime E ω) (c : Dlci) : Option Interest :=
  if r.suspended c then none
  else
    (r.context.slots c).bind fun slot =>
      if r.context.epochs.isCurrent slot.token then
        some
          { token := slot.token
            readable := r.session.canReadEndpoint (number c) r.context.tx.canAcceptPtyRead
            writable := !slot.pending.pending.isEmpty }
      else none

def interests (r : Runtime E ω) : List Interest :=
  (r.serialToken.toList.filterMap fun token =>
    if r.serialInterest.1 || r.serialInterest.2 then
      some { token, readable := r.serialInterest.1, writable := r.serialInterest.2 }
    else none) ++
  if r.state = .multiplexing ∧ r.localCloseAt = none then
    dataChannels.filterMap r.channelInterest
  else []

/-! ### Closing -/

def closeAll (r : Runtime E ω) : Runtime E ω :=
  let context := { r.context with epochs := r.context.epochs.reset }.note (.closed 0)
  let context := (List.finRange 64).foldl (fun ctx c => Context.dropSlot c ctx) context
  let context :=
    { context with
      tx := context.tx.clear.2
      discarded := context.discarded +
        (context.tx.clear.1 + r.decoder.reset.1 + r.heldTail.length) }
  { r with
    context
    serialToken := none
    serial := none
    decoder := r.decoder.reset.2
    heldTail := []
    session := r.session.resetAfterTransportClose }

def fail (r : Runtime E ω) (error : Error) : Runtime E ω :=
  { r with error := some error, state := .failed }.closeAll

def stop (r : Runtime E ω) : Runtime E ω := { r.closeAll with state := .closed }

/-! ### A turn -/

/-- A runtime in the middle of a turn: the budget and the frames counted so far. The
bytes discarded in the turn are counted in the context. -/
structure Turn (E ω : Type) where
  runtime : Runtime E ω
  budget : TurnBudget
  frames : Nat

/-- What the runtime does in a turn; an error keeps the state reached. -/
abbrev Act (E ω : Type) := EStateM Error (Turn E ω)

def look {α : Type} (f : Runtime E ω → α) : Act E ω α := fun t => .ok (f t.runtime) t

def change (f : Runtime E ω → Runtime E ω) : Act E ω Unit :=
  fun t => .ok () { t with runtime := f t.runtime }

def countFrame : Act E ω Unit := fun t => .ok () { t with frames := t.frames + 1 }

/-- Run a part of the program that works on the context and the budget. -/
def onContext {α : Type} (p : EStateM Error (Context E ω × TurnBudget) α) : Act E ω α := fun t =>
  match p (t.runtime.context, t.budget) with
  | .ok a (context, budget) => .ok a { t with runtime := { t.runtime with context }, budget }
  | .error e (context, budget) => .error e { t with runtime := { t.runtime with context }, budget }

/-- An operation of the session with the context as its sink. -/
def sessionDo {α : Type} (op : Session.Op (Context E ω) α) : Act E ω α := fun t =>
  let put := fun (session : Session) (context : Context E ω) =>
    { t with runtime :=
      { t.runtime with session, context := context.noteOpened t.runtime.session session } }
  match op (t.runtime.session, t.runtime.context) with
  | .ok a (session, context) => .ok a (put session context)
  | .error e (session, context) => .error (.session e) (put session context)

/-- An operation of the AT dialogue. -/
def chatDo {α : Type} (wrap : Chat.Error → Error) (step : Chat.Step α) : Act E ω α := fun t =>
  match step t.runtime.chat with
  | .ok a chat => .ok a { t with runtime := { t.runtime with chat } }
  | .error e chat => .error (wrap e) { t with runtime := { t.runtime with chat } }

/-- `checked_add` of the clock. -/
def after (now duration : Nat) : Act E ω Nat :=
  match checkedAdd now duration with
  | none => throw .clockOverflow
  | some due => pure due

/-- `self.serial.as_mut().ok_or(Error::Io)`. -/
def theSerial : Act E ω E := do
  match ← look (·.serial) with
  | none => throw .io
  | some serial => pure serial

/-- One call of `io_turn` that reads into a zeroed buffer of `size` bytes: its result, and
the bytes it transferred. -/
def readTurn (env : Env E ω) (endpoint : E) (size requested : Nat) :
    Act E ω (Option (IoResult × List UInt8)) :=
  onContext fun (ctx, budget) =>
    let operation := fun offered (w : ω × List UInt8) =>
      let r := env.read endpoint offered w.1
      (r.1.1, r.2, blit (List.replicate size 0) 0 (r.1.2.take offered))
    match ioTurn requested operation ((ctx.world, []), budget) with
    | .error e ((w, _), budget) => .error e ({ ctx with world := w }, budget)
    | .ok none ((w, _), budget) => .ok none ({ ctx with world := w }, budget)
    | .ok (some (.transferred n)) ((w, buffer), budget) =>
        .ok (some (.transferred n, buffer.take n)) ({ ctx with world := w }, budget)
    | .ok (some (.fault fault)) ((w, _), budget) =>
        .ok (some (.fault fault, [])) ({ ctx with world := w }, budget)

/-- One call of `io_turn` that writes. -/
def writeTurn (env : Env E ω) (endpoint : E) (bytes : List UInt8) : Act E ω (Option IoResult) :=
  onContext fun (ctx, budget) =>
    match ioTurn bytes.length (fun offered => env.write endpoint (bytes.take offered))
        (ctx.world, budget) with
    | .error e (w, budget) => .error e ({ ctx with world := w }, budget)
    | .ok r (w, budget) => .ok r ({ ctx with world := w }, budget)

def peerClose (now : Nat) : Act E ω Unit := do
  sessionDo Session.peerClose
  let due ← after now closeFlushMs
  change fun r => { r with closeAt := some due, state := .peerClosing }

section Turns

variable (env : Env E ω)

/-- What a control message asks of the session: whether the peer closes the multiplexer. -/
def takeEffect : Mcc.Effect → Act E ω Bool
  | .peerClosing => pure true
  | .peerSignals channel signals => do
      sessionDo (Session.applyPeerSignals channel signals)
      pure false
  | .none => pure false

/-- A control message: its reply, and whether the peer closes the multiplexer. -/
def control (input : List UInt8) : Act E ω Bool := do
  let frameLimit ← look (·.context.frameLimit)
  match Mcc.prepare input frameLimit (List.replicate maxPayload 0) with
  | .error e => throw (.mcc e)
  | .ok prepared =>
      match prepared.reply with
      | some reply =>
          sessionDo (Session.sendControl (Context.sink env) reply.control reply.payload)
      | none => pure ()
      takeEffect prepared.effect

/-- A payload for channel `c`: deliver it and tell the session how that went. -/
def data (c : Dlci) (payload : List UInt8) : Act E ω Unit := do
  match ← onContext (deliver env c payload) with
  | .buffered => sessionDo (Session.setLocalPause (Context.sink env) (number c) true)
  | .recreate => sessionDo (Session.recreateEndpoint (Context.sink env) (number c))
  | .done => pure ()

/-- What the session hands over. -/
def handOver : Handoff → Act E ω Bool
  | .control input => control env input
  | .data c payload => do
      data env c payload
      pure false
  | .endpointMissing _ bytes => do
      change fun r => { r with context :=
        { r.context with discarded := r.context.discarded + bytes } }
      pure false
  | .none => pure false

/-- Whether the peer closes the multiplexer, by a frame or by the phase that the frame led to. -/
def closes (finished : Bool) : Act E ω Bool := do
  if finished then pure true
  else
    let session ← look (·.session)
    match session.phase with
    | .peerClosing => pure true
    | .closing => if session.recovery then pure false else throw .unsupportedLocalClose
    | _ => pure false

/-- `dispatch`: whether the peer closes the multiplexer. -/
def dispatch (frame : Frame) : Act E ω Bool := do
  let handoff ← sessionDo (Session.receive (Context.sink env) frame)
  closes (← handOver env handoff)

/-- Ask for the disconnection of every open channel. -/
def disconnectOpen : Act E ω Unit :=
  dataChannels.forM fun c => do
    let session ← look (·.session)
    if (session.channel (number c)).any (·.isOpen) then
      sessionDo (Session.requestDisconnect (Context.sink env) (number c))
    else pure ()

/-- The orderly close that follows when recovery gives up. -/
def closeLocally (now : Nat) : Act E ω Unit := do
  disconnectOpen env
  let due ← after now 2000
  change fun r => { r with localCloseAt := some due }

/-- The loop of `frames`, over the decoder `d` that the runtime holds. -/
def framesLoop (now : Nat) (d : Decoder rxBytes) : Act E ω Unit :=
  match _h : d.nextFrame with
  | (none, d) => change fun r => { r with decoder := d }
  | (some frame, d') => do
      change fun r => { r with decoder := d' }
      countFrame
      let closing ← look (·.localCloseAt.isSome)
      if closing ∧ frame.kind ≠ ua then framesLoop now d'
      else
        if ← dispatch env frame then peerClose now
        else
          let r ← look id
          if r.session.phase = .closing ∧ r.session.recovery ∧ r.localCloseAt = none then
            closeLocally env now
          else framesLoop now d'
termination_by d.length - d.consumed
decreasing_by
  all_goals exact Decoder.nextFrame_lt _h

def frames (now : Nat) : Act E ω Unit := do
  framesLoop env now (← look (·.decoder))

/-- The first half of `begin_mux`: the session starts, and the serial line gets a new
token. -/
def enterMux (now : Nat) : Act E ω Unit := do
  sessionDo (Session.begin (Context.sink env) now)
  let serial ← theSerial
  match (← look (·.context.epochs)).invalidate .serial with
  | .error _ => throw .configuration
  | .ok epochs =>
      change fun r => { r with context := { r.context with epochs }.note (.closed 0) }
      match (← look (·.context)).replaceEpoch env .serial (env.descriptor serial) with
      | (none, context) =>
          change fun r => { r with context }
          throw .configuration
      | (some token, context) =>
          change fun r => { r with context, serialToken := some token, state := .multiplexing }

def beginMux (now : Nat) : Act E ω Unit := do
  enterMux env now
  let r ← look id
  match r.decoder.push r.heldTail with
  | .error _ => throw .capacity
  | .ok decoder =>
      change fun r => { r with decoder, heldTail := [] }
      frames env now

/-- Bytes of the serial line while the AT dialogue runs. -/
def feedChat (now : Nat) (input : List UInt8) : Act E ω Unit := do
  let fed ← chatDo .chat (Chat.feed now input)
  match fed.muxTail with
  | some tail =>
      let held ← look (·.heldTail)
      if tail.length > rxBytes - held.length then throw .capacity
      else change fun r => { r with heldTail := r.heldTail ++ tail }
  | none => pure ()
  if (← look (·.chat.phase)) = .ready then beginMux env now else pure ()

def readSerial (now : Nat) : Act E ω Unit := do
  let r ← look id
  if r.state = .startup ∧ r.chat.phase = .writing then pure ()
  else
    let room :=
      if r.state = .startup then min (rxBytes - r.heldTail.length) readBytes
      else min r.decoder.availableCapacity readBytes
    let serial ← theSerial
    match ← readTurn env serial readBytes room with
    | none => pure ()
    | some (.transferred n, input) =>
        if n = 0 then throw .io
        else if r.state = .startup then feedChat env now input
        else
          match r.decoder.push input with
          | .error _ => throw .capacity
          | .ok decoder =>
              change fun r => { r with decoder }
              frames env now
    | some (.fault .interrupted, _) | some (.fault .wouldBlock, _) => pure ()
    | some (.fault fault, _) =>
        if r.state = .startup then
          chatDo (if fault = .deviceReset then .chatRead else .chat)
            (Chat.readFault now (if fault = .busy then .failure else fault))
        else throw .io

/-- The serial line did not take more: try again later. -/
def backOff (now : Nat) : Act E ω Unit := do
  let due ← after now retryMs
  change fun r => { r with retryAt := due, writeWakeup := !r.polloutTurn }

/-- The loop of `write_startup`, with `n` turns left. -/
def startupLoop (now : Nat) : Nat → Act E ω Unit
  | 0 => pure ()
  | n + 1 => do
      match (← look (·.chat)).pendingWrite with
      | none => pure ()
      | some request =>
          let serial ← theSerial
          match ← writeTurn env serial request.bytes with
          | none => pure ()
          | some (.transferred bytes) =>
              chatDo .chat (Chat.acceptWritten now request.token bytes)
              startupLoop now n
          | some (.fault fault) =>
              chatDo .chat (Chat.writeFault now request.token fault)
              if fault ≠ .interrupted then backOff now else startupLoop now n

def writeStartup (now : Nat) : Act E ω Unit := do
  if now < (← look (·.retryAt)) then pure () else startupLoop env now 8

def flushTx (now : Nat) : Act E ω Unit := do
  let r ← look id
  if r.context.tx.pending = [] ∨ now < r.retryAt then pure ()
  else
    let serial ← theSerial
    let report ← onContext fun (ctx, budget) =>
      let (report, tx, w, budget) :=
        ctx.tx.drain (endpointWriter env serial false) ctx.world budget
      .ok report
        ({ ctx with tx, world := w, discarded := ctx.discarded + report.discarded }, budget)
    match report.stop with
    | .complete | .yielded => pure ()
    | .blocked => backOff now
    | .deviceReset =>
        let answer ← onContext fun (ctx, budget) =>
          let (answer, ctx) := ctx.publish env .modemException
          .ok answer (ctx, budget)
        if answer then pure () else throw .effectRejected
    | _ => throw .io

def recreate (c : Dlci) : Act E ω Unit :=
  sessionDo (Session.recreateEndpoint (Context.sink env) (number c))

/-- Offer the pending bytes of channel `c` to its endpoint: where that stopped. -/
def drainPending (c : Dlci) : EStateM Error (Context E ω × TurnBudget) (Option Stop) :=
  fun (ctx, budget) =>
    match ctx.slots c with
    | none => .ok none (ctx, budget)
    | some slot =>
        let (report, pending, (w, accepted), budget) :=
          slot.pending.drain (endpointWriter env slot.endpoint true) ctx.world budget
        .ok (some report.stop)
          (({ ctx with world := w }.setSlot c (some { slot with pending })).note
            (.accepted c accepted), budget)

def drainChannel (c : Dlci) : Act E ω Unit := do
  match ← onContext (drainPending env c) with
  | none => pure ()
  | some .complete =>
      if ((← look (·.session)).channel (number c)).any (·.localPaused) then
        sessionDo (Session.setLocalPause (Context.sink env) (number c) false)
      else pure ()
  | some .yielded | some .blocked => pure ()
  | some _ => recreate env c

/-- Queue what the application wrote to channel `c`. -/
def forward (c : Dlci) (input : List UInt8) : Act E ω Unit :=
  onContext fun (ctx, budget) =>
    match TransmitQueue.admitPtyInput (number c) input ctx.tx with
    | .ok _ tx => .ok () ({ ctx with tx }, budget)
    | .error _ tx => .error .capacity ({ ctx with tx }, budget)

def readChannel (c : Dlci) : Act E ω Unit := do
  let r ← look id
  if !r.session.canReadEndpoint (number c) r.context.tx.canAcceptPtyRead then pure ()
  else
    match r.context.slots c with
    | none => throw .io
    | some slot =>
        match ← readTurn env slot.endpoint ptyReadBytes ptyReadBytes with
        | none => pure ()
        | some (.transferred n, input) =>
            if n = 0 then recreate env c
            else
              match ← sessionDo (Session.applicationInput (number c)) with
              | .forward => forward c input
              | _ => change fun r => { r with context :=
                  { r.context with discarded := r.context.discarded + n } }
        | some (.fault .interrupted, _) | some (.fault .wouldBlock, _) => pure ()
        | some (.fault _, _) => recreate env c

/-! ### Driving -/

/-- The dialogue's clock. A pending result waits for the bytes that have arrived. -/
def tickChat (now : Nat) (serialReadable : Bool) : Act E ω Unit := do
  if (← look (·.state)) = .startup then
    if (← look (·.chat.tokenPending)) && serialReadable then pure ()
    else chatDo .chat (Chat.tick now)
    if (← look (·.chat.phase)) = .ready then beginMux env now else pure ()
  else pure ()

/-- The session's clocks. -/
def tickSession (now : Nat) : Act E ω Unit := do
  if (← look (·.state)) = .multiplexing then
    let pending ← look fun r => !r.context.tx.pending.isEmpty
    let _ ← sessionDo (Session.pollTimeout now pending)
  else pure ()
  let r ← look id
  if r.state = .multiplexing ∧ r.localCloseAt = none then
    if ← sessionDo (Session.recoveryTick (Context.sink env) now) then closeLocally env now
    else pure ()
  else pure ()

/-- The end of a local close: the close-down command, and then the flush. -/
def finishLocalClose (now : Nat) : Act E ω Unit := do
  let r ← look id
  if r.localCloseAt.any fun due => decide (now ≥ due) || !r.session.disconnectPending then
    match Frame.command 0 uih [0xc3, 1] with
    | .error _ => throw .configuration
    | .ok frame =>
        onContext fun (ctx, budget) =>
          match TransmitQueue.admitFrame frame ctx.tx with
          | .ok _ tx => .ok () ({ ctx with tx }, budget)
          | .error _ tx => .error .capacity ({ ctx with tx }, budget)
        change fun r => { r with localCloseAt := none }
        peerClose now
  else pure ()

/-- Everything in a turn that does not depend on the channels' events: whether the turn
is over. -/
def openTurn (now : Nat) (serialReadable : Bool) : Act E ω Bool := do
  let r ← look id
  if r.state = .peerClosing ∧ r.closeAt.any fun due => decide (now ≥ due) then
    change fun r => { r.closeAll with state := .closed }
    pure true
  else
    tickChat env now serialReadable
    tickSession env now
    finishLocalClose now
    pure false

/-- Write what waits for the serial line. -/
def writeSerial (now : Nat) : Act E ω Unit := do
  match ← look (·.state) with
  | .startup => writeStartup env now
  | .multiplexing | .peerClosing => flushTx env now
  | _ => pure ()

/-- The end of a turn. -/
def closeTurn (now : Nat) : Act E ω Unit := do
  writeSerial env now
  let r ← look id
  if r.state = .peerClosing ∧
      (r.context.tx.pending = [] ∨ r.closeAt.any fun due => decide (now ≥ due)) then
    change fun r => { r.closeAll with state := .closed }
  else pure ()

/-- The part of a turn that also counts stale events. -/
abbrev Service (E ω : Type) := EStateM Error (Turn E ω × Nat)

def act {α : Type} (p : Act E ω α) : Service E ω α := fun (t, stale) =>
  match p t with
  | .ok a t => .ok a (t, stale)
  | .error e t => .error e (t, stale)

def addStale (n : Nat) : Service E ω Unit := fun (t, stale) => .ok () (t, stale + n)

def countStale : Service E ω Unit := addStale 1

def isCurrent (token : PollToken) : Act E ω Bool := look (·.context.epochs.isCurrent token)

/-- Another event for a node that has one already. -/
def Ready.merge (current event : Ready) : Ready :=
  { current with
    readable := current.readable || event.readable
    writable := current.writable || event.writable
    hangup := current.hangup || event.hangup }

/-- Put a current event to its node; the others are stale. -/
def sortEvent (epochs : PollEpochs) (sorted : (Dlci → Option Ready) × Nat) (event : Ready) :
    (Dlci → Option Ready) × Nat :=
  match event.token.endpoint.slot with
  | .error _ => (sorted.1, sorted.2 + 1)
  | .ok node =>
      if epochs.isCurrent event.token then
        match sorted.1 node with
        | some current => (Function.update sorted.1 node (some (current.merge event)), sorted.2)
        | none => (Function.update sorted.1 node (some event), sorted.2)
      else (sorted.1, sorted.2 + 1)

/-- Sort the events by node, and count the stale ones. -/
def collect (epochs : PollEpochs) (events : List Ready) : (Dlci → Option Ready) × Nat :=
  events.foldl (sortEvent epochs) (fun _ => none, 0)

/-- The serial line's event: whether the turn's budget is checked behind it. -/
def serveSerial (now : Nat) (event : Ready) : Service E ω Bool := do
  onlyIf event.writable (act (change fun r => { r with retryAt := now, polloutTurn := true }))
  let earlyWrite ← act (look fun r => event.readable && r.writeFirst)
  onlyIf event.readable (act (change fun r => { r with writeFirst := !r.writeFirst }))
  onlyIf earlyWrite (act (writeSerial env now))
  let state ← act (look (·.state))
  let current ← act (isCurrent event.token)
  onlyIf (current ∧ event.readable ∧ (state = .startup ∨ state = .multiplexing))
    (act (readSerial env now))
  if ← act (isCurrent event.token) then
    onlyIf (event.writable ∧ ¬ earlyWrite) (act (writeSerial env now))
    if event.hangup && !event.readable then throw .io else pure true
  else
    countStale
    pure false

/-- The event of channel `c`: whether the turn's budget is checked behind it. -/
def serveChannel (c : Dlci) (event : Ready) : Service E ω Bool := do
  let r ← act (look id)
  if r.state = .multiplexing ∧ r.localCloseAt = none then
    if r.suspended c then pure false
    else
      onlyIf event.writable (act (drainChannel env c))
      if ← act (isCurrent event.token) then
        if event.readable then
          act (readChannel env c)
          pure true
        else
          onlyIf event.hangup (act (recreate env c))
          pure true
      else
        countStale
        pure false
  else pure true

/-- The event of a node: the serial line has number `0`. -/
def serve (now : Nat) (node : Dlci) (event : Ready) : Service E ω Bool :=
  if node = 0 then serveSerial env now event else serveChannel env node event

/-- Whether the turn has used up its calls or its bytes. -/
def spent (callLimit : Nat) : Act E ω Bool := fun t =>
  .ok (t.budget.calls == callLimit || t.budget.availableBytes == 0) t

/-- The loop over the nodes, from the cursor on. -/
def serveLoop (now callLimit : Nat) (ready : Dlci → Option Ready) : List Nat → Service E ω Unit
  | [] => pure ()
  | offset :: rest => do
      let cursor ← act (look (·.cursor))
      let node : Dlci := Fin.ofNat 64 (cursor + offset)
      match ready node with
      | none => serveLoop now callLimit ready rest
      | some event =>
          if ← act (isCurrent event.token) then
            let served ← serve env now node event
            let finished ← act (spent callLimit)
            if served && finished then
              act (change fun r => { r with cursor := (node.val + 1) % 64 })
            else serveLoop now callLimit ready rest
          else
            countStale
            serveLoop now callLimit ready rest

/-- Whether the current events announce bytes on the serial line. -/
def serialReadable (r : Runtime E ω) (events : List Ready) : Bool :=
  events.any fun event =>
    event.readable && r.context.epochs.isCurrent event.token &&
      decide (event.token.endpoint = .serial)

/-- The part of a turn that looks at the events. -/
def serveEvents (now : Nat) (events : List Ready) (callLimit : Nat) : Service E ω Unit := do
  let collected ← act (look fun r => collect r.context.epochs events)
  addStale collected.2
  serveLoop env now callLimit collected.1 (List.range 64)
  act (closeTurn env now)

/-- `run_turn`. -/
def runTurn (now : Nat) (events : List Ready) (callLimit : Nat) : Service E ω Unit := do
  let r ← act (look id)
  if now < r.lastNow then throw .clockRegression
  else if events.length > maxChannels + 1 then throw .configuration
  else
    act (change fun r => { r with lastNow := now, polloutTurn := false })
    let readable ← act (look fun r => r.serialReadable events)
    if ← act (openTurn env now readable) then pure ()
    else serveEvents env now events callLimit

end Turns

/-- The report of a turn; an error ends the runtime. -/
def conclude : EStateM.Result Error (Turn E ω × Nat) Unit → Report × Runtime E ω
  | .ok _ (t, stale) =>
      (⟨t.runtime.state, t.runtime.error, t.budget.calls, t.budget.bytes, t.frames,
        t.runtime.context.discarded, stale⟩, t.runtime)
  | .error e (t, stale) =>
      let r := t.runtime.fail e
      (⟨r.state, r.error, t.budget.calls, t.budget.bytes, t.frames, r.context.discarded, stale⟩, r)

/-- `drive`: one turn, unless the runtime is over. -/
def drive (env : Env E ω) (r : Runtime E ω) (now : Nat) (events : List Ready) (limits : Limits) :
    Report × Runtime E ω :=
  if r.state = .closed ∨ r.state = .failed then (⟨r.state, r.error, 0, 0, 0, 0, 0⟩, r)
  else
    let r := { r with context := { r.context with discarded := 0 } }
    match TurnBudget.new limits.calls limits.bytes with
    | .error _ =>
        let r := r.fail .configuration
        (⟨r.state, r.error, 0, 0, 0, r.context.discarded, 0⟩, r)
    | .ok budget => conclude (runTurn env now events limits.calls (⟨r, budget, 0⟩, 0))

/-! ### Runs -/

/-- What the owner does with a runtime. -/
inductive Input
  | drive (now : Nat) (events : List Ready) (limits : Limits)
  | stop
  deriving DecidableEq

def next (env : Env E ω) (r : Runtime E ω) : Input → Runtime E ω
  | .drive now events limits => (drive env r now events limits).2
  | .stop => r.stop

def run (env : Env E ω) (r : Runtime E ω) (inputs : List Input) : Runtime E ω :=
  inputs.foldl (next env) r

end Runtime

end Mindone.Mux
