import Mathlib.Data.Fintype.Card
import Mindone.Lib.Program
import Mindone.Mux.Frame

/-!
# Mindone.Mux.Session

The multiplexer session (`modem/mux/session.rs`): the state machine of the 64
channels, from the `SABM` frames of `begin` to the reset after the transport is
closed. Everything the session asks of its owner goes through a `Sink`, whose
answers decide how an operation goes on; a rejected effect stops the operation
and the state reached is kept, as behind the source's `?`.
-/

namespace Mindone.Mux

open Mindone.Lib

def setupTimeoutMs : Nat := 30000
def transmitRetryMs : Nat := 10
def sabm : UInt8 := 0x2f
def ua : UInt8 := 0x63
def dm : UInt8 := 0x0f
def disc : UInt8 := 0x43
def msc : UInt8 := 0xe1

/-- An index into the channel table. -/
abbrev Dlci := Fin 64

theorem channel_lt (frame : Frame) : frame.channel.toNat < 64 := by
  have hshift : ∀ address : UInt8, (address >>> 2).toNat < 64 := by decide +kernel
  exact hshift frame.address

/-- The table index of a frame's channel; six bits are always inside. -/
def Frame.dlci (frame : Frame) : Dlci := ⟨frame.channel.toNat, channel_lt frame⟩

/-- The address byte of a command on channel `c`. -/
def commandAddress (c : Dlci) : UInt8 := UInt8.ofNat c.val <<< 2 ||| 3

/-- `channels.get(channel as usize)`. -/
def dlci? (channel : UInt8) : Option Dlci :=
  if h : channel.toNat < 64 then some ⟨channel.toNat, h⟩ else none

/-- The channels `1..64`. -/
def dataChannels : List Dlci := (List.finRange 64).drop 1

structure ChannelConfig where
  channel : UInt8
  atci : Bool
  deriving DecidableEq

/-- What the owner of a session is asked to do. -/
inductive Action
  | transmit (frame : Frame)
  | closeEndpoint (channel : Dlci)
  | ready (refusedChannels : Nat)
  | atciUnavailable
  deriving DecidableEq

/-- The calls a session makes on its `Sink`. -/
inductive Call
  | openEndpoint (channel : Dlci)
  | pauseEndpoint (channel : Dlci)
  | apply (action : Action)
  deriving DecidableEq

/-- `trait Sink`: an answer to every call, over the owner's own state `σ`. -/
abbrev Sink (σ : Type) := Call → σ → Bool × σ

inductive Handoff
  | none
  | control (payload : List UInt8)
  | data (channel : Dlci) (payload : List UInt8)
  | endpointMissing (channel : Dlci) (bytes : Nat)
  deriving DecidableEq

inductive ApplicationInput
  | forward
  | reportRefusal
  | discard
  deriving DecidableEq

/-- The flags of one channel that change. Which channels are configured, and for
which of them `atci` holds, is fixed by the `Layout`. -/
structure Channel where
  endpointPresent : Bool := false
  opening : Bool := false
  isOpen : Bool := false
  disconnecting : Bool := false
  refused : Bool := false
  refusalReported : Bool := false
  peerPaused : Bool := false
  localPaused : Bool := false
  deriving DecidableEq

/-- The configured channels other than the control channel, in start-up order. -/
structure Layout where
  order : List Dlci
  atci : Dlci → Bool
  nodup : order.Nodup
  zero_notMem : (0 : Dlci) ∉ order

namespace Session

inductive Phase
  | idle
  | setup
  | running
  | closing
  | peerClosing
  | failed
  deriving DecidableEq

inductive Error
  | configuration
  | notStarted
  | alreadyStarted
  | failed
  | clockOverflow
  | setupTimeout
  | endpointUnavailable
  | effectRejected
  | oversizedPayload
  deriving DecidableEq

end Session

structure Session where
  layout : Layout
  channels : Dlci → Channel
  phase : Session.Phase
  limit : Nat
  unresolved : Nat
  setupDone : Bool
  readyStarted : Bool
  pollFinalEcho : Bool
  setupDeadline : Nat
  recovery : Bool
  retryAt : Dlci → Nat
  attempts : Dlci → Nat
  now : Nat
  escalationAfter : Nat

namespace Session

/-! ### Construction -/

/-- One turn of the loop over the configuration in `new`. -/
def addChannel (layout : Layout) (item : ChannelConfig) : Except Error Layout :=
  match dlci? item.channel with
  | none => .error .configuration
  | some c =>
      if hc : c = 0 ∨ c ∈ layout.order then .error .configuration
      else .ok
        { order := layout.order ++ [c]
          atci := Function.update layout.atci c item.atci
          nodup := by
            rw [List.nodup_append]
            refine ⟨layout.nodup, List.nodup_singleton c, ?_⟩
            rintro a ha b hb rfl
            exact hc (Or.inr (List.mem_singleton.mp hb ▸ ha))
          zero_notMem := by
            rw [List.mem_append, List.mem_singleton]
            rintro (h | h)
            · exact layout.zero_notMem h
            · exact hc (Or.inl h.symm) }

def emptyLayout : Layout where
  order := []
  atci := fun _ => false
  nodup := List.nodup_nil
  zero_notMem := List.not_mem_nil

/-- A session before its first `begin`. -/
def initial (layout : Layout) (limit : Nat) : Session where
  layout := layout
  channels := fun _ => {}
  phase := .idle
  limit := limit
  unresolved := 0
  setupDone := false
  readyStarted := false
  pollFinalEcho := false
  setupDeadline := 0
  recovery := false
  retryAt := fun _ => 0
  attempts := fun _ => 0
  now := 0
  escalationAfter := 0

def new (config : List ChannelConfig) (limit : Nat) : Except Error Session :=
  if ¬ ValidLimit limit ∨ config.length > 63 then .error .configuration
  else do
    let layout ← config.foldlM addChannel emptyLayout
    pure (initial layout limit)

/-! ### Reading the table -/

def configured (s : Session) (c : Dlci) : Bool := c == 0 || c ∈ s.layout.order

/-- A configured channel by its number. -/
def find (s : Session) (channel : UInt8) : Option Dlci :=
  (dlci? channel).filter s.configured

def channel (s : Session) (channel : UInt8) : Option Channel :=
  (s.find channel).map s.channels

def refusedChannels (s : Session) : Nat :=
  (List.finRange 64).countP fun c => (s.channels c).refused

def recoveryDeadline (s : Session) : Option Nat :=
  (((List.finRange 64).map s.retryAt).filter (· ≠ 0)).min?

def recoveryCooldown (s : Session) (now : Nat) : Nat := s.escalationAfter - now

def disconnectPending (s : Session) : Bool :=
  (List.finRange 64).any fun c => (s.channels c).disconnecting

def canReadEndpoint (s : Session) (channel : UInt8) (transmitCapacity : Bool) : Bool :=
  (s.phase == .setup || s.phase == .running) && s.setupDone &&
    (s.channel channel).any fun value =>
      value.endpointPresent && (value.isOpen || value.refused) && !value.peerPaused &&
        transmitCapacity

/-! ### Updating the table -/

/-- Change the flags of one channel. -/
def modify (s : Session) (c : Dlci) (f : Channel → Channel) : Session :=
  { s with channels := Function.update s.channels c (f (s.channels c)) }

def setRetryAt (s : Session) (c : Dlci) (due : Nat) : Session :=
  { s with retryAt := Function.update s.retryAt c due }

def setAttempts (s : Session) (c : Dlci) (n : Nat) : Session :=
  { s with attempts := Function.update s.attempts c n }

def fail (s : Session) : Session := { s with phase := .failed }

/-- `enable_recovery`. -/
def enableRecovery (s : Session) (escalationAfter : Nat) : Session :=
  { s with recovery := true, escalationAfter := escalationAfter }

/-- `reset_after_transport_close`. -/
def resetAfterTransportClose (s : Session) : Session :=
  { s with
    channels := Function.update (fun _ => {}) 0 { peerPaused := (s.channels 0).peerPaused }
    phase := .idle
    unresolved := 0
    setupDone := false
    pollFinalEcho := false
    setupDeadline := 0
    retryAt := fun _ => 0
    attempts := fun _ => 0 }

/-! ### Operations -/

/-- An operation works on the session and on the state of its sink. -/
abbrev Op (σ : Type) (α : Type) := EStateM Error (Session × σ) α

variable {σ : Type}

def read : Op σ Session := fun st => .ok st.1 st

def update (f : Session → Session) : Op σ Unit := fun st => .ok () (f st.1, st.2)

/-- Ask the sink. -/
def ask (sink : Sink σ) (call : Call) : Op σ Bool := fun st =>
  .ok (sink call st.2).1 (st.1, (sink call st.2).2)

section Primitives

variable {st : Session × σ} {E : Error → Session × σ → Prop}

@[simp] theorem ends_read {Q : Session → Session × σ → Prop} :
    Ends read st Q E ↔ Q st.1 st := ends_of_ok rfl

@[simp] theorem ends_update {f : Session → Session} {Q : Unit → Session × σ → Prop} :
    Ends (update f) st Q E ↔ Q () (f st.1, st.2) := ends_of_ok rfl

@[simp] theorem ends_ask {sink : Sink σ} {call : Call} {Q : Bool → Session × σ → Prop} :
    Ends (ask sink call) st Q E ↔ Q (sink call st.2).1 (st.1, (sink call st.2).2) :=
  ends_of_ok rfl

end Primitives

/-- `checked_add`, with the error of the callers here. -/
def deadline (now duration : Nat) : Op σ Nat :=
  match checkedAdd now duration with
  | none => throw .clockOverflow
  | some due => pure due

theorem ends_deadline {now duration : Nat} {st : Session × σ} {Q : Nat → Session × σ → Prop}
    {E : Error → Session × σ → Prop} (hok : Q (now + duration) st) (herr : E .clockOverflow st) :
    Ends (deadline now duration) st Q E := by
  unfold deadline checkedAdd
  by_cases h : now + duration ≤ u64Max
  · simpa [h] using hok
  · simpa [h] using herr

def active : Op σ Unit := do
  let s ← read
  match s.phase with
  | .idle => throw .notStarted
  | .failed => throw .failed
  | _ => pure ()

theorem ends_active {st : Session × σ} {Q : Unit → Session × σ → Prop}
    {E : Error → Session × σ → Prop} (hok : st.1.phase ≠ .idle → st.1.phase ≠ .failed → Q () st)
    (hidle : st.1.phase = .idle → E .notStarted st)
    (hfailed : st.1.phase = .failed → E .failed st) : Ends active st Q E := by
  unfold active
  rw [ends_bind, ends_read]
  cases hphase : st.1.phase with
  | idle => exact (ends_throw _).mpr (hidle hphase)
  | failed => exact (ends_throw _).mpr (hfailed hphase)
  | setup => exact (ends_pure _).mpr (hok (by simp [hphase]) (by simp [hphase]))
  | running => exact (ends_pure _).mpr (hok (by simp [hphase]) (by simp [hphase]))
  | closing => exact (ends_pure _).mpr (hok (by simp [hphase]) (by simp [hphase]))
  | peerClosing => exact (ends_pure _).mpr (hok (by simp [hphase]) (by simp [hphase]))

section Operations

variable (sink : Sink σ)

def apply (action : Action) : Op σ Unit := do
  if ← ask sink (.apply action) then pure ()
  else
    update fail
    throw .effectRejected

/-- Whether a transmission carries the pending poll/final echo. -/
def echoes (s : Session) (control : UInt8) (payload : List UInt8) : Bool :=
  (control == ui || control == uih) && s.pollFinalEcho &&
    payload.head?.any fun value => value &&& ~~~2 == msc

def transmit (channel : Dlci) (control : UInt8) (payload : List UInt8) : Op σ Unit := do
  let s ← read
  if payload.length > s.limit then
    update fail
    throw .oversizedPayload
  else if s.echoes control payload then
    update fun s => { s with pollFinalEcho := false }
    apply sink (.transmit ⟨commandAddress channel, control ||| pollFinal, payload⟩)
  else apply sink (.transmit ⟨commandAddress channel, control, payload⟩)

/-- One turn of the loop in `begin`. -/
def beginChannel (c : Dlci) : Op σ Unit := do
  if ← ask sink (.openEndpoint c) then
    update fun s => s.modify c fun ch => { ch with endpointPresent := true, opening := true }
    transmit sink c (sabm ||| pollFinal) []
  else
    update fail
    throw .endpointUnavailable

def begin (now : Nat) : Op σ Unit := do
  let s ← read
  if s.phase ≠ .idle then throw .alreadyStarted
  else
    let setupDeadline ← deadline now setupTimeoutMs
    update fun s =>
      { s with
        phase := .setup
        setupDone := false
        unresolved := s.layout.order.length + 1
        setupDeadline := setupDeadline }
    update fun s => s.modify 0 fun ch => { ch with opening := true }
    transmit sink 0 (sabm ||| pollFinal) []
    s.layout.order.forM (beginChannel sink)

def resolve : Op σ Unit := do
  let s ← read
  if s.unresolved = 0 then pure ()
  else
    update fun s => { s with unresolved := s.unresolved - 1 }
    if s.unresolved - 1 = 0 ∧ s.setupDone = false then
      update fun s => { s with setupDone := true, phase := .running }
      if s.readyStarted then pure ()
      else
        apply sink (.ready s.refusedChannels)
        update fun s => { s with readyStarted := true }
    else pure ()

def closeEndpoint (c : Dlci) : Op σ Unit := do
  apply sink (.closeEndpoint c)
  update fun s => s.modify c fun ch =>
    { ch with endpointPresent := false, peerPaused := false, localPaused := false }

/-- A refused `pause_endpoint` stops the operation **without** setting the phase. -/
def recoverChannel (c : Dlci) : Op σ Unit := do
  update fun s => s.modify c fun ch =>
    { ch with
      peerPaused := false
      localPaused := false
      refused := false
      opening := false
      disconnecting := false }
  if ← ask sink (.pauseEndpoint c) then
    let s ← read
    if s.retryAt c = 0 then
      let due ← deadline s.now 1000
      update fun s => s.setRetryAt c due
    else pure ()
  else throw .effectRejected

/-- The loop of `recovery_tick`. There is no check of the phase. -/
def tickChannels (now : Nat) : List Dlci → Op σ Bool
  | [] => pure false
  | c :: rest => do
      let s ← read
      if s.retryAt c = 0 ∨ now < s.retryAt c then tickChannels now rest
      else if s.attempts c = 3 then
        update fun s => s.modify c fun ch => { ch with opening := false }
        if now ≥ s.escalationAfter then
          let later ← deadline now 300000
          update fun s => { s with escalationAfter := later }
          pure true
        else
          update fun s => s.setRetryAt c s.escalationAfter
          tickChannels now rest
      else
        update fun s => (s.setAttempts c (s.attempts c + 1)).modify c fun ch =>
          { ch with opening := true }
        transmit sink c (sabm ||| pollFinal) []
        let later ← deadline now 1000
        update fun s => s.setRetryAt c later
        tickChannels now rest

def recoveryTick (now : Nat) : Op σ Bool := do
  update fun s => { s with now := now }
  tickChannels sink now dataChannels

/-! The arms of `receive`, each for a frame on channel `c`. -/

/-- `UI` and `UIH`. -/
def receiveData (frame : Frame) : Op σ Handoff := do
  update fun s =>
    { s with pollFinalEcho := s.pollFinalEcho || frame.control &&& pollFinal != 0 }
  let s ← read
  let c := frame.dlci
  if c = 0 then pure (.control frame.payload)
  else if s.configured c then
    if (s.channels c).endpointPresent ∧ (!s.recovery || (s.channels c).isOpen) then
      pure (.data c frame.payload)
    else pure (.endpointMissing c frame.payload.length)
  else pure .none

def receiveUa (c : Dlci) : Op σ Unit := do
  let s ← read
  if (s.channels c).isOpen then
    if (s.channels c).disconnecting then
      update fun s => s.modify c fun ch => { ch with disconnecting := false, isOpen := false }
    else pure ()
  else if (s.channels c).opening then
    update fun s => (s.modify c fun ch => { ch with opening := false, isOpen := true }).setRetryAt c 0
    if s.attempts c = 0 then resolve sink else pure ()
  else
    update fun s => s.modify c fun ch => { ch with disconnecting := false }

def receiveDm (c : Dlci) : Op σ Unit := do
  let s ← read
  if s.recovery ∧ c ≠ 0 ∧ s.retryAt c ≠ 0 then
    update fun s => s.modify c fun ch => { ch with opening := false }
  else if (s.channels c).isOpen then
    update fun s => s.modify c fun ch => { ch with isOpen := false, disconnecting := false }
    if c = 0 then update fun s => { s with phase := .peerClosing }
    else if s.recovery then recoverChannel sink c
    else closeEndpoint sink c
  else if c = 0 then update fun s => { s with phase := .closing }
  else if (s.channels c).opening then
    update fun s => s.modify c fun ch => { ch with opening := false, refused := true }
    if s.layout.atci c then apply sink .atciUnavailable else pure ()
    resolve sink
  else pure ()

/-- The end of the `SABM` arm, with the endpoint in place. -/
def joinChannel (c : Dlci) : Op σ Unit := do
  let s ← read
  update fun s => (s.modify c fun ch =>
    { ch with
      isOpen := true
      disconnecting := false
      refused := false
      refusalReported := false
      opening := false }).setRetryAt c 0
  if (s.channels c).opening ∧ s.attempts c = 0 then resolve sink else pure ()
  transmit sink c (ua ||| pollFinal) []

def receiveSabm (c : Dlci) : Op σ Unit := do
  let s ← read
  if s.configured c then
    if c ≠ 0 ∧ (s.channels c).endpointPresent = false then
      if ← ask sink (.openEndpoint c) then
        update fun s => s.modify c fun ch =>
          { ch with endpointPresent := true, localPaused := false, peerPaused := false }
        joinChannel sink c
      else transmit sink c (dm ||| pollFinal) []
    else joinChannel sink c
  else transmit sink c (dm ||| pollFinal) []

def receiveDisc (c : Dlci) : Op σ Unit := do
  let s ← read
  if s.configured c ∧ (s.channels c).isOpen then
    update fun s => s.modify c fun ch => { ch with isOpen := false }
    transmit sink c (ua ||| pollFinal) []
    if c = 0 then update fun s => { s with phase := .peerClosing }
    else if s.recovery then recoverChannel sink c
    else closeEndpoint sink c
  else transmit sink c (dm ||| pollFinal) []

/-- The control byte decides the arm. -/
def receiveFrame (frame : Frame) : Op σ Handoff := do
  let s ← read
  let c := frame.dlci
  if frame.kind = ui ∨ frame.kind = uih then receiveData frame
  else if frame.kind = ua ∧ s.configured c then
    receiveUa sink c
    pure .none
  else if frame.kind = dm ∧ s.configured c then
    receiveDm sink c
    pure .none
  else if frame.kind = sabm then
    receiveSabm sink c
    pure .none
  else if frame.kind = disc then
    receiveDisc sink c
    pure .none
  else pure .none

def receive (frame : Frame) : Op σ Handoff := do
  active
  let s ← read
  if s.phase = .closing ∨ s.phase = .peerClosing then
    if s.recovery ∧ s.phase = .closing ∧ frame.kind = ua ∧
        (s.channels frame.dlci).disconnecting then
      update fun s => s.modify frame.dlci fun ch =>
        { ch with disconnecting := false, isOpen := false }
    else pure ()
    pure .none
  else if frame.payload.length > s.limit then throw .oversizedPayload
  else receiveFrame sink frame

def applyPeerSignals (channel signals : UInt8) : Op σ Unit := do
  active
  let s ← read
  match s.find channel with
  | some c =>
      if (s.channels c).isOpen then
        update fun s => s.modify c fun ch => { ch with peerPaused := signals &&& 2 != 0 }
      else pure ()
  | none => pure ()

def applicationInput (channel : UInt8) : Op σ ApplicationInput := do
  active
  let s ← read
  match s.find channel with
  | none => throw .configuration
  | some c =>
      if (s.channels c).refused then
        update fun s => s.modify c fun ch => { ch with refusalReported := true }
        pure (if (s.channels c).refusalReported then .discard else .reportRefusal)
      else pure .forward

/-- The `MSC` command that carries the local flow-control bit. -/
def signalsPayload (c : Dlci) (paused : Bool) : List UInt8 :=
  [msc ||| 2, 5, commandAddress c, 0x8d ||| if paused then 2 else 0]

def sendLocalSignals (c : Dlci) (paused : Bool) : Op σ Unit :=
  transmit sink 0 (uih ||| pollFinal) (signalsPayload c paused)

def setLocalPause (channel : UInt8) (paused : Bool) : Op σ Unit := do
  active
  let s ← read
  match (s.find channel).filter fun c => (s.channels c).endpointPresent with
  | none => throw .endpointUnavailable
  | some c =>
      if (s.channels c).localPaused ≠ paused then
        update fun s => s.modify c fun ch => { ch with localPaused := paused }
        sendLocalSignals sink c paused
      else pure ()

def recreateEndpoint (channel : UInt8) : Op σ Unit := do
  active
  let s ← read
  match s.find channel with
  | none => throw .configuration
  | some c =>
      if c = 0 then throw .configuration
      else
        closeEndpoint sink c
        if (s.channels c).localPaused then sendLocalSignals sink c false else pure ()
        if ← ask sink (.openEndpoint c) then
          update fun s => s.modify c fun ch => { ch with endpointPresent := true }
        else
          update fail
          throw .endpointUnavailable

def requestDisconnect (channel : UInt8) : Op σ Unit := do
  active
  let s ← read
  match s.find channel with
  | none => throw .configuration
  | some c =>
      if (s.channels c).isOpen then
        update fun s => s.modify c fun ch => { ch with disconnecting := true }
        transmit sink c (disc ||| pollFinal) []
      else pure ()

def sendControl (control : UInt8) (payload : List UInt8) : Op σ Unit := do
  active
  transmit sink 0 control payload

def peerClose : Op σ Unit := do
  active
  update fun s => { s with phase := .peerClosing }

def pollTimeout (now : Nat) (transmitPending : Bool) : Op σ (Option Nat) := do
  active
  let s ← read
  let retry := if transmitPending then some transmitRetryMs else none
  if s.phase = .closing ∨ s.phase = .peerClosing then pure none
  else if s.setupDone then pure retry
  else if now ≥ s.setupDeadline then
    update fail
    throw .setupTimeout
  else
    let remaining := s.setupDeadline - now
    pure (some (retry.elim remaining fun value => min value remaining))

end Operations

/-! ### Runs -/

/-- The operations of the interface. -/
inductive Operation
  | enableRecovery (escalationAfter : Nat)
  | begin (now : Nat)
  | receive (frame : Frame)
  | recoveryTick (now : Nat)
  | applyPeerSignals (channel signals : UInt8)
  | applicationInput (channel : UInt8)
  | setLocalPause (channel : UInt8) (paused : Bool)
  | recreateEndpoint (channel : UInt8)
  | requestDisconnect (channel : UInt8)
  | sendControl (control : UInt8) (payload : List UInt8)
  | pollTimeout (now : Nat) (transmitPending : Bool)
  | peerClose
  | resetAfterTransportClose
  deriving DecidableEq

/-- Perform an operation, for its effect and its error. -/
def Operation.run (sink : Sink σ) : Operation → Op σ Unit
  | .enableRecovery escalationAfter => Session.update (·.enableRecovery escalationAfter)
  | .begin now => Session.begin sink now
  | .receive frame => do let _ ← Session.receive sink frame
  | .recoveryTick now => do let _ ← Session.recoveryTick sink now
  | .applyPeerSignals channel signals => Session.applyPeerSignals channel signals
  | .applicationInput channel => do let _ ← Session.applicationInput channel
  | .setLocalPause channel paused => Session.setLocalPause sink channel paused
  | .recreateEndpoint channel => Session.recreateEndpoint sink channel
  | .requestDisconnect channel => Session.requestDisconnect sink channel
  | .sendControl control payload => Session.sendControl sink control payload
  | .pollTimeout now transmitPending => do let _ ← Session.pollTimeout now transmitPending
  | .peerClose => Session.peerClose
  | .resetAfterTransportClose => Session.update (·.resetAfterTransportClose)

/-- The state after an operation. -/
def step (sink : Sink σ) (st : Session × σ) (op : Operation) : Session × σ :=
  endState (op.run sink st)

/-- The state after a list of operations. -/
def runAll (sink : Sink σ) (st : Session × σ) (ops : List Operation) : Session × σ :=
  ops.foldl (step sink) st

end Session

end Mindone.Mux
