import Mindone.Mux.Chat
import Mindone.Mux.Mcc
import Mindone.Mux.SessionMoves
import Mindone.Mux.Transport

/-!
# Mindone.Mux.Context

The session's sink in the multiplexer runtime (`modem/mux/runtime.rs`): the endpoints
in their slots, the transmit queue and the poll epochs, and `deliver`, which hands the
payload of a frame to an endpoint.

Everything outside the process is an `Env` over a world `ω`: what devices answer, what
the factory opens and how the owner takes the published effects. Besides the fields of
the source the context keeps a `history` of what happened to endpoints and bytes; the
program never reads it.
-/

namespace Mindone.Mux

open Mindone.Lib Transport

namespace Runtime

def maxChannels : Nat := 46
def readBytes : Nat := 4096
def closeFlushMs : Nat := 500
def retryMs : Nat := 10
def maxPending : Nat := pendingBytes + maxPayload

inductive Event
  | ready (refusedChannels : Nat)
  | atciUnavailable
  | modemException
  deriving DecidableEq

inductive State
  | startup
  | multiplexing
  | peerClosing
  | closed
  | failed
  deriving DecidableEq

inductive Error
  | configuration
  | io
  | capacity
  | invalidProgress
  | clockRegression
  | clockOverflow
  | chat (error : Chat.Error)
  | chatRead (error : Chat.Error)
  | session (error : Session.Error)
  | mcc (error : Mcc.Error)
  | effectRejected
  | unsupportedLocalClose
  deriving DecidableEq

structure Interest where
  token : PollToken
  readable : Bool
  writable : Bool
  deriving DecidableEq

structure Ready where
  token : PollToken
  readable : Bool
  writable : Bool
  hangup : Bool
  deriving DecidableEq

structure Limits where
  calls : Nat
  bytes : Nat
  deriving DecidableEq

structure Report where
  state : State
  error : Option Error
  calls : Nat
  bytes : Nat
  frames : Nat
  discarded : Nat
  staleEvents : Nat
  deriving DecidableEq

/-- The number of a channel. -/
def number (c : Dlci) : UInt8 := UInt8.ofNat c.val

/-! ### The world outside -/

/-- Endpoints of type `E`, their factory and the owner's effects, over a world `ω`. A
read fills the front of the buffer it is given; `epochsTaken` says how many poll epochs
the rest of the process took since the last one taken here. -/
structure Env (E ω : Type) where
  prepare : E → ω → Bool × ω
  descriptor : E → Int
  read : E → Nat → ω → (IoResult × List UInt8) × ω
  write : E → List UInt8 → ω → IoResult × ω
  openEndpoint : Dlci → ω → Option E × ω
  apply : Event → ω → Bool × ω
  epochsTaken : ω → Nat × ω

/-- `io_turn`: one call on a device within the budget. -/
def ioTurn {ω : Type} (requested : Nat) (operation : Nat → ω → IoResult × ω) :
    EStateM Error (ω × TurnBudget) (Option IoResult) := fun (w, budget) =>
  if requested = 0 then .ok none (w, budget)
  else
    match budget.permit with
    | none => .ok none (w, budget)
    | some (maxBytes, budget) =>
        let offered := min requested maxBytes
        match operation offered w with
        | (.transferred accepted, w) =>
            if accepted > offered then .error .invalidProgress (w, budget)
            else
              match budget.complete maxBytes accepted with
              | .error _ => .error .invalidProgress (w, budget)
              | .ok budget => .ok (some (.transferred accepted)) (w, budget)
        | (.fault fault, w) =>
            match budget.complete maxBytes 0 with
            | .error _ => .error .invalidProgress (w, budget)
            | .ok budget => .ok (some (.fault fault)) (w, budget)

/-- A call takes one of the budget's calls. -/
theorem ioTurn_lt {ω : Type} {requested : Nat} {operation : Nat → ω → IoResult × ω}
    {w w' : ω} {budget budget' : TurnBudget} {result : IoResult}
    (h : ioTurn requested operation (w, budget) = .ok (some result) (w', budget')) :
    budget'.callLimit - budget'.calls < budget.callLimit - budget.calls := by
  unfold ioTurn at h
  dsimp only at h
  split at h
  · cases h
  · split at h
    · cases h
    · rename_i maxBytes taken hpermit
      obtain ⟨called, hcall, hreserved⟩ := Option.map_eq_some_iff.mp hpermit
      cases hreserved
      have hlt := TurnBudget.takeCall_lt hcall
      have hcomplete : ∀ {n : Nat} {b b' : TurnBudget}, b.complete called.availableBytes n = .ok b' →
          b'.callLimit = b.callLimit ∧ b'.calls = b.calls := by
        intro n b b' hok
        unfold TurnBudget.complete at hok
        split at hok
        · cases hok
        · cases hok
          exact ⟨rfl, rfl⟩
      split at h
      · split at h
        · cases h
        · split at h
          · cases h
          · rename_i hok
            cases h
            obtain ⟨hlimit, hcalls⟩ := hcomplete hok
            rw [hlimit, hcalls]
            exact hlt
      · split at h
        · cases h
        · rename_i hok
          cases h
          obtain ⟨hlimit, hcalls⟩ := hcomplete hok
          rw [hlimit, hcalls]
          exact hlt

/-! ### The context -/

structure Slot (E : Type) where
  endpoint : E
  token : PollToken
  pending : PendingQueue maxPending

/-- What the history records. -/
inductive Mark
  /-- The channel became open. -/
  | opened (c : Dlci)
  /-- An endpoint was put into the channel's slot. -/
  | created (c : Dlci)
  /-- The endpoint was taken out of the channel's slot. For the serial line, with number
  `0`: its token was taken back, at the switch to the multiplexer or at the end. -/
  | closed (c : Dlci)
  /-- The session put a frame into the transmit queue. -/
  | queued (frame : Frame)
  /-- A payload was handed to `deliver`. -/
  | delivered (c : Dlci) (bytes : List UInt8)
  /-- The channel's endpoint accepted bytes. -/
  | accepted (c : Dlci) (bytes : List UInt8)
  /-- Delivered bytes were added to `discarded`. -/
  | discarded (c : Dlci) (bytes : List UInt8)
  deriving DecidableEq

/-- The context of the source, with the world, the process-wide counter
`NEXT_GENERATION` and the history. -/
structure Context (E ω : Type) where
  tx : TransmitQueue
  slots : Dlci → Option (Slot E)
  epochs : PollEpochs
  generation : Nat
  frameLimit : Nat
  discarded : Nat
  world : ω
  history : List Mark

variable {E ω : Type}

namespace Context

def note (ctx : Context E ω) (mark : Mark) : Context E ω :=
  { ctx with history := ctx.history ++ [mark] }

/-- Count bytes of channel `c` as discarded. -/
def discard (ctx : Context E ω) (c : Dlci) (bytes : List UInt8) : Context E ω :=
  { ctx.note (.discarded c bytes) with discarded := ctx.discarded + bytes.length }

def setSlot (ctx : Context E ω) (c : Dlci) (slot : Option (Slot E)) : Context E ω :=
  { ctx with slots := Function.update ctx.slots c slot }

/-- `PollEpochs::replace` on the context's epochs. -/
def replaceEpoch (env : Env E ω) (endpoint : EndpointId) (descriptor : Int) (ctx : Context E ω) :
    Option PollToken × Context E ω :=
  let (taken, w) := env.epochsTaken ctx.world
  match PollEpochs.replace endpoint descriptor
      (ctx.epochs, min (ctx.generation + taken) u64Max) with
  | .ok token (epochs, generation) => (some token, { ctx with epochs, generation, world := w })
  | .error _ (epochs, generation) => (none, { ctx with epochs, generation, world := w })

def openEndpoint (env : Env E ω) (c : Dlci) (ctx : Context E ω) : Bool × Context E ω :=
  if c = 0 ∨ (ctx.slots c).isSome then (false, ctx)
  else
    match env.openEndpoint c ctx.world with
    | (none, w) => (false, { ctx with world := w })
    | (some endpoint, w) =>
        match env.prepare endpoint w with
        | (false, w) => (false, { ctx with world := w })
        | (true, w) =>
            match PendingQueue.new ctx.frameLimit with
            | .error _ => (false, { ctx with world := w })
            | .ok pending =>
                match replaceEpoch env (.channel (number c)) (env.descriptor endpoint)
                    { ctx with world := w } with
                | (none, ctx) => (false, ctx)
                | (some token, ctx) =>
                    (true, (ctx.setSlot c (some { endpoint, token, pending })).note (.created c))

def pauseEndpoint (c : Dlci) (ctx : Context E ω) : Bool × Context E ω :=
  match ctx.slots c with
  | none => (true, ctx)
  | some slot =>
      (true, (ctx.setSlot c (some { slot with pending := slot.pending.clear.2 })).discard c
        slot.pending.pending)

/-- Take the endpoint out of its slot. -/
def dropSlot (c : Dlci) (ctx : Context E ω) : Context E ω :=
  match ctx.slots c with
  | none => ctx
  | some slot => ((ctx.setSlot c none).note (.closed c)).discard c slot.pending.pending

def transmit (frame : Frame) (ctx : Context E ω) : Bool × Context E ω :=
  match TransmitQueue.admitFrame frame ctx.tx with
  | .ok _ tx => (true, { ctx with tx }.note (.queued frame))
  | .error _ tx => (false, { ctx with tx })

def publish (env : Env E ω) (event : Event) (ctx : Context E ω) : Bool × Context E ω :=
  let (answer, w) := env.apply event ctx.world
  (answer, { ctx with world := w })

/-- `impl Sink for Context`. -/
def sink (env : Env E ω) : Sink (Context E ω)
  | .openEndpoint c => openEndpoint env c
  | .pauseEndpoint c => pauseEndpoint c
  | .apply (.transmit frame) => transmit frame
  | .apply (.closeEndpoint c) => fun ctx =>
      match ctx.epochs.invalidate (.channel (number c)) with
      | .error _ => (false, ctx)
      | .ok epochs => (true, { ctx with epochs }.dropSlot c)
  | .apply (.ready refusedChannels) => publish env (.ready refusedChannels)
  | .apply .atciUnavailable => publish env .atciUnavailable

/-- Record the channels that became open between two states of the session. -/
def noteOpened (before after : Session) (ctx : Context E ω) : Context E ω :=
  { ctx with
    history := ctx.history ++ ((List.finRange 64).filter fun c =>
      !(before.channels c).isOpen && (after.channels c).isOpen).map .opened }

end Context

/-! ### Delivery -/

/-- `Writer`: a terminal turns the faults of a device into a plain failure. -/
def endpointWriter (env : Env E ω) (endpoint : E) (pty : Bool) : ByteWriter ω := fun input w =>
  match env.write endpoint input w with
  | (.fault .busy, w) => (.fault (if pty then .failure else .busy), w)
  | (.fault .deviceReset, w) => (.fault (if pty then .failure else .deviceReset), w)
  | (.fault .endOfStream, w) => (.fault (if pty then .failure else .endOfStream), w)
  | value => value

inductive Delivery
  | buffered
  | done
  | recreate
  deriving DecidableEq

/-- Where the write loop of `deliver` stopped. -/
structure Written (ω : Type) where
  /-- `none` when the loop ended or broke off, `some` for a fault of the endpoint. -/
  outcome : Except Error (Option Fault)
  rest : List UInt8
  world : ω
  budget : TurnBudget

/-- The write loop of `deliver`, with the bytes behind `offset` still to be written. -/
def writeLoop (writer : ByteWriter ω) (rest : List UInt8) (w : ω) (budget : TurnBudget) :
    Written ω :=
  if rest = [] then ⟨.ok none, rest, w, budget⟩
  else
    match _h : ioTurn rest.length (fun offered => writer (rest.take offered)) (w, budget) with
    | .error e (w, budget) => ⟨.error e, rest, w, budget⟩
    | .ok none (w, budget) => ⟨.ok none, rest, w, budget⟩
    | .ok (some (.transferred bytes)) (w, budget') =>
        if bytes = 0 then ⟨.ok none, rest, w, budget'⟩
        else writeLoop writer (rest.drop bytes) w budget'
    | .ok (some (.fault .wouldBlock)) (w, budget') => ⟨.ok none, rest, w, budget'⟩
    | .ok (some (.fault .interrupted)) (w, budget') => writeLoop writer rest w budget'
    | .ok (some (.fault fault)) (w, budget') => ⟨.ok (some fault), rest, w, budget'⟩
termination_by budget.callLimit - budget.calls
decreasing_by
  · exact ioTurn_lt _h
  · exact ioTurn_lt _h

/-- `Context::deliver`. -/
def deliver (env : Env E ω) (c : Dlci) (input : List UInt8) :
    EStateM Error (Context E ω × TurnBudget) Delivery := fun (ctx, budget) =>
  let ctx := ctx.note (.delivered c input)
  match ctx.slots c with
  | none => .ok .done (ctx.discard c input, budget)
  | some slot =>
      if slot.pending.pending ≠ [] then
        match slot.pending.bufferRemainder input with
        | .error _ => .ok .buffered (ctx.discard c input, budget)
        | .ok pending => .ok .buffered (ctx.setSlot c (some { slot with pending }), budget)
      else
        let written := writeLoop (recording (env.write slot.endpoint)) input (ctx.world, []) budget
        let ctx := { ctx with world := written.world.1 }.note (.accepted c written.world.2)
        match written.outcome with
        | .error e => .error e (ctx, written.budget)
        | .ok (some _) => .ok .recreate (ctx.discard c written.rest, written.budget)
        | .ok none =>
            if written.rest = [] then .ok .done (ctx, written.budget)
            else
              match slot.pending.bufferRemainder written.rest with
              | .error _ => .error .capacity (ctx, written.budget)
              | .ok pending =>
                  .ok .buffered (ctx.setSlot c (some { slot with pending }), written.budget)

end Runtime

end Mindone.Mux
