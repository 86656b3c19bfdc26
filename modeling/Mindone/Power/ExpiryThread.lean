import Mindone.Power.LocksRuns

/-!
# Mindone.Power.ExpiryThread

The service with its **expiry thread** (`mtkpower/service.cpp`). Clients change the tables under
`mMutex` and then set the wake flag under the mutex of the backend events; the thread clears the flag
at the start of a pass, takes the events in the same section, and waits at the end of the pass until
the flag is set or the earliest of its timers is reached. A step is a call of a client, an event of
the backend, or one of the two sections of a pass: events may come between the two, clients may not.
-/

namespace Mindone.Power

open Lib

/-- One second, in nanoseconds. -/
def retryNs : Nat := 1000 * nanosPerMs

/-! ### The wake-up time -/

/-- What a pass has found for its wait: `next`, where `none` is `time_point::max()`, and what has
failed with the reading of the clock that follows, a lock by its handle and the audio mode as `none`. -/
structure Wait where
  next : Option Nat
  failed : List (Option Int × Nat)
  deriving DecidableEq

namespace Wait

def start : Wait := ⟨none, []⟩

/-- `next = std::min(next, time)` -/
def before (wait : Wait) (time : Nat) : Wait :=
  { wait with next := some ((wait.next.map (min · time)).getD time) }

/-- A retry in a second. -/
def retry (wait : Wait) (what : Option Int) (time : Nat) : Wait :=
  { wait.before (time + retryNs) with failed := wait.failed ++ [(what, time)] }

/-- The thread wakes up no later than at this time. -/
def By (wait : Wait) (time : Nat) : Prop := ∃ next, wait.next = some next ∧ next ≤ time

end Wait

/-! ### The service -/

/-- `BackendEvents` -/
structure Events where
  registered : Option Nat
  deaths : List Nat
  ready : Bool
  wake : Bool

/-- Where the expiry thread is: before its first pass, between the two sections of one, or waiting. -/
inductive Thread
  | starting
  | passing
  | waiting (wait : Wait)

/-- The service; `mode` is the audio mode that was last set on the connection there is. -/
structure Service where
  core : State
  mode : Option Bool
  events : Events
  thread : Thread

abbrev Serve := EStateM Errno Service

/-- A program of the tables. -/
def lift {α : Type} (p : Op α) : Serve α := fun s =>
  match p s.core with
  | .ok a core => .ok a { s with core := core }
  | .error errno core => .error errno { s with core := core }

/-- `changed` -/
def Service.changed (s : Service) : Service := { s with events := { s.events with wake := true } }

/-- A program that calls `changed` wherever it ends. -/
def thenChanged {α : Type} (p : Serve α) : Serve α := fun s =>
  match p s with
  | .ok a s => .ok a s.changed
  | .error errno s => .error errno s.changed

/-- The audio mode that a call has set, if it has. -/
def noteMode (set : Bool) (mode : Bool) : Serve Unit :=
  modify fun s => { s with mode := if set then some mode else s.mode }

/-- `syncAudio`; where it returns true for a mode that was dirty, it has set it. -/
def syncMode : Serve Bool := do
  let s ← get
  let synced ← lift syncAudio
  noteMode (s.core.audioDirty && synced) (!s.core.audio.isEmpty)
  return synced

/-! ### Calls -/

/-- `acquire` up to where it changes anything. -/
def acquireChecks (caller : Caller) (handle : Int) (hints : List String) : Op Unit := do
  let s ← get
  refuse (s.backend.ext = false) .enodev
  checkOld caller handle
  checkSupported hints
  let s ← get
  refuse (s.next = int32Max) .eoverflow

/-- The rest of `acquire`. -/
def acquireHolds (caller : Caller) (handle : Int) (hints : List String) (durationMs : Nat) : Op Int := do
  let entry ← insertLock caller durationMs
  holdHints entry.handle entry.untilNs hints
  if handle > 0 then replaceOld handle entry.handle else return entry.handle

def serveAcquire (caller : Caller) (handle : Int) (duration : Nat) (resources : List Int)
    (names : List String) : Serve Int :=
  match checkArguments duration resources names with
  | .error errno => throw errno
  | .ok (hints, durationMs) => do
      lift (acquireChecks caller handle hints)
      thenChanged (lift (acquireHolds caller handle hints durationMs))

/-- `release` up to where it changes anything. -/
def releaseChecks (caller : Caller) (handle : Int) : Op Unit := do
  let s ← get
  match s.find handle with
  | none => throw .enoent
  | some found =>
      refuse (found.owner.uid ≠ caller.uid ∨ (caller.pid ≠ 0 ∧ found.owner.pid ≠ caller.pid)) .eperm

/-- The rest of `release`. -/
def releaseEnds (handle : Int) : Op Unit := do
  let t ← now
  modify (·.shorten handle t)
  let released ← releaseLocked handle
  refuse (released = false) .eio

def serveRelease (caller : Caller) (handle : Int) : Serve Unit := do
  lift (releaseChecks caller handle)
  thenChanged (lift (releaseEnds handle))

/-- `Death::serviceDied` -/
def serveDied (cookie : Nat) : Serve Unit := do
  let s ← get
  match s.core.callbacks.find? (·.1 == cookie) with
  | none => pure ()
  | some _ => thenChanged (lift (serviceDied cookie))

/-- `audio` -/
def serveAudio (caller : Caller) (hint data : Int) : Serve Unit := do
  lift (refuse (data < 0) .einval)
  lift (changeAudio caller hint data)
  -- the owner gets the mode with a call of its own
  noteMode (decide (data ≠ 0)) true
  lift (modify ({ · with audioDirty := true }))
  modify Service.changed
  let synced ← syncMode
  lift (refuse (synced = false) .eio)

/-! ### A pass -/

/-- One turn over the owners of the audio mode. -/
def ownerTurn (wait : Wait) (owner : (Nat × Int) × Nat) : Serve Wait := do
  let t ← lift now
  if owner.2 ≤ t then do
    lift (modify fun s => { s with audio := s.audio.filter (·.1 ≠ owner.1), audioDirty := true })
    return wait
  else return wait.before owner.2

def ownerTurns (wait : Wait) : List ((Nat × Int) × Nat) → Serve Wait
  | [] => return wait
  | owner :: owners => do
      let wait ← ownerTurn wait owner
      ownerTurns wait owners

/-- `restored && syncAudio()` -/
def syncRestored (restored : Bool) : Serve Bool := if restored then syncMode else pure false

/-- A turn of `recover` that is due. -/
def replayTurn : Serve Unit := do
  let connected ← lift connect
  let s ← get
  let restored ← lift (andThen connected (replayHints s.core.referenced))
  lift (modify fun s => { s with audioDirty := s.audioDirty || !s.audio.isEmpty })
  let synced ← syncRestored restored
  lift (finishReplay synced)

/-- `recover` -/
def recoverTurn : Serve Unit := do
  let s ← get
  let backend := s.core.backend
  if backend.ready = false ∨ backend.binder = none ∨ backend.replay = false then pure ()
  else do
    let t ← lift now
    if backend.replayAt.all (t < ·) then pure () else replayTurn

/-- `if (!mReplay && !syncAudio())` -/
def audioTurn (wait : Wait) : Serve Wait := do
  let s ← get
  if s.core.backend.replay then return wait
  else do
    let synced ← syncMode
    if synced then return wait
    else do
      let t ← lift now
      return wait.retry none t

/-- One turn over the locks. -/
def lockTurn (wait : Wait) (handle : Int) : Serve Wait := do
  let s ← get
  match s.core.find handle with
  | none => return wait
  | some e => do
      let t ← lift now
      if e.untilNs ≤ t then do
        let released ← lift (releaseLocked handle)
        if released then return wait
        else do
          let t ← lift now
          return wait.retry (some handle) t
      else return wait.before e.untilNs

def lockTurns (wait : Wait) : List Int → Serve Wait
  | [] => return wait
  | handle :: handles => do
      let wait ← lockTurn wait handle
      lockTurns wait handles

/-- The replay that is still to come. -/
def awaitReplay (wait : Wait) (backend : Backend) : Wait :=
  if backend.ready ∧ backend.binder ≠ none ∧ backend.replay then
    match backend.replayAt with
    | none => wait
    | some time => wait.before time
  else wait

/-- The pass after `updateBackend`, up to the wait. -/
def pass : Serve Unit := do
  let s ← get
  let wait ← ownerTurns .start s.core.audio
  recoverTurn
  let wait ← audioTurn wait
  let s ← get
  let wait ← lockTurns wait s.core.handles
  modify fun s => { s with thread := .waiting (awaitReplay wait s.core.backend) }

/-- `updateBackend`: the events are taken and the wake flag is cleared in one section. A connection
that is dropped takes its audio mode with it; `dropBackend` counts the generation up. -/
def Service.updateBackend (s : Service) : Service :=
  let core := s.core.updateBackend ⟨s.events.deaths, s.events.registered, s.events.ready⟩
  { s with
    core := core
    mode := if core.backend.generation = s.core.backend.generation then s.mode else none
    events := ⟨none, [], s.events.ready, false⟩
    thread := .passing }

/-! ### Steps -/

inductive Event
  | acquire (caller : Caller) (handle : Int) (duration : Nat) (resources : List Int) (names : List String)
  | release (caller : Caller) (handle : Int)
  | watch (caller : Caller)
  | unwatch (cookie : Nat)
  | died (cookie : Nat)
  | audio (caller : Caller) (hint data : Int)
  /-- `hintEvent`, `appEvent` -/
  | notify
  | backendRegistered (binder : Nat)
  | backendDied (generation : Nat)
  /-- The property says whether the backend is ready. -/
  | property (ready : Bool)
  /-- The thread takes `mMutex`: at its start, woken up or at its wake-up time. -/
  | wakeUp
  /-- It finishes its pass and waits. -/
  | finish

/-- The program of an event that takes `mMutex` for a client. -/
def Event.program : Event → Option (Serve Unit)
  | .acquire caller handle duration resources names => some do
      let _ ← serveAcquire caller handle duration resources names
  | .release caller handle => some (serveRelease caller handle)
  | .watch caller => some do let _ ← lift (Power.watch caller)
  | .unwatch cookie => some (lift (Power.unwatch cookie))
  | .died cookie => some (serveDied cookie)
  | .audio caller hint data => some (serveAudio caller hint data)
  | .notify => some (modify Service.changed)
  | _ => none

def Service.step (s : Service) (event : Event) : Option Service :=
  match event with
  | .backendRegistered binder =>
      some { s with events := { s.events with registered := some binder, wake := true } }
  | .backendDied generation =>
      some { s with events := { s.events with deaths := generation :: s.events.deaths, wake := true } }
  | .property ready =>
      some (if s.events.ready = ready then s
        else { s with events := { s.events with ready := ready, wake := true } })
  | .wakeUp =>
      match s.thread with
      | .passing => none
      | _ => some s.updateBackend
  | .finish =>
      match s.thread with
      | .passing => some (endState (pass s))
      | _ => none
  | event =>
      -- the thread has `mMutex` during a pass
      match s.thread with
      | .passing => none
      | _ => event.program.map fun program => endState (program s)

def Service.run (s : Service) (events : List Event) : Option Service := events.foldlM Service.step s

/-- The service at its start, with what the clock and the backend are going to do. -/
def Service.init (ticks : List Nat) (replies : List Reply) : Service where
  core := .start ticks replies
  mode := none
  events := ⟨none, [], false, false⟩
  thread := .starting

end Mindone.Power
