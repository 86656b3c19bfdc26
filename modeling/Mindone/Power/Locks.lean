import Mathlib.Data.List.AList
import Mathlib.Data.List.Sort
import Mindone.Lib.Keyed
import Mindone.Lib.Program

/-!
# Mindone.Power.Locks

The power locks of the `mtkpower` service (`mtkpower/service.cpp`, class `Locks`). A lock holds
hints until it expires; the backend has one boost for a hint, whatever the number of locks.

Every function runs under the mutex, so that a call, a pass of the expiry thread or the death of a
client is one step. What they cannot know is in the state: how much the clock goes on before each
reading, and how each call of the backend ends. An error code is an exception: **the state that was
reached stays**, as the code's does.
-/

namespace Mindone.Power

open Mindone.Lib

/-! ### State -/

/-- The error codes, without their sign. -/
inductive Errno
  | eperm | enoent | eio | enodev | einval | enospc | etime | eoverflow | eopnotsupp
  deriving DecidableEq

/-- How a call of the backend ends: `no` is an answer that something is not supported. -/
inductive Reply
  | ok | no | failed
  deriving DecidableEq

/-- The calling user and process; the process is 0 in a one-way call. -/
structure Caller where
  uid : Nat
  pid : Int
  deriving DecidableEq

/-- An entry of `mLocks`. `cut` is not the source's: the death of a client has ended it early. -/
structure Entry where
  handle : Int
  owner : Caller
  untilNs : Nat
  hints : List String
  cut : Bool
  deriving DecidableEq

/-- A `setBoost`: with `-1`, or for so many milliseconds from a reading of the clock on. -/
inductive Boost
  | off
  | lasting (since ms : Nat)
  deriving DecidableEq

/-- The connection: `ext` says that `mBackend` is there. -/
structure Backend where
  generation : Nat
  /-- `mBackendDeath` -/
  linked : Bool
  binder : Option Nat
  power : Bool
  ext : Bool
  ready : Bool
  replay : Bool
  /-- `none` is `time_point::max()`. -/
  replayAt : Option Nat
  replayDelay : Nat

/-- The service. Times are in nanoseconds. -/
structure State where
  locks : List Entry
  references : AList fun _ : String => Nat
  next : Int
  callbacks : List (Nat × Caller)
  cookie : Nat
  audio : List ((Nat × Int) × Nat)
  audioDirty : Bool
  backend : Backend
  /-- The last reading of the clock. -/
  time : Nat
  /-- How much it goes on before each of the next readings. -/
  ticks : List Nat
  /-- How the next calls end. -/
  replies : List Reply
  /-- A call of the connected backend has failed, or it did not support a hint that is replayed. -/
  failed : Bool
  /-- The last `setBoost` for each hint on this connection. -/
  boosts : String → Option Boost

abbrev Op := EStateM Errno State

def nanosPerMs : Nat := 1000000

def int32Max : Nat := 0x7fffffff

def kMaximumLifetimeMs : Nat := 300000

/-- `Clock::now()` -/
def now : Op Nat := do
  let s ← get
  set { s with time := s.time + s.ticks.headD 0, ticks := s.ticks.tail }
  return s.time + s.ticks.headD 0

/-- A call of the connected backend. -/
def backendCall : Op Reply := do
  let s ← get
  let reply := s.replies.headD .ok
  set { s with replies := s.replies.tail, failed := s.failed || decide (reply = Reply.failed) }
  return reply

/-- A call while the backend is connected. -/
def connectCall : Op Reply := do
  let s ← get
  set { s with replies := s.replies.tail }
  return s.replies.headD .ok

/-- `&&`: the operation is made when what comes before it holds. -/
def andThen (ok : Bool) (operation : Op Bool) : Op Bool := if ok then operation else pure false

def refuse (c : Prop) [Decidable c] (errno : Errno) : Op Unit :=
  if c then throw errno else pure ()

/-! ### Hints -/

def resourceValues (id : Int) : Option (String × List Int) :=
  match id with
  | 0x00400000 => some ("MTK_CPU_MIN_0_", [2000000, 1700000, 1500000, 1200000, 1000000, 500000])
  | 0x00400100 => some ("MTK_CPU_MIN_1_", [2200000, 1900000, 1600000, 1300000, 1000000, 725000])
  | 0x00404000 => some ("MTK_CPU_MAX_0_", [1000000, 1200000, 2000000])
  | 0x00404100 => some ("MTK_CPU_MAX_1_", [1000000, 1300000, 2200000])
  | 0x00c00000 => some ("MTK_GPU_MIN_", [0, 17, 44])
  | _ => none

/-- `resourceHint`; the empty string stands for none. -/
def resourceHint (id value : Int) : String :=
  match resourceValues id with
  | none => ""
  | some (name, values) =>
      let value := if id = 0x00400000 ∧ value = 4000000 then 2000000
        else if id = 0x00400100 ∧ value = 4000000 then 2200000
        else value
      if value ∈ values then name ++ toString value else ""

/-- `std::set<std::string>::insert` -/
def insertHint (hint : String) (hints : List String) : List String :=
  if hint ∈ hints then hints else hints.orderedInsert (· ≤ ·) hint

/-- The hints of the resources, which come in pairs. -/
def resourceHints : List Int → List String → Except Errno (List String)
  | id :: value :: rest, hints =>
      if id = 0x01438600 ∨ id = 0x01438700 then resourceHints rest hints
      else
        let hint := if id = 0x01408300 ∧ value = 50 then "MTK_UCLAMP_TA_50"
          else resourceHint id value
        if hint = "" then .error .eopnotsupp else resourceHints rest (insertHint hint hints)
  | _, hints => .ok hints

/-! ### Locks and references -/

namespace State

variable (s : State)

def find (handle : Int) : Option Entry := s.locks.find? fun e => e.handle == handle

def modifyLock (handle : Int) (f : Entry → Entry) : State :=
  { s with locks := modifyKey Entry.handle handle f s.locks }

/-- `mLocks.at(handle).untilNs = time` -/
def shorten (handle : Int) (time : Nat) : State := s.modifyLock handle ({ · with untilNs := time })

/-- `hints.erase(it)` -/
def dropHint (handle : Int) (hint : String) : State :=
  s.modifyLock handle fun e => { e with hints := e.hints.filter (· ≠ hint) }

/-- `++mReferences[hint]`, and the hint of the lock. -/
def addHint (handle : Int) (hint : String) : State :=
  { s.modifyLock handle fun e => { e with hints := insertHint hint e.hints } with
    references := s.references.insert hint ((s.references.lookup hint).getD 0 + 1) }

end State

/-- `setBoost`, and whether it is `isOk`. -/
def setBoost (hint : String) (boost : Boost) : Op Bool := do
  let reply ← backendCall
  if reply = .failed then pure false
  else do
    modify fun s => { s with boosts := Function.update s.boosts hint (some boost) }
    pure true

/-- The latest expiry of the locks that hold the hint, and a time. -/
def latest (locks : List Entry) (hint : String) (time : Nat) : Nat :=
  locks.foldl (fun time e => if hint ∈ e.hints then max time e.untilNs else time) time

/-- `std::clamp(std::chrono::ceil<milliseconds>(until - now), 1, INT32_MAX)` -/
def ceilMs (untilNs now : Nat) : Nat :=
  min (max (((untilNs - now) + (nanosPerMs - 1)) / nanosPerMs) 1) int32Max

/-- `apply` -/
def apply (hint : String) (untilNs : Nat) : Op Bool := do
  let s ← get
  let t ← now
  setBoost hint (.lasting t (ceilMs (latest s.locks hint untilNs) t))

/-- One turn of the loop of `releaseLocked`. -/
def releaseHint (handle : Int) (hint : String) : Op Unit := do
  let s ← get
  if s.references.lookup hint = some 1 then
    if !s.backend.ext then pure ()
    else do
      let ok ← setBoost hint .off
      if ok then modify fun s =>
        { s with references := s.references.erase hint }.dropHint handle hint
      else pure ()
  else if !s.backend.ext then pure ()
  else do
    let t ← now
    let ok ← apply hint t
    if ok then modify fun s =>
      { s with references := s.references.insert hint ((s.references.lookup hint).getD 0 - 1) }
        |>.dropHint handle hint
    else pure ()

def State.hintsOf (s : State) (handle : Int) : List String :=
  ((s.find handle).map Entry.hints).getD []

/-- `releaseLocked`; it is `true` for the source's 0. -/
def releaseLocked (handle : Int) : Op Bool := do
  let s ← get
  (s.hintsOf handle).forM (releaseHint handle)
  let s ← get
  if s.hintsOf handle ≠ [] then pure false
  else do
    set { s with locks := s.locks.filter (·.handle ≠ handle) }
    pure true

/-! ### Acquire and release -/

/-- The lock that is updated is there, the caller's own and not expired. -/
def checkOld (caller : Caller) (handle : Int) : Op Unit := do
  let s ← get
  if handle ≤ 0 then pure ()
  else
    match s.find handle with
    | none => throw .enoent
    | some old => do
        refuse (old.owner ≠ caller) .eperm
        let t ← now
        refuse (old.untilNs ≤ t) .etime

def checkSupported : List String → Op Unit
  | [] => pure ()
  | _ :: hints => do
      let reply ← backendCall
      match reply with
      | .failed => throw .eio
      | .no => throw .eopnotsupp
      | .ok => checkSupported hints

/-- A new lock that could not be had goes at once. -/
def abandon (handle : Int) : Op Unit := do
  let t ← now
  modify (·.shorten handle t)
  let _ ← releaseLocked handle
  throw .eio

/-- The loop that counts and applies the hints. -/
def holdHints (handle : Int) (untilNs : Nat) : List String → Op Unit
  | [] => pure ()
  | hint :: hints => do
      modify (·.addHint handle hint)
      let ok ← apply hint untilNs
      if ok then holdHints handle untilNs hints else abandon handle

/-- What is checked of the arguments: the hints, and the duration. -/
def checkArguments (duration : Nat) (resources : List Int) (hints : List String) :
    Except Errno (List String × Nat) :=
  if duration > int32Max ∨ (resources = [] ∧ hints = []) ∨ resources.length % 2 = 1 then
    .error .einval
  else
    match resourceHints resources (hints.foldl (fun set hint => insertHint hint set) []) with
    | .error errno => .error errno
    | .ok [] => .error .eopnotsupp
    | .ok hints => .ok (hints, if duration = 0 then kMaximumLifetimeMs else duration)

/-- A new lock without hints. -/
def insertLock (caller : Caller) (durationMs : Nat) : Op Entry := do
  let t ← now
  let s ← get
  let entry : Entry := ⟨s.next + 1, caller, t + durationMs * nanosPerMs, [], false⟩
  set { s with next := s.next + 1, locks := s.locks ++ [entry] }
  return entry

/-- `acquire` up to where the new lock holds its hints. -/
def acquireNew (caller : Caller) (handle : Int) (hints : List String) (durationMs : Nat) :
    Op Int := do
  let s ← get
  refuse (s.backend.ext = false) .enodev
  checkOld caller handle
  checkSupported hints
  let s ← get
  refuse (s.next = int32Max) .eoverflow
  let entry ← insertLock caller durationMs
  holdHints entry.handle entry.untilNs hints
  return entry.handle

/-- The new lock takes the place and the handle of the old one. -/
def replaceOld (previous handle : Int) : Op Int := do
  let t ← now
  modify (·.shorten previous t)
  let released ← releaseLocked previous
  if released then do
    modify (·.modifyLock handle ({ · with handle := previous }))
    return previous
  else do
    abandon handle
    return handle

/-- `acquire` -/
def acquire (caller : Caller) (handle : Int) (duration : Nat) (resources : List Int)
    (hints : List String) : Op Int :=
  match checkArguments duration resources hints with
  | .error errno => throw errno
  | .ok (hints, durationMs) => do
      let new ← acquireNew caller handle hints durationMs
      if handle > 0 then replaceOld handle new else return new

/-- `release` -/
def release (caller : Caller) (handle : Int) : Op Unit := do
  let s ← get
  match s.find handle with
  | none => throw .enoent
  | some found => do
      refuse (found.owner.uid ≠ caller.uid ∨ (caller.pid ≠ 0 ∧ found.owner.pid ≠ caller.pid)) .eperm
      let t ← now
      modify (·.shorten handle t)
      let released ← releaseLocked handle
      refuse (released = false) .eio

/-! ### Callbacks -/

/-- The first part of `watch`, up to the link. -/
def watch (caller : Caller) : Op Nat := do
  let s ← get
  refuse (s.callbacks.length ≥ 256) .enospc
  set { s with
    cookie := s.cookie + 1
    callbacks := s.callbacks ++ [(s.cookie + 1, caller)] }
  return s.cookie + 1

/-- The end of `watch` when the link failed. -/
def unwatch (cookie : Nat) : Op Unit :=
  modify fun s => { s with callbacks := s.callbacks.filter (·.1 ≠ cookie) }

/-- The handles in the order of the map. -/
def State.handles (s : State) : List Int := (s.locks.map Entry.handle).insertionSort (· ≤ ·)

/-- The lock ends if it is the owner's. -/
def endLock (owner : Caller) (handle : Int) : Op Unit := do
  let s ← get
  if (s.find handle).map Entry.owner = some owner then do
    let t ← now
    modify (·.modifyLock handle ({ · with untilNs := t, cut := true }))
  else pure ()

/-- `Death::serviceDied` -/
def serviceDied (cookie : Nat) : Op Unit := do
  let s ← get
  match s.callbacks.find? (·.1 == cookie) with
  | none => pure ()
  | some (_, owner) => do
      s.handles.forM (endLock owner)
      unwatch cookie

/-! ### The expiry thread -/

/-- What has come from the backend since the last pass. -/
structure BackendEvents where
  deaths : List Nat
  registered : Option Nat
  ready : Bool

/-- `dropBackend` -/
def State.dropBackend (s : State) : State :=
  { s with
    audioDirty := s.audioDirty || !s.audio.isEmpty
    backend := { s.backend with
      generation := s.backend.generation + 1
      linked := false
      power := false
      ext := false
      replay := true
      replayAt := some 0
      replayDelay := 1 }
    boosts := fun _ => none }

namespace State

variable (s : State)

/-- The backend that is linked has died. -/
def dropDead (deaths : List Nat) : State :=
  if s.backend.generation ∈ deaths then
    let s := s.dropBackend
    { s with backend := { s.backend with binder := none } }
  else s

/-- The property says whether the backend is ready. -/
def followReady (ready : Bool) : State :=
  let s := if s.backend.ready ∧ ¬ ready then s.dropBackend else s
  { s with backend := { s.backend with ready := ready } }

/-- Another backend has been registered. -/
def takeRegistered (registered : Option Nat) : State :=
  if registered ≠ none ∧ registered ≠ s.backend.binder then
    let s := s.dropBackend
    { s with backend := { s.backend with binder := registered } }
  else s

/-- `updateBackend` -/
def updateBackend (events : BackendEvents) : State :=
  ((s.dropDead events.deaths).followReady events.ready).takeRegistered events.registered

end State

def modifyBackend (f : Backend → Backend) : Op Unit :=
  modify fun s => { s with backend := f s.backend }

/-- The first part of `connect`: the link to the death of the backend. -/
def linkBackend : Op Bool := do
  let s ← get
  if s.backend.linked then pure true
  else do
    let reply ← connectCall
    modifyBackend fun b => { b with
      generation := b.generation + 1
      linked := decide (reply = .ok)
      binder := if reply = .no then none else b.binder }
    pure (decide (reply = .ok))

/-- `IPower::fromBinder` -/
def findPower : Op Unit := do
  let s ← get
  if s.backend.power then pure ()
  else do
    let reply ← connectCall
    modifyBackend ({ · with power := decide (reply = .ok) })

/-- `AIBinder_getExtension`, `IPowerExt::fromBinder` -/
def findExt : Op Unit := do
  let s ← get
  if s.backend.power && !s.backend.ext then do
    let reply ← connectCall
    modifyBackend ({ · with ext := decide (reply = .ok) })
  else pure ()

/-- `connect` -/
def connect : Op Bool := do
  let linked ← linkBackend
  if !linked then pure false
  else do
    findPower
    findExt
    let s ← get
    pure (s.backend.power && s.backend.ext)

/-- Some lock that holds the hint is not expired; the clock is read for each lock. -/
def anyActive (hint : String) : List Entry → Op Bool
  | [] => pure false
  | e :: locks => do
      let t ← now
      let rest ← anyActive hint locks
      pure ((decide (t < e.untilNs) && decide (hint ∈ e.hints)) || rest)

/-- One turn of the replay: whether the hint is as it should be. -/
def replayHint (hint : String) : Op Bool := do
  let s ← get
  let active ← anyActive hint s.locks
  if !active then pure true
  else do
    let reply ← backendCall
    if reply = .ok then do
      let t ← now
      apply hint t
    else do
      modify ({ · with failed := true })
      pure false

def replayHints : List String → Op Bool
  | [] => pure true
  | hint :: hints => do
      let ok ← replayHint hint
      let rest ← replayHints hints
      pure (ok && rest)

/-- `syncAudio` -/
def syncAudio : Op Bool := do
  let s ← get
  if !s.audioDirty then pure true
  else if !s.backend.power then pure false
  else do
    let supported ← backendCall
    if supported ≠ .ok then pure false
    else do
      let reply ← backendCall
      if reply = .failed then pure false
      else do
        modify ({ · with audioDirty := false })
        pure true

/-- The end of `recover`. -/
def finishReplay (restored : Bool) : Op Unit := do
  if restored then
    modifyBackend ({ · with replay := false, replayAt := none, replayDelay := 1 })
  else do
    let t ← now
    modifyBackend fun b => { b with
      replayAt := some (t + b.replayDelay * 1000 * nanosPerMs)
      replayDelay := min (b.replayDelay * 2) 30 }

/-- The keys of the references in the order of the map. -/
def State.referenced (s : State) : List String := s.references.keys.insertionSort (· ≤ ·)

/-- A turn of `recover` that is due. -/
def attemptReplay : Op Unit := do
  let connected ← connect
  let s ← get
  let restored ← andThen connected (replayHints s.referenced)
  modify fun s => { s with audioDirty := s.audioDirty || !s.audio.isEmpty }
  let synced ← andThen restored syncAudio
  finishReplay synced

/-- `recover` -/
def recover : Op Unit := do
  let s ← get
  if s.backend.ready = false ∨ s.backend.binder = none ∨ s.backend.replay = false then pure ()
  else do
    let t ← now
    if s.backend.replayAt.all (t < ·) then pure () else attemptReplay

/-- `Clock::now()`, for the time of the next try. -/
def readClock : Op Unit := do
  let _ ← now
  pure ()

/-- An owner of the audio mode that has expired goes. -/
def expireOwner (owner : (Nat × Int) × Nat) : Op Unit := do
  let t ← now
  if owner.2 ≤ t then
    modify fun s => { s with audio := s.audio.filter (·.1 ≠ owner.1), audioDirty := true }
  else pure ()

/-- `if (!mReplay && !syncAudio())` -/
def retryAudio : Op Unit := do
  let s ← get
  if s.backend.replay then pure ()
  else do
    let synced ← syncAudio
    if synced then pure () else readClock

/-- One turn over the locks. -/
def expireLock (handle : Int) : Op Unit := do
  let s ← get
  match s.find handle with
  | none => pure ()
  | some e => do
      let t ← now
      if e.untilNs ≤ t then do
        let released ← releaseLocked handle
        if released then pure () else readClock
      else pure ()

/-- A pass of `expire`, between two waits. -/
def expire (events : BackendEvents) : Op Unit := do
  modify (·.updateBackend events)
  let s ← get
  s.audio.forM expireOwner
  recover
  retryAudio
  let s ← get
  s.handles.forM expireLock

/-- The owner gets the audio mode. -/
def acquireAudio (caller : Caller) (hint : Int) : Op Unit := do
  let s ← get
  refuse (s.backend.power = false) .enodev
  let supported ← backendCall
  refuse (supported = .failed) .enodev
  refuse (supported = .no) .eopnotsupp
  let reply ← backendCall
  refuse (reply = .failed) .eio
  let t ← now
  modify fun s => { s with
    audio := s.audio.filter (·.1 ≠ (caller.uid, hint)) ++
      [((caller.uid, hint), t + kMaximumLifetimeMs * nanosPerMs)] }

/-- The owner gives it back. -/
def releaseAudio (caller : Caller) (hint : Int) : Op Unit := do
  let s ← get
  refuse (∀ owner ∈ s.audio, owner.1 ≠ (caller.uid, hint)) .enoent
  modify fun s => { s with audio := s.audio.filter (·.1 ≠ (caller.uid, hint)) }

def changeAudio (caller : Caller) (hint data : Int) : Op Unit :=
  if data ≠ 0 then acquireAudio caller hint else releaseAudio caller hint

/-- `audio` -/
def audio (caller : Caller) (hint data : Int) : Op Unit := do
  refuse (data < 0) .einval
  changeAudio caller hint data
  modify ({ · with audioDirty := true })
  let synced ← syncAudio
  refuse (synced = false) .eio

end Mindone.Power
