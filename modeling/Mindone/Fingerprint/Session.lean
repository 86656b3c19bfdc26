import Mindone.Fingerprint.LockoutTracker
import Mindone.Lib.LittleEndian
import Mindone.Lib.Trace

/-!
# Mindone.Fingerprint.Session

A fingerprint session (`bridges/fingerprint/SessionBridge.cpp`, with `bytesToHat` of `HatCodec.h`)
and its user's lockout tracker. A step is the code between two lock operations: whoever holds
`authenticationLock_` has a `Place` while the tracker's lock is free, so that the worker of the
tracker, `resetLockout` and `close` can come in between. The HAL may call back at any time and as it
likes; what it answers, how a save of the tracker ends and what the clocks say are arguments of the
steps.

The session does not ask the tracker when a match comes: it goes by `authenticating_` and
`lockedOut_`, which only `authenticate`, `enroll` and the callbacks write. **What was delivered, in
its order, is the log.** The numbers of the `authenticate` calls are not the source's.
-/

namespace Mindone.Fingerprint

open Mindone.Lib

/-! ### Tokens -/

/-- `HardwareAuthToken` -/
structure HardwareAuthToken where
  challenge : Int
  userId : Int
  authenticatorId : Int
  authenticatorType : BitVec 32
  timestampMs : Int
  mac : List UInt8
  deriving DecidableEq

def kHwAuthTokenSize : Nat := 69

/-- `static_cast<int64_t>` -/
def castInt64 (value : Nat) : Int := (BitVec.ofNat 64 value).toInt

/-- `memcpy`, and `be32toh` or `be64toh` of what was copied. -/
def beAt (size : Nat) (bytes : List UInt8) (offset : Nat) : Nat :=
  ofLe (sliceAt bytes offset size).reverse

/-- `bytesToHat` -/
def bytesToHat (p : List UInt8) : Option HardwareAuthToken :=
  if p.length < kHwAuthTokenSize then none
  else some
    { challenge := castInt64 (leAt 8 p 1)
      userId := castInt64 (leAt 8 p 9)
      authenticatorId := castInt64 (leAt 8 p 17)
      authenticatorType := BitVec.ofNat 32 (beAt 4 p 25)
      timestampMs := castInt64 (beAt 8 p 29)
      mac := sliceAt p 37 32 }

/-! ### Callbacks -/

/-- `fp::AcquiredInfo` -/
inductive AcquiredInfo
  | UNKNOWN
  | value (v : Int)
  deriving DecidableEq

def mapAcquired (a : Int) : AcquiredInfo := if a < 0 ∨ a > 6 then .UNKNOWN else .value (a + 1)

/-- `fp::Error` -/
inductive FpError
  | HW_UNAVAILABLE
  | UNABLE_TO_PROCESS
  | TIMEOUT
  | NO_SPACE
  | CANCELED
  | UNABLE_TO_REMOVE
  | VENDOR
  | UNKNOWN
  deriving DecidableEq

/-- The numbers are those of the HIDL interface. -/
def mapError (e : Int) : FpError :=
  match e with
  | 1 => .HW_UNAVAILABLE
  | 2 => .UNABLE_TO_PROCESS
  | 3 => .TIMEOUT
  | 4 => .NO_SPACE
  | 5 => .CANCELED
  | 6 => .UNABLE_TO_REMOVE
  | 8 => .VENDOR
  | _ => .UNKNOWN

def kLockoutTimedMs : Nat := 30000
def kMaxResetLockoutHatAgeMs : Int := 60000

namespace Session

/-- The calls that wait for an answer of the HAL. -/
inductive Request
  | authenticate (call : Nat)
  | enroll
  deriving DecidableEq

/-- How the HAL answers: `SYS_OK`, another status, or a transport error. -/
inductive Reply
  | ok
  | refused
  | broken
  deriving DecidableEq

/-- Who reports an error. -/
inductive Source
  | hal
  | request (request : Request)
  | resetLockout
  deriving DecidableEq

/-- What is delivered to the session's callback, and the calls in between. -/
inductive Entry
  /-- `beginAuthentication` returns; `locked` is what `notifyLockout` returned. -/
  | authenticate (call : Nat) (locked : Bool)
  /-- `beginEnrollment` -/
  | enroll
  /-- `addFailedAttempt` returns. -/
  | addFailedAttempt (locked : Bool)
  | onAcquired (info : AcquiredInfo) (vendorCode : Int)
  /-- `locked` is what `addFailedAttempt` returned. -/
  | onAuthenticationFailed (locked : Bool)
  /-- `found` and `now`: the tracker was locked out when the match came, or is now. -/
  | onAuthenticationSucceeded (fingerId : Int) (hat : HardwareAuthToken) (found now : Bool)
  | onError (source : Source) (error : FpError) (vendorCode : Int)
  | onLockoutTimed (ms : Nat)
  | onLockoutPermanent
  | onSessionClosed
  deriving DecidableEq

/-- Where the holder of `authenticationLock_` is, with what the tracker has told it. -/
inductive Place
  /-- In `beginAuthentication`, after `notifyLockout`. -/
  | began (locked : Bool)
  /-- In `onAuthenticated`, after `addFailedAttempt`. -/
  | attempted (locked : Bool)
  /-- In `onAuthenticated`, before `notifyLockout`. -/
  | lockingOut
  /-- In `onAuthenticated`, after `reset`; `found`: the tracker was locked out before it. -/
  | verified (fingerId : Int) (hat : HardwareAuthToken) (found : Bool)
  deriving DecidableEq

end Session

/-! ### The session -/

/-- `timed_ || failed_ >= 20` -/
def Lock.lockedOut (l : Lock) : Bool := l.timed || decide (l.failed ≥ 20)

/-- The `SessionBridge` and its `HidlCallback`. -/
structure Session where
  tracker : Tracker
  cb : Nat
  dead : Bool
  /-- `setNotify` was called. -/
  notified : Bool
  active : Bool
  authenticating : Bool
  lockedOut : Bool
  holder : Option Session.Place
  requests : List Session.Request
  calls : Nat
  log : List Session.Entry

namespace Session

/-- How the HAL is found when a session is made. -/
inductive Opening
  /-- `hidl_ == nullptr` -/
  | unavailable
  /-- `setActiveGroup` fails. -/
  | rejected
  | opened
  deriving DecidableEq

/-- The constructor. -/
def create (tracker : Tracker) (cb : Nat) (check : Check) (opening : Opening) : Session where
  tracker :=
    let tracker := tracker.attach (some cb) check
    if opening = .rejected then tracker.detach (some cb) true else tracker
  cb := cb
  dead := opening ≠ .opened
  notified := opening ≠ .unavailable
  active := opening ≠ .rejected
  authenticating := false
  lockedOut := false
  holder := none
  requests := []
  calls := 0
  log := []

variable (s : Session)

def note (entry : Entry) : Session := { s with log := s.log ++ [entry] }

/-- `beginAuthentication` up to the return of `notifyLockout`. -/
def beginAuthentication (check : Check) (now : Moment) : Session :=
  let (locked, tracker) := s.tracker.notifyLockout s.cb check now
  { s with tracker := tracker, holder := some (.began locked) }

/-- What the holder of `authenticationLock_` does next; `check` and `now` are for `notifyLockout`. -/
def proceed (place : Place) (check : Check) (now : Moment) : Session :=
  match place with
  | .began locked =>
      { s with
        lockedOut := locked
        authenticating := !locked
        holder := none
        calls := s.calls + 1
        -- a call that begins locked out returns without the HAL
        requests := if locked then s.requests else s.requests ++ [Request.authenticate (s.calls + 1)]
      }.note (.authenticate (s.calls + 1) locked)
  | .attempted locked =>
      if locked then
        { s with authenticating := false, holder := some .lockingOut }.note
          (.onAuthenticationFailed locked)
      else { s with holder := none }.note (.onAuthenticationFailed locked)
  | .lockingOut =>
      { s with tracker := (s.tracker.notifyLockout s.cb check now).2, holder := none }
  | .verified fingerId hat found =>
      { s with holder := none }.note
        (.onAuthenticationSucceeded fingerId hat found s.tracker.lockedOut)

/-- The end of `authenticate` and of `enroll`: the HAL's answer, if it is asked. -/
def replied (request : Request) (reply : Reply) : Session :=
  let s := { s with requests := s.requests.erase request }
  if s.dead ∨ reply = .broken then s.note (.onError (.request request) .HW_UNAVAILABLE 0)
  else if reply = .refused then s.note (.onError (.request request) .UNABLE_TO_PROCESS 0)
  else s

/-- `enroll` up to the HAL's answer, on a session that is not dead. -/
def beginEnrollment : Session :=
  { s with authenticating := false, lockedOut := false, requests := s.requests ++ [Request.enroll] }.note
    .enroll

/-- The check of the token's age in `resetLockout`. -/
def recent (hat : HardwareAuthToken) (nowMs : Int) : Bool :=
  !(hat.timestampMs < 0 || hat.timestampMs > nowMs ||
    nowMs - hat.timestampMs > kMaxResetLockoutHatAgeMs)

def resetLockout (hat : HardwareAuthToken) (nowMs : Int) (saving : Saving) : Session :=
  if recent hat nowMs then { s with tracker := s.tracker.reset (some s.cb) saving }
  else s.note (.onError .resetLockout .UNABLE_TO_PROCESS 0)

/-- `close`, with `deactivate`. -/
def close : Session :=
  { s with active := false, tracker := s.tracker.detach (some s.cb) true }.note .onSessionClosed

/-! ### The HAL's callbacks -/

def onAcquired (info vendorCode : Int) : Session :=
  if !s.active then s
  else if s.lockedOut then s
  else s.note (.onAcquired (mapAcquired info) vendorCode)

/-- `onAuthenticated` up to the return of `addFailedAttempt` or of `reset`. -/
def onAuthenticated (fingerId : BitVec 32) (token : List UInt8) (check : Check) (now : Moment)
    (saving : Saving) : Session :=
  if !s.active then s
  else if !s.authenticating || s.lockedOut then s
  else if fingerId = 0 then
    let (locked, tracker) := s.tracker.addFailedAttempt check now saving
    { s with tracker := tracker, lockedOut := locked, holder := some (.attempted locked) }.note
      (.addFailedAttempt locked)
  else
    let s := { s with authenticating := false }
    match bytesToHat token with
    | none => s.note (.onError .hal .UNABLE_TO_PROCESS 0)
    | some hat =>
        { s with
          tracker := s.tracker.reset none saving
          holder := some (.verified fingerId.toInt hat s.tracker.lockedOut) }

/-- `removing` is what `removal_.fail()` returns. -/
def onError (error vendorCode : Int) (removing : Bool) : Session :=
  if !s.active then s
  else if removing then s
  else
    let s := { s with authenticating := false }
    if error = 7 then s.note (.onLockoutTimed kLockoutTimedMs)
    else if error = 9 then s.note .onLockoutPermanent
    else if !s.lockedOut then s.note (.onError .hal (mapError error) vendorCode)
    else s

/-! ### Runs -/

inductive Act
  | authenticate (check : Check) (now : Moment)
  | proceed (check : Check) (now : Moment)
  | reply (request : Request) (reply : Reply)
  | enroll
  | resetLockout (hat : HardwareAuthToken) (nowMs : Int) (saving : Saving)
  | close
  /-- The tracker's worker. -/
  | worker (check : Check)
  | onAcquired (info vendorCode : Int)
  | onAuthenticated (fingerId : BitVec 32) (token : List UInt8) (check : Check) (now : Moment)
      (saving : Saving)
  | onError (error vendorCode : Int) (removing : Bool)

/-- The step of an act, where it can be taken: a callback needs `setNotify`, and what takes
`authenticationLock_` needs it free. -/
def step : Act → Option Session
  | .authenticate check now =>
      if s.holder.isNone then some (s.beginAuthentication check now) else none
  | .proceed check now => s.holder.map fun place => s.proceed place check now
  | .reply request reply => if request ∈ s.requests then some (s.replied request reply) else none
  | .enroll =>
      if s.dead then some (s.note (.onError (.request .enroll) .HW_UNAVAILABLE 0))
      else if s.holder.isNone then some s.beginEnrollment else none
  | .resetLockout hat nowMs saving => some (s.resetLockout hat nowMs saving)
  | .close => some s.close
  | .worker check => some { s with tracker := s.tracker.expire check }
  | .onAcquired info vendorCode =>
      if s.notified ∧ s.holder.isNone then some (s.onAcquired info vendorCode) else none
  | .onAuthenticated fingerId token check now saving =>
      if s.notified ∧ s.holder.isNone then
        some (s.onAuthenticated fingerId token check now saving)
      else none
  | .onError error vendorCode removing =>
      if s.notified ∧ s.holder.isNone then some (s.onError error vendorCode removing) else none

/-- The states that are reached by steps for which `ok` holds. -/
inductive ReachWith (ok : Session → Act → Prop) : Session → Prop
  | create (tracker : Tracker) (cb : Nat) (check : Check) (opening : Opening) :
      ReachWith ok (create tracker cb check opening)
  | step {s s' : Session} {act : Act} (h : ReachWith ok s) (hok : ok s act)
      (hstep : s.step act = some s') : ReachWith ok s'

end Session

end Mindone.Fingerprint
