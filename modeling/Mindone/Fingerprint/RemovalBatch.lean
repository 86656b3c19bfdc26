import Mathlib.Data.List.Basic

/-!
# Mindone.Fingerprint.RemovalBatch

The batch of removals of a fingerprint session (`bridges/fingerprint/RemovalBatch.h`). A step is the
code between two lock operations: the calls `start`, `result` and `fail` are one step each, `cancel`
is two (it takes `dispatch_` first), and the worker has a `Place` between its steps. `remove` may do
what it likes before it returns, since every call can come while the worker is in it.

The log and the number of a batch are not the source's; the functions a batch was started with go by
its number. The destructor, which ends the worker, is left out.
-/

namespace Mindone.Fingerprint.Removal

/-- The holder of `dispatch_`. -/
inductive Holder
  | nobody
  | worker
  | canceller
  deriving DecidableEq

/-- Where the worker is, with the local variables it has there. -/
inductive Place
  /-- In `changed_.wait`. -/
  | waiting
  /-- It has let go of the lock with a removal to make. -/
  | captured (remove : Option Nat) (index : Nat) (id : Int)
  /-- It holds `dispatch_`. -/
  | dispatching (remove : Option Nat) (index : Nat) (id : Int)
  /-- It has let go of the lock and calls `remove` next. -/
  | removing (remove : Option Nat) (index : Nat) (id : Int)
  | inRemove (index : Nat)
  /-- It has let go of the lock and calls `complete` next. -/
  | completing (complete : Option Nat) (removed : List Int)
  | inComplete
  deriving DecidableEq

/-- What happens, in terms of batches and positions. -/
inductive Event
  | started (batch : Nat) (ids : List Int)
  | refused
  /-- A call of `result`, with the position whose answer is awaited. -/
  | reported (id : Int) (remaining : Nat) (awaited : Option (Nat × Nat))
  /-- A position is done with: its last answer has come, or its removal was rejected. -/
  | resolved (batch index : Nat)
  | failed (batch : Nat)
  | remove (batch index : Nat) (id : Int)
  | complete (batch : Nat) (removed : List Int)
  /-- `cancel` has returned; the batch that was active. -/
  | cancelled (dropped : Option Nat)
  deriving DecidableEq

structure State where
  active : Bool
  waiting : Bool
  retired : Bool
  index : Nat
  pending : List Int
  removed : List Int
  remove : Option Nat
  complete : Option Nat
  holder : Holder
  place : Place
  /-- `pending_` was read out of range, or an empty function was called. -/
  fault : Bool
  batch : Nat
  log : List Event
  deriving DecidableEq

def State.new : State where
  active := false
  waiting := false
  retired := false
  index := 0
  pending := []
  removed := []
  remove := none
  complete := none
  holder := .nobody
  place := .waiting
  fault := false
  batch := 0
  log := []

namespace State

variable (s : State)

def note (event : Event) : State := { s with log := s.log ++ [event] }

/-- `waiting_ = false; ++index_` -/
def resolve : State :=
  { s with
    waiting := false, index := s.index + 1, log := s.log ++ [.resolved s.batch s.index] }

/-! ### The calls -/

/-- The fields that `start` sets. -/
def begin_ (ids : List Int) : State :=
  { s with
    active := true, pending := ids, removed := [], index := 0, waiting := false
    remove := some (s.batch + 1), complete := some (s.batch + 1)
    batch := s.batch + 1, log := s.log ++ [.started (s.batch + 1) ids] }

def start (ids : List Int) : State :=
  if s.active || s.retired then s.note .refused else s.begin_ ids

/-- The position whose answer is awaited. -/
def awaited : Option (Nat × Nat) := if s.active && s.waiting then some (s.batch, s.index) else none

/-- The answer is for another id. -/
def isForeign (id : Int) : Bool := id != 0 && s.pending.getD s.index 0 != 0 && id != s.pending.getD s.index 0

def push (id : Int) : State := if id != 0 then { s with removed := s.removed ++ [id] } else s

def result (id : Int) (remaining : Nat) : State :=
  let s := s.note (.reported id remaining s.awaited)
  if !s.active || !s.waiting then s
  else if id != 0 && decide (s.pending.length ≤ s.index) then { s with fault := true }
  else if s.isForeign id then s
  else if remaining != 0 then s.push id
  else (s.push id).resolve

def fail : State :=
  if !s.active then s
  else
    { s with
      waiting := false, index := s.pending.length, log := s.log ++ [.failed s.batch] }

/-- `cancel`, which holds both locks. -/
def cancel : State :=
  { s with
    active := false, retired := true, complete := none, remove := none, holder := .nobody
    log := s.log ++ [.cancelled (if s.active then some s.batch else none)] }

/-! ### The worker -/

/-- The worker takes the completion of the batch. -/
def take : State :=
  { s with
    place := .completing s.complete s.removed, complete := none, removed := [], active := false
    remove := none }

/-- The loop of `run` from its head up to where the worker lets go of the lock. -/
def top : State :=
  if s.active && !s.waiting then
    if s.index = s.pending.length then s.take
    else
      match s.pending[s.index]? with
      | some id => { s with place := .captured s.remove s.index id }
      | none => { s with fault := true }
  else { s with place := .waiting }

/-- Behind `guard.lock()`, with `dispatch_` held. -/
def recheck (remove : Option Nat) (index : Nat) (id : Int) : State :=
  if !s.active || s.index != index then { s with holder := .nobody }.top
  else { s with waiting := true, place := .removing remove index id }

def callRemove (remove : Option Nat) (index : Nat) (id : Int) : State :=
  match remove with
  | some batch => { s with place := .inRemove index, log := s.log ++ [.remove batch index id] }
  | none => { s with fault := true }

/-- Behind `remove`. -/
def removeReturned (index : Nat) (accepted : Bool) : State :=
  let s := if s.active && s.waiting && s.index == index && !accepted then s.resolve else s
  { s with holder := .nobody }.top

def callComplete (complete : Option Nat) (removed : List Int) : State :=
  match complete with
  | some batch => { s with place := .inComplete, log := s.log ++ [.complete batch removed] }
  | none => { s with place := .inComplete }

end State

/-! ### Runs -/

inductive Act
  | start (ids : List Int)
  | result (id : Int) (remaining : Nat)
  | fail
  | cancelDispatch
  | cancel
  | wake
  | dispatch
  | recheck
  | callRemove
  | removeReturned (accepted : Bool)
  | callComplete
  | completeReturned
  deriving DecidableEq

/-- The step of an act, where it can be taken. -/
def State.step (s : State) : Act → Option State
  | .start ids => some (s.start ids)
  | .result id remaining => some (s.result id remaining)
  | .fail => some s.fail
  | .cancelDispatch => if s.holder = .nobody then some { s with holder := .canceller } else none
  | .cancel => if s.holder = .canceller then some s.cancel else none
  | .wake => if s.place = .waiting ∧ s.active ∧ !s.waiting then some s.top else none
  | .dispatch =>
      match s.place with
      | .captured remove index id =>
          if s.holder = .nobody then
            some { s with holder := .worker, place := .dispatching remove index id }
          else none
      | _ => none
  | .recheck =>
      match s.place with
      | .dispatching remove index id => some (s.recheck remove index id)
      | _ => none
  | .callRemove =>
      match s.place with
      | .removing remove index id => some (s.callRemove remove index id)
      | _ => none
  | .removeReturned accepted =>
      match s.place with
      | .inRemove index => some (s.removeReturned index accepted)
      | _ => none
  | .callComplete =>
      match s.place with
      | .completing complete removed => some (s.callComplete complete removed)
      | _ => none
  | .completeReturned =>
      match s.place with
      | .inComplete => some s.top
      | _ => none

/-- The states that are reached by steps for which `ok` holds. -/
inductive ReachWith (ok : State → Act → Prop) : State → Prop
  | new : ReachWith ok .new
  | step {s s' : State} {act : Act} (h : ReachWith ok s) (hok : ok s act) (hstep : s.step act = some s') :
      ReachWith ok s'

/-- **Every interleaving.** -/
abbrev Reach : State → Prop := ReachWith fun _ _ => True

end Mindone.Fingerprint.Removal
