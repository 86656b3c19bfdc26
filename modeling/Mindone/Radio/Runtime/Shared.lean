import Mindone.Lib.Coalesce
import Mindone.Radio.Core.Types

/-!
# Mindone.Radio.Runtime.Shared

The queues between the callers of the radio runtime, its reactor thread and the consumer of
its deliveries (`modem/radio/runtime/lib.rs`: `Shared`, `Runtime`, and the parts of `Reactor`
that touch them). Every method holds the lock while it works on the queues, so a run is a
sequence of such steps in any order; the flag `stopped` is outside of the lock and is only
ever set.

The core is not looked into: the reactor may collect any outputs, with any serials. `accepted`
is a map by the numbers that `submit` gives, in the order of its keys. The queues also keep
what the source does not: what was `submitted` with success and which of it was `answered`
(number and invocation), what was `pushed`, and what was `delivered`.
-/

namespace Mindone.Radio.Runtime

open Mindone.Mux (checkedAdd)
open Mindone.Radio.Core (Request Value Indication Output RadioError)

def submissionCapacity : Nat := 256
def acceptedLimit : Nat := 1024

inductive Delivery
  | response (invocation : Nat) (error : RadioError) (value : Option Value)
  | indication (indication : Indication)
  deriving DecidableEq

def Delivery.invocation : Delivery → Option Nat
  | .response invocation _ _ => some invocation
  | .indication _ => none

inductive SubmitError
  | full
  | stopped
  | idExhausted
  deriving DecidableEq

structure Submission where
  id : Nat
  request : Request
  deriving DecidableEq

structure Queues where
  submissions : List Submission
  outputs : List Delivery
  deferred : List Delivery
  accepted : List (Nat × Nat)
  nextId : Nat
  outstanding : Nat
  finished : Bool
  submitted : List (Nat × Nat)
  answered : List (Nat × Nat)
  pushed : List Delivery
  delivered : List Delivery

def replaceable : Delivery → Delivery → Bool
  | .indication .networkStateChanged, .indication .networkStateChanged => true
  | .indication (.currentSignalStrength _), .indication (.currentSignalStrength _) => true
  | _, _ => false

/-! ### `Shared` -/

namespace Queues

def new : Queues := ⟨[], [], [], [], 0, 0, false, [], [], [], []⟩

/-- The loop of `flush`: the outputs, and what stays deferred. -/
def flushLoop (capacity : Nat) (outputs : List Delivery) :
    List Delivery → List Delivery × List Delivery
  | [] => (outputs, [])
  | delivery :: deferred =>
      if outputs.length < capacity then flushLoop capacity (outputs ++ [delivery]) deferred
      else (outputs, delivery :: deferred)

def flush (capacity : Nat) (q : Queues) : Queues :=
  let (outputs, deferred) := flushLoop capacity q.outputs q.deferred
  { q with outputs, deferred }

/-- The entry that a new delivery would follow. -/
def previous (q : Queues) : Option Delivery := q.deferred.getLast?.or q.outputs.getLast?

/-- The new delivery takes the place of the last one. -/
def replace (q : Queues) (delivery : Delivery) : Queues :=
  if q.deferred = [] then { q with outputs := q.outputs.dropLast ++ [delivery] }
  else { q with deferred := q.deferred.dropLast ++ [delivery] }

def push (capacity : Nat) (q : Queues) (delivery : Delivery) : Queues :=
  let q := { q with pushed := q.pushed ++ [delivery] }
  if q.previous.any fun last => replaceable last delivery then q.replace delivery
  else { q with deferred := q.deferred ++ [delivery] }.flush capacity

def response (capacity : Nat) (q : Queues) (id : Nat) (error : RadioError)
    (value : Option Value) : Queues :=
  match q.accepted.find? fun entry => entry.1 = id with
  | none => q
  | some (_, invocation) =>
      let q := q.push capacity (.response invocation error value)
      { q with
        accepted := q.accepted.filter fun entry => entry.1 ≠ id
        answered := q.answered ++ [(id, invocation)] }

def pressured (capacity : Nat) (q : Queues) : Bool :=
  decide (q.outputs.length ≥ capacity) || !q.deferred.isEmpty

/-- `finish`, from its lock on. -/
def finish (capacity : Nat) (q : Queues) : Queues :=
  let ids := q.accepted.map Prod.fst
  let q := ids.foldl (fun q id => q.response capacity id .radioNotAvailable none)
    { q with submissions := [] }
  { q with finished := true }

/-! ### `Runtime` -/

def submit (q : Queues) (stopped : Bool) (invocation : Nat) (request : Request) :
    Except SubmitError Queues :=
  if stopped then .error .stopped
  else if q.submissions.length = submissionCapacity ∨ q.outstanding = acceptedLimit then
    .error .full
  else
    match checkedAdd q.nextId 1 with
    | none => .error .idExhausted
    | some id =>
        .ok
          { q with
            nextId := id
            accepted := q.accepted ++ [(id, invocation)]
            submissions := q.submissions ++ [⟨id, request⟩]
            outstanding := q.outstanding + 1
            submitted := q.submitted ++ [(id, invocation)] }

/-- What an attempt of the consumer comes to: it goes on waiting, gets `None`, or a batch. -/
inductive Batch
  | waiting
  | ended
  | some (deliveries : List Delivery)
  deriving DecidableEq

/-- What the consumer has in hand. -/
def Batch.deliveries : Batch → List Delivery
  | .waiting | .ended => []
  | .some deliveries => deliveries

/-- The number of responses among the deliveries. -/
def responses (deliveries : List Delivery) : Nat :=
  (deliveries.filter fun delivery => delivery.invocation.isSome).length

/-- One attempt of `next_batch_wait`, at a moment when the time is over or not. -/
def nextBatchWait (capacity : Nat) (q : Queues) (timedOut : Bool) : Batch × Queues :=
  if q.outputs = [] ∧ ¬ q.finished ∧ ¬ timedOut then (.waiting, q)
  else if q.outputs = [] ∧ q.finished then (.ended, q)
  else
    (.some q.outputs,
      { q with
        outputs := []
        outstanding := q.outstanding - responses q.outputs
        delivered := q.delivered ++ q.outputs }.flush capacity)

end Queues

/-! ### The parties -/

/-- The state of the runtime. `running` is whether the reactor's thread is before its
`finish`; `tokens` are the serials that it has given to the core. -/
structure System where
  queues : Queues
  stopped : Bool
  running : Bool
  tokens : List (Int × Nat)
  nextToken : Int

namespace System

/-- The loop of `Reactor::submit` that looks for a free token, `fuel` times at most. -/
def freeToken (tokens : List (Int × Nat)) : Nat → Int → Int
  | 0, token => token
  | fuel + 1, token =>
      let token := if token = i32Max then 1 else token + 1
      if tokens.any fun entry => entry.1 = token then freeToken tokens fuel token else token

/-- The reactor takes the first submission and gives it a token. -/
def take (s : System) : System :=
  match s.queues.submissions with
  | [] => s
  | submission :: submissions =>
      let token := freeToken s.tokens (s.tokens.length + 1) s.nextToken
      { s with
        queues := { s.queues with submissions }
        tokens := s.tokens.filter (fun entry => entry.1 ≠ token) ++ [(token, submission.id)]
        nextToken := token }

/-- One output of the core. -/
def collectOne (capacity : Nat) (s : System) : Output → System
  | .response serial error value =>
      match s.tokens.find? fun entry => entry.1 = serial with
      | none => s
      | some (_, id) =>
          { s with
            tokens := s.tokens.filter fun entry => entry.1 ≠ serial
            queues := s.queues.response capacity id error value }
  | .indication indication =>
      { s with queues := s.queues.push capacity (.indication indication) }

def collect (capacity : Nat) (s : System) (outputs : List Output) : System :=
  outputs.foldl (collectOne capacity) s

/-- `Runtime::start` -/
def start (capacity : Nat) : Option System :=
  if capacity = 0 ∨ capacity > 4096 then none
  else some ⟨.new, false, true, [], 0⟩

end System

inductive Act
  | submit (invocation : Nat) (request : Request)
  /-- The wake-up behind a submission fails. -/
  | wakeFailed
  | nextBatchWait (timedOut : Bool)
  | stop
  | take
  | collect (outputs : List Output)
  /-- The reactor returns, panics or was not made: `finish` sets the flag. -/
  | reactorEnds
  | finish

/-- The steps of the reactor's thread are in its own order. -/
def Act.Allowed (s : System) : Act → Prop
  | .take | .collect _ | .reactorEnds => s.running = true
  | .finish => s.running = false ∧ s.queues.finished = false
  | _ => True

namespace System

def next (capacity : Nat) (s : System) : Act → System
  | .submit invocation request =>
      match s.queues.submit s.stopped invocation request with
      | .error _ => s
      | .ok queues => { s with queues }
  | .wakeFailed | .stop => { s with stopped := true }
  | .nextBatchWait timedOut =>
      { s with queues := (s.queues.nextBatchWait capacity timedOut).2 }
  | .take => s.take
  | .collect outputs => s.collect capacity outputs
  | .reactorEnds => { s with running := false, stopped := true }
  | .finish => { s with queues := s.queues.finish capacity }

/-- What a step hands to the consumer. -/
def handed (capacity : Nat) (s : System) : Act → List Delivery
  | .nextBatchWait timedOut => (s.queues.nextBatchWait capacity timedOut).1.deliveries
  | _ => []

/-- The batches that the consumer gets in a script, one behind the other. -/
def handedOut (capacity : Nat) : System → List Act → List Delivery
  | _, [] => []
  | s, act :: acts => s.handed capacity act ++ handedOut capacity (s.next capacity act) acts

end System

/-- The states that the runtime can reach. -/
inductive Reach (capacity : Nat) : System → Prop
  | start {s : System} (h : System.start capacity = some s) : Reach capacity s
  | step {s : System} (h : Reach capacity s) (act : Act) (allowed : act.Allowed s) :
      Reach capacity (s.next capacity act)

/-- Every step of the script is allowed when its turn comes. -/
def Follows (capacity : Nat) (s : System) : List Act → Prop
  | [] => True
  | act :: acts => act.Allowed s ∧ Follows capacity (s.next capacity act) acts

instance decidableAllowed (s : System) : (act : Act) → Decidable (act.Allowed s)
  | .take | .collect _ | .reactorEnds => inferInstanceAs (Decidable (s.running = true))
  | .finish => inferInstanceAs (Decidable (s.running = false ∧ s.queues.finished = false))
  | .submit _ _ | .wakeFailed | .nextBatchWait _ | .stop => .isTrue trivial

instance decidableFollows (capacity : Nat) :
    (s : System) → (acts : List Act) → Decidable (Follows capacity s acts)
  | _, [] => .isTrue trivial
  | s, act :: acts =>
      have := decidableFollows capacity (s.next capacity act) acts
      inferInstanceAs (Decidable (_ ∧ _))

theorem Reach.of_script {capacity : Nat} {s : System} (h : Reach capacity s) (acts : List Act)
    (hfollows : Follows capacity s acts) : Reach capacity (acts.foldl (System.next capacity) s) := by
  induction acts generalizing s with
  | nil => exact h
  | cons act acts ih => exact ih (h.step act hfollows.1) hfollows.2

end Mindone.Radio.Runtime
