import Mindone.Radio.State.Model

/-!
# Mindone.Radio.State.Policy

The indications that the framework asks for (`modem/radio/state/policy.rs`). `reconcile`
turns a filter into the commands that are missing, `complete` takes the answer to the first
of them. A command that turns a registration indication off has a fallback.
-/

namespace Mindone.Radio.State

open Mindone.Mux (checkedAdd)

def signalStrength : Nat := 1
def fullNetworkState : Nat := 2

structure Input where
  filter : Nat
  deriving DecidableEq

/-- `filter & bit != 0` -/
def Input.has (input : Input) (bit : Nat) : Bool := input.filter &&& bit != 0

inductive Control
  | signal
  | cs
  | ps
  | screen
  deriving DecidableEq

structure Step where
  id : Nat
  channel : Nat
  command : Text
  control : Control
  enabled : Bool
  fallbackOnError : Option Text
  deriving DecidableEq

inductive PolicyError
  | unexpectedCompletion
  | idExhausted
  deriving DecidableEq

structure Policy where
  desired : Option Input
  applied : Control → Option Bool
  pending : List Step
  nextId : Nat
  failed : List Step

namespace Policy

def default : Policy := ⟨none, fun _ => none, [], 0, []⟩

/-- The four controls in the order of the source, with the value that the filter asks for. -/
def controls (input : Input) : List (Control × Bool) :=
  [(.signal, input.has signalStrength), (.cs, input.has fullNetworkState),
    (.ps, input.has fullNetworkState),
    (.screen, input.has signalStrength || input.has fullNetworkState)]

/-- The command's name. -/
def name : Control → Text
  | .signal => text "ECSQ"
  | .cs => text "EREG"
  | .ps => text "EGREG"
  | .screen => text "ESCREENSTATE"

def channel : Control → Nat
  | .screen => 3
  | _ => 1

def isRegistration (control : Control) : Bool := control = .cs || control = .ps

def mode (control : Control) (enabled : Bool) : Text :=
  if isRegistration control then if enabled then text "3" else text "9"
  else if enabled then text "1" else text "0"

/-- `AT+name=mode` -/
def command (control : Control) (mode : Text) : Text :=
  text "AT+" ++ name control ++ text "=" ++ mode

def step (id : Nat) (control : Control) (enabled : Bool) : Step :=
  { id
    channel := channel control
    command := command control (mode control enabled)
    control
    enabled
    fallbackOnError :=
      if isRegistration control && !enabled then some (command control (text "5")) else none }

/-- The steps for the controls that are missing, with the numbers behind `id`. -/
def stepsFrom (id : Nat) : List (Control × Bool) → List Step
  | [] => []
  | (control, enabled) :: rest => step (id + 1) control enabled :: stepsFrom (id + 1) rest

/-- The controls that do not have the value that the filter asks for. -/
def missing (policy : Policy) (input : Input) : List (Control × Bool) :=
  (controls input).filter fun (control, enabled) => policy.applied control ≠ some enabled

def reconcile (policy : Policy) (input : Input) : Except PolicyError (List Step) × Policy :=
  let policy := { policy with desired := some input }
  if policy.pending ≠ [] then (.ok [], policy)
  else
    match checkedAdd policy.nextId (policy.missing input).length with
    | none => (.error .idExhausted, policy)
    | some nextId =>
        let pending := stepsFrom policy.nextId (policy.missing input)
        (.ok pending, { policy with pending, nextId })

def complete (policy : Policy) (id : Nat) (success : Bool) :
    Except PolicyError (Option Step) × Policy :=
  match policy.pending with
  | [] => (.error .unexpectedCompletion, policy)
  | step :: rest =>
      if step.id ≠ id then (.error .unexpectedCompletion, policy)
      else if success then
        (.ok none,
          { policy with
            pending := rest
            applied := Function.update policy.applied step.control (some step.enabled) })
      else
        match step.fallbackOnError with
        | none => (.ok none, { policy with pending := rest, failed := policy.failed ++ [step] })
        | some command =>
            match checkedAdd policy.nextId 1 with
            | none => (.error .idExhausted, policy)
            | some nextId =>
                let step := { step with id := nextId, command, fallbackOnError := none }
                (.ok (some step), { policy with pending := step :: rest, nextId })

def reconnect (policy : Policy) : Policy :=
  { policy with applied := fun _ => none, pending := [] }

end Policy

end Mindone.Radio.State
