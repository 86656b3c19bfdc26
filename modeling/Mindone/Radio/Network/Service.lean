import Mathlib.Algebra.Ring.Nat
import Mindone.Radio.At.Channels
import Mindone.Radio.Network.Types

/-!
# Mindone.Radio.Network.Service

The network service of the radio (`modem/radio/network/service.rs`). It answers what it can from the
model, shares one read among all who ask for the same thing, and does one control job after the
other: a job is a list of commands, of which one is with an engine at a time.

`startControl` is a loop in the source; here it has a number of turns, which is never what ends it
(`startControl_done`).
-/

set_option linter.dupNamespace false

namespace Mindone.Radio.Network

open At (Channels Event trim isDigit)
open State (Model Domain Knowledge Registration Signal SignalRat Update Policy)

inductive Read
  | operator
  | signal
  deriving DecidableEq

structure Pending where
  channel : Nat
  id : Nat
  kind : Read
  serials : List Int
  deadline : Nat
  deriving DecidableEq

/-- A command of a control job, with the policy step it is for. -/
structure ControlStep where
  channel : Nat
  command : Text
  step : Option State.Step
  deriving DecidableEq

/-- The command of a control job that is with an engine. -/
structure ActiveStep where
  channel : Nat
  id : Nat
  step : Option State.Step
  deriving DecidableEq

structure ControlJob where
  serial : Option Int
  refresh : Bool
  deadline : Nat
  steps : List ControlStep
  active : Option ActiveStep
  error : RadioError
  deriving DecidableEq

/-- A filter that waits for its job. -/
structure FilterJob where
  serial : Option Int
  filter : Nat
  deadline : Nat
  deriving DecidableEq

structure Network where
  pending : List Pending
  responses : List Response
  selection : Option SelectionMode
  selectionWaiters : List Int
  policy : Policy
  controls : List ControlJob
  filters : List FilterJob
  updates : List (State.Source × Update)
  registrationRatMappingUnverified : List (Nat × Rat)
  signalCriteria : List SignalCriteria
  linkCriteria : Option LinkCriteria

def modemError (finalLine : Text) : RadioError :=
  if finalLine = text "OK" then .none
  else if finalLine = text "ERROR" ∨ finalLine = text "NO CARRIER" then .genericFailure
  else if (text "+CME ERROR:").isPrefixOf finalLine ∨ (text "+CMS ERROR:").isPrefixOf finalLine then
    .modemErr
  else .invalidResponse

def engineError : At.Error → RadioError
  | .failed | .resyncFailed => .radioNotAvailable
  | .timeout => .genericFailure
  | _ => .internalErr

/-! ### What the model says -/

def regState (state : Nat) : RegState :=
  match state with
  | 0 => .notRegistered
  | 1 => .home
  | 2 => .searching
  | 3 => .denied
  | 5 => .roaming
  | _ => .unknown

/-- The identity of the cell, if its numbers are in their ranges. -/
def cellIdentity (rat : Rat) (area cell : Option Nat) (plmn : Text) : Option CellIdentity :=
  match area, cell with
  | some area, some cid =>
      if cid > u32Max then none
      else
        match rat with
        | .gsm => if area ≤ 0xfffe ∧ cid ≤ 0xffff then some (.gsm area cid plmn) else none
        | .umts => if area ≤ 0xfffe ∧ cid < 0xfffffff then some (.wcdma area cid plmn) else none
        | .lte => if area ≤ 0xfffe ∧ cid < 0xfffffff then some (.lte area cid plmn) else none
        | .unknown => none
  | _, _ => none

def registration (model : Model) (domain : Domain) (mappings : List (Nat × Rat)) :
    RegStateResult :=
  let value :=
    match domain with
    | .cs => model.cs.value
    | .ps => model.ps.value
  match value with
  | .unknown => ⟨.unknown, .unknown, none, 0, []⟩
  | .known reg =>
      let state := regState reg.state
      let rat :=
        if state = .home ∨ state = .roaming then
          (reg.ratMtkUnverified.bind fun key => List.lookup key mappings).getD .unknown
        else .unknown
      { regState := state
        rat
        cellIdentity := cellIdentity rat reg.area reg.cell (reg.plmn.getD [])
        reasonForDenial := reg.rejectCause.getD 0
        registeredPlmn := reg.plmn.getD [] }

/-- The loop body of `signal`, with the time of the LTE values so far. -/
def signalStep (acc : SignalStrength × Option Nat) (observation : State.Observation Signal) :
    SignalStrength × Option Nat :=
  match observation.value with
  | .gsm csq => ({ acc.1 with gsm := some ⟨csq.rssi, csq.ber⟩ }, acc.2)
  | .lte rsrp rsrq rssnr =>
      if acc.2.all fun time => time ≤ observation.observedMs then
        ({ acc.1 with lte := some ⟨rsrp, rsrq, rssnr⟩ }, some observation.observedMs)
      else acc
  | .quarterUnitsUnverified .. => acc

def signal (model : Model) : SignalStrength :=
  ((model.signals.map Prod.snd).foldl signalStep (.default, none)).1

/-- A PLMN in quotes. -/
def quotedPlmn (field : Text) : Option Text := do
  let body ← stripStart [quote] field
  if body.getLast? = some quote then
    let plmn := body.dropLast
    if plmn ≠ text "000000" ∧ (plmn.length = 5 ∨ plmn.length = 6) ∧ plmn.all isDigit then some plmn
    else none
  else none

def operator (line : Text) : Except RadioError (SelectionMode × OperatorInfo) :=
  match stripStart (text "+EOPS:") line with
  | none => .error .invalidResponse
  | some body =>
      let fields := (split comma body).map trim
      let info (mode : SelectionMode) : OperatorInfo :=
        if mode ≠ .deregisteredUnverified ∧ fields[1]? = some (text "2") then
          { OperatorInfo.default with numeric := (fields[2]?.bind quotedPlmn).getD [] }
        else .default
      let mode : Option SelectionMode :=
        if fields.head? = some (text "0") then some .automatic
        else if fields.head? = some (text "1") then some .manual
        else if fields.head? = some (text "2") then some .deregisteredUnverified
        else if fields.head? = some (text "4") then some .manualAutomaticUnverified
        else none
      match mode with
      | none => .error .genericFailure
      | some mode => .ok (mode, info mode)

/-! ### Criteria -/

/-- `v.windows(2).any(|v| v[0] >= v[1])` -/
def hasDescent : List Int → Bool
  | first :: second :: rest => first ≥ second || hasDescent (second :: rest)
  | _ => false

/-- The modem's numbers for an access network and a measurement. -/
def criteriaCodes (accessNetwork measurement : Int) : Option (Nat × Int) :=
  if accessNetwork = 1 ∧ measurement = 1 then some (1, 0)
  else if accessNetwork = 2 ∧ measurement = 2 then some (2, 0)
  else if accessNetwork = 2 ∧ measurement = 9 then some (2, 1)
  else if accessNetwork = 3 ∧ 3 ≤ measurement ∧ measurement ≤ 5 then some (4, measurement - 3)
  else if accessNetwork = 4 ∧ measurement = 1 then some (16, 0)
  else if accessNetwork = 6 ∧ 6 ≤ measurement ∧ measurement ≤ 8 then some (128, measurement - 6)
  else none

def decimal (n : Int) : Text := text (toString n)

def criteriaCommand (criteria : SignalCriteria) : Except RadioError Text :=
  if criteria.hysteresisMs < 0 ∨ criteria.hysteresisDb < 0 ∨ hasDescent criteria.thresholds then
    .error .invalidArguments
  else
    match criteriaCodes criteria.accessNetwork criteria.measurement with
    | none => .error .requestNotSupported
    | some (rat, measurement) =>
        let settings : List Int :=
          [if criteria.enabled then 1 else 0, (rat : Int), measurement, criteria.hysteresisMs,
            criteria.hysteresisDb, (criteria.thresholds.length : Int)]
        let numbers := settings ++ criteria.thresholds
        .ok (text "AT+ECSQ=4" ++ numbers.flatMap fun n => text ", " ++ decimal n)

/-- The test of the link criteria that are given. -/
def invalidLink (criteria : LinkCriteria) : Bool :=
  criteria.hysteresisMs < 0 || criteria.hysteresisDlKbps < 0 || criteria.hysteresisUlKbps < 0 ||
    [criteria.thresholdsDlKbps, criteria.thresholdsUlKbps].any fun thresholds =>
      (thresholds.any fun n => n < 0) || hasDescent thresholds

/-! ### The service -/

namespace Network

def new : Network :=
  { pending := []
    responses := []
    selection := none
    selectionWaiters := []
    policy := .default
    controls := []
    filters := []
    updates := []
    registrationRatMappingUnverified := []
    signalCriteria := []
    linkCriteria := none }

def nextDeadline (n : Network) : Option Nat :=
  (n.pending.map (·.deadline) ++ n.controls.map (·.deadline) ++ n.filters.map (·.deadline)).min?

def indicationFilter (n : Network) : Nat := n.policy.desired.elim 0 (·.filter)

def respond (n : Network) (serial : Int) (result : Except RadioError Value) : Network :=
  { n with
    responses := n.responses ++
      [match result with
        | .ok value => ⟨serial, .none, some value⟩
        | .error error => ⟨serial, error, none⟩] }

/-- The same answer for several. -/
def respondAll (n : Network) (serials : List Int) (result : Except RadioError Value) : Network :=
  serials.foldl (fun n serial => n.respond serial result) n

/-- Everyone who waits. -/
def waiters (n : Network) : List Int :=
  n.pending.flatMap (·.serials) ++ n.selectionWaiters ++ n.controls.filterMap (·.serial) ++
    n.filters.filterMap (·.serial)

def reset (n : Network) : Network :=
  let cleared := { n with pending := [], selectionWaiters := [], controls := [], filters := [] }
  let n := cleared.respondAll n.waiters (.error .radioNotAvailable)
  { n with selection := none, updates := [], policy := n.policy.reconnect }

/-- The channel and the command of a read, and the prefix of its answer. -/
def readCommand : Read → Nat × Text × Text
  | .operator => (6, text "AT+EOPS?", text "+EOPS:")
  | .signal => (1, text "AT+ECSQ", text "+ECSQ:")

/-- The serials join a read that is under way. -/
def join (kind : Read) (serials : List Int) : List Pending → List Pending
  | [] => []
  | pending :: rest =>
      if pending.kind = kind then { pending with serials := pending.serials ++ serials } :: rest
      else pending :: join kind serials rest

def read (n : Network) (serial : Option Int) (kind : Read) (deadline : Nat) (c : Channels) :
    Network × Channels :=
  if n.pending.any fun pending => pending.kind = kind then
    ({ n with pending := join kind serial.toList n.pending }, c)
  else
    let (channel, command, start) := readCommand kind
    match c.request channel command (some start) 32 deadline with
    | (.ok id, c) =>
        ({ n with pending := n.pending ++ [⟨channel, id, kind, serial.toList, deadline⟩] }, c)
    | (.error error, c) => (n.respondAll serial.toList (.error (engineError error)), c)

/-- The job of a filter, from its policy steps. -/
def filterJob (job : FilterJob) (steps : List State.Step) : ControlJob where
  serial := job.serial
  refresh := steps.any fun step => step.control = .signal && step.enabled
  deadline := job.deadline
  steps := steps.map fun step => ⟨step.channel, step.command, some step⟩
  active := none
  error := .none

/-- No job is left: the first filter becomes one, or its policy fails. -/
def startFilter (n : Network) (job : FilterJob) (filters : List FilterJob) : Network :=
  let (result, policy) := n.policy.reconcile ⟨job.filter⟩
  let n := { n with filters, policy := { policy with desired := n.policy.desired } }
  match result with
  | .ok steps => { n with controls := [filterJob job steps] }
  | .error _ => n.respondAll job.serial.toList (.error .internalErr)

/-- A job without further commands is answered. -/
def finishJob (n : Network) (job : ControlJob) (jobs : List ControlJob) (c : Channels) :
    Network × Channels :=
  let rest : Network := { n with controls := jobs }
  let n := rest.respondAll job.serial.toList
    (if job.error = .none then .ok .void else .error job.error)
  if job.error = .none ∧ job.refresh then n.read none .signal job.deadline c else (n, c)

/-- The next command of a job goes to its engine. -/
def startStep (n : Network) (job : ControlJob) (jobs : List ControlJob) (next : ControlStep)
    (steps : List ControlStep) (c : Channels) : Network × Channels :=
  match c.request next.channel next.command none 0 job.deadline with
  | (.ok id, c) =>
      ({ n with
          controls := { job with steps, active := some ⟨next.channel, id, next.step⟩ } :: jobs }, c)
  | (.error error, c) =>
      let job := { job with steps, error := engineError error }
      match next.step with
      | none => ({ n with controls := job :: jobs }, c)
      | some step =>
          let (result, policy) := n.policy.complete step.id false
          let steps :=
            match result with
            | .ok (some fallback) => ⟨fallback.channel, fallback.command, some fallback⟩ :: steps
            | _ => steps
          ({ n with policy, controls := { job with steps } :: jobs }, c)

/-- The loop of `start_control`, with the turns that are left. -/
def startControl : Nat → Network → Channels → Network × Channels
  | 0, n, c => (n, c)
  | turns + 1, n, c =>
      match n.controls with
      | [] =>
          match n.filters with
          | [] => (n, c)
          | job :: filters => startControl turns (n.startFilter job filters) c
      | job :: jobs =>
          if job.active.isSome then (n, c)
          else
            match job.steps with
            | [] =>
                let (n, c) := n.finishJob job jobs c
                startControl turns n c
            | next :: steps =>
                let (n, c) := n.startStep job jobs next steps c
                startControl turns n c

/-- Enough turns: each takes a filter, a job or a step away, or the fallback of a step. -/
def turns (n : Network) : Nat :=
  20 * n.filters.length + (n.controls.map fun job => 1 + job.steps.length).sum +
    (n.policy.pending.filter fun step => step.fallbackOnError.isSome).length + 1

/-- `start_control` -/
def start (n : Network) (c : Channels) : Network × Channels := startControl n.turns n c

def restore (n : Network) (c : Channels) (deadline : Nat) : Network × Channels :=
  match n.policy.desired with
  | none => (n, c)
  | some input =>
      let job : FilterJob := ⟨none, input.filter, deadline⟩
      { n with filters := n.filters ++ [job] }.start c

/-- The cells that the model knows, each identity once. -/
def cells (n : Network) (model : Model) : List CellInfo :=
  [Domain.ps, Domain.cs].foldl (fun cells domain =>
    match (registration model domain n.registrationRatMappingUnverified).cellIdentity with
    | none => cells
    | some identity =>
        if cells.any fun cell => cell.identity = identity then cells
        else cells ++ [⟨true, identity, signal model⟩]) []

/-- The job of criteria, from its commands. -/
def criteriaJob (serial : Int) (deadline : Nat) (commands : List Text) : ControlJob where
  serial := some serial
  refresh := false
  deadline := deadline
  steps := commands.map fun command => ⟨1, command, none⟩
  active := none
  error := .none

def submit (n : Network) (serial : Int) (request : Request) (deadline : Nat) (c : Channels)
    (model : Model) : Network × Channels :=
  if model.radio.value = .unavailable then (n.respond serial (.error .radioNotAvailable), c)
  else
    match request with
    | .getVoiceRegistrationState =>
        (n.respond serial
          (.ok (.registration (registration model .cs n.registrationRatMappingUnverified))), c)
    | .getDataRegistrationState =>
        (n.respond serial
          (.ok (.registration (registration model .ps n.registrationRatMappingUnverified))), c)
    | .getCellInfoList => (n.respond serial (.ok (.cells (n.cells model))), c)
    | .getImsRegistrationState => (n.respond serial (.error .requestNotSupported), c)
    | .getNetworkSelectionMode =>
        if n.pending.any fun pending => pending.kind = .operator then
          ({ n with selectionWaiters := n.selectionWaiters ++ [serial] }, c)
        else
          match n.selection with
          | some mode => (n.respond serial (.ok (.selection mode)), c)
          | none => (n.respond serial (.error .invalidResponse), c)
    | .getOperator => n.read (some serial) .operator deadline c
    | .getSignalStrength => n.read (some serial) .signal deadline c
    | .setIndicationFilter filter =>
        let job : FilterJob := ⟨some serial, filter, deadline⟩
        let policy : Policy := { n.policy with desired := some ⟨filter⟩ }
        { n with policy, filters := n.filters ++ [job] }.start c
    | .setSignalStrengthReportingCriteria criteria =>
        let n := { n with signalCriteria := criteria }
        match criteria.mapM criteriaCommand with
        | .error error => (n.respond serial (.error error), c)
        | .ok commands =>
            { n with controls := n.controls ++ [criteriaJob serial deadline commands] }.start c
    | .setLinkCapacityReportingCriteria criteria =>
        ({ n with linkCriteria := some criteria }.respond serial
          (.error (if invalidLink criteria then .invalidArguments else .requestNotSupported)), c)

/-- A line of the answer to a signal query, on the strength so far. -/
def answerLine (strength : SignalStrength) (line : Text) : SignalStrength :=
  match State.observeLine line with
  | some (.signal _ (.gsm csq)) => { strength with gsm := some ⟨csq.rssi, csq.ber⟩ }
  | some (.signal _ (.lte rsrp rsrq rssnr)) => { strength with lte := some ⟨rsrp, rsrq, rssnr⟩ }
  | _ => strength

/-- What the answer to a signal query tells. -/
def signalAnswer (model : Model) (lines : List Text) : SignalStrength :=
  lines.foldl answerLine (signal model)

/-- Is registered in a domain. -/
def isRegistered : Knowledge Registration → Bool
  | .known reg => reg.state = 1 || reg.state = 5
  | .unknown => false

/-- The result of a read that was answered without an error, and what it changes. -/
def readResult (n : Network) (kind : Read) (lines : List Text) (model : Model) :
    Except RadioError Value × Network :=
  match kind with
  | .operator =>
      match lines with
      | [line] =>
          match operator line with
          | .error error => (.error error, n)
          | .ok (mode, info) =>
              (.ok (.operator
                  (if isRegistered model.cs.value ∨ isRegistered model.ps.value then info
                    else .default)),
                { n with selection := some mode })
      | _ => (.error .invalidResponse, n)
  | .signal =>
      if lines = [] ∨ lines.any fun line => (State.ecsq line).toOption.isNone then
        (.error .invalidResponse, n)
      else
        (.ok (.signal (signalAnswer model lines)),
          { n with
            updates := n.updates ++
              (lines.filterMap State.observeLine).map fun update => (.query, update) })

/-- A read is completed. -/
def completeRead (n : Network) (pending : Pending) (response : At.Response) (error : RadioError)
    (model : Model) : Network :=
  let (result, n) :=
    if error ≠ .none then (.error error, n)
    else n.readResult pending.kind response.intermediates model
  let n := n.respondAll pending.serials result
  if pending.kind = .operator then
    let selection : Except RadioError Value :=
      match result with
      | .error error => .error error
      | .ok _ =>
          match n.selection with
          | some mode => .ok (.selection mode)
          | none => .error .invalidResponse
    { n with selectionWaiters := [] }.respondAll n.selectionWaiters selection
  else n

/-- The command of a job is completed. -/
def completeStep (n : Network) (job : ControlJob) (jobs : List ControlJob)
    (step : Option State.Step) (error : RadioError) : Network :=
  let job := { job with active := none }
  match step with
  | none =>
      { n with controls := (if error ≠ .none then { job with error } else job) :: jobs }
  | some step =>
      let (result, policy) := n.policy.complete step.id (error = .none)
      let job :=
        match result with
        | .ok (some fallback) =>
            { job with
              steps := ⟨fallback.channel, fallback.command, some fallback⟩ :: job.steps }
        | .ok none =>
            if error ≠ .none then
              { job with error := if error = .genericFailure then .modemErr else error }
            else job
        | .error _ => { job with error := .internalErr }
      { n with policy, controls := job :: jobs }

/-- The error that a response stands for. -/
def responseError (response : At.Response) : RadioError :=
  match response.result with
  | .ok line => modemError line
  | .error error => engineError error

/-- The entry is of the command of the channel. -/
def Pending.isOf (pending : Pending) (channel id : Nat) : Bool :=
  pending.channel = channel && pending.id = id

/-- The first job's command is the one of the channel. -/
def activeIs (job : ControlJob) (channel id : Nat) : Bool :=
  job.active.any fun active => active.channel = channel && active.id = id

def onEvent (n : Network) (channel : Nat) (event : Event) (c : Channels) (model : Model) :
    Network × Channels :=
  match event with
  | .completed response =>
      let error := responseError response
      match n.pending.find? fun pending => Pending.isOf pending channel response.id with
      | some pending =>
          let n :=
            { n with
              pending := n.pending.eraseP fun pending => Pending.isOf pending channel response.id }
          (n.completeRead pending response error model, c)
      | none =>
          match n.controls with
          | [] => (n, c)
          | job :: jobs =>
              if activeIs job channel response.id then
                (n.completeStep job jobs (job.active.bind (·.step)) error).start c
              else (n, c)
  | .error .failed | .error .resyncFailed => (n.reset, c)
  | _ => (n, c)

end Network

end Mindone.Radio.Network
