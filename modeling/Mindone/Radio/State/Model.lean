import Mathlib.Order.WithBot
import Mindone.Radio.State.Parse

/-!
# Mindone.Radio.State.Model

What is known of the modem's state (`modem/radio/state/model.rs`, `observe.rs`): the last
observation of the SIM, of the two registration domains, of the signals and of the radio,
each with its time and its source. The model belongs to one generation of the modem;
updates of another generation are dropped.
-/

namespace Mindone.Radio.State

open At (trim)

inductive Knowledge (α : Type)
  | unknown
  | known (value : α)
  deriving DecidableEq

inductive Domain
  | cs
  | ps
  deriving DecidableEq

set_option linter.dupNamespace false in
inductive Radio
  | unavailable
  | off
  | on
  deriving DecidableEq

structure Registration where
  state : Nat
  ratMtkUnverified : Option Nat
  area : Option Nat
  cell : Option Nat
  plmn : Option Text
  rejectCause : Option Int
  emergencyStatusUnverified : Option Int
  deriving DecidableEq

def Registration.fromReport (report : RegistrationReport) : Option (Domain × Registration) :=
  let known (rejectCause emergency : Option Int) : Registration :=
    { state := report.state
      ratMtkUnverified := report.rat
      area := report.area.filter (· ≠ 0xffff)
      cell := report.cell.filter (· ≠ 0xfffffff)
      plmn := none
      rejectCause
      emergencyStatusUnverified := emergency }
  match report.family, report.extensions with
  | .ereg, .cs emergencyStatus _ rejectCause => some (.cs, known rejectCause emergencyStatus)
  | .egreg, .ps _ _ rejectCause _ => some (.ps, known rejectCause none)
  | _, _ => none

/-! ### Signals -/

inductive SignalRat
  | gsmCsq
  | mtkUnverified (rat : Int)
  deriving DecidableEq

/-- The derived order: the constructors as they are listed, and then the value. -/
def SignalRat.before : SignalRat → SignalRat → Bool
  | .gsmCsq, .gsmCsq => false
  | .gsmCsq, .mtkUnverified _ => true
  | .mtkUnverified _, .gsmCsq => false
  | .mtkUnverified rat, .mtkUnverified key => decide (rat < key)

structure Csq where
  rssi : Option Nat
  ber : Option Nat
  deriving DecidableEq

inductive Signal
  | gsm (csq : Csq)
  | lte (rsrp rsrq rssnr : Option Int)
  | quarterUnitsUnverified (ber rssi quality power snr : Option Int)
      (csi : Option (List (Option Int)))
  deriving DecidableEq

def measurement (value : Int) : Option Int :=
  if value ≠ 32767 ∧ value ≠ i32Max then some value else none

def clamp (low high n : Int) : Int := max low (min high n)

/-- The shift to the right of the source is the division that rounds down. -/
def Signal.fromEcsq (report : Ecsq) : SignalRat × Signal :=
  let v := fun i => report.values.getD i 0
  if v 7 = 1 ∨ v 7 = 2 then
    let rssi := (measurement (v 2)).map fun raw => (clamp 0 31 ((raw / 4 + 113) / 2)).toNat
    let ber := if 0 ≤ v 1 ∧ v 1 ≤ 7 then some (v 1).toNat else none
    (.gsmCsq, .gsm { rssi, ber })
  else if v 7 = 4096 ∨ v 7 = 8192 then
    (.mtkUnverified (v 7),
      .lte ((measurement (v 6)).map fun n => clamp 44 140 (-(n / 4)))
        ((measurement (v 5)).map fun n => clamp 3 20 (-(n / 4)))
        ((measurement (v 8)).map fun n => clamp (-200) 300 (10 * n / 4)))
  else
    (.mtkUnverified (v 7),
      .quarterUnitsUnverified (if v 1 ≠ 99 then some (v 1) else none) (measurement (v 2))
        (measurement (v 5)) (measurement (v 6)) (measurement (v 8))
        (report.nrCsiUnverified.map (·.map measurement)))

/-! ### Observations -/

inductive Source
  | query
  | urc
  | transport
  | powerResponse
  deriving DecidableEq

structure Observation (α : Type) where
  value : α
  observedMs : Nat
  source : Source
  deriving DecidableEq

inductive Update
  | registration (domain : Domain) (registration : Registration)
  | signal (rat : SignalRat) (signal : Signal)
  | radio (radio : Radio)
  | sim (report : SimReport)
  deriving DecidableEq

structure Event where
  generation : Nat
  observedMs : Nat
  source : Source
  update : Update
  deriving DecidableEq

inductive Change
  | registration (domain : Domain)
  | signal (rat : SignalRat)
  | radio
  | sim
  deriving DecidableEq

inductive SimCard
  | unknown
  | absent
  | present
  | error
  deriving DecidableEq

structure Sim where
  card : SimCard
  app : Knowledge SimApp
  applicationsEnabled : Knowledge Bool
  esimsStatusUnverified : Option Nat
  eusimUnverified : List Int
  vendorStatusUnverified : Option Text
  deriving DecidableEq

namespace Sim

def default : Sim := ⟨.unknown, .unknown, .unknown, none, [], none⟩

def semanticKey (sim : Sim) : SimCard × Knowledge SimApp × Knowledge Bool :=
  (sim.card, sim.app, sim.applicationsEnabled)

def reduce (sim : Sim) : SimReport → Sim
  | .absent => { sim with card := .absent, app := .unknown }
  | .failure => { sim with card := .error, app := .unknown }
  | .busy => sim
  | .cpin (.vendorUnverified value) => { sim with vendorStatusUnverified := some value }
  | .cpin app => { sim with card := .present, app := .known app, vendorStatusUnverified := none }
  | .esims state status _ =>
      let sim := { sim with esimsStatusUnverified := some status }
      if state = 0 ∧ status = 0 then { sim with card := .absent, app := .unknown }
      else if state = 0 ∧ status = 28 then { sim with applicationsEnabled := .known false }
      else if state = 1 ∧ status = 29 then { sim with applicationsEnabled := .known true }
      else sim
  | .eusimUnverified values => { sim with eusimUnverified := values }

end Sim

structure Model where
  generation : Nat
  sim : Observation Sim
  cs : Observation (Knowledge Registration)
  ps : Observation (Knowledge Registration)
  /-- By increasing key. -/
  signals : List (SignalRat × Observation Signal)
  radio : Observation Radio
  deriving DecidableEq

/-- An observation, unless a later one is there: whether the value changed. -/
def observe {α : Type} [DecidableEq α] (slot : Observation α) (value : α) (now : Nat)
    (source : Source) : Bool × Observation α :=
  if now < slot.observedMs then (false, slot)
  else (decide (slot.value ≠ value), ⟨value, now, source⟩)

namespace Model

def new (generation : Nat) : Model :=
  { generation
    sim := ⟨.default, 0, .transport⟩
    cs := ⟨.unknown, 0, .transport⟩
    ps := ⟨.unknown, 0, .transport⟩
    signals := []
    radio := ⟨.unavailable, 0, .transport⟩ }

/-- The signals with an observation at `rat`, and whether that changed them. -/
def observeSignal (rat : SignalRat) (signal : Signal) (now : Nat) (source : Source) :
    List (SignalRat × Observation Signal) → Bool × List (SignalRat × Observation Signal)
  | [] => (true, [(rat, ⟨signal, now, source⟩)])
  | (key, slot) :: rest =>
      if key = rat then
        let (changed, slot) := observe slot signal now source
        (changed, (key, slot) :: rest)
      else if rat.before key then (true, (rat, ⟨signal, now, source⟩) :: (key, slot) :: rest)
      else
        let (changed, rest) := observeSignal rat signal now source rest
        (changed, (key, slot) :: rest)

def apply (model : Model) (event : Event) : Option Change × Model :=
  if event.generation ≠ model.generation then (none, model)
  else
    match event.update with
    | .sim report =>
        if event.observedMs < model.sim.observedMs then (none, model)
        else
          let value := model.sim.value.reduce report
          (if model.sim.value.semanticKey ≠ value.semanticKey then some .sim else none,
            { model with sim := ⟨value, event.observedMs, event.source⟩ })
    | .registration .cs registration =>
        let (changed, cs) := observe model.cs (.known registration) event.observedMs event.source
        (if changed then some (.registration .cs) else none, { model with cs })
    | .registration .ps registration =>
        let (changed, ps) := observe model.ps (.known registration) event.observedMs event.source
        (if changed then some (.registration .ps) else none, { model with ps })
    | .radio radio =>
        let (changed, radio) := observe model.radio radio event.observedMs event.source
        (if changed then some .radio else none, { model with radio })
    | .signal rat signal =>
        let (changed, signals) :=
          observeSignal rat signal event.observedMs event.source model.signals
        (if changed then some (.signal rat) else none, { model with signals })

end Model

/-- `observe::line`: what a line tells of the state. -/
def observeLine (line : Text) : Option Update :=
  let line := trim line
  if (text "+ECSQ:").isPrefixOf line then
    (ecsq line).toOption.map fun report =>
      let (rat, signal) := Signal.fromEcsq report
      .signal rat signal
  else if (text "+EREG:").isPrefixOf line then registered line .ereg
  else if (text "+EGREG:").isPrefixOf line then registered line .egreg
  else (sim line).toOption.map .sim
where
  registered (line : Text) (family : Family) : Option Update :=
    ((registration line family .unsolicited).toOption.bind Registration.fromReport).map
      fun (domain, registration) => .registration domain registration

end Mindone.Radio.State
