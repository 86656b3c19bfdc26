import Mindone.Radio.State.Policy

/-!
# Mindone.Radio.Network.Types

The requests and values of the network service (`modem/radio/network/types.rs`).
-/

namespace Mindone.Radio.Network

inductive RadioError
  | none
  | radioNotAvailable
  | genericFailure
  | requestNotSupported
  | internalErr
  | modemErr
  | invalidArguments
  | invalidResponse
  deriving DecidableEq

inductive RegState
  | notRegistered
  | home
  | searching
  | denied
  | unknown
  | roaming
  deriving DecidableEq

inductive Rat
  | unknown
  | gsm
  | umts
  | lte
  deriving DecidableEq

inductive CellIdentity
  | gsm (lac cid : Nat) (plmn : Text)
  | wcdma (lac cid : Nat) (plmn : Text)
  | lte (tac ci : Nat) (plmn : Text)
  deriving DecidableEq

structure RegStateResult where
  regState : RegState
  rat : Rat
  cellIdentity : Option CellIdentity
  reasonForDenial : Int
  registeredPlmn : Text
  deriving DecidableEq

structure OperatorInfo where
  alphaLong : Text
  alphaShort : Text
  numeric : Text
  deriving DecidableEq

def OperatorInfo.default : OperatorInfo := ⟨[], [], []⟩

inductive SelectionMode
  | automatic
  | manual
  | deregisteredUnverified
  | manualAutomaticUnverified
  deriving DecidableEq

structure GsmSignal where
  signalStrength : Option Nat
  bitErrorRate : Option Nat
  deriving DecidableEq

structure LteSignal where
  rsrp : Option Int
  rsrq : Option Int
  rssnr : Option Int
  deriving DecidableEq

structure WcdmaSignal where
  signalStrength : Option Nat
  rscp : Option Int
  ecno : Option Int
  deriving DecidableEq

structure SignalStrength where
  gsm : Option GsmSignal
  lte : Option LteSignal
  wcdma : Option WcdmaSignal
  deriving DecidableEq

def SignalStrength.default : SignalStrength := ⟨none, none, none⟩

structure CellInfo where
  registered : Bool
  identity : CellIdentity
  signal : SignalStrength
  deriving DecidableEq

structure SignalCriteria where
  accessNetwork : Int
  measurement : Int
  enabled : Bool
  hysteresisMs : Int
  hysteresisDb : Int
  thresholds : List Int
  deriving DecidableEq

structure LinkCriteria where
  accessNetwork : Int
  hysteresisMs : Int
  hysteresisDlKbps : Int
  hysteresisUlKbps : Int
  thresholdsDlKbps : List Int
  thresholdsUlKbps : List Int
  deriving DecidableEq

inductive Request
  | getVoiceRegistrationState
  | getDataRegistrationState
  | getOperator
  | getNetworkSelectionMode
  | getSignalStrength
  | getCellInfoList
  | getImsRegistrationState
  | setIndicationFilter (filter : Nat)
  | setSignalStrengthReportingCriteria (criteria : List SignalCriteria)
  | setLinkCapacityReportingCriteria (criteria : LinkCriteria)
  deriving DecidableEq

inductive Value
  | void
  | registration (result : RegStateResult)
  | operator (info : OperatorInfo)
  | selection (mode : SelectionMode)
  | signal (strength : SignalStrength)
  | cells (cells : List CellInfo)
  deriving DecidableEq

structure Response where
  serial : Int
  error : RadioError
  value : Option Value
  deriving DecidableEq

end Mindone.Radio.Network
