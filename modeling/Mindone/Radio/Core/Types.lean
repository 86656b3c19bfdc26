import Mindone.Radio.Network.Types
import Mindone.Radio.Modem.Types

/-!
# Mindone.Radio.Core.Types

What goes into the radio core and what comes out of it (`modem/radio/core/lib.rs`).
-/

namespace Mindone.Radio.Core

abbrev RadioError := Modem.RadioError

inductive Request
  | network (request : Network.Request)
  | modem (request : Modem.Request)
  deriving DecidableEq

inductive Value
  | network (value : Network.Value)
  | modem (value : Modem.Value)
  deriving DecidableEq

inductive Indication
  | networkStateChanged
  | currentSignalStrength (signal : Network.SignalStrength)
  | radioStateChanged (radio : State.Radio)
  | simStatusChanged
  | modemReset (generation : Nat)
  deriving DecidableEq

inductive Output
  | response (serial : Int) (error : RadioError) (value : Option Value)
  | indication (indication : Indication)
  deriving DecidableEq

def networkError : Network.RadioError → RadioError
  | .none => .none
  | .radioNotAvailable => .radioNotAvailable
  | .genericFailure => .genericFailure
  | .requestNotSupported => .requestNotSupported
  | .internalErr => .internalErr
  | .modemErr => .modemErr
  | .invalidArguments => .invalidArguments
  | .invalidResponse => .invalidResponse

end Mindone.Radio.Core
