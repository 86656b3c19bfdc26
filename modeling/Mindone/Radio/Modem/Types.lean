import Mindone.Radio.State.Policy

/-!
# Mindone.Radio.Modem.Types

The requests and values of the modem service (`modem/radio/modem/types.rs`).
-/

namespace Mindone.Radio.Modem

inductive RadioError
  | none
  | radioNotAvailable
  | genericFailure
  | requestNotSupported
  | internalErr
  | modemErr
  | simErr
  | invalidArguments
  | simBusy
  | operationNotAllowed
  | emptyRecord
  | invalidResponse
  | oemError1
  deriving DecidableEq

inductive DeviceStateType
  | powerSaveMode
  | chargingState
  | lowDataExpected
  deriving DecidableEq

inductive ImeiType
  | invalid
  | primary
  | secondary
  deriving DecidableEq

structure ImeiInfo where
  kind : ImeiType
  imei : Text
  svn : Text
  deriving DecidableEq

structure DeviceIdentity where
  imei : Text
  imeisv : Text
  esn : Text
  meid : Text
  deriving DecidableEq

structure ActivityStatsTechSpecificInfo where
  rat : Int
  frequencyRange : Int
  txmModeTimeMs : List Int
  rxModeTimeMs : Int
  deriving DecidableEq

structure ActivityStatsInfo where
  sleepModeTimeMs : Int
  idleModeTimeMs : Int
  techSpecificInfo : List ActivityStatsTechSpecificInfo
  deriving DecidableEq

structure RadioCapability where
  session : Int
  phase : Int
  raf : Int
  logicalModemUuid : Text
  status : Int
  deriving DecidableEq

inductive CardState
  | absent
  | present
  | error
  | restricted
  deriving DecidableEq

structure SlotPortMapping where
  physicalSlotId : Int
  portId : Int
  deriving DecidableEq

structure AppStatus where
  appType : Int
  appState : Int
  persoSubstate : Int
  aidPtr : Text
  appLabelPtr : Text
  pin1Replaced : Bool
  pin1 : Int
  pin2 : Int
  deriving DecidableEq

structure CardStatus where
  cardState : CardState
  universalPinState : Int
  gsmUmtsSubscriptionAppIndex : Int
  cdmaSubscriptionAppIndex : Int
  imsSubscriptionAppIndex : Int
  applications : List AppStatus
  atr : Text
  iccid : Text
  eid : Text
  slotMap : SlotPortMapping
  supportedMepMode : Int
  deriving DecidableEq

def CardStatus.absent : CardStatus :=
  { cardState := .absent
    universalPinState := 0
    gsmUmtsSubscriptionAppIndex := -1
    cdmaSubscriptionAppIndex := -1
    imsSubscriptionAppIndex := -1
    applications := []
    atr := []
    iccid := []
    eid := []
    slotMap := ⟨0, 0⟩
    supportedMepMode := 0 }

structure SimPortInfo where
  iccId : Text
  logicalSlotId : Int
  portActive : Bool
  deriving DecidableEq

structure SimSlotStatus where
  cardState : CardState
  atr : Text
  eid : Text
  portInfo : List SimPortInfo
  supportedMepMode : Int
  deriving DecidableEq

structure PhoneCapability where
  maxActiveData : Int
  maxActiveInternetData : Int
  isInternetLingeringSupported : Bool
  logicalModemIds : List Int
  maxActiveVoice : Int
  deriving DecidableEq

structure GsmBroadcastSmsConfigInfo where
  fromServiceId : Int
  toServiceId : Int
  fromCodeScheme : Int
  toCodeScheme : Int
  selected : Bool
  deriving DecidableEq

inductive Request
  | setRadioPower (on forEmergencyCall preferredForEmergencyCall : Bool)
  | getBasebandVersion
  | getImei
  | getDeviceIdentity
  | getModemActivityInfo
  | getModemStackStatus
  | enableModem (on : Bool)
  | sendDeviceState (kind : DeviceStateType) (state : Bool)
  | getRadioCapability
  | getIccCardStatus
  | getUiccApplicationsEnablement
  | areUiccApplicationsEnabled
  | enableUiccApplications (enable : Bool)
  | setCarrierInfoForImsiEncryption
  | getHalDeviceCapabilities
  | getSimSlotsStatus
  | getPhoneCapability
  | getNumOfLiveModems
  | setNumOfLiveModems (count : Int)
  | setPreferredDataModem (modem : Int)
  | getCurrentCalls
  | setTtyMode (mode : Int)
  | setGsmBroadcastConfig (config : List GsmBroadcastSmsConfigInfo)
  | setDataProfile (profileCount : Nat)
  | setNullCipherAndIntegrityEnabled (enabled : Bool)
  | setSecurityAlgorithmsUpdatedEnabled (enabled : Bool)
  | setCellularIdentifierDisclosedEnabled (enabled : Bool)
  | isSatelliteEnabledForCarrier
  | getBarringInfo
  | getVoiceRadioTechnology
  deriving DecidableEq

/-- `CurrentCalls` has the list of the calls in the source; the service only makes the
empty one. -/
inductive Value
  | void
  | baseband (version : Text)
  | imei (info : ImeiInfo)
  | identity (identity : DeviceIdentity)
  | activity (info : ActivityStatsInfo)
  | capability (capability : RadioCapability)
  | card (status : CardStatus)
  | slots (slots : List SimSlotStatus)
  | phone (capability : PhoneCapability)
  | reducedFeatureSet1 (reduced : Bool)
  | currentCalls
  | voiceRadioTechnology (technology : Int)
  deriving DecidableEq

structure Response where
  serial : Int
  error : RadioError
  value : Option Value
  deriving DecidableEq

end Mindone.Radio.Modem
