import Mindone.Radio.At.Channels
import Mindone.Radio.Modem.Types

/-!
# Mindone.Radio.Modem.Service

The modem service of the radio (`modem/radio/modem/service.rs`). Requests for the same thing share
one operation; an operation may go on with another command when its first one is answered.

The answers to some commands have no prefix, so that their lines come as unsolicited ones: **an
operation takes the lines of its channel that are not registered** (`raw`). Besides the text of such
a line `raw` keeps what the source does not: the command that was active when it came (`Heard`).
-/

set_option linter.dupNamespace false

namespace Mindone.Radio.Modem

open At (Channels Event Heard trim isDigit)
open State (Model Update)
open Mindone.Mux (u64Max)

inductive Operation
  | baseband
  | basebandRaw
  | imei
  | identity
  | svn (identity : Bool) (imei : Text)
  | activity
  | card
  | slots
  | power (on : Bool)
  deriving DecidableEq

structure RawLine where
  line : Text
  heard : Heard
  deriving DecidableEq

structure Pending where
  channel : Nat
  id : Nat
  request : Request
  operation : Operation
  serials : List Int
  deadline : Nat
  attempts : Nat
  raw : List RawLine
  deriving DecidableEq

structure Modem where
  pending : List Pending
  responses : List Response
  serials : List Int
  updates : List (State.Source × Update)
  ttyMode : Int
  broadcastConfig : List GsmBroadcastSmsConfigInfo
  radioCapability : Option RadioCapability
  phoneCapability : Option PhoneCapability
  imeiType : ImeiType
  reducedFeatureSet1 : Bool

def engineError : At.Error → RadioError
  | .failed | .resyncFailed => .radioNotAvailable
  | .timeout => .genericFailure
  | _ => .internalErr

def modemError (line : Text) : RadioError :=
  if line = text "OK" then .none
  else if line = text "ERROR" ∨ line = text "NO CARRIER" then .genericFailure
  else if (text "+CME ERROR:").isPrefixOf line ∨ (text "+CMS ERROR:").isPrefixOf line then .modemErr
  else .invalidResponse

/-! ### Answers -/

/-- The loop of `fields`: commas in quotes do not separate, and quotes are left out. -/
def fieldsLoop (current : Text) (quoted : Bool) : Text → Except RadioError (List Text)
  | [] => if quoted then .error .invalidResponse else .ok [trim current]
  | c :: rest =>
      if c = quote then fieldsLoop current (!quoted) rest
      else if c = comma ∧ ¬ quoted then
        (fieldsLoop [] quoted rest).map fun fields => trim current :: fields
      else fieldsLoop (current ++ [c]) quoted rest

def fields (body : Text) : Except RadioError (List Text) := fieldsLoop [] false body

/-- `line.strip_prefix(start).ok_or(InvalidResponse)` -/
def bodyOf (start line : Text) : Except RadioError Text :=
  match stripStart start line with
  | some body => .ok body
  | none => .error .invalidResponse

def one (lines : List Text) (start : Text) : Except RadioError Text :=
  match lines with
  | [line] => do
      match ← fields (← bodyOf start line) with
      | [value] => if value = [] then throw .invalidResponse else return value
      | _ => throw .invalidResponse
  | _ => .error .invalidResponse

/-- `str::parse` at `i32`, as a result. -/
def number (value : Text) : Except RadioError Int :=
  match parseI32 value with
  | some n => .ok n
  | none => .error .invalidResponse

def activity (line : Text) : Except RadioError ActivityStatsInfo := do
  let values ← (← fields (← bodyOf (text "+ERFTX:") line)).mapM number
  let value (i : Nat) : Int := values.getD i 0
  if values.length < 5 ∨ value 0 ≠ 11 ∨ ¬ (0 ≤ value 1 ∧ value 1 ≤ 5) then throw .invalidResponse
  let count := (value 1).toNat
  if values.length ≠ count + 5 ∨ (values.drop 2).any fun n => n < 0 then throw .invalidResponse
  let tx := (values.drop 2).take count
  return {
    sleepModeTimeMs := value (count + 3)
    idleModeTimeMs := value (count + 4)
    techSpecificInfo :=
      [{ rat := 0
         frequencyRange := 0
         txmModeTimeMs := tx ++ List.replicate (5 - count) 0
         rxModeTimeMs := value (count + 2) }] }

/-- `str::to_ascii_uppercase` -/
def upper (value : Text) : Text :=
  value.map fun byte => if 0x61 ≤ byte ∧ byte ≤ 0x7a then byte - 0x20 else byte

/-- One slot, from its six fields. -/
def slot (v : List Text) : Except RadioError SimSlotStatus := do
  let field (i : Nat) : Text := v.getD i []
  if occurs (text "+CME ERROR:14") (field 0) ∨ occurs (text "+CME ERROR: 14") (field 0) then
    throw .simBusy
  let logicalSlotId ← number (field 1)
  let portActive ←
    if field 2 = text "0" then pure false
    else if field 2 = text "1" then pure true
    else throw .invalidResponse
  let cardState : CardState :=
    if occurs (text "+CPIN: CARD_RESTRICTED") (field 0) then .restricted
    else if field 4 ≠ [] ∨ field 5 ≠ [] then .present
    else .absent
  return {
    cardState
    atr := field 3
    eid := upper (field 5)
    portInfo := [⟨field 4, logicalSlotId, portActive⟩]
    supportedMepMode := 0 }

/-- `chunks_exact(6)`, with the number of chunks. -/
def chunks : Nat → List Text → List (List Text)
  | 0, _ => []
  | count + 1, values => values.take 6 :: chunks count (values.drop 6)

def slots (line : Text) : Except RadioError (List SimSlotStatus) := do
  let values ← fields (← bodyOf (text "+ESLOTSINFO:") line)
  match parseUnsigned u64Max (values.headD []) with
  | none => throw .invalidResponse
  | some count =>
      if count = 0 ∨ count > 8 ∨ values.length ≠ 1 + 6 * count then throw .invalidResponse
      (chunks count (values.drop 1)).mapM slot

/-! ### The service -/

/-- An operation whose answer has no prefix. -/
def Operation.isRaw : Operation → Bool
  | .basebandRaw | .imei | .identity => true
  | _ => false

def Operation.isPower : Operation → Bool
  | .power _ => true
  | _ => false

/-- The channel and the command of an operation, and the prefix of its answer. -/
def Operation.command : Operation → Nat × Text × Option Text
  | .baseband => (1, text "AT+CGMR", some (text "+CGMR:"))
  | .basebandRaw => (1, text "AT+CGMR", none)
  | .imei | .identity => (1, text "AT+CGSN", none)
  | .svn _ _ => (1, text "AT+EGMR=0,9", some (text "+EGMR:"))
  | .activity => (1, text "AT+ERFTX=11", some (text "+ERFTX:"))
  | .card => (6, text "AT+CPIN?", some (text "+CPIN:"))
  | .slots => (6, text "AT+ESLOTSINFO?", some (text "+ESLOTSINFO:"))
  | .power true => (8, text "AT+EFUN=1", none)
  | .power false => (8, text "AT+EFUN=0", none)

/-- Lines of these prefixes are no answer. -/
def isIndication (line : Text) : Bool :=
  [text "+ESIMS:", text "+EUSIM:", text "+ECPIN:", text "+CPIN:"].any fun start =>
    start.isPrefixOf line

/-- The operation that a request is answered with. -/
def operationOf (request : Request) (model : Model) : Option Operation :=
  match request with
  | .setRadioPower on false false => some (.power on)
  | .getBasebandVersion => some .baseband
  | .getImei => some .imei
  | .getDeviceIdentity => some .identity
  | .getModemActivityInfo => some .activity
  | .getIccCardStatus => if model.sim.value.card ≠ .absent then some .card else none
  | .getSimSlotsStatus => some .slots
  | _ => none

/-- The number of a `+CME ERROR:` line. -/
def cmeError (finalLine : Text) : Option Int :=
  (stripStart (text "+CME ERROR:") finalLine).bind fun value => parseI32 (trim value)

/-- The error of an operation that failed. -/
def operationError (operation : Operation) (cme : Option Int) (error : RadioError) : RadioError :=
  if operation.isPower ∧ cme = some 54 then .operationNotAllowed
  else if operation = .card ∧ cme = some 14 then .simBusy
  else if operation = .card ∧ (cme = some 13 ∨ cme = some 15) then .simErr
  else if error = .radioNotAvailable then error
  else
    match operation with
    | .power _ => .oemError1
    | .baseband | .basebandRaw | .activity => .genericFailure
    | .imei | .identity | .svn _ _ => .emptyRecord
    | .slots => .requestNotSupported
    | .card => error

namespace Modem

def new : Modem :=
  { pending := []
    responses := []
    serials := []
    updates := []
    ttyMode := 0
    broadcastConfig := []
    radioCapability := none
    phoneCapability := none
    imeiType := .invalid
    reducedFeatureSet1 := true }

def nextDeadline (m : Modem) : Option Nat := (m.pending.map (·.deadline)).min?

def respond (m : Modem) (serial : Int) (result : Except RadioError Value) : Modem :=
  { m with
    responses := m.responses ++
      [match result with
        | .ok value => ⟨serial, .none, some value⟩
        | .error error => ⟨serial, error, none⟩] }

/-- The same answer for several. -/
def respondAll (m : Modem) (serials : List Int) (result : Except RadioError Value) : Modem :=
  serials.foldl (fun m serial => m.respond serial result) m

def reset (m : Modem) : Modem :=
  let m := { m with pending := [] }.respondAll (m.pending.flatMap Pending.serials)
    (.error .radioNotAvailable)
  { m with updates := [] }

/-- An operation goes to its engine. -/
def start (m : Modem) (request : Request) (operation : Operation) (serials : List Int)
    (deadline attempts : Nat) (c : Channels) : Modem × Channels :=
  let (channel, command, start) := operation.command
  match c.request channel command start 32 deadline with
  | (.ok id, c) =>
      ({ m with
          pending := m.pending ++
            [⟨channel, id, request, operation, serials, deadline, attempts, []⟩] }, c)
  | (.error error, c) => (m.respondAll serials (.error (engineError error)), c)

/-- The serial joins an operation for the same request. -/
def join (request : Request) (serial : Int) : List Pending → List Pending
  | [] => []
  | pending :: rest =>
      if pending.request = request then
        { pending with serials := pending.serials ++ [serial] } :: rest
      else pending :: join request serial rest

/-- A request that needs no command. -/
def answer (m : Modem) (request : Request) : Except RadioError Value × Modem :=
  match request with
  | .sendDeviceState .lowDataExpected _ => (.ok .void, m)
  | .getRadioCapability =>
      (match m.radioCapability with
        | some capability => .ok (.capability capability)
        | none => .error .requestNotSupported, m)
  | .getPhoneCapability =>
      (match m.phoneCapability with
        | some capability => .ok (.phone capability)
        | none => .error .requestNotSupported, m)
  | .getHalDeviceCapabilities => (.ok (.reducedFeatureSet1 m.reducedFeatureSet1), m)
  | .getIccCardStatus => (.ok (.card .absent), m)
  | .getCurrentCalls => (.ok .currentCalls, m)
  | .setTtyMode mode =>
      if 0 ≤ mode ∧ mode ≤ 3 then (.ok .void, { m with ttyMode := mode })
      else (.error .invalidArguments, m)
  | .setGsmBroadcastConfig config =>
      (.error .genericFailure, { m with broadcastConfig := config })
  | .setDataProfile profileCount =>
      (if profileCount = 0 then .ok .void else .error .requestNotSupported, m)
  | .setNullCipherAndIntegrityEnabled _ | .setSecurityAlgorithmsUpdatedEnabled _
  | .setCellularIdentifierDisclosedEnabled _ => (.error .modemErr, m)
  | .setPreferredDataModem modem =>
      (if modem = 0 then .ok .void else .error .invalidArguments, m)
  | .getVoiceRadioTechnology => (.ok (.voiceRadioTechnology 1), m)
  | _ => (.error .requestNotSupported, m)

def submit (m : Modem) (serial : Int) (request : Request) (deadline : Nat) (c : Channels)
    (model : Model) : Modem × Channels :=
  if serial ∈ m.serials then (m, c)
  else
    let m := { m with serials := m.serials ++ [serial] }
    if model.radio.value = .unavailable then
      (m.respond serial (.error .radioNotAvailable), c)
    else
      match operationOf request model with
      | some operation =>
          if ¬ operation.isPower ∧ m.pending.any fun pending => pending.request = request then
            ({ m with pending := join request serial m.pending }, c)
          else m.start request operation [serial] deadline 0 c
      | none =>
          let (result, m) := m.answer request
          (m.respond serial result, c)

/-! ### Events -/

def rawLimit : Nat := 33

/-- A line of the channel goes to the first operation of the channel, if that takes lines. -/
def takeLine (channel : Nat) (line : RawLine) : List Pending → List Pending
  | [] => []
  | pending :: rest =>
      if pending.channel = channel then
        (if pending.operation.isRaw ∧ pending.raw.length < rawLimit then
          { pending with raw := pending.raw ++ [line] }
        else pending) :: rest
      else pending :: takeLine channel line rest

/-- The lines of the answer to an operation. -/
def answerLines (pending : Pending) (response : At.Response) : List Text :=
  let lines := response.intermediates ++ pending.raw.map (·.line)
  if pending.operation.isRaw ∨ pending.operation.isPower then
    lines.filter fun line => !isIndication line
  else lines

/-- What an operation that was answered without an error does. -/
inductive Ending
  | answered (result : Except RadioError Value)
  | powered (on : Bool)
  /-- It goes on with another command. -/
  | continued (operation : Operation)

def isImei (value : Text) : Bool := value.length = 15 && value.all isDigit

def ending (operation : Operation) (lines : List Text) (imeiType : ImeiType) : Ending :=
  match operation with
  | .baseband =>
      if lines = [] then .continued .basebandRaw
      else .answered ((one lines (text "+CGMR:")).map .baseband)
  | .basebandRaw => .answered ((one lines []).map .baseband)
  | .imei | .identity =>
      match one lines [] with
      | .ok imei =>
          if isImei imei then .continued (.svn (operation = .identity) imei)
          else .answered (.error .invalidResponse)
      | .error _ => .answered (.error .invalidResponse)
  | .svn identity imei =>
      .answered (do
        let svn ← one lines (text "+EGMR:")
        if svn.length ≠ 2 ∨ ¬ svn.all isDigit then throw .invalidResponse
        return if identity then .identity ⟨imei, svn, [], []⟩ else .imei ⟨imeiType, imei, svn⟩)
  | .activity =>
      match lines with
      | [line] => .answered ((activity line).map .activity)
      | _ => .answered (.error .invalidResponse)
  | .slots =>
      match lines with
      | [line] => .answered ((slots line).map .slots)
      | _ => .answered (.error .invalidResponse)
  | .card => .answered (.error .requestNotSupported)
  | .power on => .powered on

/-- The final line of a response, empty where there is none. -/
def finalLine (response : At.Response) : Text :=
  match response.result with
  | .ok line => line
  | .error _ => []

def responseError (response : At.Response) : RadioError :=
  match response.result with
  | .ok line => modemError line
  | .error error => engineError error

/-- What the answer tells of the state. -/
def observed (lines : List Text) (error : RadioError) (final : Text) :
    List (State.Source × Update) :=
  ((if error = .none then lines.filterMap State.observeLine else []) ++
    (State.observeLine final).toList).map fun update => (.query, update)

def maxAttempts : Nat := 29

/-- An operation has its result; slots of a busy SIM are asked for again. -/
def conclude (m : Modem) (pending : Pending) (result : Except RadioError Value) (c : Channels) :
    Modem × Channels :=
  if pending.operation = .slots ∧ result = .error .simBusy then
    if pending.attempts < maxAttempts then
      m.start pending.request pending.operation pending.serials pending.deadline
        (pending.attempts + 1) c
    else (m.respondAll pending.serials (.error .simErr), c)
  else (m.respondAll pending.serials result, c)

/-- An operation is completed. -/
def completeOperation (m : Modem) (pending : Pending) (response : At.Response) (c : Channels) :
    Modem × Channels :=
  let lines := answerLines pending response
  let error := responseError response
  let cme := cmeError (finalLine response)
  let m := { m with updates := m.updates ++ observed lines error (finalLine response) }
  if pending.operation = .card ∧ cme = some 10 then
    m.conclude pending (.ok (.card .absent)) c
  else if error ≠ .none then
    m.conclude pending (.error (operationError pending.operation cme error)) c
  else
    match ending pending.operation lines m.imeiType with
    | .continued operation =>
        m.start pending.request operation pending.serials pending.deadline pending.attempts c
    | .powered on =>
        { m with updates := m.updates ++ [(State.Source.powerResponse, State.Update.radio (if on then .on else .off))] }.conclude
          pending (.ok .void) c
    | .answered result => m.conclude pending result c

/-- The entry is of the command of the channel. -/
def Pending.isOf (pending : Pending) (channel id : Nat) : Bool :=
  pending.channel = channel && pending.id = id

def onEvent (m : Modem) (channel : Nat) (event : Event) (heard : Heard) (c : Channels) :
    Modem × Channels :=
  match event with
  | .urc line registered =>
      if ¬ registered ∧ ¬ (text "+").isPrefixOf line then
        ({ m with pending := takeLine channel ⟨line, heard⟩ m.pending }, c)
      else (m, c)
  | .completed response =>
      match m.pending.find? fun pending => Pending.isOf pending channel response.id with
      | none => (m, c)
      | some pending =>
          { m with
            pending := m.pending.eraseP fun pending =>
              Pending.isOf pending channel response.id }.completeOperation pending response c
  | .error .failed | .error .resyncFailed => (m.reset, c)
  | _ => (m, c)

end Modem

end Mindone.Radio.Modem
