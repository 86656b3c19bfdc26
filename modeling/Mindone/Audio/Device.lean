import Mindone.Audio.Routes
import Mindone.Lib.Keyed

/-!
# Mindone.Audio.Device

The audio HAL (`audio-hf/audio_hw.c`, without the planner): streams, a voice call, and the
endpoints that both of them use. All of the state is guarded by one lock, which an entry point
gives up while it opens a PCM device; what happens between taking that lock and giving it up is
one function here. A stream that is being opened is marked as such (`starting`): its own lock is
held then, so no other entry point for it runs, while patches, calls and other streams do.

The mailbox of the modem, the PCM devices and the gain controls answer with any result; of the
PCM devices only the rate is looked at. A function that logs that an endpoint was released more
often than acquired sets `warned`.
-/

namespace Mindone.Audio

open Mindone.Lib

/-! ### Devices -/

/-- `enum input_device` -/
inductive InDevice
  | none
  | mainMic
  | headsetMic
  | sco
  deriving DecidableEq

/-- `PCM_DEVICE_PRIMARY`, `PCM_DEVICE_FAST` and `PCM_DEVICE_DEEP_BUFFER` -/
inductive PcmDevice
  | primary
  | fast
  | deepBuffer
  deriving DecidableEq

/-- `audio_devices_t` -/
abbrev Mask := Nat

/-- `output_device_from_mask`: wired headsets and headphones (bits 2, 3), the speaker (1), the
earpiece (0), the kinds of SCO (4, 5, 6). -/
def outputDeviceFromMask (device : Mask) : Endpoint :=
  if device.testBit 2 || device.testBit 3 then .headphone
  else if device.testBit 1 then .speaker
  else if device.testBit 0 then .earpiece
  else if device.testBit 4 || device.testBit 5 || device.testBit 6 then .sco
  else .speaker

/-- `input_device_from_mask`: the SCO headset is bit 3, the wired headset bit 4. -/
def inputDeviceFromMask (device : Mask) : InDevice :=
  if device.testBit 3 then .sco else if device.testBit 4 then .headsetMic else .mainMic

/-- `input_path_name`; none for SCO. -/
def inputPathName : InDevice → Option PathName
  | .headsetMic => some .headsetMic
  | .sco => .none
  | .mainMic | .none => some .mic

/-- `dl_crossbar_path_name` -/
def dlCrossbarPathName : PcmDevice → PathName
  | .fast => .dl2Adda
  | .deepBuffer => .dl3Adda
  | .primary => .dl1Adda

/-! ### Streams -/

/-- `struct mindone_stream_out`; `id` stands for its address, and `starting` for the device that
is being opened. -/
structure StreamOut where
  id : Nat
  ioHandle : Int
  pcmDevice : PcmDevice
  device : Mask
  routedDevice : Endpoint
  crossbarOn : Bool
  reopenPending : Bool
  standby : Bool
  starting : Option Endpoint
  deriving DecidableEq

/-- `struct mindone_stream_in` -/
structure StreamIn where
  id : Nat
  ioHandle : Int
  device : Mask
  routedDevice : InDevice
  reopenPending : Bool
  standby : Bool
  starting : Option InDevice
  deriving DecidableEq

inductive Mode
  | normal
  | ringtone
  | inCall
  | inCommunication
  deriving DecidableEq

/-- `struct mindone_audio_device` -/
structure Adev where
  mixer : Mixer
  mode : Mode
  micMute : Bool
  btWb : Bool
  inCall : Bool
  speechOn : Bool
  voiceOutDevice : Endpoint
  voiceInDevice : InDevice
  activeOut : Option Nat
  activeIn : Option Nat
  outEpUsers : EpUsers
  inEpUsers : InDevice → Int
  inputRoutedDevice : InDevice
  outs : List StreamOut
  ins : List StreamIn
  warned : Bool

/-- `mindone_audio_device_open`, with all paths off. -/
def Adev.opened (mixer : Mixer) : Adev where
  mixer := mixer
  mode := .normal
  micMute := false
  btWb := false
  inCall := false
  speechOn := false
  voiceOutDevice := .none
  voiceInDevice := .none
  activeOut := .none
  activeIn := .none
  outEpUsers := fun _ => 0
  inEpUsers := fun _ => 0
  inputRoutedDevice := .none
  outs := []
  ins := []
  warned := false

namespace Adev

def out? (adev : Adev) (id : Nat) : Option StreamOut := adev.outs.find? (·.id == id)

def in? (adev : Adev) (id : Nat) : Option StreamIn := adev.ins.find? (·.id == id)

/-- A write to the fields of a stream. -/
def modifyOut (adev : Adev) (id : Nat) (f : StreamOut → StreamOut) : Adev :=
  { adev with outs := modifyKey (·.id) id f adev.outs }

def modifyIn (adev : Adev) (id : Nat) (f : StreamIn → StreamIn) : Adev :=
  { adev with ins := modifyKey (·.id) id f adev.ins }

/-- Calls of `libaudioroute`. -/
def routeCalls (adev : Adev) (cs : List RouteCall) : Adev :=
  { adev with mixer := adev.mixer.calls cs }

/-! ### Endpoints -/

/-- `endpoint_release` and `teardown_output_route` -/
def endpointRelease (adev : Adev) (d : Endpoint) : Adev :=
  let (users, cs) := Audio.endpointRelease adev.outEpUsers d
  { adev with
    outEpUsers := users
    mixer := adev.mixer.calls cs
    warned := adev.warned || decide (d ≠ .none ∧ adev.outEpUsers d ≤ 0) }

/-- `endpoint_acquire` -/
def endpointAcquire (adev : Adev) (d : Endpoint) : Adev :=
  let (users, cs) := Audio.endpointAcquire adev.outEpUsers d
  { adev with outEpUsers := users, mixer := adev.mixer.calls cs }

/-- `apply_output_route` -/
def applyOutputRoute (adev : Adev) (old new : Endpoint) : Adev :=
  if old = new then adev else (adev.endpointRelease old).endpointAcquire new

/-- The microphone that `apply_input_route` selects. -/
def selectedInput (voiceIn : InDevice) (users : InDevice → Int) : InDevice :=
  if voiceIn ≠ .none ∧ users voiceIn > 0 then voiceIn
  else if users .mainMic > 0 then .mainMic
  else if users .headsetMic > 0 then .headsetMic
  else .none

/-- The calls with which one microphone replaces another one. -/
def switchInput (old new : InDevice) : List RouteCall :=
  let off := if old ≠ .none then inputPathName old else .none
  let on := if new ≠ .none then inputPathName new else .none
  off.elim [] (fun path => [.apply path false]) ++ on.elim [] (fun path => [.apply path true]) ++
    [.update]

/-- `apply_input_route` -/
def applyInputRoute (adev : Adev) (old new : InDevice) : Adev :=
  if old = new then adev
  else if old ≠ .none ∧ adev.inEpUsers old ≤ 0 then { adev with warned := true }
  else
    let users := if old ≠ .none
      then Function.update adev.inEpUsers old (adev.inEpUsers old - 1) else adev.inEpUsers
    let users := if new ≠ .none then Function.update users new (users new + 1) else users
    let selected := selectedInput adev.voiceInDevice users
    let adev := { adev with inEpUsers := users }
    if adev.inputRoutedDevice = selected then adev
    else { adev.routeCalls (switchInput adev.inputRoutedDevice selected) with
      inputRoutedDevice := selected }

/-- `teardown_input_route` -/
def teardownInputRoute (adev : Adev) (device : InDevice) : Adev :=
  adev.applyInputRoute device .none

/-- `apply_dl_crossbar` -/
def applyDlCrossbar (adev : Adev) (out : StreamOut) : Adev :=
  if out.crossbarOn then adev
  else (adev.routeCalls [.apply (dlCrossbarPathName out.pcmDevice) true, .update]).modifyOut out.id
    fun out => { out with crossbarOn := true }

/-- `teardown_dl_crossbar` -/
def teardownDlCrossbar (adev : Adev) (out : StreamOut) : Adev :=
  if !out.crossbarOn then adev
  else (adev.routeCalls [.apply (dlCrossbarPathName out.pcmDevice) false, .update]).modifyOut out.id
    fun out => { out with crossbarOn := false }

/-! ### The voice call -/

/-- What the modem, the hostless PCM devices and the gain control answer during an entry
point. -/
structure Speech where
  hostlessOpen : Bool
  gainAcquire : Bool
  ccciOn : Bool
  setMode : Bool
  muteDownlink : Bool
  muteUplink : Bool
  restoreUplink : Bool
  restoreDownlink : Bool
  deriving DecidableEq

/-- `voice_route_disable` -/
def voiceRouteDisable (adev : Adev) (speechOff : Bool) : Adev :=
  let adev :=
    if adev.inCall ∧ adev.voiceOutDevice ≠ .sco then
      let input := adev.voiceInDevice
      let adev := adev.routeCalls
        [.apply .voiceEchoRef false, .apply .voiceUplink false, .apply .voiceDownlink false]
      let adev := { adev with voiceInDevice := .none }
      (adev.teardownInputRoute input).routeCalls [.update]
    else adev
  let adev := if speechOff then { adev with speechOn := false } else adev
  if !adev.inCall then adev
  else { adev.endpointRelease adev.voiceOutDevice with voiceOutDevice := .none, inCall := false }

/-- The microphone of a call. -/
def voiceInputFor (out : Endpoint) : InDevice :=
  if out = .sco then .none else if out = .headphone then .headsetMic else .mainMic

/-- `voice_route_enable`: whether it succeeds. -/
def voiceRouteEnable (adev : Adev) (out : Endpoint) (speech : Speech) : Adev × Bool :=
  if adev.inCall then (adev, true)
  else
    let adev := adev.applyOutputRoute adev.voiceOutDevice out
    let adev := { adev with voiceOutDevice := out, voiceInDevice := voiceInputFor out }
    let adev :=
      if out ≠ .sco then
        (adev.applyInputRoute .none adev.voiceInDevice).routeCalls
          ([.apply .voiceDownlink true] ++ (if adev.micMute then [] else [.apply .voiceUplink true]) ++
            [.update])
      else adev
    let adev := { adev with inCall := true }
    let ok := (decide (out = .sco) || speech.hostlessOpen && speech.gainAcquire) &&
      (adev.speechOn || speech.ccciOn)
    if ok then ({ adev with speechOn := true }, true)
    else (adev.voiceRouteDisable true, false)

/-- `voice_route_change_sco` -/
def voiceRouteChangeSco (adev : Adev) (out : Endpoint) (speech : Speech) : Adev × Bool :=
  if !(speech.muteDownlink && speech.muteUplink) then (adev.voiceRouteDisable true, false)
  else
    let (adev, enabled) := (adev.voiceRouteDisable false).voiceRouteEnable out speech
    if enabled && speech.setMode && speech.restoreUplink && speech.restoreDownlink then (adev, true)
    else (adev.voiceRouteDisable true, false)

/-- `voice_output_device` -/
def voiceOutputDevice (adev : Adev) : Endpoint :=
  match adev.activeOut.bind adev.out? with
  | some out => if out.device ≠ 0 then outputDeviceFromMask out.device else .earpiece
  | none => .earpiece

/-- `set_mode` -/
def setMode (adev : Adev) (mode : Mode) (speech : Speech) : Adev :=
  if mode = adev.mode then adev
  else if mode = .inCall then
    let (adev, ok) := adev.voiceRouteEnable adev.voiceOutputDevice speech
    if ok then { adev with mode := mode } else adev
  else { adev.voiceRouteDisable true with mode := mode }

/-- `set_mic_mute`: `ok` is the answer of the modem in a call over SCO, and of the controls
otherwise. -/
def setMicMute (adev : Adev) (state ok : Bool) : Adev :=
  if adev.micMute = state then adev
  else if adev.inCall ∧ adev.voiceOutDevice = .sco then
    if ok then { adev with micMute := state } else adev.voiceRouteDisable true
  else if !ok then adev
  else
    let adev := if adev.inCall then adev.routeCalls [.apply .voiceUplink !state] else adev
    { adev with micMute := state }

/-- `mindone_audio_set_sco` -/
def setSco (adev : Adev) (wb : Bool) (speech : Speech) : Adev :=
  if wb = adev.btWb then adev
  else
    let reopen (out : StreamOut) : StreamOut :=
      if out.routedDevice = .sco then { out with reopenPending := true } else out
    let adev := { adev with btWb := wb, outs := adev.outs.map reopen }
    let adev :=
      match adev.activeIn.bind adev.in? with
      | some stream =>
          if stream.routedDevice = InDevice.sco then
            adev.modifyIn stream.id fun stream => { stream with reopenPending := true }
          else adev
      | none => adev
    if adev.inCall ∧ adev.voiceOutDevice = .sco then (adev.voiceRouteChangeSco .sco speech).1
    else adev

/-! ### Output streams -/

/-- `open_output_stream`, for a stream at a new address. -/
def openOutputStream (adev : Adev) (id : Nat) (handle : Int) (devices : Mask) (pcm : PcmDevice) :
    Adev :=
  { adev with outs := adev.outs ++ [⟨id, handle, pcm, devices, .none, false, false, true, .none⟩] }

/-- `do_out_standby` -/
def doOutStandby (adev : Adev) (id : Nat) : Adev :=
  match adev.out? id with
  | none => adev
  | some out =>
      if out.standby then adev
      else
        let adev := adev.teardownDlCrossbar out
        let adev := if out.routedDevice ≠ .sco then adev.endpointRelease out.routedDevice else adev
        let adev := if adev.activeOut = some id then { adev with activeOut := .none } else adev
        adev.modifyOut id fun out => { out with routedDevice := .none, standby := true }

/-- `out_set_route`, when the stream does not have to be opened anew; `false` when it has to. -/
def outSetRoute (adev : Adev) (id : Nat) (mask : Mask) : Adev × Bool :=
  match adev.out? id with
  | none => (adev, true)
  | some out =>
      if out.standby then (adev.modifyOut id fun out => { out with device := mask }, true)
      else
        let new := outputDeviceFromMask mask
        if decide (new = .sco) != decide (out.routedDevice = .sco) then (adev, false)
        else ((adev.applyOutputRoute out.routedDevice new).modifyOut id fun out =>
          { out with routedDevice := new, device := mask }, true)

/-- `start_output_stream` before `pcm_open` -/
def startOutputBegin (adev : Adev) (id : Nat) : Adev :=
  match adev.out? id with
  | none => adev
  | some out =>
      let new := outputDeviceFromMask out.device
      let adev := if new ≠ .sco then adev.applyDlCrossbar out else adev
      adev.modifyOut id fun out => { out with starting := some new }

/-- `sco_rate` -/
def scoRate (adev : Adev) : Nat := if adev.btWb then 16000 else 8000

/-- `start_output_stream` behind `pcm_open`, with the rate of the device, `none` when it could
not be opened. -/
def startOutputEnd (adev : Adev) (id : Nat) (rate : Option Nat) : Adev :=
  match adev.out? id with
  | none => adev
  | some out =>
      match out.starting with
      | none => adev
      | some new =>
          let failed := adev.teardownDlCrossbar out
          let adev :=
            match rate with
            | none => failed
            | some rate =>
                if new ≠ outputDeviceFromMask out.device ∨
                    (new = Endpoint.sco ∧ rate ≠ adev.scoRate) then
                  failed
                else
                  let adev := if new = Endpoint.sco then adev else adev.applyOutputRoute .none new
                  { adev with activeOut := some id }.modifyOut id fun out =>
                    { out with reopenPending := false, routedDevice := new, standby := false }
          adev.modifyOut id fun out => { out with starting := .none }

/-- `close_output_stream` -/
def closeOutputStream (adev : Adev) (id : Nat) : Adev :=
  let adev := adev.doOutStandby id
  { adev with outs := adev.outs.filter fun out => out.id != id }

/-! ### Input streams -/

/-- The size of `ins` -/
def maxIns : Nat := 8

/-- `open_input_stream` -/
def openInputStream (adev : Adev) (id : Nat) (handle : Int) (devices : Mask) : Adev :=
  if adev.ins.length = maxIns then adev
  else { adev with ins := adev.ins ++ [⟨id, handle, devices, .none, false, true, .none⟩] }

/-- `do_in_standby` -/
def doInStandby (adev : Adev) (id : Nat) : Adev :=
  match adev.in? id with
  | none => adev
  | some stream =>
      if stream.standby then adev
      else
        let adev := adev.teardownInputRoute stream.routedDevice
        let adev := if adev.activeIn = some id then { adev with activeIn := .none } else adev
        adev.modifyIn id fun stream => { stream with routedDevice := .none, standby := true }

/-- `in_set_route`, when the stream does not have to be opened anew; `false` when it has to. -/
def inSetRoute (adev : Adev) (id : Nat) (mask : Mask) : Adev × Bool :=
  match adev.in? id with
  | none => (adev, true)
  | some stream =>
      let adev := adev.modifyIn id fun stream => { stream with device := mask }
      if stream.standby then (adev, true)
      else
        let new := inputDeviceFromMask mask
        if decide (new = .sco) != decide (stream.routedDevice = .sco) then (adev, false)
        else ((adev.applyInputRoute stream.routedDevice new).modifyIn id fun stream =>
          { stream with routedDevice := new }, true)

/-- `start_input_stream` before `pcm_open` -/
def startInputBegin (adev : Adev) (id : Nat) : Adev :=
  match adev.in? id with
  | none => adev
  | some stream =>
      let new := inputDeviceFromMask stream.device
      let adev := if new ≠ .sco then adev.applyInputRoute .none new else adev
      adev.modifyIn id fun stream => { stream with reopenPending := false, starting := some new }

/-- `start_input_stream` behind `pcm_open` -/
def startInputEnd (adev : Adev) (id : Nat) (rate : Option Nat) : Adev :=
  match adev.in? id with
  | none => adev
  | some stream =>
      match stream.starting with
      | none => adev
      | some new =>
          let failed := if new ≠ .sco then adev.teardownInputRoute new else adev
          let adev :=
            match rate with
            | none => failed
            | some rate =>
                if new ≠ inputDeviceFromMask stream.device ∨
                    (new = InDevice.sco ∧ rate ≠ adev.scoRate) then
                  failed
                else
                  let adev := if new = InDevice.sco then adev.applyInputRoute .none new else adev
                  { adev with activeIn := some id }.modifyIn id fun stream =>
                    { stream with routedDevice := new, standby := false }
          adev.modifyIn id fun stream => { stream with starting := .none }

/-- `close_input_stream`: the last stream takes the place of the closed one. -/
def closeInputStream (adev : Adev) (id : Nat) : Adev :=
  let adev := adev.doInStandby id
  match adev.ins.findIdx? (·.id == id), adev.ins.getLast? with
  | some i, some last => { adev with ins := (adev.ins.set i last).dropLast }
  | _, _ => adev

/-! ### Patches -/

/-- `struct audio_port_config` -/
inductive Port
  | device (type : Mask)
  | mix (handle : Int)
  | other
  deriving DecidableEq

def telephonyTx : Mask := 0x10000
def voiceCall : Mask := 0x80000040

/-- The part of `create_audio_patch` for a voice call. -/
def patchCall (adev : Adev) (d : Endpoint) (sources : Nat) (speech : Speech) : Adev :=
  if sources ≠ 1 then adev
  else if adev.inCall ∧ (d = .sco ∨ adev.voiceOutDevice = .sco) ∧ adev.voiceOutDevice ≠ d then
    (adev.voiceRouteChangeSco d speech).1
  else if !adev.inCall ∨ adev.voiceOutDevice ≠ d then
    if adev.inCall ∧ !speech.setMode then adev.voiceRouteDisable true
    else ((adev.voiceRouteDisable false).voiceRouteEnable d speech).1
  else adev

/-- The turn of the loop over output streams. -/
def patchOut (adev : Adev) (sources : List Port) (mask : Mask) (id : Nat) : Adev :=
  match adev.out? id with
  | none => adev
  | some out =>
      if !sources.contains (.mix out.ioHandle) then adev
      else
        let d := outputDeviceFromMask mask
        let adev :=
          if !out.standby ∧ out.routedDevice ≠ .none then
            if decide (d = .sco) != decide (out.routedDevice = .sco) then
              adev.modifyOut id fun out => { out with reopenPending := true }
            else if out.routedDevice ≠ d then
              (adev.applyOutputRoute out.routedDevice d).modifyOut id fun out =>
                { out with routedDevice := d }
            else adev
          else adev
        adev.modifyOut id fun out => { out with device := mask }

/-- The turn of the loop over input streams. -/
def patchIn (adev : Adev) (sinks : List Port) (mask : Mask) (id : Nat) : Adev :=
  match adev.in? id with
  | none => adev
  | some stream =>
      if !sinks.contains (.mix stream.ioHandle) then adev
      else
        let d := inputDeviceFromMask mask
        let adev := adev.modifyIn id fun stream => { stream with device := mask }
        if stream.standby then adev
        else if decide (d = .sco) != decide (stream.routedDevice = .sco) then
          adev.modifyIn id fun stream => { stream with reopenPending := true }
        else if stream.routedDevice ≠ d then
          (adev.applyInputRoute stream.routedDevice d).modifyIn id fun stream =>
            { stream with routedDevice := d }
        else adev

/-- A source is the mix of an output stream. -/
def isMix (adev : Adev) : Port → Bool
  | .mix handle => adev.outs.any (·.ioHandle == handle)
  | _ => false

/-- `create_audio_patch` -/
def createAudioPatch (adev : Adev) (sources sinks : List Port) (speech : Speech) : Adev :=
  match sources, sinks with
  | source :: _, sink :: rest =>
      match sink with
      | .device type =>
          if type = telephonyTx then adev
          else if rest ≠ [] then adev
          else if (adev.inCall ∨ adev.mode = .inCall) ∧ source = .device voiceCall then
            adev.patchCall (outputDeviceFromMask type) sources.length speech
          else if !sources.all adev.isMix then adev
          else (adev.outs.map (·.id)).foldl (fun adev id => adev.patchOut sources type id) adev
      | _ =>
          match source with
          | .device type =>
              (adev.ins.map (·.id)).foldl (fun adev id => adev.patchIn sinks type id) adev
          | _ => adev
  | _, _ => adev

end Adev

end Mindone.Audio
