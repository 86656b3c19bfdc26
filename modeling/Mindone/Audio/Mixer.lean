import Mathlib.Logic.Function.Basic

/-!
# Mindone.Audio.Mixer

The mixer paths of the audio HAL (`audio-hf/mixer_paths.xml`) and what applying them does: a path
sets its controls in order, and the hardware follows when the mixer is updated. Every path of the
file that the HAL applies is here, with its `-off` counterpart; the echo reference has only that
one.
-/

namespace Mindone.Audio

/-- The paths, without their `-off` suffix. -/
inductive PathName
  | dl1Adda
  | dl2Adda
  | dl3Adda
  | voiceDownlink
  | voiceUplink
  | voiceEchoRef
  | speaker
  | headphone
  | earpiece
  | mic
  | headsetMic
  deriving DecidableEq

/-- The controls that the paths set. -/
inductive Control
  /-- `ADDA_DL_CH1 DLn_CH1` -/
  | addaDl1Ch1 | addaDl2Ch1 | addaDl3Ch1
  /-- `ADDA_DL_CH2 DLn_CH2` -/
  | addaDl1Ch2 | addaDl2Ch2 | addaDl3Ch2
  /-- `ADDA_DL_CHn PCM_2_CAP_CH1` -/
  | addaPcm2Ch1 | addaPcm2Ch2
  /-- `PCM_2_PB_CHn ADDA_UL_CHn` -/
  | pcm2AddaUlCh1 | pcm2AddaUlCh2
  /-- `PCM_2_PB_CH4 DL1_CH1`, `PCM_2_PB_CH5 DL1_CH2` -/
  | pcm2Dl1Ch1 | pcm2Dl1Ch2
  | lolMux | extSpeakerAmp | rcvMux | hplMux | hprMux
  | adcLMux | adcRMux | pgaLMux | pgaRMux | pga1Volume | pga2Volume
  | mtkaifDmic
  /-- `UL1_CHn ADDA_UL_CHn` -/
  | ul1Ch1 | ul1Ch2
  deriving DecidableEq

/-- Their values in the file. -/
inductive Value
  | zero | one | four
  | «open» | playback | mediaPlayback | voicePlayback | audioPlayback
  | leftPreamplifier | rightPreamplifier | idle | ain0 | ain1 | none
  | on | off
  deriving DecidableEq

/-- The controls of a path and of its `-off` path, in the order of the file. -/
def PathName.controls : PathName → Bool → List (Control × Value)
  | .dl1Adda, true => [(.addaDl1Ch1, .one), (.addaDl1Ch2, .one)]
  | .dl1Adda, false => [(.addaDl1Ch1, .zero), (.addaDl1Ch2, .zero)]
  | .dl2Adda, true => [(.addaDl2Ch1, .one), (.addaDl2Ch2, .one)]
  | .dl2Adda, false => [(.addaDl2Ch1, .zero), (.addaDl2Ch2, .zero)]
  | .dl3Adda, true => [(.addaDl3Ch1, .one), (.addaDl3Ch2, .one)]
  | .dl3Adda, false => [(.addaDl3Ch1, .zero), (.addaDl3Ch2, .zero)]
  | .voiceDownlink, true => [(.addaPcm2Ch1, .one), (.addaPcm2Ch2, .one)]
  | .voiceDownlink, false => [(.addaPcm2Ch1, .zero), (.addaPcm2Ch2, .zero)]
  | .voiceUplink, true => [(.pcm2AddaUlCh1, .one), (.pcm2AddaUlCh2, .one)]
  | .voiceUplink, false => [(.pcm2AddaUlCh1, .zero), (.pcm2AddaUlCh2, .zero)]
  | .voiceEchoRef, true => []
  | .voiceEchoRef, false => [(.pcm2Dl1Ch1, .zero), (.pcm2Dl1Ch2, .zero)]
  | .speaker, true => [(.lolMux, .playback), (.extSpeakerAmp, .one), (.rcvMux, .mediaPlayback)]
  | .speaker, false => [(.rcvMux, .open), (.extSpeakerAmp, .zero), (.lolMux, .open)]
  | .headphone, true => [(.hplMux, .audioPlayback), (.hprMux, .audioPlayback)]
  | .headphone, false => [(.hplMux, .open), (.hprMux, .open)]
  | .earpiece, true => [(.rcvMux, .voicePlayback)]
  | .earpiece, false => [(.rcvMux, .open)]
  | .mic, true =>
      [(.adcLMux, .leftPreamplifier), (.adcRMux, .rightPreamplifier), (.pgaLMux, .ain0),
        (.pgaRMux, .ain0), (.pga1Volume, .four), (.pga2Volume, .four), (.mtkaifDmic, .on),
        (.ul1Ch1, .one), (.ul1Ch2, .one)]
  | .mic, false =>
      [(.mtkaifDmic, .off), (.ul1Ch1, .zero), (.ul1Ch2, .zero), (.adcLMux, .idle),
        (.adcRMux, .idle), (.pgaLMux, .none), (.pgaRMux, .none)]
  | .headsetMic, true =>
      [(.mtkaifDmic, .off), (.adcLMux, .leftPreamplifier), (.adcRMux, .rightPreamplifier),
        (.pgaLMux, .ain1), (.pgaRMux, .ain1), (.ul1Ch1, .one), (.ul1Ch2, .one)]
  | .headsetMic, false =>
      [(.ul1Ch1, .zero), (.ul1Ch2, .zero), (.adcLMux, .idle), (.adcRMux, .idle),
        (.pgaLMux, .none), (.pgaRMux, .none)]

/-- A call to `libaudioroute`: `audio_route_apply_path` with a path or its `-off` path, or
`audio_route_update_mixer`. -/
inductive RouteCall
  | apply (path : PathName) (on : Bool)
  | update
  deriving DecidableEq

/-- The values that were applied, and those that the hardware has. -/
structure Mixer where
  applied : Control → Value
  shown : Control → Value

namespace Mixer

/-- The controls of a path, one after the other. -/
def set (applied : Control → Value) (settings : List (Control × Value)) : Control → Value :=
  settings.foldl (fun values s => Function.update values s.1 s.2) applied

def call (m : Mixer) : RouteCall → Mixer
  | .apply path on => { m with applied := set m.applied (path.controls on) }
  | .update => { m with shown := m.applied }

/-- The calls in order. -/
def calls (m : Mixer) (cs : List RouteCall) : Mixer := cs.foldl call m

@[simp] theorem calls_nil (m : Mixer) : m.calls [] = m := rfl

@[simp] theorem calls_cons (m : Mixer) (c : RouteCall) (cs : List RouteCall) :
    m.calls (c :: cs) = (m.call c).calls cs := rfl

@[simp] theorem calls_append (m : Mixer) (cs ds : List RouteCall) :
    m.calls (cs ++ ds) = (m.calls cs).calls ds := List.foldl_append

end Mixer

end Mindone.Audio
