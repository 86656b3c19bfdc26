import Mindone.Audio.Operations

/-!
# Mindone.Audio.Crossbar

The playback crossbars. Each PCM device has one mixer path (`dl1-adda` to `dl3-adda`), which all
streams on the device share; the HAL keeps a flag for each stream (`crossbar_on`) and switches the
path with the flag. The flag always says what the stream needs (`Lane.on = Lane.audible`), in every
run. **The path follows the flags only as long as no stream gives it up while another one on the
same device has its flag set**: of the places that give it up only one looks at the other streams,
and that one is not reached without the planner.
-/

namespace Mindone.Audio

open Mindone.Lib

/-! ### The paths in the mixer -/

/-- The controls of the path of a PCM device. -/
def dlControls : PcmDevice → List Control
  | .primary => [.addaDl1Ch1, .addaDl1Ch2]
  | .fast => [.addaDl2Ch1, .addaDl2Ch2]
  | .deepBuffer => [.addaDl3Ch1, .addaDl3Ch2]

/-- The path of a PCM device is on in the hardware. -/
def Mixer.DlOn (m : Mixer) (p : PcmDevice) : Prop := ∀ c ∈ dlControls p, m.shown c = .one

/-- The path of a PCM device was switched on, or off, and the hardware has followed. -/
def Mixer.DlIs (m : Mixer) (p : PcmDevice) (on : Bool) : Prop :=
  ∀ c ∈ dlControls p, m.applied c = (if on then .one else .zero) ∧
    m.shown c = (if on then .one else .zero)

section Paths

variable {m : Mixer} {p : PcmDevice} {on : Bool}

theorem Mixer.DlIs.dlOn (h : m.DlIs p on) : m.DlOn p ↔ on = true := by
  obtain ⟨c, hc⟩ : ∃ c, c ∈ dlControls p := by
    cases p with
    | primary => exact ⟨_, .head _⟩
    | fast => exact ⟨_, .head _⟩
    | deepBuffer => exact ⟨_, .head _⟩
  cases on with
  | true => exact ⟨fun _ => rfl, fun _ c hc => (h c hc).2⟩
  | false =>
      refine ⟨fun hon => ?_, nofun⟩
      have hzero := (h c hc).2.symm.trans (hon c hc)
      cases hzero

/-- A control that is not set keeps its value. -/
theorem Mixer.set_of_not_mem {applied : Control → Value} {settings : List (Control × Value)}
    {c : Control} (h : c ∉ settings.map Prod.fst) : Mixer.set applied settings c = applied c := by
  unfold Mixer.set
  induction settings generalizing applied with
  | nil => rfl
  | cons s rest ih =>
      rw [List.map_cons, List.mem_cons, not_or] at h
      rw [List.foldl_cons, ih h.2, Function.update_of_ne h.1]

/-- Other paths have other controls. -/
theorem dlControls_disjoint {path : PathName} (h : path ≠ dlCrossbarPathName p) (b : Bool)
    {c : Control} (hc : c ∈ dlControls p) : c ∉ (path.controls b).map Prod.fst := by
  revert c
  cases p <;> cases path <;> cases b <;> first | decide | exact absurd rfl h

/-- A call that leaves all these paths alone. -/
def RouteCall.Aside : RouteCall → Prop
  | .apply path _ => ∀ p, path ≠ dlCrossbarPathName p
  | .update => True

theorem Mixer.DlIs.apply_other (h : m.DlIs p on) {path : PathName} (hpath : path ≠ dlCrossbarPathName p)
    (b : Bool) : (m.call (.apply path b)).DlIs p on := by
  intro c hc
  refine ⟨?_, (h c hc).2⟩
  show Mixer.set m.applied (path.controls b) c = _
  rw [Mixer.set_of_not_mem (dlControls_disjoint hpath b hc)]
  exact (h c hc).1

theorem Mixer.DlIs.update (h : m.DlIs p on) : (m.call .update).DlIs p on :=
  fun c hc => ⟨(h c hc).1, (h c hc).1⟩

theorem Mixer.DlIs.calls (h : m.DlIs p on) {cs : List RouteCall} (hcs : ∀ c ∈ cs, c.Aside) :
    (m.calls cs).DlIs p on := by
  induction cs generalizing m with
  | nil => exact h
  | cons c cs ih =>
      rw [Mixer.calls_cons]
      refine ih ?_ fun c' hc' => hcs c' (.tail _ hc')
      have hc := hcs c (.head _)
      cases c with
      | apply path b => exact h.apply_other (hc p) b
      | update => exact h.update

/-- **The path is switched.** -/
theorem Mixer.DlIs.switched (m : Mixer) (p : PcmDevice) (on : Bool) :
    (m.calls [.apply (dlCrossbarPathName p) on, .update]).DlIs p on := by
  have hset : ∀ c ∈ dlControls p,
      Mixer.set m.applied ((dlCrossbarPathName p).controls on) c = if on then .one else .zero := by
    intro c hc
    cases p <;> cases on <;> (
      rcases List.mem_pair.mp hc with rfl | rfl
      · rfl
      · rfl)
  exact fun c hc => ⟨hset c hc, hset c hc⟩

/-- The paths of the other devices are not. -/
theorem Mixer.DlIs.unswitched (h : m.DlIs p on) {q : PcmDevice} (hq : q ≠ p) (b : Bool) :
    (m.calls [.apply (dlCrossbarPathName q) b, .update]).DlIs p on := by
  have hne : dlCrossbarPathName q ≠ dlCrossbarPathName p := by
    cases p <;> cases q <;> first | decide | exact absurd rfl hq
  exact (h.apply_other hne b).update

end Paths

/-! ### Lanes -/

/-- The stream needs the path: it plays, or is being opened, on something else than SCO. -/
def StreamOut.audible (out : StreamOut) : Bool :=
  (!out.standby && decide (out.routedDevice ≠ .sco)) ||
    out.starting.any fun d => decide (d ≠ .sco)

/-- What the crossbar is about in a stream. -/
structure Lane where
  id : Nat
  pcm : PcmDevice
  on : Bool
  audible : Bool

def StreamOut.lane (out : StreamOut) : Lane := ⟨out.id, out.pcmDevice, out.crossbarOn, out.audible⟩

def Adev.lanes (adev : Adev) : List Lane := adev.outs.map StreamOut.lane

/-- Some stream on the device has its flag set. -/
def wanted (lanes : List Lane) (p : PcmDevice) : Bool := lanes.any fun l => l.on && l.pcm == p

/-- The flags are right. -/
def Adev.Flagged (adev : Adev) : Prop := ∀ l ∈ adev.lanes, l.on = l.audible

/-- The paths are as the flags say. -/
def Adev.Routed (adev : Adev) : Prop := ∀ p, adev.mixer.DlIs p (wanted adev.lanes p)

/-- A function that leaves crossbars alone. -/
structure Aside (adev adev' : Adev) : Prop where
  lanes : adev'.lanes = adev.lanes
  paths : ∀ p on, adev.mixer.DlIs p on → adev'.mixer.DlIs p on

theorem Aside.refl (adev : Adev) : Aside adev adev := ⟨rfl, fun _ _ h => h⟩

theorem Aside.trans {a b c : Adev} (hab : Aside a b) (hbc : Aside b c) : Aside a c :=
  ⟨hbc.lanes.trans hab.lanes, fun p on h => hbc.paths p on (hab.paths p on h)⟩

theorem Aside.flagged {adev adev' : Adev} (h : Aside adev adev') (hflags : adev.Flagged) :
    adev'.Flagged := by
  unfold Adev.Flagged
  rw [h.lanes]
  exact hflags

theorem Aside.routed {adev adev' : Adev} (h : Aside adev adev') (hrouted : adev.Routed) :
    adev'.Routed := by
  intro p
  rw [h.lanes]
  exact h.paths p _ (hrouted p)

section AsideFunctions

variable {adev : Adev} {id : Nat}

theorem aside_routeCalls {cs : List RouteCall} (h : ∀ c ∈ cs, c.Aside) :
    Aside adev (adev.routeCalls cs) := ⟨rfl, fun _ _ hp => hp.calls h⟩

/-- A write to the stream that does not change its lane. -/
theorem aside_modifyOut (hids : (adev.outs.map (·.id)).Nodup) {out : StreamOut}
    (hout : adev.out? id = some out) {f : StreamOut → StreamOut} (hf : (f out).lane = out.lane) :
    Aside adev (adev.modifyOut id f) := by
  obtain ⟨hmem, hid⟩ := out?_some hout
  refine ⟨?_, fun _ _ hp => hp⟩
  unfold Adev.lanes Adev.modifyOut modifyKey
  dsimp only
  rw [List.map_map]
  refine List.map_congr_left fun x hx => ?_
  show (if x.id = id then f x else x).lane = x.lane
  split
  · rename_i hxid
    rw [eq_of_key hids hx hmem (hxid.trans hid.symm)]
    exact hf
  · rfl

theorem aside_modifyOut_all {f : StreamOut → StreamOut} (hf : ∀ out, (f out).lane = out.lane) :
    Aside adev (adev.modifyOut id f) := by
  refine ⟨?_, fun _ _ hp => hp⟩
  unfold Adev.lanes Adev.modifyOut modifyKey
  dsimp only
  rw [List.map_map]
  refine List.map_congr_left fun x _ => ?_
  show (if x.id = id then f x else x).lane = x.lane
  split
  · exact hf x
  · rfl

theorem aside_modifyIn (f : StreamIn → StreamIn) : Aside adev (adev.modifyIn id f) :=
  ⟨rfl, fun _ _ hp => hp⟩

/-- The paths of endpoints are none of these. -/
theorem outputPathName_aside {d : Endpoint} {path : PathName} (h : outputPathName d = some path)
    (b : Bool) : (RouteCall.apply path b).Aside := by
  intro p
  cases d <;> cases h <;> cases p <;> decide

theorem endpointRelease_aside (users : EpUsers) (d : Endpoint) :
    ∀ c ∈ (endpointRelease users d).2, c.Aside := by
  have hshared : ∀ users : EpUsers, ∀ c ∈ sharedPath users d, c.Aside := by
    intro users c hc
    unfold sharedPath at hc
    split_ifs at hc
    · rw [List.mem_singleton.mp hc]
      exact outputPathName_aside (d := .earpiece) rfl true
    · rw [List.mem_singleton.mp hc]
      exact outputPathName_aside (d := .speaker) rfl true
    · cases hc
  unfold endpointRelease
  split
  · nofun
  split
  · nofun
  dsimp only
  split
  · nofun
  split
  · rename_i path hpath
    intro c hc
    rcases List.mem_append.mp hc with hc | hc
    · rcases List.mem_append.mp hc with hc | hc
      · rw [List.mem_singleton.mp hc]
        exact outputPathName_aside hpath false
      · exact hshared _ c hc
    · rw [List.mem_singleton.mp hc]
      exact trivial
  · nofun

theorem endpointAcquire_aside (users : EpUsers) (d : Endpoint) :
    ∀ c ∈ (endpointAcquire users d).2, c.Aside := by
  unfold endpointAcquire
  split
  · nofun
  dsimp only
  split
  · nofun
  split
  · rename_i path hpath
    intro c hc
    rcases List.mem_pair.mp hc with rfl | rfl
    · exact outputPathName_aside hpath true
    · exact trivial
  · nofun

theorem aside_endpointRelease (d : Endpoint) : Aside adev (adev.endpointRelease d) :=
  ⟨rfl, fun _ _ hp => hp.calls (endpointRelease_aside _ _)⟩

theorem aside_endpointAcquire (d : Endpoint) : Aside adev (adev.endpointAcquire d) :=
  ⟨rfl, fun _ _ hp => hp.calls (endpointAcquire_aside _ _)⟩

theorem aside_applyOutputRoute (old new : Endpoint) : Aside adev (adev.applyOutputRoute old new) := by
  unfold Adev.applyOutputRoute
  split
  · exact .refl adev
  · exact (aside_endpointRelease old).trans (aside_endpointAcquire new)

/-- Switching inputs leaves the playback paths. -/
theorem switchInput_aside (old new : InDevice) : ∀ c ∈ Adev.switchInput old new, c.Aside := by
  have hpath : ∀ (d : InDevice) (b : Bool) (c : RouteCall),
      c ∈ (if d ≠ .none then inputPathName d else .none).elim []
        (fun path => [RouteCall.apply path b]) → c.Aside := by
    intro d b c hc
    cases d with
    | none => cases hc
    | sco => cases hc
    | mainMic =>
        rw [List.mem_singleton.mp (show c ∈ [RouteCall.apply .mic b] from hc)]
        intro p
        cases p <;> decide
    | headsetMic =>
        rw [List.mem_singleton.mp (show c ∈ [RouteCall.apply .headsetMic b] from hc)]
        intro p
        cases p <;> decide
  intro c hc
  rcases List.mem_append.mp hc with hc | hc
  · rcases List.mem_append.mp hc with hc | hc
    · exact hpath old false c hc
    · exact hpath new true c hc
  · rw [List.mem_singleton.mp hc]
    exact trivial

theorem aside_applyInputRoute (old new : InDevice) : Aside adev (adev.applyInputRoute old new) := by
  unfold Adev.applyInputRoute
  split
  · exact .refl adev
  split
  · exact ⟨rfl, fun _ _ hp => hp⟩
  dsimp only
  generalize (if new ≠ .none then Function.update _ new _ else _) = users
  split
  · exact ⟨rfl, fun _ _ hp => hp⟩
  · exact ⟨rfl, fun _ _ hp => hp.calls (switchInput_aside _ _)⟩

theorem aside_teardownInputRoute (device : InDevice) :
    Aside adev (adev.teardownInputRoute device) := aside_applyInputRoute device .none

/-- The calls of a voice call are for other paths. -/
theorem voice_aside {path : PathName}
    (h : path = .voiceEchoRef ∨ path = .voiceUplink ∨ path = .voiceDownlink) (b : Bool) :
    (RouteCall.apply path b).Aside := by
  intro p
  rcases h with rfl | rfl | rfl
  · cases p <;> decide
  · cases p <;> decide
  · cases p <;> decide

theorem aside_voiceOutOff : Aside adev adev.voiceOutOff := by
  unfold Adev.voiceOutOff
  split
  · exact .refl adev
  · exact (aside_endpointRelease _).trans ⟨rfl, fun _ _ hp => hp⟩

/-- The voice route does not touch the playback paths. -/
theorem aside_voiceRouteDisable (speechOff : Bool) :
    Aside adev (adev.voiceRouteDisable speechOff) := by
  have hpaths : Aside adev adev.voicePathsOff := by
    unfold Adev.voicePathsOff
    split
    · refine (@aside_routeCalls adev [.apply .voiceEchoRef false, .apply .voiceUplink false,
        .apply .voiceDownlink false] ?_).trans ?_
      · intro c hc
        rcases List.mem_cons.mp hc with rfl | hc
        · exact voice_aside (.inl rfl) false
        rcases List.mem_pair.mp hc with rfl | rfl
        · exact voice_aside (.inr (.inl rfl)) false
        · exact voice_aside (.inr (.inr rfl)) false
      · refine Aside.trans (b := { adev.routeCalls [.apply .voiceEchoRef false,
          .apply .voiceUplink false, .apply .voiceDownlink false] with voiceInDevice := .none })
          ⟨rfl, fun _ _ hp => hp⟩ ?_
        refine (aside_teardownInputRoute _).trans (aside_routeCalls ?_)
        intro c hc
        rw [List.mem_singleton.mp hc]
        exact trivial
    · exact .refl adev
  have hspeech : Aside adev (if speechOff then { adev.voicePathsOff with speechOn := false }
      else adev.voicePathsOff) := by
    split
    · exact hpaths.trans ⟨rfl, fun _ _ hp => hp⟩
    · exact hpaths
  rw [voiceRouteDisable_eq]
  exact hspeech.trans aside_voiceOutOff

theorem aside_voiceRouteEnable (out : Endpoint) (speech : Adev.Speech) :
    Aside adev (adev.voiceRouteEnable out speech).1 := by
  have hcalls : ∀ c ∈ [RouteCall.apply .voiceDownlink true] ++
      (if adev.micMute then [] else [RouteCall.apply .voiceUplink true]) ++
        [RouteCall.update], c.Aside := by
    intro c hc
    rcases List.mem_append.mp hc with hc | hc
    · rcases List.mem_append.mp hc with hc | hc
      · rw [List.mem_singleton.mp hc]
        exact voice_aside (.inr (.inr rfl)) true
      · split at hc
        · cases hc
        · rw [List.mem_singleton.mp hc]
          exact voice_aside (.inr (.inl rfl)) true
    · rw [List.mem_singleton.mp hc]
      exact trivial
  have hpaths : Aside adev (adev.voicePathsOn out) := by
    have hroute := @aside_applyOutputRoute adev adev.voiceOutDevice out
    unfold Adev.voicePathsOn
    have hmute : (adev.applyOutputRoute adev.voiceOutDevice out).micMute = adev.micMute := by
      unfold Adev.applyOutputRoute
      split
      · rfl
      · rfl
    generalize adev.applyOutputRoute adev.voiceOutDevice out = routed at hroute hmute
    refine hroute.trans ?_
    dsimp only
    split
    · refine Aside.trans (b := { routed with
        voiceOutDevice := out, voiceInDevice := Adev.voiceInputFor out }) ⟨rfl, fun _ _ hp => hp⟩ ?_
      refine (aside_applyInputRoute .none (Adev.voiceInputFor out)).trans ?_
      rw [hmute]
      refine (aside_routeCalls hcalls).trans ⟨rfl, fun _ _ hp => hp⟩
    · exact ⟨rfl, fun _ _ hp => hp⟩
  rw [voiceRouteEnable_eq]
  split
  · exact .refl adev
  split
  · exact hpaths.trans ⟨rfl, fun _ _ hp => hp⟩
  · exact hpaths.trans (aside_voiceRouteDisable true)

theorem aside_voiceRouteChangeSco (out : Endpoint) (speech : Adev.Speech) :
    Aside adev (adev.voiceRouteChangeSco out speech).1 := by
  unfold Adev.voiceRouteChangeSco
  split
  · exact aside_voiceRouteDisable true
  have henabled := (@aside_voiceRouteDisable adev false).trans
    (aside_voiceRouteEnable out speech)
  generalize (adev.voiceRouteDisable false).voiceRouteEnable out speech = enabled at henabled
  dsimp only
  split
  · exact henabled
  · exact henabled.trans (aside_voiceRouteDisable true)

theorem aside_setMode (mode : Mode) (speech : Adev.Speech) :
    Aside adev (adev.setMode mode speech) := by
  unfold Adev.setMode
  split
  · exact .refl adev
  split
  · have henabled := @aside_voiceRouteEnable adev adev.voiceOutputDevice speech
    generalize adev.voiceRouteEnable adev.voiceOutputDevice speech = enabled at henabled
    dsimp only
    split
    · exact henabled.trans ⟨rfl, fun _ _ hp => hp⟩
    · exact henabled
  · exact (aside_voiceRouteDisable true).trans ⟨rfl, fun _ _ hp => hp⟩

theorem aside_setMicMute (state ok : Bool) : Aside adev (adev.setMicMute state ok) := by
  unfold Adev.setMicMute
  split
  · exact .refl adev
  split
  · split
    · exact ⟨rfl, fun _ _ hp => hp⟩
    · exact aside_voiceRouteDisable true
  split
  · exact .refl adev
  dsimp only
  split
  · refine (aside_routeCalls ?_).trans ⟨rfl, fun _ _ hp => hp⟩
    intro c hc
    rw [List.mem_singleton.mp hc]
    exact voice_aside (.inr (.inl rfl)) _
  · exact ⟨rfl, fun _ _ hp => hp⟩

theorem aside_scoReopened (wb : Bool) : Aside adev (adev.scoReopened wb) := by
  have houts : Aside adev { adev with
      btWb := wb
      outs := adev.outs.map fun out : StreamOut =>
        if out.routedDevice = .sco then { out with reopenPending := true } else out } := by
    refine ⟨?_, fun _ _ hp => hp⟩
    unfold Adev.lanes
    dsimp only
    rw [List.map_map]
    refine List.map_congr_left fun out _ => ?_
    show (if out.routedDevice = .sco then { out with reopenPending := true } else out).lane = _
    split
    · rfl
    · rfl
  unfold Adev.scoReopened
  dsimp only
  split
  · split
    · exact houts.trans (aside_modifyIn _)
    · exact houts
  · exact houts

theorem aside_setSco (wb : Bool) (speech : Adev.Speech) : Aside adev (adev.setSco wb speech) := by
  rw [setSco_eq]
  split
  · exact .refl adev
  split
  · exact (aside_scoReopened wb).trans (aside_voiceRouteChangeSco .sco speech)
  · exact aside_scoReopened wb

theorem aside_patchCall (d : Endpoint) (sources : Nat) (speech : Adev.Speech) :
    Aside adev (adev.patchCall d sources speech) := by
  unfold Adev.patchCall
  split
  · exact .refl adev
  split
  · exact aside_voiceRouteChangeSco d speech
  split
  · split
    · exact aside_voiceRouteDisable true
    · exact (aside_voiceRouteDisable false).trans (aside_voiceRouteEnable d speech)
  · exact .refl adev

/-- A stream that plays keeps its lane when it goes to an endpoint of the same kind. -/
theorem lane_rerouted {out : StreamOut} {new : Endpoint}
    (hkind : new = .sco ↔ out.routedDevice = .sco) (mask : Mask) :
    ({ out with routedDevice := new, device := mask } : StreamOut).lane = out.lane := by
  unfold StreamOut.lane StreamOut.audible
  dsimp only
  rw [decide_eq_decide.mpr (not_congr hkind)]

theorem aside_reroute (hids : (adev.outs.map (·.id)).Nodup) {out : StreamOut}
    (hout : adev.out? id = some out) {old new : Endpoint} {f : StreamOut → StreamOut}
    (hf : (f out).lane = out.lane) :
    Aside adev ((adev.applyOutputRoute old new).modifyOut id f) := by
  have hsame : (adev.applyOutputRoute old new).outs = adev.outs := by
    unfold Adev.applyOutputRoute
    split
    · rfl
    · rfl
  have hids' : ((adev.applyOutputRoute old new).outs.map (·.id)).Nodup := by
    rw [hsame]
    exact hids
  have hout' : (adev.applyOutputRoute old new).out? id = some out := by
    unfold Adev.out?
    rw [hsame]
    exact hout
  exact (aside_applyOutputRoute old new).trans (aside_modifyOut hids' hout' hf)

theorem aside_patchOut (hids : (adev.outs.map (·.id)).Nodup) (sources : List Adev.Port)
    (mask : Mask) : Aside adev (adev.patchOut sources mask id) := by
  unfold Adev.patchOut
  cases hout : adev.out? id with
  | none => exact .refl adev
  | some out =>
      dsimp only
      split
      · exact .refl adev
      refine Aside.trans ?_ (aside_modifyOut_all fun _ => rfl)
      split
      · split
        · exact aside_modifyOut_all fun _ => rfl
        rename_i hkind
        split
        · exact aside_reroute hids hout (lane_rerouted (kind_iff hkind) out.device)
        · exact .refl adev
      · exact .refl adev

theorem aside_patchIn (sinks : List Adev.Port) (mask : Mask) :
    Aside adev (adev.patchIn sinks mask id) := by
  unfold Adev.patchIn
  split
  · exact .refl adev
  dsimp only
  split
  · exact .refl adev
  split
  · exact aside_modifyIn _
  split
  · exact (@aside_modifyIn _ id _).trans (@aside_modifyIn _ id _)
  split
  · exact (@aside_modifyIn _ id _).trans
      ((aside_applyInputRoute _ _).trans (@aside_modifyIn _ id _))
  · exact aside_modifyIn _

/-- The addresses of the streams are in their lanes. -/
theorem lanes_ids : adev.lanes.map (·.id) = adev.outs.map (·.id) := List.map_map

theorem Aside.ids {adev' : Adev} (h : Aside adev adev') (hids : (adev.outs.map (·.id)).Nodup) :
    (adev'.outs.map (·.id)).Nodup := by
  rw [← lanes_ids, h.lanes, lanes_ids]
  exact hids

/-- The turns of a loop over streams. -/
theorem aside_foldl {f : Adev → Nat → Adev}
    (hf : ∀ adev id, (adev.outs.map (·.id)).Nodup → Aside adev (f adev id)) (ids : List Nat)
    (hids : (adev.outs.map (·.id)).Nodup) : Aside adev (ids.foldl f adev) := by
  induction ids generalizing adev with
  | nil => exact .refl adev
  | cons id ids ih =>
      have hturn := hf adev id hids
      exact hturn.trans (ih (hturn.ids hids))

theorem aside_createAudioPatch (hids : (adev.outs.map (·.id)).Nodup)
    (sources sinks : List Adev.Port) (speech : Adev.Speech) :
    Aside adev (adev.createAudioPatch sources sinks speech) := by
  unfold Adev.createAudioPatch
  split
  · split
    · split
      · exact .refl adev
      split
      · exact .refl adev
      split
      · exact aside_patchCall _ _ _
      split
      · exact .refl adev
      · exact aside_foldl (fun _ _ hadev => aside_patchOut hadev _ _) _ hids
    · split
      · exact aside_foldl (fun _ _ _ => aside_patchIn _ _) _ hids
      · exact .refl adev
  · exact .refl adev

theorem aside_outSetRoute (hids : (adev.outs.map (·.id)).Nodup) (mask : Mask) :
    Aside adev (adev.outSetRoute id mask).1 := by
  unfold Adev.outSetRoute
  cases hout : adev.out? id with
  | none => exact .refl adev
  | some out =>
      dsimp only
      split
      · exact aside_modifyOut_all fun _ => rfl
      split
      · exact .refl adev
      · rename_i hkind
        exact aside_reroute hids hout (lane_rerouted (kind_iff hkind) mask)

theorem aside_doInStandby : Aside adev (adev.doInStandby id) := by
  unfold Adev.doInStandby
  split
  · exact .refl adev
  · rename_i stream _
    split
    · exact .refl adev
    · refine (aside_teardownInputRoute stream.routedDevice).trans (Aside.trans ?_ (aside_modifyIn _))
      split
      · exact ⟨rfl, fun _ _ hp => hp⟩
      · exact .refl _

theorem aside_inSetRoute (mask : Mask) : Aside adev (adev.inSetRoute id mask).1 := by
  unfold Adev.inSetRoute
  split
  · exact .refl adev
  · dsimp only
    split
    · exact aside_modifyIn _
    split
    · exact aside_modifyIn _
    · exact (@aside_modifyIn _ id _).trans
        ((aside_applyInputRoute _ _).trans (@aside_modifyIn _ id _))

theorem aside_openInputStream (handle : Int) (devices : Mask) :
    Aside adev (adev.openInputStream id handle devices) := by
  unfold Adev.openInputStream
  split
  · exact .refl adev
  · exact ⟨rfl, fun _ _ hp => hp⟩

theorem aside_closeInputStream : Aside adev (adev.closeInputStream id) := by
  unfold Adev.closeInputStream
  dsimp only
  split
  · exact aside_doInStandby.trans ⟨rfl, fun _ _ hp => hp⟩
  · exact aside_doInStandby

theorem aside_startInputBegin : Aside adev (adev.startInputBegin id) := by
  unfold Adev.startInputBegin
  split
  · exact .refl adev
  · refine Aside.trans ?_ (aside_modifyIn _)
    split
    · exact aside_applyInputRoute _ _
    · exact .refl adev

theorem aside_startInputEnd (rate : Option Nat) : Aside adev (adev.startInputEnd id rate) := by
  unfold Adev.startInputEnd
  split
  · exact .refl adev
  · rename_i stream _
    split
    · exact .refl adev
    · rename_i new _
      have hfailed : Aside adev (if new ≠ .sco then adev.teardownInputRoute new else adev) := by
        split
        · exact aside_teardownInputRoute new
        · exact .refl adev
      refine Aside.trans ?_ (aside_modifyIn _)
      split
      · exact hfailed
      · split
        · exact hfailed
        · refine Aside.trans ?_ (aside_modifyIn _)
          split
          · exact (aside_applyInputRoute _ _).trans ⟨rfl, fun _ _ hp => hp⟩
          · exact ⟨rfl, fun _ _ hp => hp⟩

end AsideFunctions

/-- A stream is found at its address. -/
theorem out?_of_mem {adev : Adev} (hids : (adev.outs.map (·.id)).Nodup) {out : StreamOut}
    (hout : out ∈ adev.outs) : adev.out? out.id = some out := by
  cases hfound : adev.out? out.id with
  | none => exact absurd (beq_self_eq_true _) (List.find?_eq_none.mp hfound out hout)
  | some found =>
      obtain ⟨hmem, hid⟩ := out?_some hfound
      rw [eq_of_key hids hmem hout hid]

/-! ### Switching a path -/

section Switching

variable {adev adev' : Adev} {id : Nat}

/-- A write to one stream, seen in the lanes. -/
theorem modifyOut_lanes (hids : (adev.outs.map (·.id)).Nodup) {out : StreamOut}
    (hout : adev.out? id = some out) (f : StreamOut → StreamOut) :
    (adev.modifyOut id f).lanes = modifyKey (·.id) id (fun _ => (f out).lane) adev.lanes := by
  obtain ⟨hmem, hid⟩ := out?_some hout
  unfold Adev.lanes Adev.modifyOut modifyKey
  dsimp only
  rw [List.map_map, List.map_map]
  refine List.map_congr_left fun x hx => ?_
  show (if x.id = id then f x else x).lane = if x.id = id then (f out).lane else x.lane
  by_cases hxid : x.id = id
  · rw [if_pos hxid, if_pos hxid, eq_of_key hids hx hmem (hxid.trans hid.symm)]
  · rw [if_neg hxid, if_neg hxid]

/-- **One stream's lane goes on or off, and the path with it.** Others on the device must not want
the path when it goes off. -/
theorem switched (hids : (adev.outs.map (·.id)).Nodup) {out : StreamOut}
    (hout : adev.out? id = some out) {l : Lane} (hid : l.id = id)
    (hpcm : l.pcm = out.pcmDevice) (haudible : l.audible = l.on)
    (hlanes : adev'.lanes = modifyKey (·.id) id (fun _ => l) adev.lanes)
    (hmixer : ∀ p on, (adev.mixer.calls [.apply (dlCrossbarPathName out.pcmDevice) l.on,
      .update]).DlIs p on → adev'.mixer.DlIs p on) :
    (adev.Flagged → adev'.Flagged) ∧
      ((l.on = false → ∀ m ∈ adev.lanes, m.id ≠ id → m.pcm = out.pcmDevice → m.on = false) →
        adev.Routed → adev'.Routed) := by
  have hmem : out.lane ∈ adev.lanes := List.mem_map_of_mem (out?_some hout).1
  have hlid : out.lane.id = id := (out?_some hout).2
  refine ⟨fun hflags => ?_, fun hothers hrouted p => hmixer p _ ?_⟩
  · intro m hm
    rw [hlanes] at hm
    rcases mem_modifyKey hm with ⟨hm, -⟩ | ⟨-, -, -, rfl⟩
    · exact hflags m hm
    · exact haudible.symm
  · rw [hlanes]
    by_cases hp : out.pcmDevice = p
    · have hwanted : wanted (modifyKey (·.id) id (fun _ => l) adev.lanes) p = l.on := by
        cases hon : l.on with
        | true =>
            refine List.any_eq_true.mpr ⟨l, mem_modifyKey_self hmem hlid, ?_⟩
            rw [hon, hpcm, hp]
            exact beq_self_eq_true p
        | false =>
            refine List.any_eq_false.mpr fun m hm => ?_
            rcases mem_modifyKey hm with ⟨hm, hne⟩ | ⟨-, -, -, rfl⟩
            · rw [Bool.and_eq_true, beq_iff_eq]
              rintro ⟨hmon, hmp⟩
              have := hothers hon m hm hne (hmp.trans hp.symm)
              rw [hmon] at this
              cases this
            · rw [hon]
              exact Bool.false_ne_true
      rw [hwanted, ← hp]
      exact Mixer.DlIs.switched adev.mixer out.pcmDevice l.on
    · have hwanted : wanted (modifyKey (·.id) id (fun _ => l) adev.lanes) p =
          wanted adev.lanes p := by
        rw [Bool.eq_iff_iff]
        unfold wanted
        rw [List.any_eq_true, List.any_eq_true]
        constructor
        · rintro ⟨m, hm, hmp⟩
          rcases mem_modifyKey hm with ⟨hm, -⟩ | ⟨-, -, -, rfl⟩
          · exact ⟨m, hm, hmp⟩
          · rw [Bool.and_eq_true, beq_iff_eq, hpcm] at hmp
            exact absurd hmp.2 hp
        · rintro ⟨m, hm, hmp⟩
          refine ⟨m, mem_modifyKey_of_ne hm fun hmid => ?_, hmp⟩
          -- the stream itself is on the other device
          rw [← lanes_ids] at hids
          rw [Bool.and_eq_true, beq_iff_eq, eq_of_key hids hm hmem (hmid.trans hlid.symm)] at hmp
          exact hp hmp.2
      rw [hwanted]
      exact (hrouted p).unswitched hp l.on

/-- No other stream on the device has its flag set. -/
def Adev.Alone (adev : Adev) (out : StreamOut) : Prop :=
  out.crossbarOn = true → ∀ other ∈ adev.outs, other.id ≠ out.id →
    other.pcmDevice = out.pcmDevice → other.crossbarOn = false

/-- The flags stay right; the paths stay with them if the condition holds. -/
def Keeps (adev adev' : Adev) (condition : Prop) : Prop :=
  (adev.Flagged → adev'.Flagged) ∧ (condition → adev.Flagged → adev.Routed → adev'.Routed)

theorem Aside.keeps (h : Aside adev adev') (condition : Prop) : Keeps adev adev' condition :=
  ⟨h.flagged, fun _ _ => h.routed⟩

theorem Keeps.trans {a b c : Adev} {p q : Prop} (hab : Keeps a b p) (hbc : Keeps b c q)
    (hpq : p → q) : Keeps a c p :=
  ⟨fun h => hbc.1 (hab.1 h), fun hp hflags h => hbc.2 (hpq hp) (hab.1 hflags) (hab.2 hp hflags h)⟩

theorem lane_flag (hflags : adev.Flagged) {out : StreamOut} (hout : adev.out? id = some out) :
    out.crossbarOn = out.audible := hflags _ (List.mem_map_of_mem (out?_some hout).1)

/-- The path of a stream goes off, with whatever else happens that leaves crossbars alone. -/
theorem keeps_teardown (hids : (adev.outs.map (·.id)).Nodup) {out : StreamOut}
    (hout : adev.out? id = some out) {torn : Adev} (htorn : Aside (adev.teardownDlCrossbar out) torn)
    (houts : torn.outs = (adev.teardownDlCrossbar out).outs) {f : StreamOut → StreamOut}
    (hf : ∀ x, (f x).id = x.id ∧ (f x).pcmDevice = x.pcmDevice ∧ (f x).crossbarOn = x.crossbarOn)
    (hoff : ∀ x, x.standby = out.standby → x.starting = out.starting → (f x).audible = false) :
    Keeps adev (torn.modifyOut id f) (adev.Alone out) := by
  obtain ⟨hmem, hid⟩ := out?_some hout
  have hlanes : (torn.modifyOut id f).lanes =
      ((adev.teardownDlCrossbar out).modifyOut id f).lanes := by
    unfold Adev.lanes Adev.modifyOut
    rw [houts]
  cases hon : out.crossbarOn with
  | false =>
      -- the path is not this stream's
      have hsame : adev.teardownDlCrossbar out = adev := by
        unfold Adev.teardownDlCrossbar
        rw [hon]
        rfl
      rw [hsame] at htorn hlanes
      rw [modifyOut_lanes hids hout] at hlanes
      have hlane : ∀ _ : adev.Flagged, (f out).lane = out.lane := by
        intro hflags
        have haudible := lane_flag hflags hout
        obtain ⟨hfid, hfpcm, hfon⟩ := hf out
        unfold StreamOut.lane
        rw [hfid, hfpcm, hfon, hoff out rfl rfl, ← haudible, hon]
      have haside : adev.Flagged → Aside adev (torn.modifyOut id f) := by
        intro hflags
        refine ⟨?_, htorn.paths⟩
        rw [hlanes, hlane hflags, ← modifyOut_lanes hids hout (fun x => x)]
        exact (aside_modifyOut hids hout rfl).lanes
      exact ⟨fun h => (haside h).flagged h, fun _ h hrouted => (haside h).routed hrouted⟩
  | true =>
      have hteardown : adev.teardownDlCrossbar out =
          (adev.routeCalls [.apply (dlCrossbarPathName out.pcmDevice) false, .update]).modifyOut id
            fun out => { out with crossbarOn := false } := by
        unfold Adev.teardownDlCrossbar
        rw [hon, hid]
        rfl
      obtain ⟨hfid, hfpcm, hfon⟩ := hf { out with crossbarOn := false }
      have hboth := @modifyOut_modifyOut (adev.routeCalls
        [.apply (dlCrossbarPathName out.pcmDevice) false, .update]) id
        (fun out => { out with crossbarOn := false }) f fun _ => rfl
      have hwritten := @modifyOut_lanes (adev.routeCalls
        [.apply (dlCrossbarPathName out.pcmDevice) false, .update]) id hids out hout
        fun out => f { out with crossbarOn := false }
      rw [hteardown, hboth, hwritten] at hlanes
      obtain ⟨hflagged, hrouted⟩ := @switched adev (torn.modifyOut id f) id hids out hout
        (f { out with crossbarOn := false }).lane (hfid.trans hid) hfpcm
        ((hoff { out with crossbarOn := false } rfl rfl).trans hfon.symm) hlanes (fun p on hp => by
          refine htorn.paths p on ?_
          rw [hteardown]
          rw [show (f { out with crossbarOn := false }).lane.on = false from hfon] at hp
          exact hp)
      refine ⟨hflagged, fun halone _ => hrouted fun _ m hm hmid hmpcm => ?_⟩
      obtain ⟨other, hother, rfl⟩ := List.mem_map.mp hm
      exact halone hon other hother (fun heq => hmid (heq.trans hid)) hmpcm

end Switching

/-! ### Sections and crossbars -/

/-- `start_output_stream` gives up. -/
def Adev.StartFails (adev : Adev) (out : StreamOut) (new : Endpoint) : Option Nat → Prop
  | none => True
  | some rate => new ≠ outputDeviceFromMask out.device ∨ (new = .sco ∧ rate ≠ adev.scoRate)

/-- A stream gives its path up (`do_out_standby` or a failed `start_output_stream`) only when no
other open stream on its PCM device has `crossbar_on`. -/
def Section.Undisturbed (adev : Adev) : Section → Prop
  | .outStandby id | .closeOutput id =>
      ∀ out, adev.out? id = some out → out.standby = false → adev.Alone out
  | .startOutputEnd id rate =>
      ∀ out new, adev.out? id = some out → out.starting = some new →
        adev.StartFails out new rate → adev.Alone out
  | _ => True

section Sections

variable {adev : Adev} {id : Nat}

/-- **A stream goes to standby.** The flags follow; the paths too if no other stream uses its
PCM. -/
theorem doOutStandby_keeps (h : adev.account.Consistent) (hids : (adev.outs.map (·.id)).Nodup) :
    Keeps adev (adev.doOutStandby id)
      (∀ out, adev.out? id = some out → out.standby = false → adev.Alone out) := by
  unfold Adev.doOutStandby
  cases hout : adev.out? id with
  | none => exact (Aside.refl adev).keeps _
  | some out =>
      dsimp only
      cases hplays : out.standby with
      | true => exact (Aside.refl adev).keeps _
      | false =>
          -- A stream that plays is not being started at the same time.
          obtain ⟨-, hstarting, -⟩ := playing h hout hplays
          rw [if_neg Bool.false_ne_true]
          -- The endpoint is given back, unless it is SCO, which has no count.
          have hreleased : Aside (adev.teardownDlCrossbar out)
              (if out.routedDevice ≠ .sco
                then (adev.teardownDlCrossbar out).endpointRelease out.routedDevice
                else adev.teardownDlCrossbar out) ∧
              (if out.routedDevice ≠ .sco
                then (adev.teardownDlCrossbar out).endpointRelease out.routedDevice
                else adev.teardownDlCrossbar out).outs = (adev.teardownDlCrossbar out).outs := by
            split
            · exact ⟨aside_endpointRelease _, rfl⟩
            · exact ⟨.refl _, rfl⟩
          generalize (if out.routedDevice ≠ .sco
            then (adev.teardownDlCrossbar out).endpointRelease out.routedDevice
            else adev.teardownDlCrossbar out) = released at hreleased
          have hactive : Aside released (if released.activeOut = some id
              then { released with activeOut := .none } else released) ∧
              (if released.activeOut = some id
                then { released with activeOut := .none } else released).outs = released.outs := by
            split
            · exact ⟨⟨rfl, fun _ _ hp => hp⟩, rfl⟩
            · exact ⟨.refl _, rfl⟩
          -- None of this touches another stream; the crossbar does.
          have hteardown := keeps_teardown hids hout (hreleased.1.trans hactive.1)
            (hactive.2.trans hreleased.2)
            (f := fun out => { out with routedDevice := .none, standby := true })
            (fun _ => ⟨rfl, rfl, rfl⟩) (fun x _ hx => by
              unfold StreamOut.audible
              dsimp only
              rw [hx, hstarting]
              rfl)
          exact ⟨hteardown.1, fun hcalm => hteardown.2 (hcalm out rfl hplays)⟩

/-- A stream that is closed goes to standby first. -/
theorem closeOutputStream_keeps (h : adev.account.Consistent)
    (hids : (adev.outs.map (·.id)).Nodup) (hfree : adev.OutFree id) :
    Keeps adev (adev.closeOutputStream id)
      (∀ out, adev.out? id = some out → out.standby = false → adev.Alone out) := by
  have hstandby := @doOutStandby_keeps adev id h hids
  have hidle : ∀ out ∈ (adev.doOutStandby id).outs, out.id = id → out.standby = true :=
    fun out hout hid => doOutStandby_standby h hout hid
  have hfree' := hfree.doOutStandby
  have hids' : ((adev.doOutStandby id).outs.map (·.id)).Nodup := by
    have := (@doOutStandby_consistent adev id h).outIds
    rwa [show (adev.doOutStandby id).account.outs.map (·.id) =
      (adev.doOutStandby id).outs.map (·.id) from List.map_map] at this
  unfold Adev.closeOutputStream
  generalize adev.doOutStandby id = adev' at hstandby hidle hfree' hids'
  refine hstandby.trans (q := True) ⟨fun hflags => ?_, fun _ hflags hrouted => ?_⟩ fun _ => trivial
  · intro l hl
    obtain ⟨out, hout, rfl⟩ := List.mem_map.mp hl
    exact hflags _ (List.mem_map_of_mem (List.mem_of_mem_filter hout))
  · intro p
    have hwanted : wanted (Adev.lanes { adev' with
        outs := adev'.outs.filter fun out => out.id != id }) p = wanted adev'.lanes p := by
      rw [Bool.eq_iff_iff]
      unfold wanted Adev.lanes
      dsimp only
      rw [List.any_map, List.any_map, List.any_filter, List.any_eq_true, List.any_eq_true]
      constructor
      · rintro ⟨out, hout, hp⟩
        rw [Bool.and_eq_true] at hp
        exact ⟨out, hout, hp.2⟩
      · rintro ⟨out, hout, hp⟩
        refine ⟨out, hout, Bool.and_eq_true_iff.mpr ⟨bne_iff_ne.mpr fun hid => ?_, hp⟩⟩
        -- the stream that goes has its flag off
        have hflag : out.crossbarOn = out.audible := hflags _ (List.mem_map_of_mem hout)
        have hstarting : out.starting = .none := hfree' out (hid ▸ out?_of_mem hids' hout)
        have hoff : out.audible = false := by
          unfold StreamOut.audible
          rw [hidle out hout hid, hstarting]
          rfl
        have hon : out.crossbarOn = true := (Bool.and_eq_true_iff.mp hp).1
        rw [hflag, hoff] at hon
        cases hon
    rw [hwanted]
    exact hrouted p

theorem openOutputStream_keeps (handle : Int) (devices : Mask) (pcm : PcmDevice) :
    Keeps adev (adev.openOutputStream id handle devices pcm) True := by
  have hlanes : (adev.openOutputStream id handle devices pcm).lanes =
      adev.lanes ++ [⟨id, pcm, false, false⟩] := List.map_append
  refine ⟨fun hflags => ?_, fun _ _ hrouted p => ?_⟩
  · intro l hl
    rw [hlanes] at hl
    rcases List.mem_append.mp hl with hl | hl
    · exact hflags l hl
    · rw [List.mem_singleton.mp hl]
  · have hwanted : wanted (adev.lanes ++ [⟨id, pcm, false, false⟩]) p = wanted adev.lanes p := by
      unfold wanted
      rw [List.any_append]
      exact Bool.or_false _
    rw [hlanes, hwanted]
    exact hrouted p

/-- A start that begins switches its own path on. -/
theorem startOutputBegin_keeps (hids : (adev.outs.map (·.id)).Nodup) (hfree : adev.OutFree id)
    (hidle : ∀ out, adev.out? id = some out → out.standby = true) :
    Keeps adev (adev.startOutputBegin id) True := by
  unfold Adev.startOutputBegin
  cases hout : adev.out? id with
  | none => exact (Aside.refl adev).keeps _
  | some out =>
      dsimp only
      have hstandby := hidle out hout
      have hstarting := hfree out hout
      have hid := (out?_some hout).2
      have hsilent : out.audible = false := by
        unfold StreamOut.audible
        rw [hstandby, hstarting]
        rfl
      generalize outputDeviceFromMask out.device = new
      by_cases hsco : new = .sco
      · -- a stream that is opened for SCO does not need the path
        rw [if_neg (not_not.mpr hsco)]
        refine (aside_modifyOut hids hout ?_).keeps _
        have haudible : StreamOut.audible { out with starting := some new } = false := by
          unfold StreamOut.audible
          dsimp only
          rw [hstandby, hsco]
          rfl
        unfold StreamOut.lane
        rw [haudible, hsilent]
      · rw [if_pos hsco]
        have haudible : StreamOut.audible
            { out with crossbarOn := true, starting := some new } = true := by
          unfold StreamOut.audible
          dsimp only
          rw [hstandby]
          exact decide_eq_true hsco
        have hswitch : adev.Flagged →
            Adev.Flagged ((adev.applyDlCrossbar out).modifyOut id
              fun out => { out with starting := some new }) ∧
            (adev.Routed → Adev.Routed ((adev.applyDlCrossbar out).modifyOut id
              fun out => { out with starting := some new })) := by
          intro hflags
          have hoff : out.crossbarOn = false := (lane_flag hflags hout).trans hsilent
          have hboth : (adev.applyDlCrossbar out).modifyOut id
              (fun out => { out with starting := some new }) =
              (adev.routeCalls [.apply (dlCrossbarPathName out.pcmDevice) true, .update]).modifyOut
                id fun out => { out with crossbarOn := true, starting := some new } := by
            unfold Adev.applyDlCrossbar
            rw [hoff, hid]
            exact modifyOut_modifyOut fun _ => rfl
          rw [hboth]
          obtain ⟨hflagged, hrouted⟩ := @switched adev
            ((adev.routeCalls [.apply (dlCrossbarPathName out.pcmDevice) true,
              .update]).modifyOut id fun out => { out with crossbarOn := true, starting := some new })
            id hids out hout ⟨out.id, out.pcmDevice, true, true⟩ hid rfl rfl
            (by
              rw [@modifyOut_lanes (adev.routeCalls _) id hids out hout]
              unfold StreamOut.lane
              rw [haudible]
              rfl) fun _ _ hp => hp
          exact ⟨hflagged hflags, hrouted nofun⟩
        exact ⟨fun hflags => (hswitch hflags).1, fun _ hflags => (hswitch hflags).2⟩

/-- **The end of a start**, whatever the PCM answers. -/
theorem startOutputEnd_keeps (h : adev.account.Consistent) (hids : (adev.outs.map (·.id)).Nodup)
    (rate : Option Nat) :
    Keeps adev (adev.startOutputEnd id rate)
      (∀ out new, adev.out? id = some out → out.starting = some new →
        adev.StartFails out new rate → adev.Alone out) := by
  unfold Adev.startOutputEnd
  cases hout : adev.out? id with
  | none => exact (Aside.refl adev).keeps _
  | some out =>
      dsimp only
      -- a stream that is not being opened is left alone
      cases hstarting : out.starting with
      | none => exact (Aside.refl adev).keeps _
      | some new =>
          dsimp only
          have hu : out.use ∈ adev.account.outs := List.mem_map_of_mem (out?_some hout).1
          -- it was in standby all the while
          have hstandby : out.standby = true := by
            by_contra hplays
            have hnone := ((h.outSettled _ hu).playing ((Bool.not_eq_true _).mp hplays)).2
            have hsome : out.use.starting = some new := hstarting
            rw [hsome] at hnone
            cases hnone
          -- where it fails, it gives its path up again
          have hfailed : adev.StartFails out new rate →
              Keeps adev ((adev.teardownDlCrossbar out).modifyOut id
                fun out => { out with starting := .none })
              (∀ out' new', some out = some out' → out'.starting = some new' →
                adev.StartFails out' new' rate → adev.Alone out') := by
            intro hfails
            have hteardown := keeps_teardown hids hout (.refl _) rfl
              (f := fun out => { out with starting := .none })
              (fun _ => ⟨rfl, rfl, rfl⟩) (fun x hx _ => by
                unfold StreamOut.audible
                dsimp only
                rw [hx, hstandby]
                rfl)
            exact ⟨hteardown.1, fun hcalm => hteardown.2 (hcalm out new rfl hstarting hfails)⟩
          -- where it succeeds, its lane stays: it had the path already
          have hlane : ({ out with
              reopenPending := false, routedDevice := new, standby := false,
              starting := .none } : StreamOut).lane = out.lane := by
            unfold StreamOut.lane StreamOut.audible
            dsimp only
            rw [hstandby, hstarting]
            exact congrArg _ (Bool.or_false _)
          cases rate with
          | none => exact hfailed trivial
          | some rate =>
              dsimp only
              split
              · rename_i hfails
                exact hfailed hfails
              -- the stream is written twice, which is once
              have hboth := @modifyOut_modifyOut { (if new = Endpoint.sco
                then adev else adev.applyOutputRoute .none new) with activeOut := some id } id
                (fun out => { out with
                  reopenPending := false, routedDevice := new, standby := false })
                (fun out => { out with starting := .none }) fun _ => rfl
              rw [hboth]
              have hrouted : Aside adev (if new = Endpoint.sco
                  then adev else adev.applyOutputRoute .none new) ∧
                  (if new = Endpoint.sco
                    then adev else adev.applyOutputRoute .none new).outs = adev.outs := by
                split
                · exact ⟨.refl adev, rfl⟩
                · refine ⟨aside_applyOutputRoute _ _, ?_⟩
                  unfold Adev.applyOutputRoute
                  split
                  · rfl
                  · rfl
              generalize (if new = Endpoint.sco
                then adev else adev.applyOutputRoute .none new) = routed at hrouted
              obtain ⟨haside, hsame⟩ := hrouted
              have hids' : ((Adev.outs { routed with activeOut := some id }).map (·.id)).Nodup :=
                hsame ▸ hids
              have hout' : Adev.out? { routed with activeOut := some id } id = some out := by
                unfold Adev.out?
                rw [show Adev.outs { routed with activeOut := some id } = adev.outs from hsame]
                exact hout
              exact (haside.trans (Aside.trans (b := { routed with activeOut := some id })
                ⟨rfl, fun _ _ hp => hp⟩ (aside_modifyOut hids' hout' hlane))).keeps _

/-- **Each section keeps the flags right**, and the paths with them when it is undisturbed. -/
theorem Section.run_keeps (h : adev.account.Consistent) (s : Section) (henabled : s.Enabled adev) :
    Keeps adev (s.run adev) (s.Undisturbed adev) := by
  have hids : (adev.outs.map (·.id)).Nodup := by
    have := h.outIds
    rwa [show adev.account.outs.map (·.id) = adev.outs.map (·.id) from List.map_map] at this
  cases s with
  | openOutput id handle devices pcm => exact openOutputStream_keeps handle devices pcm
  | closeOutput id => exact closeOutputStream_keeps h hids henabled
  | outStandby id => exact doOutStandby_keeps h hids
  | outSetRoute id mask => exact (aside_outSetRoute hids mask).keeps _
  | outSetDevice id mask =>
      have haside : Aside adev (adev.outSetDevice id mask) := aside_modifyOut_all fun _ => rfl
      exact haside.keeps _
  | startOutputBegin id => exact startOutputBegin_keeps hids henabled.1 henabled.2
  | startOutputEnd id rate => exact startOutputEnd_keeps h hids rate
  | openInput id handle devices => exact (aside_openInputStream handle devices).keeps _
  | closeInput id => exact aside_closeInputStream.keeps _
  | inStandby id => exact aside_doInStandby.keeps _
  | inSetRoute id mask => exact (aside_inSetRoute mask).keeps _
  | startInputBegin id => exact aside_startInputBegin.keeps _
  | startInputEnd id rate => exact (aside_startInputEnd rate).keeps _
  | setMode mode speech => exact (aside_setMode mode speech).keeps _
  | setMicMute state ok => exact (aside_setMicMute state ok).keeps _
  | setSco wb speech => exact (aside_setSco wb speech).keeps _
  | createAudioPatch sources sinks speech =>
      exact (aside_createAudioPatch hids sources sinks speech).keeps _

/-- One section that does not take the path of another stream away. -/
def UndisturbedStep (adev adev' : Adev) : Prop :=
  ∃ s : Section, s.Enabled adev ∧ s.Undisturbed adev ∧ adev' = s.run adev

/-- The path of each PCM device is on iff an open stream on the device plays on something else than
SCO. -/
def Adev.CrossbarShared (adev : Adev) : Prop :=
  ∀ p, adev.mixer.DlOn p ↔
    ∃ out ∈ adev.outs, out.pcmDevice = p ∧ out.standby = false ∧ out.routedDevice ≠ .sco

theorem crossbarShared_of_routed (hflags : adev.Flagged) (hrouted : adev.Routed)
    (hrest : ∀ out ∈ adev.outs, out.starting = .none) : adev.CrossbarShared := by
  intro p
  rw [(hrouted p).dlOn]
  unfold wanted Adev.lanes
  rw [List.any_map, List.any_eq_true]
  refine exists_congr fun out => and_congr_right fun hout => ?_
  have hflag : out.crossbarOn = out.audible := hflags _ (List.mem_map_of_mem hout)
  have haudible : out.audible = (!out.standby && decide (out.routedDevice ≠ .sco)) := by
    unfold StreamOut.audible
    rw [hrest out hout]
    exact Bool.or_false _
  show (out.crossbarOn && out.pcmDevice == p) = true ↔ _
  rw [hflag, haudible, Bool.and_eq_true, Bool.and_eq_true, beq_iff_eq, decide_eq_true_iff,
    Bool.not_eq_true']
  exact and_comm

/-- **Playback crossbar sharing**, in every run that opens the HAL with the paths off and in which
no stream gives its path up while another one on its device has it. -/
theorem crossbar_shared {mixer : Mixer} (hoff : ∀ p, mixer.DlIs p false)
    (h : Relation.ReflTransGen UndisturbedStep (.opened mixer) adev)
    (hrest : ∀ out ∈ adev.outs, out.starting = .none) : adev.CrossbarShared := by
  have hall : adev.account.Consistent ∧ adev.Flagged ∧ adev.Routed := by
    clear hrest
    induction h with
    | refl => exact ⟨opened_consistent mixer, nofun, hoff⟩
    | tail _ hstep ih =>
        obtain ⟨s, henabled, hcalm, rfl⟩ := hstep
        obtain ⟨hcons, hflags, hrouted⟩ := ih
        have hkeeps := s.run_keeps hcons henabled
        exact ⟨s.run_consistent hcons henabled, hkeeps.1 hflags, hkeeps.2 hcalm hflags hrouted⟩
  exact crossbarShared_of_routed hall.2.1 hall.2.2 hrest

/-- A mixer with everything off. -/
def silentMixer : Mixer := ⟨fun _ => .zero, fun _ => .zero⟩

theorem silentMixer_off (p : PcmDevice) : silentMixer.DlIs p false := fun _ _ => ⟨rfl, rfl⟩

/-- A stream that is opened for the speaker disturbs none, when the hardware takes its rate. -/
theorem undisturbed_started {adev : Adev} {id : Nat}
    (hstarting : ∀ out ∈ adev.out? id, out.starting = some (outputDeviceFromMask out.device) ∧
      outputDeviceFromMask out.device ≠ .sco) :
    Section.Undisturbed adev (.startOutputEnd id (some 48000)) := by
  intro out new hout hnew hfails
  obtain ⟨hsame, hnotSco⟩ := hstarting out hout
  cases hsame.symm.trans hnew
  rcases hfails with hdevice | ⟨hsco, -⟩
  · exact absurd rfl hdevice
  · exact absurd hsco hnotSco

/-- Two streams share the path of the primary device. -/
theorem crossbar_shared_speaker :
    (speakerShared silentMixer).CrossbarShared ∧ (speakerShared silentMixer).mixer.DlOn .primary ∧
      (speakerShared silentMixer).outs.map (·.pcmDevice) = [.primary, .primary] := by
  have hfirst : Relation.ReflTransGen UndisturbedStep (.opened silentMixer)
      (speakerStarted silentMixer) := by
    refine ((Relation.ReflTransGen.refl.tail
      ⟨.openOutput 1 7 2 .primary, rfl, trivial, rfl⟩).tail
      ⟨.startOutputBegin 1, ⟨?free, ?idle⟩, trivial, rfl⟩).tail
      ⟨.startOutputEnd 1 (some 48000), trivial, undisturbed_started ?started, rfl⟩
    case free | idle =>
      rintro out ⟨⟩
      rfl
    case started =>
      rintro out ⟨⟩
      exact ⟨rfl, by decide⟩
  have hrun : Relation.ReflTransGen UndisturbedStep (.opened silentMixer)
      (speakerShared silentMixer) := by
    refine ((hfirst.tail ⟨.openOutput 2 8 2 .primary, rfl, trivial, rfl⟩).tail
      ⟨.startOutputBegin 2, ⟨?free, ?idle⟩, trivial, rfl⟩).tail
      ⟨.startOutputEnd 2 (some 48000), trivial, undisturbed_started ?started, rfl⟩
    case free | idle =>
      rintro out ⟨⟩
      rfl
    case started =>
      rintro out ⟨⟩
      exact ⟨rfl, by decide⟩
  refine ⟨crossbar_shared silentMixer_off hrun fun out hout => ?_, fun c hc => ?_, rfl⟩
  · rcases List.mem_pair.mp (show out ∈ [_, _] from hout) with rfl | rfl
    · rfl
    · rfl
  · rcases List.mem_pair.mp hc with rfl | rfl
    · rfl
    · rfl

/-- A second stream on the primary device, whose PCM device cannot be opened. -/
def secondFailed : Adev :=
  (((speakerStarted silentMixer).openOutputStream 2 8 2 .primary).startOutputBegin 2).startOutputEnd
    2 none

theorem secondFailed_run : Relation.ReflTransGen Step (.opened silentMixer) secondFailed := by
  refine ((((speakerStarted_run silentMixer).tail ⟨.openOutput 2 8 2 .primary, rfl, rfl⟩).tail
    ⟨.startOutputBegin 2, ⟨?_, ?_⟩, rfl⟩).tail ⟨.startOutputEnd 2 none, trivial, rfl⟩)
  · rintro out ⟨⟩
    rfl
  · rintro out ⟨⟩
    rfl

/-- The first stream plays on, without its path. -/
theorem crossbar_not_shared :
    ¬ ∀ (mixer : Mixer) (adev : Adev), (∀ p, mixer.DlIs p false) →
      Relation.ReflTransGen Step (.opened mixer) adev →
      (∀ out ∈ adev.outs, out.starting = .none) → adev.CrossbarShared := by
  intro hall
  have hrest : ∀ out ∈ secondFailed.outs, out.starting = .none := by
    intro out hout
    rcases List.mem_pair.mp (show out ∈ [_, _] from hout) with rfl | rfl
    · rfl
    · rfl
  have hshared := hall _ _ silentMixer_off secondFailed_run hrest .primary
  have hplays : ∃ out ∈ secondFailed.outs,
      out.pcmDevice = .primary ∧ out.standby = false ∧ out.routedDevice ≠ .sco :=
    ⟨_, .head _, rfl, rfl, by decide⟩
  have hon := hshared.mpr hplays .addaDl1Ch1 (.head _)
  have hzero : secondFailed.mixer.shown .addaDl1Ch1 = .zero := rfl
  rw [hzero] at hon
  cases hon

end Sections

end Mindone.Audio
