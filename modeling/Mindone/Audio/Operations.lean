import Mathlib.Logic.Relation
import Mindone.Audio.Ownership

/-!
# Mindone.Audio.Operations

The voice call, and runs of the HAL. A `Section` is what one entry point does while it holds the
device's lock; any interleaving of entry points is a run of sections, and **every section keeps
the account consistent**. The entry points that have several sections are at the end, as runs of
theirs.
-/

namespace Mindone.Audio

open Mindone.Lib

/-! ### The voice call -/

section Call

variable {adev : Adev}

/-- The endpoints of a call are in its counts. -/
theorem voiceOut_pos (h : adev.account.Consistent) :
    adev.voiceOutDevice = .none ∨ 0 < adev.outEpUsers adev.voiceOutDevice := by
  by_cases hnone : adev.voiceOutDevice = .none
  · exact .inl hnone
  refine .inr ?_
  by_cases hsco : adev.voiceOutDevice = .sco
  · have hcount : adev.outEpUsers .sco = one (decide (adev.voiceOutDevice = .sco)) := h.scoUsers
    rw [hsco, hcount, decide_eq_true hsco]
    decide
  · have hcount : adev.outEpUsers adev.voiceOutDevice = _ := h.outUsers _ hnone hsco
    rw [hcount]
    have hnonneg := count_nonneg (·.uses adev.voiceOutDevice) adev.account.outs
    have hone : one (decide (adev.account.voiceOut = adev.voiceOutDevice)) = 1 :=
      congrArg one (decide_eq_true rfl)
    omega

theorem voiceIn_pos (h : adev.account.Consistent) :
    adev.voiceInDevice = .none ∨ 0 < adev.inEpUsers adev.voiceInDevice := by
  by_cases hnone : adev.voiceInDevice = .none
  · exact .inl hnone
  refine .inr ?_
  have hcount : adev.inEpUsers adev.voiceInDevice = _ := h.inUsers _ hnone
  rw [hcount]
  have hnonneg := count_nonneg (·.uses adev.voiceInDevice) adev.account.ins
  have hone : one (decide (adev.account.voiceIn = adev.voiceInDevice)) = 1 :=
    congrArg one (decide_eq_true rfl)
  omega

/-- The account when a call is over. -/
def Account.ended (a : Account) : Account :=
  { a with
    inCall := false
    voiceOut := .none
    voiceIn := .none
    outUsers := (endpointRelease a.outUsers a.voiceOut).1
    inUsers := inShift a.inUsers a.voiceIn .none
    inputRouted := Adev.selectedInput .none (inShift a.inUsers a.voiceIn .none) }

theorem ended_consistent (h : adev.account.Consistent) : adev.account.ended.Consistent := by
  refine @Account.Consistent.moveCall _ h false .none .none (fun _ => ⟨rfl, rfl⟩) nofun _ _ ?_ ?_
  · intro d hd
    have hrelease : (endpointRelease adev.outEpUsers adev.voiceOutDevice).1 d = _ :=
      endpointRelease_users (voiceOut_pos h) hd
    rw [decide_eq_false (Ne.symm hd : Endpoint.none ≠ d), one_false, Int.add_zero]
    exact hrelease
  · intro d hd
    exact inShift_apply _ _ hd

/-- The account between the two halves of `voice_route_disable`: the microphone of the call is
given back. -/
def Account.unvoiced (a : Account) : Account :=
  { a with
    voiceIn := .none
    inUsers := inShift a.inUsers a.voiceIn .none
    inputRouted := Adev.selectedInput .none (inShift a.inUsers a.voiceIn .none) }

/-- The first half of `voice_route_disable`. -/
def Adev.voicePathsOff (adev : Adev) : Adev :=
  if adev.inCall ∧ adev.voiceOutDevice ≠ .sco then
    let input := adev.voiceInDevice
    let adev := adev.routeCalls
      [.apply .voiceEchoRef false, .apply .voiceUplink false, .apply .voiceDownlink false]
    let adev := { adev with voiceInDevice := .none }
    (adev.teardownInputRoute input).routeCalls [.update]
  else adev

/-- The second half. -/
def Adev.voiceOutOff (adev : Adev) : Adev :=
  if !adev.inCall then adev
  else { adev.endpointRelease adev.voiceOutDevice with voiceOutDevice := .none, inCall := false }

theorem voiceRouteDisable_eq (speechOff : Bool) : adev.voiceRouteDisable speechOff =
    (if speechOff then { adev.voicePathsOff with speechOn := false }
      else adev.voicePathsOff).voiceOutOff := rfl

/-- The end of a call gives its endpoints back. -/
theorem voicePathsOff_account (h : adev.account.Consistent) (hcall : adev.inCall = true) :
    adev.voicePathsOff.account = adev.account.unvoiced := by
  obtain ⟨-, hvoiceIn⟩ := h.call hcall
  have hvoiceIn' : adev.voiceInDevice = Adev.voiceInputFor adev.voiceOutDevice := hvoiceIn
  unfold Adev.voicePathsOff
  by_cases hsco : adev.voiceOutDevice = .sco
  · -- a call over SCO has no microphone
    have hnone : adev.account.voiceIn = .none := by
      rw [show adev.account.voiceIn = adev.voiceInDevice from rfl, hvoiceIn', hsco]
      rfl
    have hsame : inShift adev.account.inUsers .none .none = adev.account.inUsers := if_pos rfl
    have hselected := h.selected
    rw [hnone] at hselected
    rw [if_neg (fun hboth => hboth.2 hsco)]
    unfold Account.unvoiced
    rw [hnone, hsame, ← hselected, ← hnone]
  · have hinput : adev.voiceInDevice ≠ .none := by
      rw [hvoiceIn']
      unfold Adev.voiceInputFor
      rw [if_neg hsco]
      split_ifs <;> nofun
    rw [if_pos ⟨hcall, hsco⟩]
    exact @applyInputRoute_account { adev.routeCalls
      [.apply .voiceEchoRef false, .apply .voiceUplink false, .apply .voiceDownlink false] with
        voiceInDevice := .none } _ _ (voiceIn_pos h) fun heq => absurd heq hinput

theorem voiceOutOff_account (h : adev.account.Consistent) (hcall : adev.inCall = true)
    {adev' : Adev} (hadev' : adev'.account = adev.account.unvoiced) :
    adev'.voiceOutOff.account = adev.account.ended := by
  have hcall' : adev'.inCall = true := (congrArg Account.inCall hadev').trans hcall
  have husers : adev'.outEpUsers = adev.outEpUsers := congrArg Account.outUsers hadev'
  have hvoice : adev'.voiceOutDevice = adev.voiceOutDevice := congrArg Account.voiceOut hadev'
  have hrelease := @endpointRelease_account adev' adev'.voiceOutDevice
    (by rw [husers, hvoice]; exact voiceOut_pos h)
  unfold Adev.voiceOutOff
  rw [hcall']
  show { (adev'.endpointRelease adev'.voiceOutDevice).account with
    voiceOut := .none, inCall := false } = adev.account.ended
  rw [hrelease, hadev', husers, hvoice]
  rfl

/-- Whether speech goes off is not in the account. -/
theorem speechOff_account (speechOff : Bool) :
    (if speechOff then { adev with speechOn := false } else adev).account = adev.account := by
  split
  · rfl
  · rfl

theorem voiceRouteDisable_account (h : adev.account.Consistent) (hcall : adev.inCall = true)
    (speechOff : Bool) : (adev.voiceRouteDisable speechOff).account = adev.account.ended := by
  rw [voiceRouteDisable_eq]
  exact voiceOutOff_account h hcall ((speechOff_account speechOff).trans
    (voicePathsOff_account h hcall))

/-- Without a call nothing happens to the account. -/
theorem voiceRouteDisable_idle (hcall : adev.inCall = false) (speechOff : Bool) :
    (adev.voiceRouteDisable speechOff).account = adev.account := by
  have hpaths : adev.voicePathsOff = adev :=
    if_neg fun hboth => Bool.false_ne_true (hcall.symm.trans hboth.1)
  have hsame := @speechOff_account adev speechOff
  rw [voiceRouteDisable_eq, hpaths]
  generalize (if speechOff then { adev with speechOn := false } else adev) = quiet at hsame
  have hcall' : quiet.inCall = false := (congrArg Account.inCall hsame).trans hcall
  unfold Adev.voiceOutOff
  rw [hcall']
  exact hsame

/-- **A call ends consistently**, and is over. -/
theorem voiceRouteDisable_consistent (h : adev.account.Consistent) (speechOff : Bool) :
    (adev.voiceRouteDisable speechOff).account.Consistent ∧
      (adev.voiceRouteDisable speechOff).inCall = false := by
  cases hcall : adev.inCall with
  | true =>
      have haccount := voiceRouteDisable_account h hcall speechOff
      exact ⟨haccount ▸ ended_consistent h, congrArg Account.inCall haccount⟩
  | false =>
      have haccount := voiceRouteDisable_idle hcall speechOff
      exact ⟨haccount ▸ h, (congrArg Account.inCall haccount).trans hcall⟩

/-- The part of `voice_route_enable` that takes the endpoints. -/
def Adev.voicePathsOn (adev : Adev) (out : Endpoint) : Adev :=
  let adev := adev.applyOutputRoute adev.voiceOutDevice out
  let adev := { adev with voiceOutDevice := out, voiceInDevice := Adev.voiceInputFor out }
  let adev :=
    if out ≠ .sco then
      (adev.applyInputRoute .none adev.voiceInDevice).routeCalls
        ([.apply .voiceDownlink true] ++ (if adev.micMute then [] else [.apply .voiceUplink true]) ++
          [.update])
    else adev
  { adev with inCall := true }

theorem voiceRouteEnable_eq (out : Endpoint) (speech : Adev.Speech) :
    adev.voiceRouteEnable out speech =
      if adev.inCall then (adev, true)
      else if (decide (out = .sco) || speech.hostlessOpen && speech.gainAcquire) &&
          ((adev.voicePathsOn out).speechOn || speech.ccciOn) then
        ({ adev.voicePathsOn out with speechOn := true }, true)
      else ((adev.voicePathsOn out).voiceRouteDisable true, false) := rfl

/-- **A call takes its endpoints consistently.** -/
theorem voicePathsOn_consistent (h : adev.account.Consistent) (hcall : adev.inCall = false)
    {out : Endpoint} (hout : out ≠ .none) : (adev.voicePathsOn out).account.Consistent := by
  -- Outside a call neither voice device is set, so the old endpoint gives nothing back.
  obtain ⟨hvoiceOut, hvoiceIn⟩ := h.idleCall hcall
  have hvoiceOut' : adev.voiceOutDevice = .none := hvoiceOut
  have hold : adev.voiceOutDevice = .none ∨ 0 < adev.outEpUsers adev.voiceOutDevice :=
    .inl hvoiceOut'
  have hroute := @applyOutputRoute_account adev _ out hold
  unfold Adev.voicePathsOn
  generalize adev.applyOutputRoute adev.voiceOutDevice out = routed at hroute
  -- Whatever way the routes are set, the counts are those of a call that moves to `out`.
  have hmove : ∀ adev' : Adev, adev'.account = { adev.account with
        voiceOut := out
        voiceIn := Adev.voiceInputFor out
        outUsers := (applyOutputRoute adev.outEpUsers adev.voiceOutDevice out).1
        inUsers := inShift adev.inEpUsers .none (Adev.voiceInputFor out)
        inputRouted := Adev.selectedInput (Adev.voiceInputFor out)
          (inShift adev.inEpUsers .none (Adev.voiceInputFor out)) } →
      Account.Consistent (Adev.account { adev' with inCall := true }) := by
    intro adev' hadev'
    have hcons := @Account.Consistent.moveCall _ h true out (Adev.voiceInputFor out)
      nofun (fun _ => ⟨hout, rfl⟩) (applyOutputRoute adev.outEpUsers adev.voiceOutDevice out).1
      (inShift adev.inEpUsers .none (Adev.voiceInputFor out)) (fun d hd => applyOutputRoute_users hold hd) (fun d hd => by
          rw [hvoiceIn]
          exact inShift_apply _ _ hd)
    have haccount : Adev.account { adev' with inCall := true } =
        { adev'.account with inCall := true } := rfl
    rw [haccount, hadev']
    exact hcons
  have hin : routed.inEpUsers = adev.inEpUsers := congrArg Account.inUsers hroute
  -- Over SCO the call has no input of its own, and the input route is not touched.
  by_cases hsco : out = .sco
  -- The counts of the inputs and the routed input are then the ones of before.
  · have hnone : Adev.voiceInputFor out = .none := if_pos hsco
    have hsame : inShift adev.inEpUsers .none .none = adev.inEpUsers := if_pos rfl
    have hselected : adev.inputRoutedDevice = Adev.selectedInput .none adev.inEpUsers := by
      have hselected := h.selected
      rw [hvoiceIn] at hselected
      exact hselected
    dsimp only
    rw [if_neg (not_not.mpr hsco)]
    refine hmove _ ?_
    rw [hnone, hsame, ← hselected]
    show { routed.account with voiceOut := out, voiceIn := .none } = _
    rw [hroute]
    rfl
  · have hmic : Adev.voiceInputFor out ≠ .none := by
      unfold Adev.voiceInputFor
      rw [if_neg hsco]
      split_ifs <;> nofun
    have hinput := @applyInputRoute_account { routed with
      voiceOutDevice := out, voiceInDevice := Adev.voiceInputFor out } .none
      (Adev.voiceInputFor out) (.inl rfl) fun heq => absurd heq.symm hmic
    dsimp only
    rw [if_pos hsco]
    refine hmove _ (hinput.trans ?_)
    show { routed.account with
      voiceOut := out
      voiceIn := Adev.voiceInputFor out
      inUsers := inShift routed.inEpUsers .none (Adev.voiceInputFor out)
      inputRouted := Adev.selectedInput (Adev.voiceInputFor out)
        (inShift routed.inEpUsers .none (Adev.voiceInputFor out)) } = _
    rw [hroute, hin]

theorem voiceRouteEnable_consistent (h : adev.account.Consistent) {out : Endpoint}
    (hout : out ≠ .none) (speech : Adev.Speech) :
    (adev.voiceRouteEnable out speech).1.account.Consistent := by
  rw [voiceRouteEnable_eq]
  cases hcall : adev.inCall with
  | true => exact h
  | false =>
      have hon := voicePathsOn_consistent h hcall hout
      rw [if_neg Bool.false_ne_true]
      split
      · exact hon
      · exact (voiceRouteDisable_consistent hon true).1

theorem voiceRouteChangeSco_consistent (h : adev.account.Consistent) {out : Endpoint}
    (hout : out ≠ .none) (speech : Adev.Speech) :
    (adev.voiceRouteChangeSco out speech).1.account.Consistent := by
  unfold Adev.voiceRouteChangeSco
  split
  · exact (voiceRouteDisable_consistent h true).1
  have henabled := voiceRouteEnable_consistent (voiceRouteDisable_consistent h false).1 hout speech
  generalize (adev.voiceRouteDisable false).voiceRouteEnable out speech = enabled at henabled
  dsimp only
  split
  · exact henabled
  · exact (voiceRouteDisable_consistent henabled true).1

theorem voiceOutputDevice_ne_none : adev.voiceOutputDevice ≠ .none := by
  unfold Adev.voiceOutputDevice
  split
  · split
    · exact outputDeviceFromMask_ne_none _
    · nofun
  · nofun

theorem setMode_consistent (h : adev.account.Consistent) (mode : Mode) (speech : Adev.Speech) :
    (adev.setMode mode speech).account.Consistent := by
  unfold Adev.setMode
  split
  · exact h
  split
  · have henabled := voiceRouteEnable_consistent h (@voiceOutputDevice_ne_none adev) speech
    generalize adev.voiceRouteEnable adev.voiceOutputDevice speech = enabled at henabled
    dsimp only
    split
    · exact henabled
    · exact henabled
  · exact (voiceRouteDisable_consistent h true).1

theorem setMicMute_consistent (h : adev.account.Consistent) (state ok : Bool) :
    (adev.setMicMute state ok).account.Consistent := by
  unfold Adev.setMicMute
  split
  · exact h
  split
  · split
    · exact h
    · exact (voiceRouteDisable_consistent h true).1
  split
  · exact h
  dsimp only
  split
  · exact h
  · exact h

/-- Every stream changes in fields that the account does not keep. -/
theorem mapOuts_account {f : StreamOut → StreamOut} (hf : ∀ out, (f out).use = out.use) :
    Adev.account { adev with outs := adev.outs.map f } = adev.account := by
  have hsame : (adev.outs.map f).map StreamOut.use = adev.outs.map StreamOut.use := by
    rw [List.map_map]
    exact List.map_congr_left fun out _ => hf out
  unfold Adev.account
  dsimp only
  rw [hsame]

/-- The streams over SCO are marked to be opened anew. -/
def Adev.scoReopened (adev : Adev) (wb : Bool) : Adev :=
  let reopen (out : StreamOut) : StreamOut :=
    if out.routedDevice = .sco then { out with reopenPending := true } else out
  let adev := { adev with btWb := wb, outs := adev.outs.map reopen }
  match adev.activeIn.bind adev.in? with
  | some stream =>
      if stream.routedDevice = InDevice.sco then
        adev.modifyIn stream.id fun stream => { stream with reopenPending := true }
      else adev
  | none => adev

theorem setSco_eq (wb : Bool) (speech : Adev.Speech) : adev.setSco wb speech =
    if wb = adev.btWb then adev
    else if (adev.scoReopened wb).inCall ∧ (adev.scoReopened wb).voiceOutDevice = .sco then
      ((adev.scoReopened wb).voiceRouteChangeSco .sco speech).1
    else adev.scoReopened wb := rfl

theorem scoReopened_account (wb : Bool) : (adev.scoReopened wb).account = adev.account := by
  have houts : Adev.account { adev with
      btWb := wb
      outs := adev.outs.map fun out : StreamOut =>
        if out.routedDevice = .sco then { out with reopenPending := true } else out } =
        adev.account := by
    refine @mapOuts_account { adev with btWb := wb } _ fun out => ?_
    split
    · rfl
    · rfl
  unfold Adev.scoReopened
  dsimp only
  split
  · split
    · rw [modifyIn_same]
      · exact houts
      · exact fun _ => rfl
    · exact houts
  · exact houts

theorem setSco_consistent (h : adev.account.Consistent) (wb : Bool) (speech : Adev.Speech) :
    (adev.setSco wb speech).account.Consistent := by
  have hreopened : (adev.scoReopened wb).account.Consistent := by
    rw [scoReopened_account]
    exact h
  rw [setSco_eq]
  split
  · exact h
  split
  · exact voiceRouteChangeSco_consistent hreopened (by decide) speech
  · exact hreopened

theorem patchCall_consistent (h : adev.account.Consistent) {d : Endpoint} (hd : d ≠ .none)
    (sources : Nat) (speech : Adev.Speech) :
    (adev.patchCall d sources speech).account.Consistent := by
  unfold Adev.patchCall
  split
  · exact h
  split
  · exact voiceRouteChangeSco_consistent h hd speech
  split
  · split
    · exact (voiceRouteDisable_consistent h true).1
    · exact voiceRouteEnable_consistent (voiceRouteDisable_consistent h false).1 hd speech
  · exact h

/-- The turns of a loop over streams. -/
theorem foldl_consistent {f : Adev → Nat → Adev}
    (hf : ∀ adev id, adev.account.Consistent → (f adev id).account.Consistent) (ids : List Nat)
    (h : adev.account.Consistent) : (ids.foldl f adev).account.Consistent := by
  induction ids generalizing adev with
  | nil => exact h
  | cons id ids ih => exact ih (hf adev id h)

theorem createAudioPatch_consistent (h : adev.account.Consistent)
    (sources sinks : List Adev.Port) (speech : Adev.Speech) :
    (adev.createAudioPatch sources sinks speech).account.Consistent := by
  unfold Adev.createAudioPatch
  split
  · split
    · split
      · exact h
      split
      · exact h
      split
      · exact patchCall_consistent h (outputDeviceFromMask_ne_none _) _ _
      split
      · exact h
      · exact foldl_consistent (fun _ _ hadev => patchOut_consistent hadev _ _) _ h
    · split
      · exact foldl_consistent (fun _ _ hadev => patchIn_consistent hadev _ _) _ h
      · exact h
  · exact h

end Call

/-! ### Sections and runs -/

/-- What an entry point does under the device's lock, with what the hardware answers. -/
inductive Section
  | openOutput (id : Nat) (handle : Int) (devices : Mask) (pcm : PcmDevice)
  | closeOutput (id : Nat)
  | outStandby (id : Nat)
  | outSetRoute (id : Nat) (mask : Mask)
  | outSetDevice (id : Nat) (mask : Mask)
  | startOutputBegin (id : Nat)
  | startOutputEnd (id : Nat) (rate : Option Nat)
  | openInput (id : Nat) (handle : Int) (devices : Mask)
  | closeInput (id : Nat)
  | inStandby (id : Nat)
  | inSetRoute (id : Nat) (mask : Mask)
  | startInputBegin (id : Nat)
  | startInputEnd (id : Nat) (rate : Option Nat)
  | setMode (mode : Mode) (speech : Adev.Speech)
  | setMicMute (state ok : Bool)
  | setSco (wb : Bool) (speech : Adev.Speech)
  | createAudioPatch (sources sinks : List Adev.Port) (speech : Adev.Speech)

/-- The lock of the stream is free. -/
def Adev.OutFree (adev : Adev) (id : Nat) : Prop :=
  ∀ out, adev.out? id = some out → out.starting = .none

def Adev.InFree (adev : Adev) (id : Nat) : Prop :=
  ∀ stream, adev.in? id = some stream → stream.starting = .none

/-- A new stream is at a new address, an entry point of a stream holds the stream's lock, and only
a stream in standby is opened. -/
def Section.Enabled (adev : Adev) : Section → Prop
  | .openOutput id _ _ _ => adev.out? id = .none
  | .closeOutput id | .outStandby id | .outSetRoute id _ | .outSetDevice id _ => adev.OutFree id
  | .startOutputBegin id =>
      adev.OutFree id ∧ ∀ out, adev.out? id = some out → out.standby = true
  | .openInput id _ _ => adev.in? id = .none
  | .closeInput id | .inStandby id | .inSetRoute id _ => adev.InFree id
  | .startInputBegin id =>
      adev.InFree id ∧ ∀ stream, adev.in? id = some stream → stream.standby = true
  | _ => True

/-- `out_set_route` behind `do_out_standby`: the stream is opened anew for another device. -/
def Adev.outSetDevice (adev : Adev) (id : Nat) (mask : Mask) : Adev :=
  adev.modifyOut id fun out => { out with device := mask }

def Section.run (adev : Adev) : Section → Adev
  | .openOutput id handle devices pcm => adev.openOutputStream id handle devices pcm
  | .closeOutput id => adev.closeOutputStream id
  | .outStandby id => adev.doOutStandby id
  | .outSetRoute id mask => (adev.outSetRoute id mask).1
  | .outSetDevice id mask => adev.outSetDevice id mask
  | .startOutputBegin id => adev.startOutputBegin id
  | .startOutputEnd id rate => adev.startOutputEnd id rate
  | .openInput id handle devices => adev.openInputStream id handle devices
  | .closeInput id => adev.closeInputStream id
  | .inStandby id => adev.doInStandby id
  | .inSetRoute id mask => (adev.inSetRoute id mask).1
  | .startInputBegin id => adev.startInputBegin id
  | .startInputEnd id rate => adev.startInputEnd id rate
  | .setMode mode speech => adev.setMode mode speech
  | .setMicMute state ok => adev.setMicMute state ok
  | .setSco wb speech => adev.setSco wb speech
  | .createAudioPatch sources sinks speech => adev.createAudioPatch sources sinks speech

/-- One section of any entry point. -/
def Step (adev adev' : Adev) : Prop := ∃ s : Section, s.Enabled adev ∧ adev' = s.run adev

/-- **Each section keeps every count the number of its owners.** -/
theorem Section.run_consistent {adev : Adev} (h : adev.account.Consistent) (s : Section)
    (henabled : s.Enabled adev) : (s.run adev).account.Consistent := by
  cases s with
  | openOutput id handle devices pcm =>
      exact openOutputStream_consistent h henabled handle devices pcm
  | closeOutput id => exact closeOutputStream_consistent h
  | outStandby id => exact doOutStandby_consistent h
  | outSetRoute id mask => exact outSetRoute_consistent h mask
  | outSetDevice id mask => exact modifyOut_consistent h fun _ => rfl
  | startOutputBegin id => exact startOutputBegin_consistent h henabled.2
  | startOutputEnd id rate => exact startOutputEnd_consistent h rate
  | openInput id handle devices => exact openInputStream_consistent h henabled handle devices
  | closeInput id => exact closeInputStream_consistent h henabled
  | inStandby id => exact doInStandby_consistent h
  | inSetRoute id mask => exact inSetRoute_consistent h mask
  | startInputBegin id =>
      exact startInputBegin_consistent h fun stream hin =>
        ⟨henabled.2 stream hin, henabled.1 stream hin⟩
  | startInputEnd id rate => exact startInputEnd_consistent h rate
  | setMode mode speech => exact setMode_consistent h mode speech
  | setMicMute state ok => exact setMicMute_consistent h state ok
  | setSco wb speech => exact setSco_consistent h wb speech
  | createAudioPatch sources sinks speech =>
      exact createAudioPatch_consistent h sources sinks speech

/-- Nothing is owned at first. -/
theorem opened_consistent (mixer : Mixer) : (Adev.opened mixer).account.Consistent where
  outIds := List.nodup_nil
  inIds := List.nodup_nil
  outSettled := nofun
  inSettled := nofun
  idleCall := fun _ => ⟨rfl, rfl⟩
  call := nofun
  outUsers := fun d hd _ => by
    rw [show (Adev.opened mixer).account.voiceOut = .none from rfl, decide_eq_false (Ne.symm hd)]
    rfl
  scoUsers := rfl
  inUsers := fun d hd => by
    rw [show (Adev.opened mixer).account.voiceIn = .none from rfl, decide_eq_false (Ne.symm hd)]
    rfl
  selected := rfl
  warned := rfl

/-- **In every state of every run.** -/
theorem run_consistent {mixer : Mixer} {adev : Adev}
    (h : Relation.ReflTransGen Step (.opened mixer) adev) : adev.account.Consistent := by
  induction h with
  | refl => exact opened_consistent mixer
  | tail _ hstep ih =>
      obtain ⟨s, henabled, rfl⟩ := hstep
      exact s.run_consistent ih henabled

/-! ### What the counts are -/

/-- The endpoints are owned: **each count is the number of the streams that play there, and of the
call**; a stream over SCO is not counted, a call over SCO is. The microphone is the call's, or one
that has users, the main one first. Nothing was released more often than acquired. -/
structure Adev.Owned (adev : Adev) : Prop where
  outUsers : ∀ d, d ≠ .none → d ≠ .sco → adev.outEpUsers d =
    (adev.outs.countP fun out => !out.standby && decide (out.routedDevice = d) : Nat) +
      if adev.inCall = true ∧ adev.voiceOutDevice = d then 1 else 0
  scoUsers : adev.outEpUsers .sco =
    if adev.inCall = true ∧ adev.voiceOutDevice = .sco then 1 else 0
  inUsers : ∀ d, d ≠ .none → adev.inEpUsers d =
    (adev.ins.countP fun stream => !stream.standby && decide (stream.routedDevice = d) : Nat) +
      if adev.voiceInDevice = d then 1 else 0
  input : adev.inputRoutedDevice =
    if adev.voiceInDevice ≠ .none then adev.voiceInDevice
    else if adev.inEpUsers .mainMic > 0 then .mainMic
    else if adev.inEpUsers .headsetMic > 0 then .headsetMic
    else .none
  warned : adev.warned = false

theorem voice_one {adev : Adev} (h : adev.account.Consistent) {d : Endpoint} (hd : d ≠ .none) :
    one (decide (adev.account.voiceOut = d)) =
      if adev.inCall = true ∧ adev.voiceOutDevice = d then 1 else 0 := by
  by_cases hvoice : adev.voiceOutDevice = d
  · have hcall : adev.inCall = true := by
      by_contra hidle
      have hnone := (h.idleCall ((Bool.not_eq_true _).mp hidle)).1
      exact hd (hvoice.symm.trans hnone)
    exact (congrArg one (decide_eq_true hvoice)).trans (if_pos ⟨hcall, hvoice⟩).symm
  · exact (congrArg one (decide_eq_false hvoice)).trans (if_neg fun hboth => hvoice hboth.2).symm

/-- A consistent account counts what the device's streams do, while none of its input streams is
being opened. -/
theorem owned_of_consistent {adev : Adev} (h : adev.account.Consistent)
    (hrest : ∀ stream ∈ adev.ins, stream.starting = .none) : adev.Owned where
  outUsers := by
    intro d hnone hsco
    have hcount : adev.outEpUsers d = _ := h.outUsers d hnone hsco
    rw [hcount, voice_one h hnone]
    congr 1
    exact congrArg Nat.cast (List.countP_map ..)
  scoUsers := by
    have hcount : adev.outEpUsers .sco = _ := h.scoUsers
    rw [hcount]
    exact voice_one h (by decide)
  inUsers := by
    intro d hnone
    have hcount : adev.inEpUsers d = _ := h.inUsers d hnone
    rw [hcount, one_decide]
    congr 1
    refine congrArg Nat.cast ((List.countP_map ..).trans (List.countP_congr fun stream hin => ?_))
    have hstarting : stream.use.starting = .none := hrest stream hin
    show stream.use.uses d = true ↔ _
    unfold InUse.uses
    rw [hstarting, decide_eq_false (by nofun : (none : Option InDevice) ≠ some d), Bool.false_and,
      Bool.or_false]
    rfl
  input := by
    have hselected : adev.inputRoutedDevice = _ := h.selected
    rw [hselected]
    show Adev.selectedInput adev.voiceInDevice adev.inEpUsers = _
    unfold Adev.selectedInput
    by_cases hvoice : adev.voiceInDevice = .none
    · rw [if_neg (fun hboth => hboth.1 hvoice), if_neg (not_not.mpr hvoice)]
    · rw [if_pos ⟨hvoice, (voiceIn_pos h).resolve_left hvoice⟩, if_pos hvoice]
  warned := h.warned

/-- **Audio endpoint ownership**: whatever the entry points do in whatever order, and whatever the
hardware answers, the endpoints are owned whenever no input stream is being opened. -/
theorem endpoints_owned {mixer : Mixer} {adev : Adev}
    (h : Relation.ReflTransGen Step (.opened mixer) adev)
    (hrest : ∀ stream ∈ adev.ins, stream.starting = .none) : adev.Owned :=
  owned_of_consistent (run_consistent h) hrest

/-- A stream is opened for the speaker. -/
def speakerStarted (mixer : Mixer) : Adev :=
  (((Adev.opened mixer).openOutputStream 1 7 2 .primary).startOutputBegin 1).startOutputEnd 1
    (some 48000)

theorem speakerStarted_run (mixer : Mixer) :
    Relation.ReflTransGen Step (.opened mixer) (speakerStarted mixer) := by
  refine (((Relation.ReflTransGen.refl.tail ⟨.openOutput 1 7 2 .primary, rfl, rfl⟩).tail
    ⟨.startOutputBegin 1, ⟨?_, ?_⟩, rfl⟩).tail ⟨.startOutputEnd 1 (some 48000), trivial, rfl⟩)
  · rintro out ⟨⟩
    rfl
  · rintro out ⟨⟩
    rfl

/-- A second stream on the same PCM device follows. -/
def speakerShared (mixer : Mixer) : Adev :=
  (((speakerStarted mixer).openOutputStream 2 8 2 .primary).startOutputBegin 2).startOutputEnd 2
    (some 48000)

theorem speakerShared_run (mixer : Mixer) :
    Relation.ReflTransGen Step (.opened mixer) (speakerShared mixer) := by
  refine ((((speakerStarted_run mixer).tail ⟨.openOutput 2 8 2 .primary, rfl, rfl⟩).tail
    ⟨.startOutputBegin 2, ⟨?_, ?_⟩, rfl⟩).tail ⟨.startOutputEnd 2 (some 48000), trivial, rfl⟩)
  · rintro out ⟨⟩
    rfl
  · rintro out ⟨⟩
    rfl

/-- Two streams own the speaker, and one of them when the first is in standby. -/
theorem endpoints_owned_speaker :
    let adev := speakerShared ⟨fun _ => .zero, fun _ => .zero⟩
    adev.Owned ∧ adev.outEpUsers .speaker = 2 ∧
      (adev.doOutStandby 1).Owned ∧ (adev.doOutStandby 1).outEpUsers .speaker = 1 := by
  refine ⟨endpoints_owned (speakerShared_run _) nofun, rfl, ?_, rfl⟩
  refine endpoints_owned ((speakerShared_run _).tail ⟨.outStandby 1, ?_, rfl⟩) nofun
  rintro out ⟨⟩
  rfl

/-! ### Entry points of several sections

Their own lock keeps other entry points of the stream out; nothing else runs meanwhile here. -/

namespace Adev

/-- `enum mindone_audio_command` -/
inductive Command
  | start
  | pause
  | flush
  | drain
  | standby
  | transfer
  deriving DecidableEq

/-- The stream is closed to be opened anew. -/
def outReopened (adev : Adev) (id : Nat) : Adev :=
  match adev.out? id with
  | some out => if out.reopenPending && !out.standby then adev.doOutStandby id else adev
  | none => adev

/-- `start_output_stream` for a stream in standby. -/
def outStarted (adev : Adev) (id : Nat) (rate : Option Nat) : Adev :=
  match adev.out? id with
  | some out => if out.standby then (adev.startOutputBegin id).startOutputEnd id rate else adev
  | none => adev

/-- `out_write`; what happens to the data behind is not in the state. -/
def outWrite (adev : Adev) (id : Nat) (rate : Option Nat) : Adev :=
  (adev.outReopened id).outStarted id rate

/-- `out_aidl_state`, with whether the PCM device does what is asked. A stream that could not be
opened is in standby already. -/
def outAidlState (adev : Adev) (id : Nat) (command : Command) (rate : Option Nat) (ok : Bool) :
    Adev :=
  match command with
  | .standby => adev.doOutStandby id
  | .start | .transfer =>
      let adev := (adev.outReopened id).outStarted id rate
      if ok then adev else adev.doOutStandby id
  | .pause | .flush | .drain => adev

/-- `out_set_route` -/
def outputRoute (adev : Adev) (id : Nat) (mask : Mask) : Adev :=
  let (adev, kept) := adev.outSetRoute id mask
  if kept then adev else (adev.doOutStandby id).outSetDevice id mask

def inReopened (adev : Adev) (id : Nat) : Adev :=
  match adev.in? id with
  | some stream => if stream.reopenPending && !stream.standby then adev.doInStandby id else adev
  | none => adev

/-- `start_input_stream` for a stream in standby. -/
def inStarted (adev : Adev) (id : Nat) (rate : Option Nat) : Adev :=
  match adev.in? id with
  | some stream => if stream.standby then (adev.startInputBegin id).startInputEnd id rate else adev
  | none => adev

/-- `in_read` -/
def inRead (adev : Adev) (id : Nat) (rate : Option Nat) : Adev :=
  (adev.inReopened id).inStarted id rate

/-- `in_aidl_start` -/
def inAidlStart (adev : Adev) (id : Nat) (rate : Option Nat) (ok : Bool) : Adev :=
  let adev := adev.inStarted id rate
  if ok then adev else adev.doInStandby id

/-- `in_set_route` -/
def inputRoute (adev : Adev) (id : Nat) (mask : Mask) : Adev :=
  let (adev, kept) := adev.inSetRoute id mask
  if kept then adev else adev.doInStandby id

end Adev

section EntryPoints

variable {adev : Adev} {id : Nat}

/-- A section is a run of its own. -/
theorem Section.single (s : Section) (h : s.Enabled adev) :
    Relation.ReflTransGen Step adev (s.run adev) := .single ⟨s, h, rfl⟩

theorem Adev.OutFree.modifyOut (h : adev.OutFree id) {j : Nat} {f : StreamOut → StreamOut}
    (hid : ∀ out, (f out).id = out.id) (hf : ∀ out, out.starting = .none → (f out).starting = .none) :
    (adev.modifyOut j f).OutFree id := by
  intro out hout
  obtain ⟨before, hbefore, rfl | rfl⟩ := find?_modifyKey hid hout
  · exact h _ hbefore
  · exact hf _ (h _ hbefore)

theorem Adev.InFree.modifyIn (h : adev.InFree id) {j : Nat} {f : StreamIn → StreamIn}
    (hid : ∀ stream, (f stream).id = stream.id)
    (hf : ∀ stream, stream.starting = .none → (f stream).starting = .none) :
    (adev.modifyIn j f).InFree id := by
  intro stream hin
  obtain ⟨before, hbefore, rfl | rfl⟩ := find?_modifyKey hid hin
  · exact h _ hbefore
  · exact hf _ (h _ hbefore)

theorem Adev.OutFree.doOutStandby (h : adev.OutFree id) : (adev.doOutStandby id).OutFree id := by
  unfold Adev.doOutStandby
  split
  · exact h
  · rename_i out _
    have hcrossbar : (adev.teardownDlCrossbar out).OutFree id := by
      unfold Adev.teardownDlCrossbar
      split
      · exact h
      · exact @Adev.OutFree.modifyOut (adev.routeCalls _) _ h _ _ (fun _ => rfl)
          fun _ hstarting => hstarting
    split
    · exact h
    · refine Adev.OutFree.modifyOut ?_ (fun _ => rfl) fun _ hstarting => hstarting
      split_ifs <;> exact hcrossbar

theorem Adev.InFree.doInStandby (h : adev.InFree id) : (adev.doInStandby id).InFree id := by
  unfold Adev.doInStandby
  split
  · exact h
  · rename_i stream _
    have hroute : (adev.teardownInputRoute stream.routedDevice).InFree id := by
      unfold Adev.InFree Adev.in? Adev.teardownInputRoute
      rw [applyInputRoute_ins]
      exact h
    split
    · exact h
    · refine Adev.InFree.modifyIn ?_ (fun _ => rfl) fun _ hstarting => hstarting
      split_ifs <;> exact hroute

/-- A stream that was opened, or could not be, is free again. -/
theorem Adev.OutFree.startOutputEnd (rate : Option Nat) : (adev.startOutputEnd id rate).OutFree id := by
  unfold Adev.startOutputEnd
  cases hout : adev.out? id with
  | none =>
      intro out hout'
      rw [hout] at hout'
      cases hout'
  | some out =>
      dsimp only
      cases hstarting : out.starting with
      | none =>
          intro out' hout'
          rw [hout, Option.some_inj] at hout'
          exact hout' ▸ hstarting
      | some new =>
          intro out' hout'
          obtain ⟨hmem, hid⟩ := out?_some hout'
          rcases mem_modifyKey hmem with ⟨-, hne⟩ | ⟨before, -, -, rfl⟩
          · exact absurd hid hne
          · rfl

theorem Adev.InFree.startInputEnd (rate : Option Nat) : (adev.startInputEnd id rate).InFree id := by
  unfold Adev.startInputEnd
  cases hin : adev.in? id with
  | none =>
      intro stream hin'
      rw [hin] at hin'
      cases hin'
  | some stream =>
      dsimp only
      cases hstarting : stream.starting with
      | none =>
          intro stream' hin'
          rw [hin, Option.some_inj] at hin'
          exact hin' ▸ hstarting
      | some new =>
          intro stream' hin'
          obtain ⟨hmem, hid⟩ := in?_some hin'
          rcases mem_modifyKey hmem with ⟨-, hne⟩ | ⟨before, -, -, rfl⟩
          · exact absurd hid hne
          · rfl

theorem outReopened_run (h : adev.OutFree id) :
    Relation.ReflTransGen Step adev (adev.outReopened id) ∧ (adev.outReopened id).OutFree id := by
  unfold Adev.outReopened
  split
  · split
    · exact ⟨Section.single (.outStandby id) h, h.doOutStandby⟩
    · exact ⟨.refl, h⟩
  · exact ⟨.refl, h⟩

theorem outStarted_run (h : adev.OutFree id) (rate : Option Nat) :
    Relation.ReflTransGen Step adev (adev.outStarted id rate) ∧
      (adev.outStarted id rate).OutFree id := by
  unfold Adev.outStarted
  split
  · rename_i out hout
    split
    · rename_i hstandby
      refine ⟨(Section.single (.startOutputBegin id) ⟨h, fun out' hout' => ?_⟩).trans
        (Section.single (.startOutputEnd id rate) trivial), Adev.OutFree.startOutputEnd rate⟩
      rw [hout, Option.some_inj] at hout'
      exact hout' ▸ hstandby
    · exact ⟨.refl, h⟩
  · exact ⟨.refl, h⟩

theorem outWrite_run (h : adev.OutFree id) (rate : Option Nat) :
    Relation.ReflTransGen Step adev (adev.outWrite id rate) :=
  (outReopened_run h).1.trans (outStarted_run (outReopened_run h).2 rate).1

theorem outAidlState_run (h : adev.OutFree id) (command : Adev.Command) (rate : Option Nat)
    (ok : Bool) : Relation.ReflTransGen Step adev (adev.outAidlState id command rate ok) := by
  have hopened := outStarted_run (outReopened_run h).2 rate
  have hrun := (outReopened_run h).1.trans hopened.1
  have hresult : Relation.ReflTransGen Step adev
      (if ok then (adev.outReopened id).outStarted id rate
        else ((adev.outReopened id).outStarted id rate).doOutStandby id) := by
    split
    · exact hrun
    · exact hrun.trans (Section.single (.outStandby id) hopened.2)
  cases command with
  | standby => exact Section.single (.outStandby id) h
  | start => exact hresult
  | transfer => exact hresult
  | pause => exact .refl
  | flush => exact .refl
  | drain => exact .refl

/-- `out_set_route` is a run of the locked sections. -/
theorem outputRoute_run (h : adev.OutFree id) (mask : Mask) :
    Relation.ReflTransGen Step adev (adev.outputRoute id mask) := by
  unfold Adev.outputRoute
  have hrouted := Section.single (.outSetRoute id mask) h
  -- a stream that has to be opened anew was not touched yet
  have hsame : (adev.outSetRoute id mask).2 = false → (adev.outSetRoute id mask).1 = adev := by
    unfold Adev.outSetRoute
    split
    · nofun
    · dsimp only
      split_ifs
      · nofun
      · exact fun _ => rfl
      · nofun
  change Relation.ReflTransGen Step adev (adev.outSetRoute id mask).1 at hrouted
  generalize adev.outSetRoute id mask = routed at hrouted hsame
  obtain ⟨routed, kept⟩ := routed
  cases kept with
  | true => exact hrouted
  | false =>
      obtain rfl : routed = adev := hsame rfl
      exact (Section.single (.outStandby id) h).trans
        (Section.single (.outSetDevice id mask) h.doOutStandby)

theorem inReopened_run (h : adev.InFree id) :
    Relation.ReflTransGen Step adev (adev.inReopened id) ∧ (adev.inReopened id).InFree id := by
  unfold Adev.inReopened
  split
  · split
    · exact ⟨Section.single (.inStandby id) h, h.doInStandby⟩
    · exact ⟨.refl, h⟩
  · exact ⟨.refl, h⟩

theorem inStarted_run (h : adev.InFree id) (rate : Option Nat) :
    Relation.ReflTransGen Step adev (adev.inStarted id rate) ∧
      (adev.inStarted id rate).InFree id := by
  unfold Adev.inStarted
  split
  · rename_i stream hin
    split
    · rename_i hstandby
      refine ⟨(Section.single (.startInputBegin id) ⟨h, fun stream' hin' => ?_⟩).trans
        (Section.single (.startInputEnd id rate) trivial), Adev.InFree.startInputEnd rate⟩
      rw [hin, Option.some_inj] at hin'
      exact hin' ▸ hstandby
    · exact ⟨.refl, h⟩
  · exact ⟨.refl, h⟩

theorem inRead_run (h : adev.InFree id) (rate : Option Nat) :
    Relation.ReflTransGen Step adev (adev.inRead id rate) :=
  (inReopened_run h).1.trans (inStarted_run (inReopened_run h).2 rate).1

theorem inAidlStart_run (h : adev.InFree id) (rate : Option Nat) (ok : Bool) :
    Relation.ReflTransGen Step adev (adev.inAidlStart id rate ok) := by
  have hstarted := inStarted_run h rate
  unfold Adev.inAidlStart
  dsimp only
  split
  · exact hstarted.1
  · exact hstarted.1.trans (Section.single (.inStandby id) hstarted.2)

theorem inputRoute_run (h : adev.InFree id) (mask : Mask) :
    Relation.ReflTransGen Step adev (adev.inputRoute id mask) := by
  have hrouted := Section.single (.inSetRoute id mask) h
  have hfree : (adev.inSetRoute id mask).2 = false → (adev.inSetRoute id mask).1.InFree id := by
    unfold Adev.inSetRoute
    split
    · nofun
    · dsimp only
      split_ifs
      · nofun
      · exact fun _ => h.modifyIn (fun _ => rfl) fun _ hstarting => hstarting
      · nofun
  change Relation.ReflTransGen Step adev (adev.inSetRoute id mask).1 at hrouted
  unfold Adev.inputRoute
  generalize adev.inSetRoute id mask = routed at hrouted hfree
  obtain ⟨routed, kept⟩ := routed
  cases kept with
  | true => exact hrouted
  | false => exact hrouted.trans (Section.single (.inStandby id) (hfree rfl))

end EntryPoints

end Mindone.Audio
