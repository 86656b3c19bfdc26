import Mathlib.Logic.Relation
import Mindone.Audio.Device

/-!
# Mindone.Audio.Ownership

Who owns the endpoints. The `Account` of a device keeps of its state what the counts are about:
of a stream whether it plays and where to, the endpoints of the call, the counts, and the
microphone that is routed. It is **consistent** when every count is the number of its owners.
Each function of the HAL moves an account in one of a few ways (`moveOut`, `moveIn`, `call`), and
each of these keeps it consistent; so it is consistent in every state that any interleaving of
entry points reaches, whatever the hardware answers.
-/

namespace Mindone.Audio

open Mindone.Lib

/-! ### The account of a device -/

/-- What the counts are about in an output stream. -/
structure OutUse where
  id : Nat
  routed : Endpoint
  standby : Bool
  starting : Option Endpoint

/-- The stream is an owner of an endpoint. -/
def OutUse.uses (u : OutUse) (d : Endpoint) : Bool := !u.standby && decide (u.routed = d)

/-- What the counts are about in an input stream. -/
structure InUse where
  id : Nat
  routed : InDevice
  standby : Bool
  starting : Option InDevice

/-- The stream is an owner of a microphone: it records from it, or it is being opened and the
microphone was routed before. -/
def InUse.uses (u : InUse) (d : InDevice) : Bool :=
  (!u.standby && decide (u.routed = d)) || (decide (u.starting = some d) && decide (d ≠ .sco))

structure Account where
  outs : List OutUse
  ins : List InUse
  inCall : Bool
  voiceOut : Endpoint
  voiceIn : InDevice
  outUsers : EpUsers
  inUsers : InDevice → Int
  inputRouted : InDevice
  warned : Bool

def StreamOut.use (out : StreamOut) : OutUse := ⟨out.id, out.routedDevice, out.standby, out.starting⟩

def StreamIn.use (stream : StreamIn) : InUse :=
  ⟨stream.id, stream.routedDevice, stream.standby, stream.starting⟩

def Adev.account (adev : Adev) : Account where
  outs := adev.outs.map StreamOut.use
  ins := adev.ins.map StreamIn.use
  inCall := adev.inCall
  voiceOut := adev.voiceOutDevice
  voiceIn := adev.voiceInDevice
  outUsers := adev.outEpUsers
  inUsers := adev.inEpUsers
  inputRouted := adev.inputRoutedDevice
  warned := adev.warned

/-- A stream that is not opened has no endpoint, one that plays has one and is not being opened,
and no absent endpoint is opened. -/
structure OutUse.Settled (u : OutUse) : Prop where
  idle : u.standby = true → u.routed = .none
  playing : u.standby = false → u.routed ≠ .none ∧ u.starting = .none
  starting : u.starting ≠ some .none

structure InUse.Settled (u : InUse) : Prop where
  idle : u.standby = true → u.routed = .none
  recording : u.standby = false → u.routed ≠ .none ∧ u.starting = .none
  starting : u.starting ≠ some .none

/-- **Every count is the number of its owners.** -/
structure Account.Consistent (a : Account) : Prop where
  outIds : (a.outs.map (·.id)).Nodup
  inIds : (a.ins.map (·.id)).Nodup
  outSettled : ∀ u ∈ a.outs, u.Settled
  inSettled : ∀ u ∈ a.ins, u.Settled
  idleCall : a.inCall = false → a.voiceOut = .none ∧ a.voiceIn = .none
  call : a.inCall = true → a.voiceOut ≠ .none ∧ a.voiceIn = Adev.voiceInputFor a.voiceOut
  outUsers : ∀ d, d ≠ .none → d ≠ .sco →
    a.outUsers d = countWhere (·.uses d) a.outs + one (decide (a.voiceOut = d))
  scoUsers : a.outUsers .sco = one (decide (a.voiceOut = .sco))
  inUsers : ∀ d, d ≠ .none →
    a.inUsers d = countWhere (·.uses d) a.ins + one (decide (a.voiceIn = d))
  selected : a.inputRouted = Adev.selectedInput a.voiceIn a.inUsers
  warned : a.warned = false

/-! ### The ways in which an account moves -/

section Moves

variable {a : Account}

/-- The owner of an endpoint makes its count positive. -/
theorem Account.Consistent.outUsers_pos (h : a.Consistent) {u : OutUse} (hu : u ∈ a.outs)
    {d : Endpoint} (hd : u.uses d = true) (hnone : d ≠ .none) (hsco : d ≠ .sco) :
    0 < a.outUsers d := by
  have hcount := count_pos (p := (·.uses d)) hu hd
  rw [h.outUsers d hnone hsco]
  unfold one
  split <;> omega

theorem Account.Consistent.inUsers_pos (h : a.Consistent) {u : InUse} (hu : u ∈ a.ins)
    {d : InDevice} (hd : u.uses d = true) (hnone : d ≠ .none) : 0 < a.inUsers d := by
  have hcount := count_pos (p := (·.uses d)) hu hd
  rw [h.inUsers d hnone]
  unfold one
  split <;> omega

/-- **An output stream changes**, and the counts with it. -/
theorem Account.Consistent.moveOut (h : a.Consistent) {u : OutUse} (hu : u ∈ a.outs)
    {f : OutUse → OutUse} (hid : ∀ x, (f x).id = x.id) (hsettled : (f u).Settled) {users : EpUsers}
    (husers : ∀ d, d ≠ .none → d ≠ .sco →
      users d = a.outUsers d - one (u.uses d) + one ((f u).uses d))
    (hsco : users .sco = a.outUsers .sco) :
    Account.Consistent { a with outs := modifyKey (·.id) u.id f a.outs, outUsers := users } := by
  refine { h with
    outIds := ?_, outSettled := ?_, outUsers := ?_, scoUsers := hsco.trans h.scoUsers }
  · rw [map_key_modifyKey hid]
    exact h.outIds
  · intro x hx
    rcases mem_modifyKey hx with ⟨hx, -⟩ | ⟨y, hy, hyid, rfl⟩
    · exact h.outSettled x hx
    · rw [eq_of_key h.outIds hy hu hyid]
      exact hsettled
  · intro d hnone hd
    show users d = countWhere (·.uses d) (modifyKey (·.id) u.id f a.outs) + one (decide (a.voiceOut = d))
    rw [husers d hnone hd, h.outUsers d hnone hd, count_modifyKey _ h.outIds hu rfl]
    omega

/-- **An input stream changes**, and the counts and the microphone with it. -/
theorem Account.Consistent.moveIn (h : a.Consistent) {u : InUse} (hu : u ∈ a.ins)
    {f : InUse → InUse} (hid : ∀ x, (f x).id = x.id) (hsettled : (f u).Settled)
    {users : InDevice → Int}
    (husers : ∀ d, d ≠ .none → users d = a.inUsers d - one (u.uses d) + one ((f u).uses d)) :
    Account.Consistent { a with
      ins := modifyKey (·.id) u.id f a.ins
      inUsers := users
      inputRouted := Adev.selectedInput a.voiceIn users } := by
  refine { h with
    inIds := ?_, inSettled := ?_, inUsers := ?_, selected := rfl }
  · rw [map_key_modifyKey hid]
    exact h.inIds
  · intro x hx
    rcases mem_modifyKey hx with ⟨hx, -⟩ | ⟨y, hy, hyid, rfl⟩
    · exact h.inSettled x hx
    · rw [eq_of_key h.inIds hy hu hyid]
      exact hsettled
  · intro d hnone
    show users d = countWhere (·.uses d) (modifyKey (·.id) u.id f a.ins) + one (decide (a.voiceIn = d))
    rw [husers d hnone, h.inUsers d hnone, count_modifyKey _ h.inIds hu rfl]
    omega

/-- **The call moves** from its endpoints to others, or ends. -/
theorem Account.Consistent.moveCall (h : a.Consistent) {inCall : Bool} {voiceOut : Endpoint}
    {voiceIn : InDevice} (hidle : inCall = false → voiceOut = .none ∧ voiceIn = .none)
    (hcall : inCall = true → voiceOut ≠ .none ∧ voiceIn = Adev.voiceInputFor voiceOut)
    {outUsers : EpUsers} {inUsers : InDevice → Int}
    (hout : ∀ d, d ≠ .none →
      outUsers d = a.outUsers d - one (decide (a.voiceOut = d)) + one (decide (voiceOut = d)))
    (hin : ∀ d, d ≠ .none →
      inUsers d = a.inUsers d - one (decide (a.voiceIn = d)) + one (decide (voiceIn = d))) :
    Account.Consistent { a with
      inCall := inCall
      voiceOut := voiceOut
      voiceIn := voiceIn
      outUsers := outUsers
      inUsers := inUsers
      inputRouted := Adev.selectedInput voiceIn inUsers } := by
  refine { h with
    idleCall := hidle, call := hcall, outUsers := ?_, scoUsers := ?_, inUsers := ?_,
    selected := rfl }
  · intro d hnone hsco
    show outUsers d = countWhere (·.uses d) a.outs + one (decide (voiceOut = d))
    rw [hout d hnone, h.outUsers d hnone hsco]
    omega
  · show outUsers .sco = one (decide (voiceOut = .sco))
    rw [hout .sco nofun, h.scoUsers]
    omega
  · intro d hnone
    show inUsers d = countWhere (·.uses d) a.ins + one (decide (voiceIn = d))
    rw [hin d hnone, h.inUsers d hnone]
    omega

end Moves

/-! ### What the functions do to the account -/

section Effects

variable {users : EpUsers}

/-- A release takes one owner from its endpoint. -/
theorem endpointRelease_users {d : Endpoint} (h : d = .none ∨ 0 < users d) {e : Endpoint}
    (he : e ≠ .none) : (endpointRelease users d).1 e = users e - one (decide (d = e)) := by
  unfold endpointRelease
  rw [one_decide]
  split
  · rename_i hd
    rw [if_neg (by rw [hd]; exact Ne.symm he)]
    exact (Int.sub_zero _).symm
  rename_i hd
  have hpos : 0 < users d := h.resolve_left hd
  have hdecr : Function.update users d (users d - 1) e = users e - if d = e then 1 else 0 := by
    by_cases hde : d = e
    · subst hde
      rw [Function.update_self, if_pos rfl]
    · rw [Function.update_of_ne (Ne.symm hde), if_neg hde]
      omega
  rw [if_neg (by omega)]
  dsimp only
  split
  · exact hdecr
  split
  · exact hdecr
  · exact hdecr

theorem endpointAcquire_users {d e : Endpoint} (he : e ≠ .none) :
    (endpointAcquire users d).1 e = users e + one (decide (d = e)) := by
  unfold endpointAcquire
  rw [one_decide]
  split
  · rename_i hd
    rw [if_neg (by rw [hd]; exact Ne.symm he)]
    exact (Int.add_zero _).symm
  have hincr : Function.update users d (users d + 1) e = users e + if d = e then 1 else 0 := by
    by_cases hde : d = e
    · subst hde
      rw [Function.update_self, if_pos rfl]
    · rw [Function.update_of_ne (Ne.symm hde), if_neg hde]
      omega
  dsimp only
  split
  · exact hincr
  split
  · exact hincr
  · exact hincr

theorem applyOutputRoute_users {old new : Endpoint} (h : old = .none ∨ 0 < users old)
    {e : Endpoint} (he : e ≠ .none) :
    (applyOutputRoute users old new).1 e =
      users e - one (decide (old = e)) + one (decide (new = e)) := by
  unfold applyOutputRoute
  split
  · rename_i heq
    rw [heq]
    show users e = _
    omega
  · show (endpointAcquire (endpointRelease users old).1 new).1 e = _
    rw [endpointAcquire_users he, endpointRelease_users h he]

/-- The counts that `apply_input_route` leaves. -/
def inShift (users : InDevice → Int) (old new : InDevice) : InDevice → Int :=
  if old = new then users
  else
    let users := if old ≠ .none then Function.update users old (users old - 1) else users
    if new ≠ .none then Function.update users new (users new + 1) else users

/-- The counts after a shift from one input to another. -/
theorem inShift_apply {users : InDevice → Int} (old new : InDevice) {e : InDevice}
    (he : e ≠ .none) :
    inShift users old new e = users e - one (decide (old = e)) + one (decide (new = e)) := by
  unfold inShift
  rw [one_decide, one_decide]
  split
  · rename_i heq
    rw [heq]
    omega
  rename_i hne
  have hold : (if old ≠ .none then Function.update users old (users old - 1) else users) e =
      users e - if old = e then 1 else 0 := by
    by_cases hoe : old = e
    · subst hoe
      rw [if_pos he, Function.update_self, if_pos rfl]
    · rw [if_neg hoe]
      split
      · rw [Function.update_of_ne (Ne.symm hoe)]
        omega
      · omega
  dsimp only
  generalize (if old ≠ .none then Function.update users old (users old - 1) else users) = left
    at hold
  by_cases hen : new = e
  · subst hen
    rw [if_pos he, Function.update_self, hold, if_pos rfl]
  · rw [if_neg hen]
    split
    · rw [Function.update_of_ne (Ne.symm hen), hold]
      omega
    · rw [hold]
      omega

variable {adev : Adev}

theorem out?_some {id : Nat} {out : StreamOut} (h : adev.out? id = some out) :
    out ∈ adev.outs ∧ out.id = id := by
  unfold Adev.out? at h
  have hid := List.find?_some h
  exact ⟨List.mem_of_find?_eq_some h, beq_iff_eq.mp hid⟩

theorem in?_some {id : Nat} {stream : StreamIn} (h : adev.in? id = some stream) :
    stream ∈ adev.ins ∧ stream.id = id := by
  unfold Adev.in? at h
  have hid := List.find?_some h
  exact ⟨List.mem_of_find?_eq_some h, beq_iff_eq.mp hid⟩

theorem modifyOut_account (id : Nat) {f : StreamOut → StreamOut} {g : OutUse → OutUse}
    (h : ∀ out, (f out).use = g out.use) :
    (adev.modifyOut id f).account =
      { adev.account with outs := modifyKey (·.id) id g adev.account.outs } := by
  unfold Adev.modifyOut Adev.account modifyKey
  simp only [List.map_map]
  congr 1
  refine List.map_congr_left fun out _ => ?_
  show (if out.id = id then f out else out).use = if out.id = id then g out.use else out.use
  by_cases hid : out.id = id
  · rw [if_pos hid, if_pos hid, h]
  · rw [if_neg hid, if_neg hid]

theorem modifyIn_account (id : Nat) {f : StreamIn → StreamIn} {g : InUse → InUse}
    (h : ∀ stream, (f stream).use = g stream.use) :
    (adev.modifyIn id f).account =
      { adev.account with ins := modifyKey (·.id) id g adev.account.ins } := by
  unfold Adev.modifyIn Adev.account modifyKey
  simp only [List.map_map]
  congr 1
  refine List.map_congr_left fun stream _ => ?_
  show (if stream.id = id then f stream else stream).use =
    if stream.id = id then g stream.use else stream.use
  by_cases hid : stream.id = id
  · rw [if_pos hid, if_pos hid, h]
  · rw [if_neg hid, if_neg hid]

theorem modifyKey_id {α κ : Type} [DecidableEq κ] {key : α → κ} {k : κ} {xs : List α} :
    modifyKey key k (fun a => a) xs = xs := by
  unfold modifyKey
  conv_rhs => rw [← List.map_id xs]
  exact List.map_congr_left fun a _ => ite_self a

/-- A write to fields that the account does not keep. -/
theorem modifyOut_same (id : Nat) {f : StreamOut → StreamOut} (h : ∀ out, (f out).use = out.use) :
    (adev.modifyOut id f).account = adev.account := by
  rw [modifyOut_account id (g := fun u => u) h, modifyKey_id]

theorem modifyIn_same (id : Nat) {f : StreamIn → StreamIn}
    (h : ∀ stream, (f stream).use = stream.use) :
    (adev.modifyIn id f).account = adev.account := by
  rw [modifyIn_account id (g := fun u => u) h, modifyKey_id]

theorem applyDlCrossbar_account (out : StreamOut) :
    (adev.applyDlCrossbar out).account = adev.account := by
  unfold Adev.applyDlCrossbar
  split
  · rfl
  · exact modifyOut_same _ fun _ => rfl

theorem teardownDlCrossbar_account (out : StreamOut) :
    (adev.teardownDlCrossbar out).account = adev.account := by
  unfold Adev.teardownDlCrossbar
  split
  · rfl
  · exact modifyOut_same _ fun _ => rfl

/-- Releasing what is owned. -/
theorem endpointRelease_account {d : Endpoint} (h : d = .none ∨ 0 < adev.outEpUsers d) :
    (adev.endpointRelease d).account =
      { adev.account with outUsers := (endpointRelease adev.outEpUsers d).1 } := by
  have hwarned : (adev.warned || decide (d ≠ .none ∧ adev.outEpUsers d ≤ 0)) = adev.warned := by
    rw [decide_eq_false, Bool.or_false]
    rintro ⟨hnone, hle⟩
    have := h.resolve_left hnone
    omega
  unfold Adev.endpointRelease Adev.account
  dsimp only
  rw [hwarned]

theorem applyOutputRoute_account {old new : Endpoint} (h : old = .none ∨ 0 < adev.outEpUsers old) :
    (adev.applyOutputRoute old new).account =
      { adev.account with outUsers := (applyOutputRoute adev.outEpUsers old new).1 } := by
  unfold Adev.applyOutputRoute applyOutputRoute
  split
  · rfl
  · have hreleased := endpointRelease_account h
    show { (adev.endpointRelease old).account with
      outUsers := (endpointAcquire (adev.endpointRelease old).outEpUsers new).1 } = _
    rw [hreleased]
    rfl

/-- Releasing an owned microphone, with the selection kept up to date. -/
theorem applyInputRoute_account {old new : InDevice} (h : old = .none ∨ 0 < adev.inEpUsers old)
    (hselected : old = new →
      adev.inputRoutedDevice = Adev.selectedInput adev.voiceInDevice adev.inEpUsers) :
    (adev.applyInputRoute old new).account =
      { adev.account with
        inUsers := inShift adev.inEpUsers old new
        inputRouted := Adev.selectedInput adev.voiceInDevice (inShift adev.inEpUsers old new) } := by
  unfold Adev.applyInputRoute inShift
  by_cases heq : old = new
  · rw [if_pos heq, if_pos heq, ← hselected heq]
    rfl
  · rw [if_neg heq, if_neg heq, if_neg]
    · dsimp only
      generalize (if new ≠ .none then Function.update _ new _ else _) = users
      by_cases hsame : adev.inputRoutedDevice = Adev.selectedInput adev.voiceInDevice users
      · rw [if_pos hsame, ← hsame]
        rfl
      · rw [if_neg hsame]
        rfl
    · rintro ⟨hnone, hle⟩
      have := h.resolve_left hnone
      omega

end Effects

/-! ### Output streams -/

section Outs

variable {adev : Adev} {id : Nat}

/-- A stream that plays, and the count of its endpoint. -/
theorem playing {out : StreamOut} (h : adev.account.Consistent) (hout : adev.out? id = some out)
    (hplays : out.standby = false) :
    out.routedDevice ≠ .none ∧ out.starting = .none ∧
      (out.routedDevice ≠ .sco → 0 < adev.outEpUsers out.routedDevice) := by
  have hu : out.use ∈ adev.account.outs := List.mem_map_of_mem (out?_some hout).1
  obtain ⟨hrouted, hstarting⟩ := (h.outSettled _ hu).playing hplays
  refine ⟨hrouted, hstarting, fun hsco => h.outUsers_pos hu ?_ hrouted hsco⟩
  show (!out.standby && decide (out.routedDevice = out.routedDevice)) = true
  rw [hplays, decide_eq_true rfl]
  rfl

/-- **A change of a stream whose counts follow.** -/
theorem moveOut {out : StreamOut} (h : adev.account.Consistent) (hout : adev.out? id = some out)
    {adev' : Adev} {users : EpUsers}
    (hadev' : adev'.account = { adev.account with outUsers := users })
    {f : StreamOut → StreamOut} {g : OutUse → OutUse} (hfg : ∀ out, (f out).use = g out.use)
    (hid : ∀ x, (g x).id = x.id) (hsettled : (g out.use).Settled)
    (husers : ∀ d, d ≠ .none → d ≠ .sco →
      users d = adev.outEpUsers d - one (out.use.uses d) + one ((g out.use).uses d))
    (hsco : users .sco = adev.outEpUsers .sco) : (adev'.modifyOut id f).account.Consistent := by
  obtain ⟨hmem, rfl⟩ := out?_some hout
  rw [modifyOut_account _ hfg, hadev']
  exact h.moveOut (List.mem_map_of_mem hmem) hid hsettled husers hsco

/-- The counts stay. -/
theorem unmoved {adev' : Adev} (h : adev'.account = adev.account) :
    adev'.account = { adev.account with outUsers := adev.outEpUsers } := h

/-- The counts when a stream gives its endpoint back. -/
def freed (users : EpUsers) (d : Endpoint) : EpUsers :=
  if d ≠ .sco then (endpointRelease users d).1 else users

theorem freed_apply {users : EpUsers} {d e : Endpoint} (h : d ≠ .sco → 0 < users d)
    (he : e ≠ .none) (hsco : e ≠ .sco) : freed users d e = users e - one (decide (d = e)) := by
  unfold freed
  split
  · rename_i hd
    exact endpointRelease_users (.inr (h hd)) he
  · rename_i hd
    rw [decide_eq_false (by rw [not_not.mp hd]; exact Ne.symm hsco), one_false]
    exact (Int.sub_zero _).symm

theorem freed_sco {users : EpUsers} {d : Endpoint} (h : d ≠ .sco → 0 < users d) :
    freed users d .sco = users .sco := by
  unfold freed
  split
  · rename_i hd
    rw [endpointRelease_users (.inr (h hd)) (by decide), decide_eq_false hd, one_false]
    exact Int.sub_zero _
  · rfl

theorem freed_account {d : Endpoint} (h : d ≠ .sco → 0 < adev.outEpUsers d) :
    (if d ≠ .sco then adev.endpointRelease d else adev).account =
      { adev.account with outUsers := freed adev.outEpUsers d } := by
  unfold freed
  split
  · rename_i hd
    exact endpointRelease_account (.inr (h hd))
  · rfl

/-- A stream that goes to standby gives its endpoint back. -/
theorem doOutStandby_consistent (h : adev.account.Consistent) :
    (adev.doOutStandby id).account.Consistent := by
  unfold Adev.doOutStandby
  cases hout : adev.out? id with
  | none => exact h
  | some out =>
      dsimp only
      cases hplays : out.standby with
      | true => exact h
      | false =>
          obtain ⟨hrouted, hstarting, hpos⟩ := playing h hout hplays
          have hstarting' : out.use.starting = .none := hstarting
          rw [if_neg Bool.false_ne_true]
          have hcrossbar := @teardownDlCrossbar_account adev out
          have husers : (adev.teardownDlCrossbar out).outEpUsers = adev.outEpUsers :=
            congrArg Account.outUsers hcrossbar
          have hfreed := @freed_account (adev.teardownDlCrossbar out) out.routedDevice (by rw [husers]; exact hpos)
          rw [hcrossbar, husers] at hfreed
          generalize (if out.routedDevice ≠ .sco
            then (adev.teardownDlCrossbar out).endpointRelease out.routedDevice
            else adev.teardownDlCrossbar out) = released at hfreed
          have hactive : (if released.activeOut = some id
              then { released with activeOut := .none } else released).account =
                released.account := by
            split
            · rfl
            · rfl
          refine moveOut h hout (hactive.trans hfreed) (g := fun u =>
            { u with routed := .none, standby := true }) (fun _ => rfl) (fun _ => rfl) ?_ ?_ ?_
          · exact ⟨fun _ => rfl, nofun, by dsimp only; rw [hstarting']; nofun⟩
          · intro d hnone hsco
            rw [freed_apply hpos hnone hsco]
            show _ = _ - one (!out.standby && decide (out.routedDevice = d)) + 0
            rw [hplays, Int.add_zero]
            rfl
          · exact freed_sco hpos

theorem outputDeviceFromMask_ne_none (mask : Mask) : outputDeviceFromMask mask ≠ .none := by
  unfold outputDeviceFromMask
  split_ifs <;> nofun

/-- A stream that plays goes from one endpoint to another one of the same kind. -/
theorem reroute_consistent {out : StreamOut} (h : adev.account.Consistent)
    (hout : adev.out? id = some out) (hplays : out.standby = false) {new : Endpoint}
    (hnew : new ≠ .none) (hkind : new = .sco ↔ out.routedDevice = .sco)
    {f : StreamOut → StreamOut}
    (hf : ∀ out, (f out).use = { out.use with routed := new }) :
    ((adev.applyOutputRoute out.routedDevice new).modifyOut id f).account.Consistent := by
  obtain ⟨hrouted, hstarting, hpos⟩ := playing h hout hplays
  have hstarting' : out.use.starting = .none := hstarting
  have hsettled : OutUse.Settled { out.use with routed := new } := by
    refine ⟨fun hstandby => ?_, fun _ => ⟨hnew, hstarting'⟩, by dsimp only; rw [hstarting']; nofun⟩
    exact absurd (hplays.symm.trans hstandby) Bool.false_ne_true
  -- A stream that plays uses the endpoint it is routed to, before and after.
  have huses : ∀ d, out.use.uses d = decide (out.routedDevice = d) := by
    intro d
    show (!out.standby && _) = _
    rw [hplays]
    rfl
  have huses' : ∀ d, OutUse.uses { out.use with routed := new } d = decide (new = d) := by
    intro d
    show (!out.standby && _) = _
    rw [hplays]
    rfl
  -- From SCO it can go to SCO only, where nothing is counted.
  by_cases hsco : out.routedDevice = .sco
  · have hsame : adev.applyOutputRoute out.routedDevice new = adev := by
      unfold Adev.applyOutputRoute
      rw [if_pos (hsco.trans (hkind.mpr hsco).symm)]
    rw [hsame]
    refine moveOut h hout (unmoved rfl) (g := fun u => { u with routed := new }) hf
      (fun _ => rfl) hsettled ?_ rfl
    intro d hnone hd
    rw [huses, huses', hsco, hkind.mpr hsco]
    omega
  -- Otherwise one count goes down and another up.
  · have hold : out.routedDevice = .none ∨ 0 < adev.outEpUsers out.routedDevice := .inr (hpos hsco)
    refine moveOut h hout (applyOutputRoute_account hold) (g := fun u => { u with routed := new })
      hf (fun _ => rfl) hsettled ?_ ?_
    · intro d hnone hd
      rw [applyOutputRoute_users hold hnone, huses, huses']
    · rw [applyOutputRoute_users hold (by decide), decide_eq_false hsco,
        decide_eq_false (mt hkind.mp hsco)]
      show _ - 0 + 0 = _
      omega

/-- Both are SCO, or none of them is. -/
theorem kind_iff {p q : Prop} [Decidable p] [Decidable q] (h : ¬ (decide p != decide q) = true) :
    p ↔ q := by
  rw [bne_iff_ne, not_not] at h
  exact decide_eq_decide.mp h

/-- A write to fields that the account does not keep. -/
theorem modifyOut_consistent (h : adev.account.Consistent) {f : StreamOut → StreamOut}
    (hf : ∀ out, (f out).use = out.use) : (adev.modifyOut id f).account.Consistent := by
  rw [modifyOut_same _ hf]
  exact h

theorem outSetRoute_consistent (h : adev.account.Consistent) (mask : Mask) :
    (adev.outSetRoute id mask).1.account.Consistent := by
  unfold Adev.outSetRoute
  cases hout : adev.out? id with
  | none => exact h
  | some out =>
      dsimp only
      cases hplays : out.standby with
      | true =>
          rw [if_pos rfl]
          exact modifyOut_consistent h fun _ => rfl
      | false =>
          rw [if_neg Bool.false_ne_true]
          split
          · exact h
          · rename_i hkind
            exact reroute_consistent h hout hplays (outputDeviceFromMask_ne_none mask)
              (kind_iff hkind) fun _ => rfl

/-- The beginning of a start keeps the counts right. -/
theorem startOutputBegin_consistent (h : adev.account.Consistent)
    (hidle : ∀ out, adev.out? id = some out → out.standby = true) :
    (adev.startOutputBegin id).account.Consistent := by
  unfold Adev.startOutputBegin
  cases hout : adev.out? id with
  | none => exact h
  | some out =>
      dsimp only
      have hstandby : out.use.standby = true := hidle out hout
      have hnew := outputDeviceFromMask_ne_none out.device
      generalize outputDeviceFromMask out.device = new at hnew
      have hsame : (if new ≠ .sco then adev.applyDlCrossbar out else adev).account =
          adev.account := by
        split
        · exact applyDlCrossbar_account out
        · rfl
      have hu : out.use ∈ adev.account.outs := List.mem_map_of_mem (out?_some hout).1
      have hsettled := h.outSettled _ hu
      refine moveOut h hout (unmoved hsame)
        (g := fun u => { u with starting := some new }) (fun _ => rfl) (fun _ => rfl) ?_ ?_ rfl
      · refine ⟨hsettled.idle, fun hplays => ?_, ?_⟩
        · exact absurd (hstandby.symm.trans hplays) (by decide)
        · show some new ≠ some .none
          exact fun heq => hnew (Option.some.inj heq)
      · intro d _ _
        show _ = _ - one (out.use.uses d) + one (out.use.uses d)
        omega

theorem modifyOut_modifyOut {f g : StreamOut → StreamOut} (hf : ∀ out, (f out).id = out.id) :
    (adev.modifyOut id f).modifyOut id g = adev.modifyOut id fun out => g (f out) := by
  unfold Adev.modifyOut
  dsimp only
  rw [modifyKey_modifyKey hf]

/-- The end of a start gives the endpoint to the stream or back. -/
theorem startOutputEnd_consistent (h : adev.account.Consistent) (rate : Option Nat) :
    (adev.startOutputEnd id rate).account.Consistent := by
  unfold Adev.startOutputEnd
  cases hout : adev.out? id with
  | none => exact h
  | some out =>
      dsimp only
      cases hstarting : out.starting with
      | none => exact h
      | some new =>
          dsimp only
          have hu : out.use ∈ adev.account.outs := List.mem_map_of_mem (out?_some hout).1
          have hsettled := h.outSettled _ hu
          have hstarting' : out.use.starting = some new := hstarting
          have hstandby : out.standby = true := by
            by_contra hplays
            have hnone := (hsettled.playing (Bool.eq_false_of_not_eq_true hplays)).2
            rw [hstarting'] at hnone
            cases hnone
          have hnew : new ≠ .none := by
            rintro rfl
            exact hsettled.starting hstarting'
          -- a stream in standby uses nothing, so the counts stay when it fails
          have huses : ∀ d, out.use.uses d = false := by
            intro d
            show (!out.standby && _) = false
            rw [hstandby]
            rfl
          have hfailed : ((adev.teardownDlCrossbar out).modifyOut id
              fun out => { out with starting := .none }).account.Consistent := by
            refine moveOut h hout (unmoved (teardownDlCrossbar_account out))
              (g := fun u => { u with starting := .none }) (fun _ => rfl) (fun _ => rfl) ?_ ?_ rfl
            · exact ⟨hsettled.idle, fun hplays => absurd (hstandby.symm.trans hplays) (by decide),
                nofun⟩
            · intro d _ _
              show _ = _ - one (out.use.uses d) + one (out.use.uses d)
              omega
          cases rate with
          | none => exact hfailed
          | some rate =>
              dsimp only
              split
              · exact hfailed
              rw [modifyOut_modifyOut]
              swap
              · exact fun _ => rfl
              have hsettled' : OutUse.Settled
                  { out.use with routed := new, standby := false, starting := .none } :=
                ⟨nofun, fun _ => ⟨hnew, rfl⟩, nofun⟩
              -- SCO is counted by its own counter, which the stream's flag is for
              by_cases hsco : new = .sco
              · rw [if_pos hsco]
                refine moveOut h hout (unmoved rfl) (g := fun u =>
                  { u with routed := new, standby := false, starting := .none }) (fun _ => rfl)
                  (fun _ => rfl) hsettled' ?_ rfl
                intro d _ hd
                rw [huses]
                show _ = _ - 0 + one (decide (new = d))
                rw [decide_eq_false (by rw [hsco]; exact Ne.symm hd), one_false]
                omega
              · rw [if_neg hsco]
                have haccount := @applyOutputRoute_account adev .none new (.inl rfl)
                refine moveOut h hout haccount (g := fun u =>
                  { u with routed := new, standby := false, starting := .none }) (fun _ => rfl)
                  (fun _ => rfl) hsettled' ?_ ?_
                · intro d hnone _
                  rw [applyOutputRoute_users (.inl rfl) hnone, huses,
                    decide_eq_false (Ne.symm hnone)]
                  rfl
                · rw [applyOutputRoute_users (.inl rfl) (by decide), decide_eq_false hsco]
                  show _ - 0 + 0 = _
                  omega

/-- A new stream at an address of its own. -/
theorem openOutputStream_consistent (h : adev.account.Consistent) (hnew : adev.out? id = none)
    (handle : Int) (devices : Mask) (pcm : PcmDevice) :
    (adev.openOutputStream id handle devices pcm).account.Consistent := by
  have houts : (adev.openOutputStream id handle devices pcm).account.outs =
      adev.account.outs ++ [⟨id, .none, true, .none⟩] := List.map_append
  have hfresh : id ∉ adev.account.outs.map (·.id) := by
    intro hmem
    obtain ⟨u, hu, rfl⟩ := List.mem_map.mp hmem
    obtain ⟨out, hout, rfl⟩ := List.mem_map.mp hu
    have := List.find?_eq_none.mp hnew out hout
    exact this (beq_self_eq_true _)
  refine { h with outIds := ?_, outSettled := ?_, outUsers := ?_ }
  · rw [houts, List.map_append, List.nodup_append]
    refine ⟨h.outIds, List.nodup_singleton _, ?_⟩
    intro x hx y hy
    rw [List.map_singleton, List.mem_singleton] at hy
    rintro rfl
    rw [hy] at hx
    exact hfresh hx
  · intro u hu
    rw [houts, List.mem_append, List.mem_singleton] at hu
    rcases hu with hu | rfl
    · exact h.outSettled u hu
    · exact ⟨fun _ => rfl, nofun, nofun⟩
  · intro d hnone hsco
    rw [houts, count_append]
    show adev.account.outUsers d = _ + 0 + one (decide (adev.account.voiceOut = d))
    rw [h.outUsers d hnone hsco]
    omega

/-- The stream has no endpoint then. -/
theorem doOutStandby_standby (h : adev.account.Consistent) {out : StreamOut}
    (hout : out ∈ (adev.doOutStandby id).outs) (hid : out.id = id) : out.standby = true := by
  unfold Adev.doOutStandby at hout
  cases hfound : adev.out? id with
  | none =>
      rw [hfound] at hout
      have := List.find?_eq_none.mp hfound out hout
      exact absurd (beq_iff_eq.mpr hid) this
  | some found =>
      rw [hfound] at hout
      dsimp only at hout
      cases hplays : found.standby with
      | true =>
          rw [hplays, if_pos rfl] at hout
          obtain ⟨hmem, hfid⟩ := out?_some hfound
          have hids : (adev.outs.map (·.id)).Nodup := by
            have := h.outIds
            rwa [show adev.account.outs.map (·.id) = adev.outs.map (·.id) from List.map_map] at this
          rw [eq_of_key hids hout hmem (hid.trans hfid.symm)]
          exact hplays
      | false =>
          rw [hplays, if_neg Bool.false_ne_true] at hout
          rcases mem_modifyKey hout with ⟨-, hne⟩ | ⟨a, -, -, rfl⟩
          · exact absurd hid hne
          · rfl

/-- A stream that is closed goes to standby first. -/
theorem closeOutputStream_consistent (h : adev.account.Consistent) :
    (adev.closeOutputStream id).account.Consistent := by
  have hstandby := @doOutStandby_consistent adev id h
  have hidle : ∀ out ∈ (adev.doOutStandby id).outs, out.id = id → out.standby = true :=
    fun out hout hid => doOutStandby_standby h hout hid
  unfold Adev.closeOutputStream
  generalize adev.doOutStandby id = adev' at hstandby hidle
  dsimp only
  have houts : Adev.account { adev' with outs := adev'.outs.filter fun out => out.id != id } =
      { adev'.account with outs := adev'.account.outs.filter fun u => u.id != id } := by
    unfold Adev.account
    rw [List.filter_map]
    rfl
  rw [houts]
  refine { hstandby with outIds := ?_, outSettled := ?_, outUsers := ?_ }
  · exact hstandby.outIds.sublist (List.filter_sublist.map _)
  · exact fun u hu => hstandby.outSettled u (List.mem_of_mem_filter hu)
  · intro d hnone hsco
    show adev'.account.outUsers d = countWhere (·.uses d) (adev'.account.outs.filter _) + _
    rw [count_filter, ← hstandby.outUsers d hnone hsco]
    intro u hu hid
    obtain ⟨out, hout, rfl⟩ := List.mem_map.mp hu
    rw [bne_eq_false_iff_eq] at hid
    show (!out.standby && _) = false
    rw [hidle out hout hid]
    rfl

theorem patchOut_consistent (h : adev.account.Consistent) (sources : List Adev.Port) (mask : Mask) :
    (adev.patchOut sources mask id).account.Consistent := by
  unfold Adev.patchOut
  cases hout : adev.out? id with
  | none => exact h
  | some out =>
      dsimp only
      split
      · exact h
      refine modifyOut_consistent ?_ fun _ => rfl
      split
      · rename_i hplays
        have hstandby : out.standby = false := Bool.not_eq_true' _ ▸ hplays.1
        split
        · exact modifyOut_consistent h fun _ => rfl
        rename_i hkind
        split
        · exact reroute_consistent h hout hstandby (outputDeviceFromMask_ne_none mask)
            (kind_iff hkind) fun _ => rfl
        · exact h
      · exact h

end Outs

/-! ### Input streams -/

/-- The account when a microphone takes the place of another one. -/
def Account.shifted (a : Account) (old new : InDevice) : Account :=
  { a with
    inUsers := inShift a.inUsers old new
    inputRouted := Adev.selectedInput a.voiceIn (inShift a.inUsers old new) }

section Ins

variable {adev : Adev} {id : Nat}

theorem applyInputRoute_shifted (h : adev.account.Consistent) {old new : InDevice}
    (hold : old = .none ∨ 0 < adev.inEpUsers old) :
    (adev.applyInputRoute old new).account = adev.account.shifted old new :=
  applyInputRoute_account hold fun _ => h.selected

/-- Nothing moves. -/
theorem shifted_none (h : adev.account.Consistent) :
    adev.account = adev.account.shifted .none .none := by
  have hsame : inShift adev.account.inUsers .none .none = adev.account.inUsers := if_pos rfl
  unfold Account.shifted
  rw [hsame, ← h.selected]

/-- A stream that records, and the count of its microphone. -/
theorem recording {stream : StreamIn} (h : adev.account.Consistent)
    (hin : adev.in? id = some stream) (hplays : stream.standby = false) :
    stream.routedDevice ≠ .none ∧ stream.starting = .none ∧
      0 < adev.inEpUsers stream.routedDevice := by
  have hu : stream.use ∈ adev.account.ins := List.mem_map_of_mem (in?_some hin).1
  obtain ⟨hrouted, hstarting⟩ := (h.inSettled _ hu).recording hplays
  refine ⟨hrouted, hstarting, h.inUsers_pos hu ?_ hrouted⟩
  show (!stream.standby && decide (stream.routedDevice = stream.routedDevice) || _) = true
  rw [hplays, decide_eq_true rfl]
  rfl

/-- **A change of a stream whose microphone follows.** -/
theorem moveIn {stream : StreamIn} (h : adev.account.Consistent) (hin : adev.in? id = some stream)
    {adev' : Adev} {old new : InDevice} (hadev' : adev'.account = adev.account.shifted old new)
    {f : StreamIn → StreamIn} {g : InUse → InUse} (hfg : ∀ stream, (f stream).use = g stream.use)
    (hid : ∀ x, (g x).id = x.id) (hsettled : (g stream.use).Settled)
    (huses : ∀ d, d ≠ .none → one ((g stream.use).uses d) - one (stream.use.uses d) =
      one (decide (new = d)) - one (decide (old = d))) :
    (adev'.modifyIn id f).account.Consistent := by
  obtain ⟨hmem, rfl⟩ := in?_some hin
  rw [modifyIn_account _ hfg, hadev']
  refine h.moveIn (List.mem_map_of_mem hmem) hid hsettled fun d hd => ?_
  have hstep := huses d hd
  show inShift adev.account.inUsers old new d = _
  rw [inShift_apply old new hd]
  omega

/-- A write to fields that the account does not keep. -/
theorem modifyIn_consistent (h : adev.account.Consistent) {f : StreamIn → StreamIn}
    (hf : ∀ stream, (f stream).use = stream.use) : (adev.modifyIn id f).account.Consistent := by
  rw [modifyIn_same _ hf]
  exact h

/-- What a stream uses that records. -/
theorem uses_recording {u : InUse} (hplays : u.standby = false) (hstarting : u.starting = .none)
    (d : InDevice) : u.uses d = decide (u.routed = d) := by
  unfold InUse.uses
  rw [hplays, hstarting, decide_eq_false (by nofun : (none : Option InDevice) ≠ some d)]
  exact Bool.or_false _

/-- What a stream uses that does not record. -/
theorem uses_idle {u : InUse} (hstandby : u.standby = true) (d : InDevice) :
    u.uses d = (decide (u.starting = some d) && decide (d ≠ .sco)) := by
  unfold InUse.uses
  rw [hstandby]
  rfl

/-- A stream that goes to standby gives its endpoint back. -/
theorem doInStandby_consistent (h : adev.account.Consistent) :
    (adev.doInStandby id).account.Consistent := by
  unfold Adev.doInStandby
  cases hin : adev.in? id with
  | none => exact h
  | some stream =>
      dsimp only
      cases hplays : stream.standby with
      | true => exact h
      | false =>
          obtain ⟨hrouted, hstarting, hpos⟩ := recording h hin hplays
          have hstarting' : stream.use.starting = .none := hstarting
          rw [if_neg Bool.false_ne_true]
          have hshift := @applyInputRoute_shifted adev h _ .none (.inr hpos)
          unfold Adev.teardownInputRoute
          generalize adev.applyInputRoute stream.routedDevice .none = released at hshift
          have hactive : (if released.activeIn = some id
              then { released with activeIn := .none } else released).account =
                released.account := by
            split
            · rfl
            · rfl
          refine moveIn h hin (hactive.trans hshift) (g := fun u =>
            { u with routed := .none, standby := true }) (fun _ => rfl) (fun _ => rfl) ?_ ?_
          · exact ⟨fun _ => rfl, nofun, by dsimp only; rw [hstarting']; nofun⟩
          · intro d hd
            have hafter : InUse.uses { stream.use with routed := .none, standby := true } d =
                false := by
              rw [uses_idle rfl]
              dsimp only
              rw [hstarting']
              rfl
            rw [hafter, uses_recording (u := stream.use) hplays hstarting,
              decide_eq_false (Ne.symm hd)]
            rfl

/-- A stream that records goes from one microphone to another one. -/
theorem rerouteIn_consistent {stream : StreamIn} (h : adev.account.Consistent)
    (hin : adev.in? id = some stream) (hplays : stream.standby = false) {new : InDevice}
    (hnew : new ≠ .none) {adev₁ : Adev} (hsame : adev₁.account = adev.account)
    {f : StreamIn → StreamIn} (hf : ∀ stream, (f stream).use = { stream.use with routed := new }) :
    ((adev₁.applyInputRoute stream.routedDevice new).modifyIn id f).account.Consistent := by
  obtain ⟨hrouted, hstarting, hpos⟩ := recording h hin hplays
  have hstarting' : stream.use.starting = .none := hstarting
  have hpos₁ : 0 < adev₁.inEpUsers stream.routedDevice := by
    have husers : adev₁.inEpUsers = adev.inEpUsers := congrArg Account.inUsers hsame
    rw [husers]
    exact hpos
  have hshift := @applyInputRoute_shifted adev₁ (by rw [hsame]; exact h) _ new (.inr hpos₁)
  rw [hsame] at hshift
  refine moveIn h hin hshift (g := fun u => { u with routed := new }) hf (fun _ => rfl) ?_ ?_
  · refine ⟨fun hstandby => ?_, fun _ => ⟨hnew, hstarting'⟩, by dsimp only; rw [hstarting']; nofun⟩
    exact absurd (hplays.symm.trans hstandby) Bool.false_ne_true
  · intro d _
    have hafter : InUse.uses { stream.use with routed := new } d = decide (new = d) :=
      uses_recording (by exact hplays) (by exact hstarting) d
    rw [hafter, uses_recording (u := stream.use) hplays hstarting]
    rfl

theorem inputDeviceFromMask_ne_none (mask : Mask) : inputDeviceFromMask mask ≠ .none := by
  unfold inputDeviceFromMask
  split_ifs <;> nofun

theorem inSetRoute_consistent (h : adev.account.Consistent) (mask : Mask) :
    (adev.inSetRoute id mask).1.account.Consistent := by
  unfold Adev.inSetRoute
  cases hin : adev.in? id with
  | none => exact h
  | some stream =>
      dsimp only
      have hsame : (adev.modifyIn id fun stream => { stream with device := mask }).account =
          adev.account := modifyIn_same _ fun _ => rfl
      cases hplays : stream.standby with
      | true =>
          rw [if_pos rfl, hsame]
          exact h
      | false =>
          rw [if_neg Bool.false_ne_true]
          split
          · rw [hsame]
            exact h
          · exact rerouteIn_consistent h hin hplays (inputDeviceFromMask_ne_none mask) hsame
              fun _ => rfl

/-- A patch of an input. -/
theorem patchIn_consistent (h : adev.account.Consistent) (sinks : List Adev.Port) (mask : Mask) :
    (adev.patchIn sinks mask id).account.Consistent := by
  unfold Adev.patchIn
  cases hin : adev.in? id with
  | none => exact h
  | some stream =>
      dsimp only
      have hsame : (adev.modifyIn id fun stream => { stream with device := mask }).account =
          adev.account := modifyIn_same _ fun _ => rfl
      have hmodified : (adev.modifyIn id fun stream =>
          { stream with device := mask }).account.Consistent := by
        rw [hsame]
        exact h
      split
      · exact h
      cases hplays : stream.standby with
      | true => exact hmodified
      | false =>
          rw [if_neg Bool.false_ne_true]
          split
          · exact modifyIn_consistent hmodified fun _ => rfl
          split
          · exact rerouteIn_consistent h hin hplays (inputDeviceFromMask_ne_none mask) hsame
              fun _ => rfl
          · exact hmodified

/-- What a stream uses that is being opened. -/
theorem uses_starting {u : InUse} (hstandby : u.standby = true) {new : InDevice}
    (hstarting : u.starting = some new) (d : InDevice) :
    u.uses d = (decide (new = d) && decide (d ≠ .sco)) := by
  rw [uses_idle hstandby, hstarting, decide_eq_decide.mpr Option.some_inj]

/-- SCO is not routed while it is opened. -/
theorem uses_started {new : InDevice} (hsco : new ≠ .sco) (d : InDevice) :
    (decide (new = d) && decide (d ≠ .sco)) = decide (new = d) := by
  by_cases hd : new = d
  · subst hd
    rw [decide_eq_true hsco, Bool.and_true]
  · rw [decide_eq_false hd, Bool.false_and]

/-- The beginning of a start keeps the counts right. -/
theorem startInputBegin_consistent (h : adev.account.Consistent)
    (hidle : ∀ stream, adev.in? id = some stream → stream.standby = true ∧ stream.starting = .none) :
    (adev.startInputBegin id).account.Consistent := by
  unfold Adev.startInputBegin
  cases hin : adev.in? id with
  | none => exact h
  | some stream =>
      dsimp only
      obtain ⟨hstandby, hstarting⟩ := hidle stream hin
      have hstandby' : stream.use.standby = true := hstandby
      have hstarting' : stream.use.starting = .none := hstarting
      have hnew := inputDeviceFromMask_ne_none stream.device
      generalize inputDeviceFromMask stream.device = new at hnew
      have hu : stream.use ∈ adev.account.ins := List.mem_map_of_mem (in?_some hin).1
      have hbefore : ∀ d, stream.use.uses d = false := by
        intro d
        rw [uses_idle hstandby', hstarting']
        rfl
      have hafter : ∀ d, InUse.uses { stream.use with starting := some new } d =
          (decide (new = d) && decide (d ≠ .sco)) := by
        exact uses_starting (by exact hstandby') rfl
      have hsettled : InUse.Settled { stream.use with starting := some new } := by
        refine ⟨(h.inSettled _ hu).idle, fun hplays => ?_, ?_⟩
        · exact absurd (hstandby'.symm.trans hplays) (by decide)
        · exact fun heq => hnew (Option.some.inj heq)
      by_cases hsco : new = .sco
      · rw [if_neg (not_not.mpr hsco)]
        refine moveIn h hin (shifted_none h)
          (g := fun u => { u with starting := some new }) (fun _ => rfl) (fun _ => rfl) hsettled ?_
        intro d _
        rw [hbefore, hafter, hsco]
        cases d <;> rfl
      · rw [if_pos hsco]
        refine moveIn h hin (applyInputRoute_shifted h (.inl rfl))
          (g := fun u => { u with starting := some new }) (fun _ => rfl) (fun _ => rfl) hsettled ?_
        intro d hd
        rw [hbefore, hafter, uses_started hsco, decide_eq_false (Ne.symm hd)]

theorem modifyIn_modifyIn {f g : StreamIn → StreamIn} (hf : ∀ stream, (f stream).id = stream.id) :
    (adev.modifyIn id f).modifyIn id g = adev.modifyIn id fun stream => g (f stream) := by
  unfold Adev.modifyIn
  dsimp only
  rw [modifyKey_modifyKey hf]

/-- The end of a start gives the endpoint to the stream or back. -/
theorem startInputEnd_consistent (h : adev.account.Consistent) (rate : Option Nat) :
    (adev.startInputEnd id rate).account.Consistent := by
  unfold Adev.startInputEnd
  cases hin : adev.in? id with
  | none => exact h
  | some stream =>
      dsimp only
      -- a stream that is not being opened is left alone
      cases hstarting : stream.starting with
      | none => exact h
      | some new =>
          dsimp only
          have hu : stream.use ∈ adev.account.ins := List.mem_map_of_mem (in?_some hin).1
          have hsettled := h.inSettled _ hu
          have hstarting' : stream.use.starting = some new := hstarting
          have hstandby : stream.use.standby = true := by
            by_contra hplays
            have hnone := (hsettled.recording ((Bool.not_eq_true _).mp hplays)).2
            rw [hstarting'] at hnone
            cases hnone
          have hnew : new ≠ .none := by
            rintro rfl
            exact hsettled.starting hstarting'
          -- the microphone was counted when the stream began to open
          have hpos : new ≠ .sco → 0 < adev.inEpUsers new := by
            intro hsco
            refine h.inUsers_pos hu ?_ hnew
            rw [uses_idle hstandby, hstarting', decide_eq_true rfl, decide_eq_true hsco]
            rfl
          have hbefore : ∀ d, stream.use.uses d = (decide (new = d) && decide (d ≠ .sco)) := by
            exact uses_starting hstandby hstarting'
          have hsettled₀ : InUse.Settled { stream.use with starting := .none } :=
            ⟨hsettled.idle, fun hplays => absurd (hstandby.symm.trans hplays) (by decide), nofun⟩
          -- a failure gives the microphone back
          have hfailed : ((if new ≠ .sco then adev.teardownInputRoute new else adev).modifyIn id
              fun stream => { stream with starting := .none }).account.Consistent := by
            -- SCO is counted only now
            by_cases hsco : new = .sco
            · rw [if_neg (not_not.mpr hsco)]
              refine moveIn h hin (shifted_none h) (g := fun u => { u with starting := .none })
                (fun _ => rfl) (fun _ => rfl) hsettled₀ ?_
              intro d _
              rw [hbefore, uses_idle (by exact hstandby), hsco]
              cases d <;> rfl
            · rw [if_pos hsco]
              refine moveIn h hin (applyInputRoute_shifted h (.inr (hpos hsco)))
                (g := fun u => { u with starting := .none })
                (fun _ => rfl) (fun _ => rfl) hsettled₀ ?_
              intro d hd
              rw [hbefore, uses_started hsco, uses_idle (by exact hstandby),
                decide_eq_false (Ne.symm hd)]
              rfl
          cases rate with
          | none => exact hfailed
          | some rate =>
              dsimp only
              split
              · exact hfailed
              rw [modifyIn_modifyIn]
              swap
              · exact fun _ => rfl
              have hsettled' : InUse.Settled
                  { stream.use with routed := new, standby := false, starting := .none } :=
                ⟨nofun, fun _ => ⟨hnew, rfl⟩, nofun⟩
              by_cases hsco : new = .sco
              · rw [if_pos hsco]
                refine moveIn h hin (@applyInputRoute_shifted adev h .none _ (.inl rfl))
                  (g := fun u => { u with routed := new, standby := false, starting := .none })
                  (fun _ => rfl) (fun _ => rfl) hsettled' ?_
                intro d hd
                rw [hbefore, uses_recording rfl rfl, hsco, decide_eq_false (Ne.symm hd)]
                cases d <;> rfl
              · rw [if_neg hsco]
                refine moveIn h hin (shifted_none h)
                  (g := fun u => { u with routed := new, standby := false, starting := .none })
                  (fun _ => rfl) (fun _ => rfl) hsettled' ?_
                intro d hd
                rw [hbefore, uses_started hsco, uses_recording rfl rfl, decide_eq_false (Ne.symm hd)]
                exact Int.sub_self _

/-- A new stream at an address of its own. -/
theorem openInputStream_consistent (h : adev.account.Consistent) (hnew : adev.in? id = .none)
    (handle : Int) (devices : Mask) :
    (adev.openInputStream id handle devices).account.Consistent := by
  unfold Adev.openInputStream
  split
  · exact h
  have hins : Adev.account { adev with
      ins := adev.ins ++ [⟨id, handle, devices, .none, false, true, .none⟩] } =
        { adev.account with ins := adev.account.ins ++ [⟨id, .none, true, .none⟩] } := by
    unfold Adev.account
    rw [List.map_append]
    rfl
  have hfresh : id ∉ adev.account.ins.map (·.id) := by
    intro hmem
    obtain ⟨u, hu, rfl⟩ := List.mem_map.mp hmem
    obtain ⟨stream, hstream, rfl⟩ := List.mem_map.mp hu
    exact List.find?_eq_none.mp hnew stream hstream (beq_self_eq_true _)
  rw [hins]
  refine { h with inIds := ?_, inSettled := ?_, inUsers := ?_ }
  · show ((adev.account.ins ++ _).map _).Nodup
    rw [List.map_append, List.nodup_append]
    refine ⟨h.inIds, List.nodup_singleton _, ?_⟩
    intro x hx y hy
    rw [List.map_singleton, List.mem_singleton] at hy
    rintro rfl
    rw [hy] at hx
    exact hfresh hx
  · intro u hu
    rcases List.mem_append.mp hu with hu | hu
    · exact h.inSettled u hu
    · rw [List.mem_singleton] at hu
      subst hu
      exact ⟨fun _ => rfl, nofun, nofun⟩
  · intro d hnone
    show _ = countWhere (·.uses d) (adev.account.ins ++ _) + _
    rw [count_append]
    show adev.account.inUsers d = _ + 0 + one (decide (adev.account.voiceIn = d))
    rw [h.inUsers d hnone]
    omega

/-- A route leaves the streams. -/
theorem applyInputRoute_ins (old new : InDevice) :
    (adev.applyInputRoute old new).ins = adev.ins := by
  unfold Adev.applyInputRoute
  dsimp only
  split_ifs <;> rfl

/-- The stream has no microphone then, if it was not being opened. -/
theorem doInStandby_idle (h : adev.account.Consistent)
    (hfree : ∀ stream, adev.in? id = some stream → stream.starting = .none) {stream : StreamIn}
    (hin : stream ∈ (adev.doInStandby id).ins) (hid : stream.id = id) :
    stream.standby = true ∧ stream.starting = .none := by
  have hids : (adev.ins.map (·.id)).Nodup := by
    have := h.inIds
    rwa [show adev.account.ins.map (·.id) = adev.ins.map (·.id) from List.map_map] at this
  unfold Adev.doInStandby at hin
  cases hfound : adev.in? id with
  | none =>
      rw [hfound] at hin
      have := List.find?_eq_none.mp hfound stream hin
      exact absurd (beq_iff_eq.mpr hid) this
  | some found =>
      rw [hfound] at hin
      dsimp only at hin
      obtain ⟨hmem, hfid⟩ := in?_some hfound
      cases hplays : found.standby with
      | true =>
          rw [hplays, if_pos rfl] at hin
          rw [eq_of_key hids hin hmem (hid.trans hfid.symm)]
          exact ⟨hplays, hfree found hfound⟩
      | false =>
          rw [hplays, if_neg Bool.false_ne_true] at hin
          have hsame : (adev.teardownInputRoute found.routedDevice).ins = adev.ins :=
            applyInputRoute_ins _ _
          rcases mem_modifyKey hin with ⟨-, hne⟩ | ⟨a, ha, haid, rfl⟩
          · exact absurd hid hne
          · have ha' : a ∈ adev.ins := by
              rw [← hsame]
              split at ha
              · exact ha
              · exact ha
            rw [eq_of_key hids ha' hmem (haid.trans hfid.symm)]
            exact ⟨rfl, hfree found hfound⟩

/-- A stream that is closed goes to standby first. -/
theorem closeInputStream_consistent (h : adev.account.Consistent)
    (hfree : ∀ stream, adev.in? id = some stream → stream.starting = .none) :
    (adev.closeInputStream id).account.Consistent := by
  have hstandby := @doInStandby_consistent adev id h
  have hidle : ∀ stream ∈ (adev.doInStandby id).ins, stream.id = id →
      stream.standby = true ∧ stream.starting = .none :=
    fun stream hin hid => doInStandby_idle h hfree hin hid
  unfold Adev.closeInputStream
  generalize adev.doInStandby id = adev' at hstandby hidle
  dsimp only
  split
  · rename_i i last hi hlast
    obtain ⟨hlt, hkey, -⟩ := List.findIdx?_eq_some_iff_getElem.mp hi
    have hperm := (swapRemove_perm hlt hlast).map StreamIn.use
    rw [List.map_cons] at hperm
    obtain ⟨hstandby', hstarting'⟩ := hidle _ (List.getElem_mem hlt) (beq_iff_eq.mp hkey)
    have hidle' : ∀ d, (adev'.ins[i]).use.uses d = false := by
      intro d
      rw [uses_idle (by exact hstandby'), show (adev'.ins[i]).use.starting = .none from hstarting']
      rfl
    refine { hstandby with inIds := ?_, inSettled := ?_, inUsers := ?_ }
    · have hids := (hperm.map (·.id)).nodup_iff.mp hstandby.inIds
      exact (List.nodup_cons.mp hids).2
    · intro u hu
      exact hstandby.inSettled u (hperm.mem_iff.mpr (List.mem_cons_of_mem _ hu))
    · intro d hnone
      have hcount := count_perm (p := (·.uses d)) hperm
      rw [count_cons, hidle' d, one_false, Int.add_zero] at hcount
      show _ = countWhere (·.uses d) ((((adev'.ins.set i last).dropLast).map StreamIn.use)) + _
      rw [← hcount]
      exact hstandby.inUsers d hnone
  · exact hstandby

end Ins

end Mindone.Audio
