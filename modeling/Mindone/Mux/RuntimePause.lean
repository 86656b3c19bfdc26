import Mindone.Mux.RuntimeEndpoints
import Mindone.Mux.SessionPause

/-!
# Mindone.Mux.RuntimePause

**No channel is left paused with nothing to drain.** That the flag `local_paused` says
whether bytes wait is part of `Owned`; here it is related to what the peer was told,
which the history of a run records (`told`).
-/

namespace Mindone.Mux.Runtime

open Mindone.Lib Transport
open Session (Told Calmly CalmIn Hears flowControl? signalsFrame)

variable {E ω : Type}

/-! ### What the peer was told -/

/-- What a mark adds to what the peer was told about channel `c`. -/
def Mark.hear (c : Dlci) (told : Told) : Mark → Told
  | .opened d => if d = c then { told with sinceOpened := false } else told
  | .created d => if d = c then { told with sinceCreated := false } else told
  | .queued frame => (flowControl? c frame).elim told fun paused => ⟨paused, paused⟩
  | _ => told

/-- The last flow-control command for channel `c` since it opened and since its endpoint
was created; without one, the peer is not paused. -/
def told (history : List Mark) (c : Dlci) : Told :=
  history.foldl (Mark.hear c) ⟨false, false⟩

theorem told_append (history : List Mark) (mark : Mark) (c : Dlci) :
    told (history ++ [mark]) c = mark.hear c (told history c) := by
  rw [told, List.foldl_append]
  rfl

/-- Marks of bytes and of closed endpoints are not heard. -/
def Mark.silent : Mark → Bool
  | .opened _ | .created _ | .queued _ => false
  | _ => true

theorem told_silent (history : List Mark) {mark : Mark} (h : mark.silent = true) :
    told (history ++ [mark]) = told history := by
  funext c
  rw [told_append]
  cases mark with
  | opened d => cases h
  | created d => cases h
  | queued frame => cases h
  | _ => rfl

/-- The channels that became open are told nothing yet. -/
theorem told_opened (history : List Mark) (ds : List Dlci) (c : Dlci) :
    told (history ++ ds.map .opened) c =
      if c ∈ ds then { told history c with sinceOpened := false } else told history c := by
  induction ds using List.reverseRecOn with
  | nil => simp
  | append_singleton ds d ih =>
      rw [List.map_append, ← List.append_assoc, List.map_singleton, told_append, ih, Mark.hear]
      by_cases hd : d = c
      · subst hd
        by_cases hmem : d ∈ ds
        · simp [hmem]
        · simp [hmem]
      · have hne : c ≠ d := Ne.symm hd
        simp [hd, hne]

/-! ### The calls of the sink -/

theorem replaceEpoch_history (env : Env E ω) (endpoint : EndpointId) (descriptor : Int)
    (ctx : Context E ω) : (ctx.replaceEpoch env endpoint descriptor).2.history = ctx.history := by
  unfold Context.replaceEpoch
  dsimp only
  split
  · rfl
  · rfl

/-- An endpoint that opens is noted, and only that. -/
theorem openEndpoint_history (env : Env E ω) (c : Dlci) (ctx : Context E ω) :
    ((ctx.openEndpoint env c).1 = true ∧
      (ctx.openEndpoint env c).2.history = ctx.history ++ [Mark.created c]) ∨
    ((ctx.openEndpoint env c).1 = false ∧ (ctx.openEndpoint env c).2.history = ctx.history) := by
  unfold Context.openEndpoint
  by_cases hfree : c = 0 ∨ (ctx.slots c).isSome
  · rw [if_pos hfree]
    exact Or.inr ⟨rfl, rfl⟩
  rw [if_neg hfree]
  cases env.openEndpoint c ctx.world with
  | mk answer w =>
      cases answer with
      | none => exact Or.inr ⟨rfl, rfl⟩
      | some endpoint =>
          dsimp only
          cases env.prepare endpoint w with
          | mk prepared w =>
              cases prepared with
              | false => exact Or.inr ⟨rfl, rfl⟩
              | true =>
                  dsimp only
                  cases PendingQueue.new ctx.frameLimit with
                  | error e => exact Or.inr ⟨rfl, rfl⟩
                  | ok pending =>
                      have hreplace := replaceEpoch_history env (.channel (number c))
                        (env.descriptor endpoint) { ctx with world := w }
                      dsimp only
                      cases hresult : Context.replaceEpoch env (.channel (number c))
                          (env.descriptor endpoint) { ctx with world := w } with
                      | mk token ctx' =>
                          rw [hresult] at hreplace
                          cases token with
                          | none => exact Or.inr ⟨rfl, hreplace⟩
                          | some token =>
                              exact Or.inl ⟨rfl, congrArg (· ++ [Mark.created c]) hreplace⟩

theorem dropSlot_told (c : Dlci) (ctx : Context E ω) :
    told (ctx.dropSlot c).history = told ctx.history := by
  unfold Context.dropSlot
  split
  · rfl
  · show told ((ctx.history ++ [Mark.closed c]) ++ [Mark.discarded c _]) = _
    rw [told_silent _ rfl, told_silent _ rfl]

/-- **The history hears what the session says.** -/
theorem hears_sink (env : Env E ω) :
    Hears (Context.sink env) fun ctx : Context E ω => told ctx.history where
  sent := by
    intro ctx frame hsink c
    have hsent : (ctx.transmit frame).1 = true := hsink
    show told (ctx.transmit frame).2.history c = _
    -- A frame that is queued is noted with what it says; one that is not leaves no note.
    unfold Context.transmit at hsent ⊢
    split
    · exact told_append _ _ _
    · rename_i herror
      rw [herror] at hsent
      cases hsent
  opened := by
    intro ctx c hsink
    have hopened : (ctx.openEndpoint env c).1 = true := hsink
    show told (ctx.openEndpoint env c).2.history = _
    -- A new endpoint is a mark that forgets what was said before.
    rcases openEndpoint_history env c ctx with ⟨-, hhistory⟩ | ⟨hrefused, -⟩
    · rw [hhistory]
      funext d
      rw [told_append, Mark.hear]
      by_cases hd : c = d
      · subst hd
        simp
      · rw [if_neg hd, Function.update_of_ne (Ne.symm hd)]
    · rw [hopened] at hrefused
      cases hrefused
  notOpened := by
    intro ctx c hsink
    have hrefused : (ctx.openEndpoint env c).1 = false := hsink
    rcases openEndpoint_history env c ctx with ⟨hopened, -⟩ | ⟨-, hhistory⟩
    · rw [hopened] at hrefused
      cases hrefused
    · exact congrArg told hhistory
  -- Everything else leaves what was told alone.
  aside := by
    intro ctx call haside
    cases call with
    | openEndpoint c => cases haside
    | pauseEndpoint c =>
        show told (ctx.pauseEndpoint c).2.history = _
        unfold Context.pauseEndpoint
        split
        · rfl
        · exact told_silent _ rfl
    | apply action =>
        cases action with
        | transmit frame => cases haside
        | closeEndpoint c =>
            simp only [Context.sink]
            split
            · rfl
            · exact dropSlot_told c _
        | ready refusedChannels => rfl
        | atciUnavailable => rfl

/-- A delivery tells the peer nothing. -/
theorem deliver_told (env : Env E ω) (c : Dlci) (input : List UInt8) (ctx : Context E ω)
    (budget : TurnBudget) :
    told (endState (deliver env c input (ctx, budget))).1.history = told ctx.history := by
  have hdelivered : told (ctx.history ++ [Mark.delivered c input]) = told ctx.history :=
    told_silent _ rfl
  have hdiscarded : ∀ bytes,
      told (ctx.history ++ [Mark.delivered c input] ++ [Mark.discarded c bytes]) =
        told ctx.history := fun _ => (told_silent _ rfl).trans hdelivered
  have haccepted : ∀ bytes,
      told (ctx.history ++ [Mark.delivered c input] ++ [Mark.accepted c bytes]) =
        told ctx.history := fun _ => (told_silent _ rfl).trans hdelivered
  simp only [deliver]
  split
  · exact hdiscarded _
  · split
    · split
      · exact hdiscarded _
      · exact hdelivered
    · split
      · exact haccepted _
      · exact (told_silent _ rfl).trans (haccepted _)
      · split
        · exact haccepted _
        · split
          · exact haccepted _
          · exact haccepted _

theorem drainPending_told (env : Env E ω) (c : Dlci) (ctx : Context E ω) (budget : TurnBudget) :
    told (endState (drainPending env c (ctx, budget))).1.history = told ctx.history := by
  unfold drainPending
  dsimp only
  split
  · rfl
  · exact told_silent _ rfl

/-! ### The invariant -/

/-- The channels that are open. -/
def openOf (s : Session) (c : Dlci) : Bool := (s.channels c).isOpen

/-- **The peer knows which channels are paused.** -/
structure Informed (v : View E) : Prop where
  sound : v.session.Sound
  calm : Calmly v.localCloseAt.isSome (openOf v.session) v.session (told v.ledger.history)

/-- Behind an operation, the channels that became open have been told nothing. -/
theorem calmly_noteOpened {closing : Bool} {s s' : Session} {ctx : Context E ω}
    (h : Calmly closing (openOf s) s' (told ctx.history)) :
    Calmly closing (openOf s') s' (told (ctx.noteOpened s s').history) := by
  intro c
  have hc := h c
  have htold : told (ctx.noteOpened s s').history c =
      if !openOf s c && openOf s' c then { told ctx.history c with sinceOpened := false }
      else told ctx.history c := by
    unfold Context.noteOpened
    rw [told_opened]
    simp [openOf]
  rw [htold]
  cases hbefore : openOf s c with
  | true =>
      rw [hbefore] at hc
      refine { hc with opened := fun hrecovery hopen => ?_ }
      rw [if_pos (show openOf s' c = true from hopen)]
      exact hc.opened hrecovery hopen
  | false =>
      rw [hbefore] at hc
      cases hafter : openOf s' c with
      | true => exact { hc with opened := fun hrecovery hopen => hc.opened hrecovery hopen }
      | false =>
          refine { hc with opened := fun _ hopen => ?_ }
          rw [show (s'.channels c).isOpen = false from hafter] at hopen
          cases hopen

section Rules

variable {env : Env E ω} {α : Type}

theorem Informed.calmIn {t : Turn E ω} (ht : Turn.Within Informed t) :
    CalmIn (fun ctx : Context E ω => told ctx.history) t.runtime.localCloseAt.isSome
      (openOf t.runtime.session) (t.runtime.session, t.runtime.context) := ht.calm

/-- An operation of the session, in a turn. -/
theorem informed_sessionDo (env : Env E ω) {p : Session.Op (Context E ω) α}
    (op : Session.Operation)
    (hp : ∀ st, Session.step (Context.sink env) st op = endState (p st)) {t : Turn E ω}
    (hs : t.runtime.session.Sound)
    (hcalm : Ends p (t.runtime.session, t.runtime.context)
      (fun _ => CalmIn (fun ctx => told ctx.history) t.runtime.localCloseAt.isSome
        (openOf t.runtime.session)) fun _ _ => True) :
    Ends (sessionDo p) t (fun _ => Turn.Within Informed) fun _ _ => True := by
  have hsound : Ends p (t.runtime.session, t.runtime.context) (fun _ st => st.1.Sound)
      fun _ st => st.1.Sound := by
    refine ends_endState.mpr ?_
    rw [← hp]
    exact Session.step_sound _ hs op
  refine ends_sessionDo.mpr ((hsound.and hcalm).mono ?_ fun _ _ _ => trivial)
  rintro _ st ⟨hst, hcalm'⟩
  exact ⟨hst, calmly_noteOpened hcalm'⟩

theorem informed_setLocalPause {t : Turn E ω} (ht : Turn.Within Informed t) (c : Dlci)
    (paused : Bool) (hopen : paused = true → t.runtime.session.recovery = true →
      (t.runtime.session.channels c).isOpen = true) :
    Ends (sessionDo (Session.setLocalPause (Context.sink env) (number c) paused)) t
      (fun _ => Turn.Within Informed) fun _ _ => True := by
  refine informed_sessionDo env (.setLocalPause (number c) paused) (fun _ => rfl) ht.sound ?_
  refine (hears_sink env).setLocalPause ht.calm _ _ ht.sound rfl ?_
  intro d hfind hpaused hrecovery
  obtain rfl := find_number hfind
  exact hopen hpaused hrecovery

theorem informed_recreate (c : Dlci) :
    Keeps (Turn.Within Informed) (Turn.Within fun _ => True) (recreate env c) := by
  intro t ht
  exact informed_sessionDo env (.recreateEndpoint (number c)) (fun _ => rfl) ht.sound
    ((hears_sink env).recreateEndpoint ht.calm _ rfl)

/-- What changes the context only, and says nothing. -/
theorem Informed.put {t : Turn E ω} (ht : Turn.Within Informed t) {s : Context E ω × TurnBudget}
    (hs : told s.1.history = told t.runtime.context.history) :
    Turn.Within Informed (t.put s) := by
  refine ⟨ht.sound, ?_⟩
  show Calmly _ _ _ (told s.1.history)
  rw [hs]
  exact ht.calm

theorem informed_data {t : Turn E ω} {c : Dlci} {payload : List UInt8}
    (ht : Turn.Within Informed t) (hands : t.runtime.session.HandsOver c payload) :
    Ends (data env c payload) t (fun _ => Turn.Within Informed)
      fun _ => Turn.Within fun _ => True := by
  unfold data
  rw [ends_bind, ends_onContext]
  have htold : Ends (deliver env c payload) (t.runtime.context, t.budget)
      (fun _ s => told s.1.history = told t.runtime.context.history)
      fun _ s => told s.1.history = told t.runtime.context.history :=
    ends_endState.mpr (deliver_told env c payload _ _)
  refine htold.mono ?_ fun _ _ _ => trivial
  intro delivery s hs
  have ht' := Informed.put ht hs
  cases delivery with
  | buffered => exact informed_setLocalPause ht' c true fun _ => hands.isOpen
  | recreate => exact informed_recreate c _ ht'
  | done => exact (ends_pure _).mpr ht'

/-- Draining may release the peer. -/
theorem informed_drainChannel (c : Dlci) :
    Keeps (Turn.Within Informed) (Turn.Within fun _ => True) (drainChannel env c) := by
  intro t ht
  unfold drainChannel
  rw [ends_bind, ends_onContext]
  have htold : Ends (drainPending env c) (t.runtime.context, t.budget)
      (fun _ s => told s.1.history = told t.runtime.context.history)
      fun _ s => told s.1.history = told t.runtime.context.history :=
    ends_endState.mpr (drainPending_told env c _ _)
  refine htold.mono ?_ fun _ _ _ => trivial
  intro stop s hs
  have ht' := Informed.put ht hs
  match stop with
  | none => exact (ends_pure _).mpr ht'
  | some .complete =>
      dsimp only
      rw [ends_bind, ends_look, ends_ite]
      split
      · exact informed_setLocalPause ht' c false fun hpaused => by cases hpaused
      · exact (ends_pure _).mpr ht'
  | some .yielded => exact (ends_pure _).mpr ht'
  | some .blocked => exact (ends_pure _).mpr ht'
  | some .deviceReset => exact informed_recreate c _ ht'
  | some .endOfStream => exact informed_recreate c _ ht'
  | some .failure => exact informed_recreate c _ ht'
  | some .noProgress => exact informed_recreate c _ ht'
  | some .invalidProgress => exact informed_recreate c _ ht'
  | some .rejected => exact informed_recreate c _ ht'
  | some .invalidBuffer => exact informed_recreate c _ ht'

/-- At the switch to the multiplexer. -/
theorem informed_enterMux (now : Nat) :
    Keeps (Turn.Within Informed) (Turn.Within fun _ => True) (enterMux env now) := by
  intro t ht
  unfold enterMux
  rw [ends_bind]
  refine (informed_sessionDo env (.begin now) (fun _ => rfl) ht.sound
    ((hears_sink env).begin now ht.sound)).mono ?_ fun _ _ _ => trivial
  intro _ t₁ ht₁
  rw [ends_bind]
  refine ((leaves_theSerial.keeps fun _ _ => trivial) t₁ ht₁).mono ?_ fun _ _ _ => trivial
  intro serial t₂ ht₂
  rw [ends_bind, ends_look]
  split
  · exact (ends_throw _).mpr trivial
  · rename_i epochs _
    rw [ends_bind, ends_change, ends_bind, ends_look]
    have hhistory := replaceEpoch_history env .serial (env.descriptor serial)
      ({ t₂.runtime.context with epochs }.note (.closed 0))
    dsimp only at hhistory ⊢
    split
    · rw [ends_bind, ends_change]
      exact (ends_throw _).mpr trivial
    · rename_i token context hresult
      refine ends_change.mpr ⟨ht₂.sound, ?_⟩
      rw [hresult] at hhistory
      have htold : told context.history = told t₂.runtime.context.history :=
        (congrArg told hhistory).trans (told_silent _ rfl)
      show Calmly _ _ _ (told context.history)
      rw [htold]
      exact ht₂.calm

theorem informed_peerClose (env : Env E ω) {t : Turn E ω} (ht : t.runtime.session.Sound)
    {closing : Bool} (hcalm : CalmIn (fun ctx => told ctx.history) closing
      (openOf t.runtime.session) (t.runtime.session, t.runtime.context)) (now : Nat) :
    Ends (peerClose now) t (fun _ => Turn.Within Informed) fun _ => Turn.Within fun _ => True := by
  unfold peerClose
  rw [ends_bind]
  have hclosed := informed_sessionDo env .peerClose (fun _ => rfl) ht
    (Session.peerClose_calm hcalm _)
  refine hclosed.mono ?_ fun _ _ _ => trivial
  intro _ t' ht'
  refine (((leaves_after now closeFlushMs).keeps fun _ _ => trivial).bind fun due => ?_) t' ht'
  intro t'' ht''
  exact ends_change.mpr ⟨ht''.sound, ht''.calm⟩

/-- In a local close the channels are left as they are lost. -/
theorem informed_closeLocally (now : Nat) :
    Keeps (Turn.Within Informed) (Turn.Within fun _ => True) (closeLocally env now) := by
  refine keeps_closeLocally (K := fun v => v.session.Sound ∧
    Calmly true (openOf v.session) v.session (told v.ledger.history)) ?_ (fun _ _ => trivial) ?_
    (fun _ _ hv => ⟨hv.1, hv.2⟩) now
  · intro v hv
    refine ⟨hv.sound, fun c => { hv.calm c with
      lost := fun _ hclosing => (by cases hclosing)
      settled := fun _ hclosing => (by cases hclosing) }⟩
  · rintro c t ⟨hsound, hcalm⟩
    have hsteps : Ends (Session.requestDisconnect (Context.sink env) (number c))
        (t.runtime.session, t.runtime.context) (fun _ st => st.1.Sound) fun _ st => st.1.Sound :=
      ends_endState.mpr (Session.step_sound _ hsound (.requestDisconnect (number c)))
    have htold := (hears_sink env).requestDisconnect hcalm (number c) rfl
    refine ends_sessionDo.mpr ((hsteps.and htold).mono ?_ fun _ _ _ => trivial)
    rintro _ st ⟨hst, hcalm'⟩
    exact ⟨hst, calmly_noteOpened hcalm'⟩

/-- **The rules of what the peer knows.** An error leaves nothing to show: the session is
reset. -/
theorem informed_rules (env : Env E ω) : Rules env (Informed (E := E)) fun _ => True where
  weaken := fun _ _ => trivial
  receive := fun {t frame} ht hguard =>
    informed_sessionDo env (.receive frame) (fun st => Session.step_receive st frame) ht.sound
      ((hears_sink env).receive ht.calm frame ht.sound rfl hguard)
  sendControl := fun {reply} hanswers t ht =>
    informed_sessionDo env (.sendControl reply.control reply.payload) (fun _ => rfl) ht.sound
      ((hears_sink env).sendControl ht.calm hanswers.2)
  applyPeerSignals := fun channel signals t ht =>
    informed_sessionDo env (.applyPeerSignals channel signals) (fun _ => rfl) ht.sound
      (Session.applyPeerSignals_calm (Informed.calmIn ht) channel signals)
  data := informed_data
  enterMux := informed_enterMux
  pollTimeout := fun now pending t ht =>
    informed_sessionDo env (.pollTimeout now pending)
      (fun st => Session.step_pollTimeout st now pending) ht.sound
      (Session.pollTimeout_calm (Informed.calmIn ht) now pending)
  recoveryTick := fun {t now} ht _ =>
    informed_sessionDo env (.recoveryTick now) (fun st => Session.step_recoveryTick st now) ht.sound
      ((hears_sink env).recoveryTick ht.calm now)
  closeLocally := informed_closeLocally
  peerClose := fun now t ht => informed_peerClose env ht.sound (Informed.calmIn ht) now
  finishClose := fun now t ht => by
    rw [ends_bind, ends_change]
    have hcalm := Informed.calmIn ht
    exact informed_peerClose env (t := { t with runtime := { t.runtime with localCloseAt := none } })
      ht.sound hcalm now
  applicationInput := fun c t ht =>
    informed_sessionDo env (.applicationInput (number c))
      (fun st => Session.step_applicationInput st (number c)) ht.sound
      (Session.applicationInput_calm (Informed.calmIn ht) (number c))
  -- Where an endpoint goes, what was told goes with it; these have lemmas of their own.
  recreate := informed_recreate
  drainChannel := informed_drainChannel
  closeAll := fun r state _ => by
    -- After a reset a channel remembers only whether its peer has paused.
    have hflags : ∀ c, r.closeAll.session.channels c =
        { peerPaused := (r.closeAll.session.channels c).peerPaused } := by
      intro c
      by_cases hc : c = 0
      · subst hc
        simp [closeAll, Session.resetAfterTransportClose]
      · simp [closeAll, Session.resetAfterTransportClose, hc]
    refine ⟨Session.resetAfterTransportClose_sound _, fun c => ?_⟩
    show Session.Calm _ _ _ _ (r.closeAll.session.channels c) _ _
    rw [hflags c]
    exact ⟨fun _ hopen => (by cases hopen), fun _ _ => rfl, fun _ _ => rfl, fun _ _ _ _ => rfl,
      fun _ _ _ => rfl, fun _ hpresent => (by cases hpresent)⟩

end Rules

/-! ### Agreement -/

/-- **No channel is left paused with nothing to drain.** In every reachable state a
channel with an endpoint is paused exactly when bytes wait for it. The last flow-control
command for it says the same: with recovery the last one since the channel opened, and
without recovery, where data may come before the channel is open, the last one since
its endpoint was created. -/
theorem flow_control_agreement (env : Env E ω) {r : Runtime E ω} (h : Reachable env r) (c : Dlci)
    (hpresent : (r.session.channels c).endpointPresent = true) :
    ((r.session.channels c).localPaused = true ↔
      ∃ slot, r.context.slots c = some slot ∧ slot.pending.pending ≠ []) ∧
    (r.session.recovery = true → (r.session.channels c).isOpen = true →
      (told r.context.history c).sinceOpened = (r.session.channels c).localPaused) ∧
    (r.session.recovery = false →
      (told r.context.history c).sinceCreated = (r.session.channels c).localPaused) := by
  have hinformed : Informed r.view := h.invariant (informed_rules env) fun {s token} hs _ hmax => by
    refine ⟨(hs.basic (E := E) hmax).sound, fun d => ?_⟩
    show Session.Calm _ _ _ _ (s.channels d) _ _
    rw [hs.channels d]
    exact ⟨fun _ hopen => (by cases hopen), fun _ _ => rfl, fun _ _ => rfl, fun _ _ _ _ => rfl,
      fun _ _ _ => rfl, fun _ hpresent => (by cases hpresent)⟩
  have hcalm := hinformed.calm c
  refine ⟨?_, fun hrecovery hopen => ?_, fun hrecovery => ?_⟩
  · have hpresent' : (r.session.channels c).endpointPresent = (r.context.slots c).isSome :=
      congrArg Prod.fst (congrFun h.owned.2.endpoints c)
    have hpaused' : (r.session.channels c).localPaused =
        !(r.context.ledger.pendingOf c).isEmpty :=
      congrArg Prod.snd (congrFun h.owned.2.endpoints c)
    cases hslot : r.context.slots c with
    | none =>
        rw [hpresent, hslot] at hpresent'
        cases hpresent'
    | some slot =>
        rw [hpaused']
        simp [Ledger.pendingOf, Context.ledger, hslot]
  · have htold := hcalm.opened hrecovery hopen
    rw [show openOf r.view.session c = true from hopen, if_pos rfl] at htold
    exact htold.symm
  · exact (hcalm.created hrecovery hpresent).symm

/-- Three bytes for channel `1` that its terminal does not take, before the modem accepts
the channel. -/
def earlyData : Script :=
  ⟨scriptedAnswers ((⟨7, 0xef, [1, 2, 3]⟩ : Frame).wire ++ (⟨7, 0x73, []⟩ : Frame).wire), []⟩

theorem flow_control_agreement_early_data :
    ∃ r, (scriptedStart earlyData).map (run scripted · dialogue) = some r ∧
      (r.session.channels 1).localPaused = true ∧
      (told r.context.history 1).sinceCreated = (r.session.channels 1).localPaused := by
  have hruns : (scriptedStart earlyData).any (fun r =>
      decide (((run scripted r dialogue).session.channels 1).endpointPresent = true ∧
        (run scripted r dialogue).session.recovery = false ∧
        ((run scripted r dialogue).session.channels 1).localPaused = true)) = true := by
    decide +kernel
  obtain ⟨r, hstart, hr⟩ := (Option.any_eq_true _ _).mp hruns
  obtain ⟨hpresent, hrecovery, hpaused⟩ := of_decide_eq_true hr
  refine ⟨run scripted r dialogue, by rw [hstart]; rfl, hpaused, ?_⟩
  exact (flow_control_agreement scripted ((scriptedStart_reachable hstart).run dialogue) 1
    hpresent).2.2 hrecovery

/-- **Without recovery the pause may be older than the channel.** Data before the `UA` of
a channel pauses the peer; when the channel then opens it is paused, and the peer has
been told nothing since. -/
theorem pause_before_open :
    ∃ r, (scriptedStart earlyData).map (run scripted · dialogue) = some r ∧
      r.state = .multiplexing ∧ (r.session.channels 1).endpointPresent = true ∧
      (r.session.channels 1).isOpen = true ∧ (r.session.channels 1).localPaused = true ∧
      (told r.context.history 1).sinceOpened = false := by
  have hruns : (scriptedStart earlyData).any (fun r =>
      decide ((run scripted r dialogue).state = .multiplexing ∧
        ((run scripted r dialogue).session.channels 1).endpointPresent = true ∧
        ((run scripted r dialogue).session.channels 1).isOpen = true ∧
        ((run scripted r dialogue).session.channels 1).localPaused = true ∧
        (told (run scripted r dialogue).context.history 1).sinceOpened = false)) = true := by
    decide +kernel
  obtain ⟨r, hstart, hr⟩ := (Option.any_eq_true _ _).mp hruns
  exact ⟨run scripted r dialogue, by rw [hstart]; rfl, of_decide_eq_true hr⟩

end Mindone.Mux.Runtime
