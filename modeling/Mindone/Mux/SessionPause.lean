import Mindone.Mux.SessionEndpoints

/-!
# Mindone.Mux.SessionPause

**What the peer was told last.** A session pauses and releases its peer with `MSC`
commands. With recovery, a channel takes data only while it is open, so what was said
since it opened is what counts; without recovery data may come before the answer to
`SABM`, and what was said since the endpoint was created counts. `Calm` relates the two
to the flag `local_paused` of one channel.

The owner of the session keeps the record: `Hears` says what a call of the sink adds to
it. An operation that stops with an error leaves nothing to show, since the owner then
closes everything.
-/

namespace Mindone.Mux.Session

open Mindone.Lib

variable {σ : Type}

/-- What the peer was told about each channel: since it opened, and since its endpoint was
created. -/
structure Told where
  sinceOpened : Bool
  sinceCreated : Bool
  deriving DecidableEq

/-- The flow-control bit of an `MSC` command for channel `c`. -/
def flowControl? (c : Dlci) (frame : Frame) : Option Bool :=
  match frame.payload with
  | [kind, _, address, signals] =>
      if frame.address = commandAddress 0 ∧ kind = msc ||| 2 ∧ address = commandAddress c then
        some (signals &&& 2 != 0)
      else none
  | _ => none

theorem commandAddress_inj {c d : Dlci} (h : commandAddress c = commandAddress d) : c = d := by
  have hinj : ∀ c d : Dlci, commandAddress c = commandAddress d → c = d := by decide +kernel
  exact hinj c d h

theorem flowControl_signalsFrame (c d : Dlci) (paused : Bool) :
    flowControl? c (signalsFrame d paused) = if d = c then some paused else none := by
  have hbit : ((0x8d ||| if paused then 2 else 0 : UInt8) &&& 2 != 0) = paused := by
    cases paused with
    | true => decide
    | false => decide
  simp only [flowControl?, signalsFrame, signalsPayload, true_and]
  by_cases hd : d = c
  · subst hd
    simp [hbit]
  · have hne : commandAddress d ≠ commandAddress c := fun h => hd (commandAddress_inj h)
    simp [hd, hne]

/-- The calls that neither open an endpoint nor send a frame. -/
def aside : Call → Bool
  | .pauseEndpoint _ | .apply (.closeEndpoint _) | .apply (.ready _) | .apply .atciUnavailable => true
  | _ => false

/-- How the record follows the calls of the sink. -/
structure Hears (sink : Sink σ) (told : σ → Dlci → Told) : Prop where
  sent : ∀ {w frame}, (sink (.apply (.transmit frame)) w).1 = true → ∀ c,
    told (sink (.apply (.transmit frame)) w).2 c =
      (flowControl? c frame).elim (told w c) fun paused => ⟨paused, paused⟩
  opened : ∀ {w c}, (sink (.openEndpoint c) w).1 = true →
    told (sink (.openEndpoint c) w).2 =
      Function.update (told w) c ⟨(told w c).sinceOpened, false⟩
  notOpened : ∀ {w c}, (sink (.openEndpoint c) w).1 = false →
    told (sink (.openEndpoint c) w).2 = told w
  aside : ∀ {w call}, aside call = true → told (sink call w).2 = told w

/-- **What the peer knows of a channel.** While a channel with recovery is not open it is
not paused, so that it opens with the peer's own idea of it; `closing` says that a local
close is under way, where channels stay as they were lost. `wasOpen` is the state of the
channel before the operation: it is told nothing yet if it just opened. -/
structure Calm (recovery closing : Bool) (talking : Prop) (wasOpen : Bool) (ch : Channel)
    (retryAt : Nat) (told : Told) : Prop where
  opened : recovery = true → ch.isOpen = true →
    ch.localPaused = if wasOpen then told.sinceOpened else false
  opening : recovery = true → ch.opening = true → ch.localPaused = false
  retrying : recovery = true → retryAt ≠ 0 → ch.localPaused = false
  lost : recovery = true → closing = false → talking → ch.isOpen = false → ch.localPaused = false
  settled : recovery = true → closing = false → talking → ch.disconnecting = false
  created : recovery = false → ch.endpointPresent = true → ch.localPaused = told.sinceCreated

/-- All channels are calm. -/
def Calmly (closing : Bool) (was : Dlci → Bool) (s : Session) (told : Dlci → Told) : Prop :=
  ∀ c, Calm s.recovery closing s.talking (was c) (s.channels c) (s.retryAt c) (told c)

theorem Calm.quieter {recovery closing : Bool} {talking talking' : Prop} {wasOpen : Bool}
    {ch : Channel} {retryAt : Nat} {told : Told}
    (h : Calm recovery closing talking wasOpen ch retryAt told) (hphase : talking' → talking) :
    Calm recovery closing talking' wasOpen ch retryAt told :=
  { h with
    lost := fun hrecovery hclosing htalking => h.lost hrecovery hclosing (hphase htalking)
    settled := fun hrecovery hclosing htalking => h.settled hrecovery hclosing (hphase htalking) }

section Calmly

variable {closing : Bool} {was : Dlci → Bool} {s : Session} {told : Dlci → Told}

/-- All channels but `c` are calm. -/
def CalmBut (closing : Bool) (was : Dlci → Bool) (c : Dlci) (s : Session) (told : Dlci → Told) :
    Prop :=
  ∀ d, d ≠ c → Calm s.recovery closing s.talking (was d) (s.channels d) (s.retryAt d) (told d)

theorem Calmly.but (h : Calmly closing was s told) (c : Dlci) : CalmBut closing was c s told :=
  fun d _ => h d

/-- A change of one channel has to be looked at there only. -/
theorem CalmBut.at {s' : Session} {told' : Dlci → Told} {c : Dlci}
    (h : CalmBut closing was c s told) (hrecovery : s'.recovery = s.recovery)
    (hphase : s'.talking → s.talking)
    (hother : ∀ d, d ≠ c → s'.channels d = s.channels d ∧ s'.retryAt d = s.retryAt d ∧
      told' d = told d) : CalmBut closing was c s' told' := by
  intro d hd
  obtain ⟨hch, hretry, htold⟩ := hother d hd
  rw [hrecovery, hch, hretry, htold]
  exact (h d hd).quieter hphase

theorem CalmBut.whole {c : Dlci} (h : CalmBut closing was c s told)
    (hc : Calm s.recovery closing s.talking (was c) (s.channels c) (s.retryAt c) (told c)) :
    Calmly closing was s told := by
  intro d
  by_cases hd : d = c
  · subst hd
    exact hc
  · exact h d hd

theorem CalmBut.modify {c : Dlci} (h : CalmBut closing was c s told) (f : Channel → Channel) :
    CalmBut closing was c (s.modify c f) told :=
  h.at rfl id fun _ hd => ⟨Function.update_of_ne hd .., rfl, rfl⟩

theorem CalmBut.setRetryAt {c : Dlci} (h : CalmBut closing was c s told) (due : Nat) :
    CalmBut closing was c (s.setRetryAt c due) told :=
  h.at rfl id fun _ hd => ⟨rfl, Function.update_of_ne hd .., rfl⟩

theorem Calmly.modify (h : Calmly closing was s told) (c : Dlci) (f : Channel → Channel)
    (hc : Calm s.recovery closing s.talking (was c) (f (s.channels c)) (s.retryAt c) (told c)) :
    Calmly closing was (s.modify c f) told := by
  refine ((h.but c).modify f).whole ?_
  rw [show (s.modify c f).channels c = f (s.channels c) from Function.update_self ..]
  exact hc

/-- A session with the same table. -/
theorem Calmly.same {s' : Session} (h : Calmly closing was s told) (hsame : SameTable s s')
    (hphase : s'.talking → s.talking) : Calmly closing was s' told := by
  intro c
  rw [hsame.channels, hsame.recovery, hsame.retryAt]
  exact (h c).quieter hphase

end Calmly

/-! ### Operations -/

section Operations

variable {sink : Sink σ} {told : σ → Dlci → Told} (hears : Hears sink told)
variable {closing : Bool} {was : Dlci → Bool} {s : Session} {w : σ}

/-- The session is calm with what the owner recorded. -/
def CalmIn (told : σ → Dlci → Told) (closing : Bool) (was : Dlci → Bool) (st : Session × σ) : Prop :=
  Calmly closing was st.1 (told st.2)

include hears

/-- A frame that says nothing about flow control. -/
theorem Hears.transmit_nil {c : Dlci} {control : UInt8} {Q : Unit → Session × σ → Prop}
    (hQ : ∀ w', told w' = told w → Q () (s, w')) :
    Ends (transmit sink c control []) (s, w) Q fun _ _ => True := by
  refine transmit_nil_spec ?_ fun _ _ => trivial
  intro w' hsink
  refine hQ w' ?_
  have hgiven : (sink (.apply (.transmit ⟨commandAddress c, control, []⟩)) w).1 = true := by
    rw [hsink]
  have hsent := hears.sent hgiven
  rw [hsink] at hsent
  funext d
  exact hsent d

/-- An action that is none of the session's frames. -/
theorem Hears.apply_aside {action : Action} (haside : Session.aside (.apply action) = true)
    {Q : Unit → Session × σ → Prop} (hQ : ∀ w', told w' = told w → Q () (s, w')) :
    Ends (apply sink action) (s, w) Q fun _ _ => True :=
  ends_apply (fun _ => hQ _ (hears.aside haside)) fun _ => trivial

theorem Hears.resolve {Q : Unit → Session × σ → Prop} (h : CalmIn told closing was (s, w))
    (htalking : s.talking) (hQ : ∀ st, SameTable s st.1 → CalmIn told closing was st → Q () st) :
    Ends (resolve sink) (s, w) Q fun _ _ => True := by
  have htable := resolve_sameTable sink s w
  have hcalm : CalmIn told closing was (endState (Session.resolve sink (s, w))) := by
    have hsame := Calmly.same h htable fun _ => htalking
    unfold CalmIn
    have htold : told (endState (Session.resolve sink (s, w))).2 = told w := by
      rcases resolve_spec sink s w with ⟨-, hend⟩ | ⟨-, -, hend⟩ | ⟨-, -, -, hend⟩ | ⟨-, -, -, hend⟩
      · rw [hend]
      · rw [hend]
      · rw [hend]
      · rw [hend]
        exact hears.aside rfl
    rw [htold]
    exact hsame
  have hend : Ends (Session.resolve sink) (s, w) (fun _ st => SameTable s st.1 ∧ CalmIn told closing was st)
      fun _ st => SameTable s st.1 ∧ CalmIn told closing was st := ends_endState.mpr ⟨htable, hcalm⟩
  exact hend.mono (fun _ st hst => hQ st hst.1 hst.2) fun _ _ _ => trivial

/-! The arms of `receive`, in a session that talks. -/

variable (h : CalmIn told closing was (s, w)) (htalking : s.talking)

include h htalking

/-- A UA answers what was sent on the channel. -/
theorem Hears.receiveUa (c : Dlci) (hwas : was c = (s.channels c).isOpen) :
    Ends (receiveUa sink c) (s, w) (fun _ => CalmIn told closing was) fun _ _ => True := by
  simp only [Session.receiveUa, ends_bind, ends_read, ends_ite, ends_update, ends_pure]
  have hc := h c
  split
  · split
    · -- the answer to a disconnection, which only a local close asks for
      rename_i hopen hdisconnecting
      refine Calmly.modify h c _ { hc with
        opened := fun _ hopen' => (by cases hopen')
        lost := fun hrecovery hclosing ht _ => ?_
        settled := fun _ _ _ => rfl }
      rw [hc.settled hrecovery hclosing ht] at hdisconnecting
      cases hdisconnecting
    · exact h
  · rename_i hclosed
    split
    · rename_i hopening
      have hfree : s.recovery = true → (s.channels c).localPaused = false :=
        fun hrecovery => hc.opening hrecovery hopening
      have haccepted : CalmIn told closing was (s.accepted c, w) := by
        refine (((Calmly.but h c).modify _).setRetryAt 0).whole ?_
        show Calm s.recovery closing s.talking (was c) (Function.update s.channels c
          { s.channels c with opening := false, isOpen := true } c)
          (Function.update s.retryAt c 0 c) _
        rw [Function.update_self, Function.update_self, hwas]
        exact { hc with
          opened := fun hrecovery _ => (by rw [if_neg hclosed]; exact hfree hrecovery)
          opening := fun _ hopening' => (by cases hopening')
          retrying := fun _ hretry => absurd rfl hretry
          lost := fun _ _ _ hlost => (by cases hlost) }
      have hresolve : Ends (Session.resolve sink) (s.accepted c, w)
          (fun _ => CalmIn told closing was) fun _ _ => True :=
        hears.resolve haccepted htalking fun _ _ hcalm => hcalm
      split
      · exact hresolve
      · exact haccepted
    · refine Calmly.modify h c _ { hc with settled := fun _ _ _ => rfl }

omit h htalking in
/-- A channel that was lost is paused for recovery. -/
theorem Hears.recoverChannel {c : Dlci} (hother : CalmBut closing was c s (told w))
    (hclosed : (s.channels c).isOpen = false) (hrecovery : s.recovery = true) :
    Ends (recoverChannel sink c) (s, w) (fun _ => CalmIn told closing was) fun _ _ => True := by
  simp only [Session.recoverChannel, ends_bind, ends_update, ends_ask, ends_ite, ends_read,
    ends_pure, ends_throw]
  have htold : told (sink (.pauseEndpoint c) w).2 = told w := hears.aside rfl
  have hpaused := hother.modify fun ch =>
    { ch with
      peerPaused := false
      localPaused := false
      refused := false
      opening := false
      disconnecting := false }
  have hcalm : ∀ retryAt, Calm s.recovery closing s.talking (was c) (Function.update s.channels c
      { s.channels c with
        peerPaused := false
        localPaused := false
        refused := false
        opening := false
        disconnecting := false } c) retryAt (told w c) := by
    intro retryAt
    rw [Function.update_self]
    constructor <;> simp [hclosed, hrecovery]
  unfold CalmIn
  split
  · split
    · refine ends_deadline ?_ trivial
      dsimp only
      rw [htold]
      exact (hpaused.setRetryAt _).whole (hcalm _)
    · dsimp only
      rw [htold]
      exact hpaused.whole (hcalm _)
  · trivial

omit h htalking in
/-- Without recovery a channel that was lost loses its endpoint too. -/
theorem Hears.closeEndpoint {c : Dlci} (hother : CalmBut closing was c s (told w))
    (hrecovery : s.recovery = false) :
    Ends (closeEndpoint sink c) (s, w) (fun _ => CalmIn told closing was) fun _ _ => True := by
  simp only [Session.closeEndpoint, ends_bind, ends_update]
  refine hears.apply_aside rfl fun w' htold => ?_
  unfold CalmIn
  dsimp only
  rw [htold]
  refine (hother.modify _).whole ?_
  show Calm s.recovery closing s.talking (was c) (Function.update s.channels c
    { s.channels c with endpointPresent := false, peerPaused := false, localPaused := false } c)
    (s.retryAt c) (told w c)
  rw [Function.update_self]
  constructor <;> simp [hrecovery]

omit htalking in
/-- An open channel is lost. -/
theorem Hears.lose {c : Dlci} {s' : Session} {w' : σ} (disconnecting : Bool)
    (hs' : s' = s.modify c fun ch => { ch with isOpen := false, disconnecting := disconnecting })
    (htold : told w' = told w) :
    Ends (if c = 0 then update fun s => { s with phase := .peerClosing }
      else if s.recovery then Session.recoverChannel sink c else Session.closeEndpoint sink c)
      (s', w') (fun _ => CalmIn told closing was) fun _ _ => True := by
  subst hs'
  have hother : CalmBut closing was c
      (s.modify c fun ch => { ch with isOpen := false, disconnecting := disconnecting })
      (told w') := by
    rw [htold]
    exact (Calmly.but h c).modify _
  rw [ends_ite]
  split
  · refine ends_update.mpr ?_
    have hquiet : ∀ s : Session, ¬ Session.talking { s with phase := .peerClosing } := by
      rintro s (hphase | hphase)
      · cases hphase
      · cases hphase
    have hc := h c
    refine CalmBut.whole (c := c) (hother.at rfl (fun ht => absurd ht (hquiet _))
      fun _ _ => ⟨rfl, rfl, rfl⟩) ?_
    show Calm s.recovery closing _ (was c) (Function.update s.channels c
      { s.channels c with isOpen := false, disconnecting := disconnecting } c) (s.retryAt c) (told w' c)
    rw [Function.update_self, htold]
    exact { hc with
      opened := fun _ hopen => (by cases hopen)
      lost := fun _ _ ht => absurd ht (hquiet _)
      settled := fun _ _ ht => absurd ht (hquiet _) }
  · rw [ends_ite]
    split
    · rename_i hrecovery
      exact hears.recoverChannel hother (by simp [Session.modify]) hrecovery
    · rename_i hrecovery
      exact hears.closeEndpoint hother (Bool.eq_false_iff.mpr hrecovery)

/-- A DM closes a channel. -/
theorem Hears.receiveDm (c : Dlci) :
    Ends (receiveDm sink c) (s, w) (fun _ => CalmIn told closing was) fun _ _ => True := by
  have hc := h c
  unfold Session.receiveDm
  rw [ends_bind, ends_read, ends_ite]
  split
  · exact ends_update.mpr (Calmly.modify h c _
      { hc with opening := fun _ hopening => (by cases hopening) })
  · rw [ends_ite]
    split
    · rw [ends_bind, ends_update]
      exact hears.lose h false rfl rfl
    · rw [ends_ite]
      split
      · refine ends_update.mpr (Calmly.same h ⟨rfl, rfl, rfl, rfl, rfl⟩ fun _ => htalking)
      · rw [ends_ite]
        split
        · rename_i hopening
          rw [ends_bind, ends_update]
          have hrefused : CalmIn told closing was (s.refusedAt c, w) := Calmly.modify h c _
            { hc with opening := fun _ hopening => (by cases hopening) }
          have hresolve : ∀ w', told w' = told w → Ends (Session.resolve sink) (s.refusedAt c, w')
              (fun _ => CalmIn told closing was) fun _ _ => True := by
            intro w' htold
            refine hears.resolve ?_ htalking fun _ _ hcalm => hcalm
            unfold CalmIn
            dsimp only
            rw [htold]
            exact hrefused
          dsimp only
          rw [ends_ite]
          split
          · rw [ends_bind]
            exact hears.apply_aside rfl hresolve
          · exact hresolve w rfl
        · exact (ends_pure _).mpr h

omit htalking in
theorem Hears.receiveDisc (c : Dlci) :
    Ends (receiveDisc sink c) (s, w) (fun _ => CalmIn told closing was) fun _ _ => True := by
  have hsame : ∀ w', told w' = told w → CalmIn told closing was (s, w') := by
    intro w' htold
    unfold CalmIn
    dsimp only
    rw [htold]
    exact h
  unfold Session.receiveDisc
  rw [ends_bind, ends_read, ends_ite]
  split
  · rw [ends_bind, ends_update, ends_bind]
    exact hears.transmit_nil fun w' htold =>
      hears.lose h (s.channels c).disconnecting rfl htold
  · exact hears.transmit_nil hsame

/-- The peer opens a channel, which is not paused unless it was open. -/
theorem Hears.joinChannel {c : Dlci} (hwas : was c = false → s.recovery = true →
      (s.channels c).localPaused = false)
    (hopened : was c = true → s.recovery = true →
      (s.channels c).localPaused = (told w c).sinceOpened) :
    Ends (joinChannel sink c) (s, w) (fun _ => CalmIn told closing was) fun _ _ => True := by
  have hc := h c
  -- The channel is open afterwards, and its pause is what the peer knows.
  have hjoined : CalmIn told closing was (s.joined c, w) := by
    refine (((Calmly.but h c).modify _).setRetryAt 0).whole ?_
    show Calm s.recovery closing s.talking (was c) (Function.update s.channels c
      { s.channels c with
        isOpen := true
        disconnecting := false
        refused := false
        refusalReported := false
        opening := false } c) (Function.update s.retryAt c 0 c) _
    rw [Function.update_self, Function.update_self]
    exact { hc with
      opened := fun hrecovery _ => (by
        cases hopen : was c with
        | true => exact hopened hopen hrecovery
        | false => exact hwas hopen hrecovery)
      opening := fun _ hopening => (by cases hopening)
      retrying := fun _ hretry => absurd rfl hretry
      lost := fun _ _ _ hlost => (by cases hlost)
      settled := fun _ _ _ => rfl }
  -- The answer says nothing of a pause.
  have hanswer : ∀ st : Session × σ, CalmIn told closing was st →
      Ends (transmit sink c (ua ||| pollFinal) []) st (fun _ => CalmIn told closing was)
        fun _ _ => True := by
    intro st hst
    refine hears.transmit_nil fun w' htold => ?_
    unfold CalmIn
    dsimp only
    rw [htold]
    exact hst
  unfold Session.joinChannel
  rw [ends_bind, ends_read, ends_bind, ends_update]
  dsimp only
  rw [ends_ite]
  split
  · rw [ends_bind]
    exact hears.resolve hjoined htalking fun st _ hcalm => hanswer st hcalm
  · exact hanswer _ hjoined

/-- A SABM opens a channel or is refused. -/
theorem Hears.receiveSabm (c : Dlci) (hs : s.Sound) (hwas : was c = (s.channels c).isOpen)
    (hclosing : closing = false) :
    Ends (receiveSabm sink c) (s, w) (fun _ => CalmIn told closing was) fun _ _ => True := by
  have hc := h c
  have hsame : ∀ w', told w' = told w → CalmIn told closing was (s, w') := by
    intro w' htold
    unfold CalmIn
    dsimp only
    rw [htold]
    exact h
  have hrefuse : ∀ w', told w' = told w → Ends (transmit sink c (dm ||| pollFinal) []) (s, w')
      (fun _ => CalmIn told closing was) fun _ _ => True :=
    fun w' htold => hears.transmit_nil fun w'' htold' => hsame w'' (htold'.trans htold)
  unfold Session.receiveSabm
  rw [ends_bind, ends_read, ends_ite]
  split
  · rw [ends_ite]
    split
    · rename_i habsent
      rw [ends_bind, ends_ask, ends_ite]
      split
      · rename_i hsink
        -- a channel without an endpoint was not open
        have hclosed : (s.channels c).isOpen = false := by
          by_contra hopen
          have hpresent := (hs c).present htalking.phase_ne_failed habsent.1
            (Or.inl (by simpa using hopen))
          rw [habsent.2] at hpresent
          cases hpresent
        have htold := hears.opened hsink
        rw [ends_bind, ends_update]
        have hfresh : CalmIn told closing was (s.modify c fun ch =>
            { ch with endpointPresent := true, localPaused := false, peerPaused := false },
            (sink (.openEndpoint c) w).2) := by
          refine CalmBut.whole (c := c) ((Calmly.but h c).at rfl id fun d hd =>
            ⟨Function.update_of_ne hd .., rfl, ?_⟩) ?_
          · dsimp only
            rw [htold, Function.update_of_ne hd]
          · show Calm s.recovery closing s.talking (was c) (Function.update s.channels c
              { s.channels c with endpointPresent := true, localPaused := false,
                                  peerPaused := false } c) (s.retryAt c) _
            rw [Function.update_self]
            dsimp only
            rw [htold, Function.update_self]
            exact { hc with
              opened := fun _ hopen => (by rw [hclosed] at hopen; cases hopen)
              opening := fun _ _ => rfl
              retrying := fun _ _ => rfl
              lost := fun _ _ _ _ => rfl
              created := fun _ _ => rfl }
        refine hears.joinChannel hfresh htalking (fun _ _ => by simp [Session.modify]) ?_
        intro hopen
        rw [hwas, hclosed] at hopen
        cases hopen
      · rename_i hsink
        exact hrefuse _ (hears.notOpened (Bool.eq_false_iff.mpr hsink))
    · refine hears.joinChannel h htalking ?_ ?_
      · intro hclosed hrecovery
        rw [hwas] at hclosed
        exact hc.lost hrecovery hclosing htalking hclosed
      · intro hopen hrecovery
        have htold := hc.opened hrecovery (hwas.symm.trans hopen)
        rwa [hopen, if_pos rfl] at htold
  · exact hrefuse w rfl

omit htalking in
/-- **A frame from the peer.** During a local close only `UA` frames are looked at. -/
theorem Hears.receive (frame : Frame) (hs : s.Sound)
    (hwas : was = fun c => (s.channels c).isOpen) (hguard : closing = true → frame.kind = ua) :
    Ends (receive sink frame) (s, w) (fun _ => CalmIn told closing was) fun _ _ => True := by
  have hnone : ∀ p : Op σ Unit,
      Ends p (s, w) (fun _ => CalmIn told closing was) (fun _ _ => True) →
      Ends (do p; pure Handoff.none) (s, w) (fun _ => CalmIn told closing was) fun _ _ => True := by
    intro p hp
    rw [ends_bind]
    exact hp.mono (fun _ _ hcalm => (ends_pure _).mpr hcalm) fun _ _ _ => trivial
  unfold Session.receive
  rw [ends_bind]
  refine ends_active ?_ (fun _ => trivial) (fun _ => trivial)
  intro hidle hfailed
  rw [ends_bind, ends_read, ends_ite]
  split
  -- a session that is closing, or waits, hears only that a channel is closed
  · rename_i hphase
    have hquiet : ¬ s.talking := by
      rintro (htalking | htalking)
      · rcases hphase with hphase | hphase
        · cases htalking.symm.trans hphase
        · cases htalking.symm.trans hphase
      · rcases hphase with hphase | hphase
        · cases htalking.symm.trans hphase
        · cases htalking.symm.trans hphase
    dsimp only
    rw [ends_ite]
    split
    · rw [ends_bind, ends_update, ends_pure]
      refine Calmly.modify h frame.dlci _ { h frame.dlci with
        opened := fun _ hopen => (by cases hopen)
        lost := fun _ _ htalking => absurd htalking hquiet
        settled := fun _ _ htalking => absurd htalking hquiet }
    · exact (ends_pure _).mpr h
  · rename_i hphase
    -- otherwise it is a frame of a conversation
    have htalking := talking_of_active hidle hfailed hphase
    rw [ends_ite]
    split
    · exact (ends_throw _).mpr trivial
    · unfold receiveFrame
      rw [ends_bind, ends_read, ends_ite]
      split
      -- data touches no channel but for the echo of a poll
      · have hecho : ∀ pending, CalmIn told closing was ({ s with pollFinalEcho := pending }, w) :=
          fun _ => Calmly.same h ⟨rfl, rfl, rfl, rfl, rfl⟩ id
        simp only [receiveData, ends_bind, ends_update, ends_read, ends_ite, ends_pure]
        split
        · exact hecho _
        · split
          · split
            · exact hecho _
            · exact hecho _
          · exact hecho _
      · rw [ends_ite]
        split
        · exact hnone _ (hears.receiveUa h htalking _ (congrFun hwas _))
        · rw [ends_ite]
          split
          · exact hnone _ (hears.receiveDm h htalking _)
          · rw [ends_ite]
            split
            -- a channel is opened by the peer, which a local close does not look at
            · rename_i hsabm
              refine hnone _ (hears.receiveSabm h htalking _ hs (congrFun hwas _) ?_)
              refine Bool.eq_false_iff.mpr fun hclosing => ?_
              have hua := hguard hclosing
              rw [hsabm] at hua
              exact absurd hua (by decide)
            · rw [ends_ite]
              split
              · exact hnone _ (hears.receiveDisc h _)
              · exact (ends_pure _).mpr h

omit htalking

/-! The other operations. -/

/-- A retry comes from a channel that is closed. -/
theorem Hears.recoveryTick (now : Nat) :
    Ends (recoveryTick sink now) (s, w) (fun _ => CalmIn told closing was) fun _ _ => True := by
  have hloop : ∀ (cs : List Dlci) (s : Session) (w : σ), CalmIn told closing was (s, w) →
      Ends (tickChannels sink now cs) (s, w) (fun _ => CalmIn told closing was) fun _ _ => True := by
    intro cs
    induction cs with
    | nil => exact fun s w h => (ends_pure _).mpr h
    | cons c rest ih =>
        intro s w h
        have hc := h c
        unfold tickChannels
        rw [ends_bind, ends_read, ends_ite]
        split
        · exact ih s w h
        · rename_i hdue
          have hretry : s.retryAt c ≠ 0 := fun hzero => hdue (Or.inl hzero)
          rw [ends_ite]
          split
          · have hclosed : CalmIn told closing was
                (s.modify c fun ch => { ch with opening := false }, w) :=
              Calmly.modify h c _ { hc with opening := fun _ hopening => (by cases hopening) }
            rw [ends_bind, ends_update, ends_ite]
            split
            · rw [ends_bind]
              refine ends_deadline ?_ trivial
              rw [ends_bind, ends_update, ends_pure]
              exact Calmly.same hclosed ⟨rfl, rfl, rfl, rfl, rfl⟩ id
            · rw [ends_bind, ends_update]
              refine ih _ _ (((Calmly.but hclosed c).setRetryAt _).whole ?_)
              have hretrying := fun hrecovery => (hclosed c).retrying hrecovery hretry
              exact { hclosed c with retrying := fun hrecovery _ => hretrying hrecovery }
          · -- the channel is tried again, and it was not paused
            have hagain : Calmly closing was ((s.setAttempts c (s.attempts c + 1)).modify c fun ch =>
                { ch with opening := true }) (told w) :=
              Calmly.modify (s := s.setAttempts c (s.attempts c + 1)) h c _
                { hc with opening := fun hrecovery _ => hc.retrying hrecovery hretry }
            rw [ends_bind, ends_update, ends_bind]
            refine hears.transmit_nil fun w' htold => ?_
            rw [ends_bind]
            refine ends_deadline ?_ trivial
            rw [ends_bind, ends_update]
            refine ih _ _ ?_
            unfold CalmIn
            dsimp only
            rw [htold]
            refine ((Calmly.but hagain c).setRetryAt _).whole ?_
            have hretrying := fun hrecovery => (hagain c).retrying hrecovery hretry
            exact { hagain c with retrying := fun hrecovery _ => hretrying hrecovery }
  unfold Session.recoveryTick
  rw [ends_bind, ends_update]
  exact hloop _ _ _ (Calmly.same h ⟨rfl, rfl, rfl, rfl, rfl⟩ id)

/-- Disconnections are asked for in a local close. -/
theorem Hears.requestDisconnect (channel : UInt8) (hclosing : closing = true) :
    Ends (requestDisconnect sink channel) (s, w) (fun _ => CalmIn told closing was)
      fun _ _ => True := by
  unfold Session.requestDisconnect
  rw [ends_bind]
  refine ends_active (fun _ _ => ?_) (fun _ => trivial) fun _ => trivial
  rw [ends_bind, ends_read]
  cases s.find channel with
  | none => exact (ends_throw _).mpr trivial
  | some c =>
      dsimp only
      rw [ends_ite]
      split
      · rw [ends_bind, ends_update]
        refine hears.transmit_nil fun w' htold => ?_
        unfold CalmIn
        dsimp only
        rw [htold]
        refine Calmly.modify h c _ { h c with settled := fun _ hopen => ?_ }
        rw [hclosing] at hopen
        cases hopen
      · exact (ends_pure _).mpr h

omit h in
/-- The `MSC` command for channel `c` is heard for that channel. -/
theorem Hears.signals {c : Dlci} {paused : Bool} {w' : σ}
    (hsink : sink (.apply (.transmit (signalsFrame c paused))) w = (true, w')) :
    told w' = Function.update (told w) c ⟨paused, paused⟩ := by
  have hgiven : (sink (.apply (.transmit (signalsFrame c paused))) w).1 = true := by rw [hsink]
  have hsent := hears.sent hgiven
  rw [hsink] at hsent
  funext d
  rw [hsent d, flowControl_signalsFrame]
  by_cases hd : c = d
  · subst hd
    simp
  · rw [if_neg hd, Function.update_of_ne (Ne.symm hd)]
    rfl

/-- A pause is told to the peer. With recovery it comes from an open channel. -/
theorem Hears.setLocalPause (channel : UInt8) (paused : Bool) (hs : s.Sound)
    (hwas : was = fun c => (s.channels c).isOpen)
    (hopen : ∀ c, s.find channel = some c → paused = true → s.recovery = true →
      (s.channels c).isOpen = true) :
    Ends (setLocalPause sink channel paused) (s, w) (fun _ => CalmIn told closing was)
      fun _ _ => True := by
  refine setLocalPause_spec.mono ?_ fun _ _ _ => trivial
  rintro _ ⟨s', w'⟩ ⟨-, -, c, hfind, hpresent, hcases⟩
  rcases hcases with ⟨-, hst⟩ | ⟨-, rfl : s' = _, hsink⟩
  · rw [hst]
    exact h
  have htold : told w' = _ := hears.signals hsink
  have hc := h c
  have hsound := hs c
  -- A pause comes from an open channel, which is neither opening nor being retried.
  have hsettled : paused = true → s.recovery = true →
      (s.channels c).isOpen = true ∧ (s.channels c).opening = false ∧ s.retryAt c = 0 := by
    intro hpaused hrecovery
    have hopened := hopen c hfind hpaused hrecovery
    refine ⟨hopened, hsound.open_settled hopened, ?_⟩
    by_contra hretry
    rw [hsound.retry_closed hretry] at hopened
    cases hopened
  -- All other channels are as they were.
  refine CalmBut.whole (c := c) ((Calmly.but h c).at rfl id fun d hd =>
    ⟨Function.update_of_ne hd .., rfl, ?_⟩) ?_
  · dsimp only
    rw [htold, Function.update_of_ne hd]
  · show Calm s.recovery closing s.talking (was c)
      (Function.update s.channels c { s.channels c with localPaused := paused } c) (s.retryAt c) _
    rw [Function.update_self]
    dsimp only
    rw [htold, Function.update_self]
    cases paused with
    | false =>
        -- To release a peer is always calm.
        exact { hc with
          opened := fun _ _ => (by simp)
          opening := fun _ _ => rfl
          retrying := fun _ _ => rfl
          lost := fun _ _ _ _ => rfl
          created := fun _ _ => rfl }
    | true =>
        exact { hc with
          -- To pause one is calm because the channel is open.
          opened := fun _ hopened => (by rw [hwas]; exact (if_pos hopened).symm)
          opening := fun hrecovery hopening => (by
            rw [(hsettled rfl hrecovery).2.1] at hopening
            cases hopening)
          retrying := fun hrecovery hretry => absurd (hsettled rfl hrecovery).2.2 hretry
          lost := fun hrecovery _ _ hlost => (by
            rw [(hsettled rfl hrecovery).1] at hlost
            cases hlost)
          created := fun _ _ => rfl }

/-- A new endpoint is not paused, and the peer was released before. -/
theorem Hears.recreateEndpoint (channel : UInt8)
    (hwas : was = fun c => (s.channels c).isOpen) :
    Ends (recreateEndpoint sink channel) (s, w) (fun _ => CalmIn told closing was)
      fun _ _ => True := by
  refine recreateEndpoint_spec.mono ?_ fun _ _ _ => trivial
  rintro _ ⟨s', w'⟩ ⟨-, -, c, -, -, rfl : s' = _, w₁, w₂, hclose, hsignals, hopen⟩
  have hc := h c
  have hclosed : told w₁ = told w := by
    have haside : told (sink (.apply (.closeEndpoint c)) w).2 = told w := hears.aside rfl
    rw [hclose] at haside
    exact haside
  have hopened : told w' = Function.update (told w₂) c ⟨(told w₂ c).sinceOpened, false⟩ := by
    have hcall := hears.opened (w := w₂) (c := c) (by rw [hopen])
    rw [hopen] at hcall
    exact hcall
  -- the release is heard for this channel only
  have hreleased : (∀ d, d ≠ c → told w₂ d = told w d) ∧
      (s.recovery = true → (s.channels c).isOpen = true → (told w₂ c).sinceOpened = false) := by
    split at hsignals
    · have htold := hears.signals hsignals
      rw [htold, hclosed]
      exact ⟨fun d hd => Function.update_of_ne hd .., fun _ _ => by rw [Function.update_self]⟩
    · rename_i hpaused
      rw [hsignals, hclosed]
      refine ⟨fun _ _ => rfl, fun hrecovery hopened => ?_⟩
      have htold := hc.opened hrecovery hopened
      rw [hwas, if_pos hopened] at htold
      exact htold.symm.trans (Bool.eq_false_iff.mpr hpaused)
  refine CalmBut.whole (c := c) ((Calmly.but h c).at rfl id fun d hd =>
    ⟨Function.update_of_ne hd .., rfl, ?_⟩) ?_
  · dsimp only
    rw [hopened, Function.update_of_ne hd, hreleased.1 d hd]
  · show Calm s.recovery closing s.talking (was c) (Function.update s.channels c
      { s.channels c with endpointPresent := true, peerPaused := false, localPaused := false } c)
      (s.retryAt c) _
    rw [Function.update_self]
    dsimp only
    rw [hopened, Function.update_self]
    exact { hc with
      opened := fun hrecovery hopen => (by
        rw [hwas, if_pos hopen]
        exact (hreleased.2 hrecovery hopen).symm)
      opening := fun _ _ => rfl
      retrying := fun _ _ => rfl
      lost := fun _ _ _ _ => rfl
      created := fun _ _ => rfl }

/-- A control message that is not a command. -/
theorem Hears.sendControl {control : UInt8} {payload : List UInt8}
    (hanswer : ∀ b, payload.head? = some b → b &&& 2 = 0) :
    Ends (sendControl sink control payload) (s, w) (fun _ => CalmIn told closing was)
      fun _ _ => True := by
  have hsilent : ∀ control c, flowControl? c ⟨commandAddress 0, control, payload⟩ = none := by
    intro control c
    unfold flowControl?
    split
    · rename_i kind _ _ _ hpayload
      have hkind := hanswer kind (by rw [show payload = _ from hpayload]; rfl)
      rw [if_neg]
      rintro ⟨-, rfl, -⟩
      exact absurd hkind (by decide)
    · rfl
  have hsend : ∀ s' control, SameTable s s' → s'.phase = s.phase →
      Ends (Session.apply sink (.transmit ⟨commandAddress 0, control, payload⟩)) (s', w)
        (fun _ => CalmIn told closing was) fun _ _ => True := by
    intro s' control hsame hphase
    refine ends_apply (fun hsink => ?_) fun _ => trivial
    have htold : told (sink (.apply (.transmit ⟨commandAddress 0, control, payload⟩)) w).2 =
        told w := by
      funext d
      rw [hears.sent hsink d, hsilent]
      rfl
    unfold CalmIn
    dsimp only
    rw [htold]
    exact Calmly.same h hsame fun ht => by unfold talking at ht ⊢; rwa [hphase] at ht
  unfold Session.sendControl
  rw [ends_bind]
  refine ends_active (fun _ _ => ?_) (fun _ => trivial) fun _ => trivial
  simp only [transmit, ends_bind, ends_read, ends_ite, ends_update, ends_throw]
  split
  · trivial
  · split
    · exact hsend _ _ ⟨rfl, rfl, rfl, rfl, rfl⟩ rfl
    · exact hsend _ _ ⟨rfl, rfl, rfl, rfl, rfl⟩ rfl

omit h in
/-- `begin` starts from an idle session, where nothing is paused. -/
theorem Hears.begin (now : Nat) (hs : s.Sound) :
    Ends (begin sink now) (s, w) (fun _ => CalmIn told closing was) fun _ _ => True := by
  unfold Session.begin
  rw [ends_bind, ends_read, ends_ite]
  split
  · exact (ends_throw _).mpr trivial
  · rename_i hphase
    have hidle : s.phase = .idle := by simpa using hphase
    -- a channel without an endpoint that is neither open nor paused is calm
    have hclear : ∀ s' : Session, (∀ c, (s'.channels c).isOpen = false ∧
          (s'.channels c).localPaused = false ∧ (s'.channels c).disconnecting = false) →
        (∀ w', (∀ c, (s'.channels c).endpointPresent = true → (told w' c).sinceCreated = false) →
          CalmIn told closing was (s', w')) := by
      intro s' hflags w' hcreated c
      obtain ⟨hclosed, hpaused, hsettled⟩ := hflags c
      refine ⟨?_, fun _ _ => hpaused, fun _ _ => hpaused, fun _ _ _ _ => hpaused,
        fun _ _ _ => hsettled, fun _ hpresent => ?_⟩
      · intro _ hopen
        rw [hclosed] at hopen
        cases hopen
      · rw [hpaused]
        exact (hcreated c hpresent).symm
    have hstart : ∀ c, (s.channels c).isOpen = false ∧ (s.channels c).localPaused = false ∧
        (s.channels c).disconnecting = false ∧ (s.channels c).endpointPresent = false := by
      intro c
      rw [((hs c).idle_clear hidle).1]
      exact ⟨rfl, rfl, rfl, rfl⟩
    rw [ends_bind]
    refine ends_deadline ?_ trivial
    rw [ends_bind, ends_update, ends_bind, ends_update, ends_bind]
    refine hears.transmit_nil fun w' _ => ?_
    refine (ends_forM (I := fun _ (st : Session × σ) => (∀ c, (st.1.channels c).isOpen = false ∧
        (st.1.channels c).localPaused = false ∧ (st.1.channels c).disconnecting = false) ∧
      ∀ c, (st.1.channels c).endpointPresent = true → (told st.2 c).sinceCreated = false)
      ?_ ⟨?_, ?_⟩).mono (fun _ st hst => hclear st.1 hst.1 st.2 hst.2) fun _ _ h' => h'
    · rintro c rest ⟨s', w₁⟩ ⟨hflags, hcreated⟩
      simp only [beginChannel, ends_bind, ends_ask, ends_ite, ends_update, ends_throw]
      split
      · rename_i hsink
        have htold := hears.opened hsink
        refine hears.transmit_nil fun w₂ htold' => ⟨fun d => ?_, fun d hpresent => ?_⟩
        · by_cases hd : d = c
          · subst hd
            simpa [Session.modify] using hflags d
          · simpa [Session.modify, hd] using hflags d
        · dsimp only
          rw [htold', htold]
          by_cases hd : d = c
          · subst hd
            rw [Function.update_self]
          · rw [Function.update_of_ne hd]
            exact hcreated d (by simpa [Session.modify, hd] using hpresent)
      · trivial
    · intro c
      by_cases hc : c = 0
      · subst hc
        simpa [Session.modify] using ⟨(hstart 0).1, (hstart 0).2.1, (hstart 0).2.2.1⟩
      · simpa [Session.modify, hc] using ⟨(hstart c).1, (hstart c).2.1, (hstart c).2.2.1⟩
    · intro c hpresent
      have habsent : (s.channels c).endpointPresent = true := by
        by_cases hc : c = 0
        · subst hc
          simpa [Session.modify] using hpresent
        · simpa [Session.modify, hc] using hpresent
      rw [(hstart c).2.2.2] at habsent
      cases habsent

omit hears

/-- What the peer signals is not what it is told. -/
theorem applyPeerSignals_calm (channel signals : UInt8) :
    Ends (applyPeerSignals channel signals) (s, w) (fun _ => CalmIn told closing was)
      fun _ _ => True := by
  unfold applyPeerSignals
  rw [ends_bind]
  refine ends_active (fun _ _ => ?_) (fun _ => trivial) fun _ => trivial
  rw [ends_bind, ends_read]
  dsimp only
  cases s.find channel with
  | none => exact (ends_pure _).mpr h
  | some c =>
      dsimp only
      rw [ends_ite]
      split
      · exact ends_update.mpr (Calmly.modify h c _ { h c with })
      · exact (ends_pure _).mpr h

theorem applicationInput_calm (channel : UInt8) :
    Ends (applicationInput channel) (s, w) (fun _ => CalmIn told closing was) fun _ _ => True := by
  unfold applicationInput
  rw [ends_bind]
  refine ends_active (fun _ _ => ?_) (fun _ => trivial) fun _ => trivial
  rw [ends_bind, ends_read]
  dsimp only
  cases s.find channel with
  | none => exact (ends_throw _).mpr trivial
  | some c =>
      dsimp only
      rw [ends_ite]
      split
      · rw [ends_bind, ends_update, ends_pure]
        exact Calmly.modify h c _ { h c with }
      · exact (ends_pure _).mpr h

theorem pollTimeout_calm (now : Nat) (pending : Bool) :
    Ends (pollTimeout now pending) (s, w) (fun _ => CalmIn told closing was) fun _ _ => True := by
  unfold pollTimeout
  rw [ends_bind]
  refine ends_active (fun _ _ => ?_) (fun _ => trivial) fun _ => trivial
  simp only [ends_bind, ends_read, ends_ite, ends_pure, ends_update, ends_throw]
  split
  · exact h
  · split
    · exact h
    · split
      · trivial
      · exact h

/-- Behind `peer_close` the session does not talk any more. -/
theorem peerClose_calm (closing' : Bool) :
    Ends peerClose (s, w) (fun _ => CalmIn told closing' was) fun _ _ => True := by
  unfold peerClose
  rw [ends_bind]
  refine ends_active (fun _ _ => ?_) (fun _ => trivial) fun _ => trivial
  refine ends_update.mpr fun c => ?_
  have hquiet : ¬ Session.talking { s with phase := .peerClosing } := by
    rintro (hphase | hphase)
    · cases hphase
    · cases hphase
  exact { h c with
    lost := fun _ _ htalking => absurd htalking hquiet
    settled := fun _ _ htalking => absurd htalking hquiet }

end Operations

end Mindone.Mux.Session
