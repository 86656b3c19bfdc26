import Mindone.Mux.Session

/-!
# Mindone.Mux.SessionMoves

**What an operation can do to a session.** Every operation but the four that
rebuild endpoints or the whole session (`begin`, `set_local_pause`,
`recreate_endpoint` and the reset) is a chain of the moves listed here
(`run_moves`), each with the guard under which the source makes it. Invariants
are proved move by move and then hold over every run; the four others have
specifications of their own (`begin_spec`, `setLocalPause_spec`,
`recreateEndpoint_spec`).

The moves assume `Sound`, the relation between the flags, the retry times and the
attempts of a channel that every operation keeps.
-/

namespace Mindone.Mux.Session

open Mindone.Lib

variable {σ : Type}

/-! ### The invariant of a channel -/

/-- What holds between the flags, the retry time and the attempts of a channel. -/
structure ChannelSound (phase : Phase) (recovery : Bool) (c : Dlci) (ch : Channel)
    (retryAt attempts : Nat) : Prop where
  open_settled : ch.isOpen = true → ch.opening = false
  retry_closed : retryAt ≠ 0 → ch.isOpen = false
  retry_fresh : retryAt ≠ 0 → attempts = 0 → ch.opening = false
  attempt_retry : ch.opening = true → attempts ≠ 0 → retryAt ≠ 0
  retry_recovery : retryAt ≠ 0 → recovery = true
  control_retry : c = 0 → retryAt = 0
  control_absent : c = 0 → ch.endpointPresent = false
  paused_present : ch.localPaused = true → ch.endpointPresent = true
  present : phase ≠ .failed → c ≠ 0 → ch.isOpen = true ∨ ch.opening = true ∨ retryAt ≠ 0 →
    ch.endpointPresent = true
  idle_clear : phase = .idle →
    ch = { peerPaused := ch.peerPaused } ∧ (c ≠ 0 → ch.peerPaused = false) ∧
      retryAt = 0 ∧ attempts = 0

def Sound (s : Session) : Prop :=
  ∀ c, ChannelSound s.phase s.recovery c (s.channels c) (s.retryAt c) (s.attempts c)

theorem ChannelSound.clear (phase : Phase) (recovery : Bool) (c : Dlci) (peerPaused : Bool)
    (h : c ≠ 0 → peerPaused = false) :
    ChannelSound phase recovery c { peerPaused := peerPaused } 0 0 := by
  constructor <;> simp
  exact fun _ => h

theorem initial_sound (layout : Layout) (limit : Nat) : (initial layout limit).Sound :=
  fun c => .clear _ _ c false fun _ => rfl

theorem resetAfterTransportClose_sound (s : Session) : s.resetAfterTransportClose.Sound := by
  intro c
  by_cases hc : c = 0
  · subst hc
    have hch : s.resetAfterTransportClose.channels 0 =
        { peerPaused := (s.channels 0).peerPaused } := by simp [resetAfterTransportClose]
    rw [hch]
    exact .clear _ _ 0 _ fun h => absurd rfl h
  · have hch : s.resetAfterTransportClose.channels c = {} := by simp [resetAfterTransportClose, hc]
    rw [hch]
    exact .clear _ _ c false fun _ => rfl

theorem new_initial {config : List ChannelConfig} {limit : Nat} {s : Session}
    (h : new config limit = .ok s) : ∃ layout, s = initial layout limit := by
  unfold new at h
  split at h
  · cases h
  · cases hlayout : config.foldlM addChannel emptyLayout with
    | error e =>
        rw [hlayout] at h
        cases h
    | ok layout =>
        rw [hlayout] at h
        cases h
        exact ⟨layout, rfl⟩

/-- Leaving one active phase for another, or failing, costs a channel nothing. -/
theorem ChannelSound.change_phase {phase phase' : Phase} {recovery : Bool} {c : Dlci}
    {ch : Channel} {retryAt attempts : Nat}
    (h : ChannelSound phase recovery c ch retryAt attempts) (hidle : phase' ≠ .idle)
    (hfailed : phase' ≠ .failed → phase ≠ .failed) :
    ChannelSound phase' recovery c ch retryAt attempts :=
  { h with
    present := fun hphase => h.present (hfailed hphase)
    idle_clear := fun hphase => absurd hphase hidle }

theorem Sound.fail {s : Session} (h : s.Sound) : s.fail.Sound :=
  fun c => (h c).change_phase (by simp [Session.fail]) (by simp [Session.fail])

/-- A change of one channel has to be checked at that channel only. -/
theorem Sound.of_agree {s s' : Session} (h : s.Sound) (c : Dlci) (hphase : s'.phase = s.phase)
    (hrecovery : s'.recovery = s.recovery)
    (hother : ∀ d, d ≠ c → s'.channels d = s.channels d ∧ s'.retryAt d = s.retryAt d ∧
      s'.attempts d = s.attempts d)
    (hc : ChannelSound s.phase s.recovery c (s'.channels c) (s'.retryAt c) (s'.attempts c)) :
    s'.Sound := by
  intro d
  rw [hphase, hrecovery]
  by_cases hd : d = c
  · subst hd
    exact hc
  · obtain ⟨hch, hretry, hattempts⟩ := hother d hd
    rw [hch, hretry, hattempts]
    exact h d

theorem Sound.modify {s : Session} (h : s.Sound) (c : Dlci) (f : Channel → Channel)
    (hc : ChannelSound s.phase s.recovery c (f (s.channels c)) (s.retryAt c) (s.attempts c)) :
    (s.modify c f).Sound := by
  refine h.of_agree c rfl rfl ?_ ?_
  · intro d hd
    exact ⟨Function.update_of_ne hd .., rfl, rfl⟩
  · simpa [Session.modify] using hc

/-! ### Moves -/

/-- Frames are answered in these phases only. -/
def talking (s : Session) : Prop := s.phase = .setup ∨ s.phase = .running

/-- The operation receives a frame of this kind for channel `c`. -/
def Operation.Receives (op : Operation) (kind : UInt8) (c : Dlci) : Prop :=
  ∃ frame, op = .receive frame ∧ frame.kind = kind ∧ frame.dlci = c

theorem Operation.Receives.not_sabm {op : Operation} {kind : UInt8} {c : Dlci}
    (h : op.Receives kind c) (hkind : kind ≠ sabm) : ¬ op.Receives sabm c := by
  rintro ⟨frame, rfl, hsabm, -⟩
  obtain ⟨frame', hframe, hk, -⟩ := h
  cases hframe
  exact hkind (hk.symm.trans hsabm)

/-- `resolve` where the source calls it under a condition. -/
def resolveWhen (sink : Sink σ) (c : Prop) [Decidable c] : Op σ Unit :=
  if c then resolve sink else pure ()

/-- The channel accepted by `UA`. -/
def accepted (s : Session) (c : Dlci) : Session :=
  (s.modify c fun ch => { ch with opening := false, isOpen := true }).setRetryAt c 0

/-- The channel opened by the peer's `SABM`. -/
def joined (s : Session) (c : Dlci) : Session :=
  (s.modify c fun ch =>
    { ch with
      isOpen := true
      disconnecting := false
      refused := false
      refusalReported := false
      opening := false }).setRetryAt c 0

/-- The channel refused by `DM`. -/
def refusedAt (s : Session) (c : Dlci) : Session :=
  s.modify c fun ch => { ch with opening := false, refused := true }

/-- One move of the operation `op`. -/
inductive Move (sink : Sink σ) (op : Operation) : Session × σ → Session × σ → Prop
  | tick {s w} (now escalationAfter : Nat) :
      Move sink op (s, w) ({ s with now := now, escalationAfter := escalationAfter }, w)
  | enable {s w} {escalationAfter : Nat} (hop : op = .enableRecovery escalationAfter) :
      Move sink op (s, w) (s.enableRecovery escalationAfter, w)
  | echo {s w} (pending : Bool) :
      Move sink op (s, w) ({ s with pollFinalEcho := pending }, w)
  | send {s w} (frame : Frame)
      (hpayload : frame.payload = [] ∨ ∃ control, op = .sendControl control frame.payload) :
      Move sink op (s, w) (if (sink (.apply (.transmit frame)) w).1 then s else s.fail,
        (sink (.apply (.transmit frame)) w).2)
  | halt {s w} : Move sink op (s, w) (s.fail, w)
  | leave {s w} {phase : Phase} (hidle : s.phase ≠ .idle) (hfailed : s.phase ≠ .failed)
      (hphase : phase = .closing ∨ phase = .peerClosing) :
      Move sink op (s, w) ({ s with phase := phase }, w)
  | openRefused {s w} {c : Dlci} (hsink : (sink (.openEndpoint c) w).1 = false) :
      Move sink op (s, w) (s, (sink (.openEndpoint c) w).2)
  | openFresh {s w} {c : Dlci} (htalking : s.talking) (hconf : s.configured c) (hc : c ≠ 0)
      (habsent : (s.channels c).endpointPresent = false)
      (hsink : (sink (.openEndpoint c) w).1 = true) :
      Move sink op (s, w) (s.modify c fun ch =>
          { ch with endpointPresent := true, localPaused := false, peerPaused := false },
        (sink (.openEndpoint c) w).2)
  | close {s w} {c : Dlci} (hc : c ≠ 0) (hclosed : (s.channels c).isOpen = false)
      (hsettled : (s.channels c).opening = false) (hretry : s.retryAt c = 0) :
      Move sink op (s, w) (if (sink (.apply (.closeEndpoint c)) w).1 then s.modify c fun ch =>
          { ch with endpointPresent := false, peerPaused := false, localPaused := false }
        else s.fail, (sink (.apply (.closeEndpoint c)) w).2)
  | accept {s w} {c : Dlci} (hop : op.Receives ua c) (htalking : s.talking)
      (hconf : s.configured c) (hclosed : (s.channels c).isOpen = false)
      (hopening : (s.channels c).opening = true) :
      Move sink op (s, w) (endState (resolveWhen sink (s.attempts c = 0) (s.accepted c, w)))
  | join {s w} {c : Dlci} (hop : op.Receives sabm c) (htalking : s.talking)
      (hconf : s.configured c) (hpresent : c ≠ 0 → (s.channels c).endpointPresent = true) :
      Move sink op (s, w) (endState (resolveWhen sink
        ((s.channels c).opening ∧ s.attempts c = 0) (s.joined c, w)))
  | refuse {s w} {c : Dlci} (hop : op.Receives dm c) (htalking : s.talking)
      (hconf : s.configured c) (hc : c ≠ 0) (hclosed : (s.channels c).isOpen = false)
      (hopening : (s.channels c).opening = true) (hattempts : s.attempts c = 0) {w' : σ}
      (hatci : if s.layout.atci c then sink (.apply .atciUnavailable) w = (true, w') else w' = w) :
      Move sink op (s, w) (endState (resolve sink (s.refusedAt c, w')))
  | refuseRejected {s w} {c : Dlci} (hop : op.Receives dm c) (hphase : s.phase ≠ .idle)
      (hsink : (sink (.apply .atciUnavailable) w).1 = false) :
      Move sink op (s, w) ((s.refusedAt c).fail, (sink (.apply .atciUnavailable) w).2)
  | lose {s w} {c : Dlci} (hop : ¬ op.Receives sabm c) (hphase : s.phase ≠ .idle)
      (disconnecting : Bool) :
      Move sink op (s, w) (s.modify c fun ch =>
        { ch with isOpen := false, disconnecting := disconnecting }, w)
  | settle {s w} {c : Dlci} (hphase : s.phase ≠ .idle) (disconnecting : Bool) :
      Move sink op (s, w) (s.modify c fun ch => { ch with disconnecting := disconnecting }, w)
  | pause {s w} {c : Dlci} (hphase : s.phase ≠ .idle) (hc : c ≠ 0)
      (hclosed : (s.channels c).isOpen = false) (hsettled : (s.channels c).opening = false) :
      Move sink op (s, w) (s.modify c fun ch =>
          { ch with
            peerPaused := false
            localPaused := false
            refused := false
            opening := false
            disconnecting := false },
        (sink (.pauseEndpoint c) w).2)
  | schedule {s w} {c : Dlci} {due : Nat} (hphase : s.phase ≠ .idle) (hc : c ≠ 0)
      (hrecovery : s.recovery = true) (hdue : due ≠ 0)
      (hclosed : (s.channels c).isOpen = false)
      (hfresh : s.attempts c = 0 → (s.channels c).opening = false)
      (hpresent : s.phase ≠ .failed → (s.channels c).endpointPresent = true) :
      Move sink op (s, w) (s.setRetryAt c due, w)
  | abandon {s w} {c : Dlci} (hretry : s.retryAt c ≠ 0) :
      Move sink op (s, w) (s.modify c fun ch => { ch with opening := false }, w)
  | retry {s w} {c : Dlci} {now : Nat} (hop : op = .recoveryTick now)
      (hretry : s.retryAt c ≠ 0) (hattempts : s.attempts c ≠ 3) :
      Move sink op (s, w) ((s.setAttempts c (s.attempts c + 1)).modify c fun ch =>
        { ch with opening := true }, w)
  | peerSignals {s w} {c : Dlci} {channel signals : UInt8}
      (hop : op = .applyPeerSignals channel signals) (hc : s.find channel = some c)
      (hopen : (s.channels c).isOpen = true) :
      Move sink op (s, w) (s.modify c fun ch =>
        { ch with peerPaused := signals &&& 2 != 0 }, w)
  | reported {s w} {c : Dlci} (hphase : s.phase ≠ .idle) :
      Move sink op (s, w) (s.modify c fun ch => { ch with refusalReported := true }, w)

abbrev Moves (sink : Sink σ) (op : Operation) := Relation.ReflTransGen (Move sink op)

/-! ### Moves keep the invariant -/

/-- `resolve` changes the setup counters and, when setup is complete, the phase. -/
theorem resolve_spec (sink : Sink σ) (s : Session) (w : σ) :
    (s.unresolved = 0 ∧ endState (resolve sink (s, w)) = (s, w)) ∨
    (s.unresolved ≠ 0 ∧ ¬ (s.unresolved = 1 ∧ s.setupDone = false) ∧
      endState (resolve sink (s, w)) = ({ s with unresolved := s.unresolved - 1 }, w)) ∨
    (s.unresolved = 1 ∧ s.setupDone = false ∧ s.readyStarted = true ∧
      endState (resolve sink (s, w)) =
        ({ s with unresolved := 0, setupDone := true, phase := .running }, w)) ∨
    (s.unresolved = 1 ∧ s.setupDone = false ∧ s.readyStarted = false ∧
      endState (resolve sink (s, w)) =
        (if (sink (.apply (.ready s.refusedChannels)) w).1 then
            { s with unresolved := 0, setupDone := true, phase := .running, readyStarted := true }
          else { s with unresolved := 0, setupDone := true, phase := .failed },
          (sink (.apply (.ready s.refusedChannels)) w).2)) := by
  have hend : ∀ st : Session × σ, endState (resolve sink (s, w)) = st ↔
      Ends (resolve sink) (s, w) (fun _ st' => st' = st) fun _ st' => st' = st := by
    intro st
    rw [ends_endState (P := (· = st))]
  simp only [hend]
  -- Nothing left to resolve, more than one, or the last.
  by_cases hzero : s.unresolved = 0
  · refine Or.inl ⟨hzero, ?_⟩
    simp [resolve, ends_ite, hzero]
  · refine Or.inr ?_
    by_cases hlast : s.unresolved = 1 ∧ s.setupDone = false
    · refine Or.inr ?_
      obtain ⟨hone, hdone⟩ := hlast
      -- The last one starts `Ready`, unless that was done before.
      cases hready : s.readyStarted with
      | true =>
          refine Or.inl ⟨hone, hdone, rfl, ?_⟩
          simp [resolve, ends_ite, hone, hdone, hready]
      | false =>
          refine Or.inr ⟨hone, hdone, rfl, ?_⟩
          simp only [resolve, ends_bind, ends_read, ends_ite, ends_update, hone, hdone, hready,
            apply, ends_ask]
          cases hsink : (sink (.apply (.ready s.refusedChannels)) w).1 with
          | true => simp
          | false => simp [fail]
    · refine Or.inl ⟨hzero, hlast, ?_⟩
      have hnot : ¬ (s.unresolved - 1 = 0 ∧ s.setupDone = false) := by
        rintro ⟨hle, hdone⟩
        exact hlast ⟨by omega, hdone⟩
      simp [resolve, ends_ite, hzero, hnot]

/-- Two sessions with the same channel table. -/
structure SameTable (s s' : Session) : Prop where
  layout : s'.layout = s.layout
  channels : s'.channels = s.channels
  recovery : s'.recovery = s.recovery
  retryAt : s'.retryAt = s.retryAt
  attempts : s'.attempts = s.attempts

theorem Sound.of_sameTable {s s' : Session} (h : s.Sound) (hsame : SameTable s s')
    (hphase : s'.phase = s.phase ∨
      s'.phase ≠ .idle ∧ (s'.phase ≠ .failed → s.phase ≠ .failed)) : s'.Sound := by
  intro c
  rw [hsame.channels, hsame.recovery, hsame.retryAt, hsame.attempts]
  rcases hphase with heq | ⟨hidle, hfailed⟩
  · rw [heq]
    exact h c
  · exact (h c).change_phase hidle hfailed

theorem resolve_sameTable (sink : Sink σ) (s : Session) (w : σ) :
    SameTable s (endState (resolve sink (s, w))).1 := by
  rcases resolve_spec sink s w with ⟨-, h⟩ | ⟨-, -, h⟩ | ⟨-, -, -, h⟩ | ⟨-, -, -, h⟩
  · rw [h]
    exact ⟨rfl, rfl, rfl, rfl, rfl⟩
  · rw [h]
    exact ⟨rfl, rfl, rfl, rfl, rfl⟩
  · rw [h]
    exact ⟨rfl, rfl, rfl, rfl, rfl⟩
  · rw [h]
    cases (sink (.apply (.ready s.refusedChannels)) w).1 with
    | true => exact ⟨rfl, rfl, rfl, rfl, rfl⟩
    | false => exact ⟨rfl, rfl, rfl, rfl, rfl⟩

theorem resolve_phase (sink : Sink σ) (s : Session) (w : σ) :
    (endState (resolve sink (s, w))).1.phase = s.phase ∨
      (endState (resolve sink (s, w))).1.phase = .running ∨
      (endState (resolve sink (s, w))).1.phase = .failed := by
  rcases resolve_spec sink s w with ⟨-, h⟩ | ⟨-, -, h⟩ | ⟨-, -, -, h⟩ | ⟨-, -, -, h⟩
  · rw [h]
    exact Or.inl rfl
  · rw [h]
    exact Or.inl rfl
  · rw [h]
    exact Or.inr (Or.inl rfl)
  · rw [h]
    cases (sink (.apply (.ready s.refusedChannels)) w).1 with
    | true => exact Or.inr (Or.inl rfl)
    | false => exact Or.inr (Or.inr rfl)

/-- In an active session `resolve` keeps the invariant. -/
theorem Sound.resolve {sink : Sink σ} {s : Session} {w : σ} (h : s.Sound) (htalking : s.talking) :
    (endState (resolve sink (s, w))).1.Sound := by
  refine h.of_sameTable (resolve_sameTable sink s w) ?_
  have hactive : s.phase ≠ .failed := by
    rcases htalking with h | h
    · simp [h]
    · simp [h]
  rcases resolve_phase sink s w with hphase | hphase | hphase
  · exact Or.inl hphase
  · exact Or.inr ⟨by simp [hphase], fun _ => hactive⟩
  · exact Or.inr ⟨by simp [hphase], fun hne => absurd hphase hne⟩

theorem Sound.resolveWhen {sink : Sink σ} {s : Session} {w : σ} (h : s.Sound)
    (htalking : s.talking) {p : Prop} [Decidable p] :
    (endState (resolveWhen sink p (s, w))).1.Sound := by
  unfold Session.resolveWhen
  split
  · exact h.resolve htalking
  · exact h

theorem talking_of_active {s : Session} (hidle : s.phase ≠ .idle) (hfailed : s.phase ≠ .failed)
    (hclosing : ¬ (s.phase = .closing ∨ s.phase = .peerClosing)) : s.talking := by
  unfold talking
  cases hphase : s.phase with
  | idle => exact absurd hphase hidle
  | failed => exact absurd hphase hfailed
  | closing => exact absurd (Or.inl hphase) hclosing
  | peerClosing => exact absurd (Or.inr hphase) hclosing
  | setup => exact Or.inl rfl
  | running => exact Or.inr rfl

theorem talking.phase_ne_failed {s : Session} (h : s.talking) : s.phase ≠ .failed := by
  rcases h with h | h
  · simp [h]
  · simp [h]

theorem talking.phase_ne_idle {s : Session} (h : s.talking) : s.phase ≠ .idle := by
  rcases h with h | h
  · simp [h]
  · simp [h]

theorem Sound.refusedAt {s : Session} (h : s.Sound) (hidle : s.phase ≠ .idle) (c : Dlci) :
    (s.refusedAt c).Sound := by
  refine h.modify c _ ?_
  exact { h c with
    open_settled := fun _ => rfl
    retry_fresh := fun _ _ => rfl
    attempt_retry := fun h => by cases h
    present := fun hf hc hor => (h c).present hf hc (by grind)
    idle_clear := fun h => absurd h hidle }

/-- **Every move keeps the invariant.** -/
theorem Move.sound {sink : Sink σ} {op : Operation} {st st' : Session × σ}
    (h : Move sink op st st') (hs : st.1.Sound) : st'.1.Sound := by
  cases h with
  | @tick s w now escalationAfter => exact hs
  -- only the clause about recovery is touched
  | @enable s w escalationAfter hop =>
      exact fun c => { hs c with retry_recovery := fun _ => rfl }
  | @echo s w pending => exact hs
  | @send s w frame hpayload =>
      dsimp only
      split
      · exact hs
      · exact hs.fail
  | @halt s w => exact hs.fail
  -- the table stays; the new phase is neither idle nor failed
  | @leave s w phase hidle hfailed hphase =>
      refine hs.of_sameTable ⟨rfl, rfl, rfl, rfl, rfl⟩ (Or.inr ⟨?_, fun _ => hfailed⟩)
      rcases hphase with rfl | rfl
      · simp
      · simp
  | @openRefused s w c hsink => exact hs
  -- one channel changes, and of its clauses those about its presence
  | @openFresh s w c htalking hconf hc habsent hsink =>
      refine hs.modify c _ ?_
      have hidle := htalking.phase_ne_idle
      exact { hs c with
        control_absent := fun h => absurd h hc
        paused_present := fun h => rfl
        present := fun _ _ _ => rfl
        idle_clear := fun h => absurd h hidle }
  -- a close is for a channel that is open or was never set up
  | @close s w c hc hclosed hsettled hretry =>
      dsimp only
      split
      · refine hs.modify c _ ?_
        exact { hs c with
          control_absent := fun _ => rfl
          paused_present := fun h => by cases h
          present := fun _ _ h => by simp_all
          idle_clear := fun h => by
            have hclear := ((hs c).idle_clear h).1
            refine ⟨?_, fun _ => rfl, ((hs c).idle_clear h).2.2⟩
            rw [hclear] }
      · exact hs.fail
  -- the channel changes first, and `resolve` counts it behind that
  | @accept s w c hop htalking hconf hclosed hopening =>
      have haccepted : (s.accepted c).talking := htalking
      refine Sound.resolveWhen ?_ haccepted
      have hidle := htalking.phase_ne_idle
      refine hs.of_agree c rfl rfl ?_ ?_
      · intro d hd
        simp [accepted, Session.modify, setRetryAt, hd]
      · have hpresent := (hs c).present
        have habsent := (hs c).control_absent
        have hpaused := (hs c).paused_present
        constructor <;> simp_all [accepted, Session.modify, setRetryAt]
  | @join s w c hop htalking hconf hpresent =>
      have hjoined : (s.joined c).talking := htalking
      refine Sound.resolveWhen ?_ hjoined
      have hidle := htalking.phase_ne_idle
      refine hs.of_agree c rfl rfl ?_ ?_
      · intro d hd
        simp [joined, Session.modify, setRetryAt, hd]
      · have habsent := (hs c).control_absent
        have hpaused := (hs c).paused_present
        constructor <;> simp_all [joined, Session.modify, setRetryAt]
  | @refuse s w c hop htalking hconf hc hclosed hopening hattempts w' hatci =>
      have hrefused : (s.refusedAt c).talking := htalking
      exact (hs.refusedAt htalking.phase_ne_idle c).resolve hrefused
  | @refuseRejected s w c hop hphase hsink => exact (hs.refusedAt hphase c).fail
  -- a channel that is lost keeps its endpoint
  | @lose s w c hop hphase disconnecting =>
      refine hs.modify c _ ?_
      exact { hs c with
        open_settled := fun h => by cases h
        retry_closed := fun _ => rfl
        present := fun hf hc h => (hs c).present hf hc (Or.inr (by simpa using h))
        idle_clear := fun h => absurd h hphase }
  | @settle s w c hphase disconnecting =>
      refine hs.modify c _ ?_
      exact { hs c with idle_clear := fun h => absurd h hphase }
  -- a channel that is paused is settled, and has no retry
  | @pause s w c hphase hc hclosed hsettled =>
      refine hs.modify c _ ?_
      exact { hs c with
        open_settled := fun _ => rfl
        retry_fresh := fun _ _ => rfl
        attempt_retry := fun h => by cases h
        paused_present := fun h => by cases h
        present := fun hf hc h => (hs c).present hf hc (by simp_all)
        idle_clear := fun h => absurd h hphase }
  | @schedule s w c due hphase hc hrecovery hdue hclosed hfresh hpresent =>
      refine hs.of_agree c rfl rfl ?_ ?_
      · intro d hd
        simp [setRetryAt, hd]
      · have hpaused := (hs c).paused_present
        constructor <;> simp_all [setRetryAt]
  -- only a channel with a retry is given up, so the session was not idle
  | @abandon s w c hretry =>
      have hidle : s.phase ≠ .idle := fun h => hretry ((hs c).idle_clear h).2.2.1
      refine hs.modify c _ ?_
      exact { hs c with
        open_settled := fun _ => rfl
        retry_fresh := fun _ _ => rfl
        attempt_retry := fun h => by cases h
        present := fun hf hc _ => (hs c).present hf hc (Or.inr (Or.inr hretry))
        idle_clear := fun h => absurd h hidle }
  | @retry s w c now hop hretry hattempts =>
      have hidle : s.phase ≠ .idle := fun h => hretry ((hs c).idle_clear h).2.2.1
      refine hs.of_agree c rfl rfl ?_ ?_
      · intro d hd
        simp [setAttempts, Session.modify, hd]
      · have hclosed := (hs c).retry_closed hretry
        have hrecovery := (hs c).retry_recovery
        have hcontrol := (hs c).control_retry
        have habsent := (hs c).control_absent
        have hpaused := (hs c).paused_present
        have hpresent := (hs c).present
        constructor <;> simp_all [setAttempts, Session.modify]
  -- the signals of the peer touch no clause but that of the idle session
  | @peerSignals s w c channel signals hop hc hopen =>
      have hidle : s.phase ≠ .idle := fun h => by
        rw [((hs c).idle_clear h).1] at hopen
        cases hopen
      refine hs.modify c _ ?_
      exact { hs c with idle_clear := fun h => absurd h hidle }
  | @reported s w c hphase =>
      refine hs.modify c _ ?_
      exact { hs c with idle_clear := fun h => absurd h hphase }

theorem Moves.sound {sink : Sink σ} {op : Operation} {st st' : Session × σ}
    (h : Moves sink op st st') (hs : st.1.Sound) : st'.1.Sound :=
  invariant_of_steps (I := fun st => st.1.Sound) (fun _ _ => Move.sound) h hs

/-! ### Operations are chains of moves -/

section Chains

variable {sink : Sink σ} {op : Operation} {start : Session × σ} {s : Session} {w : σ} {c : Dlci}

/-- Applying an action leads to the next state through the sink's answer. -/
theorem ends_apply {action : Action} {Q : Unit → Session × σ → Prop}
    {E : Error → Session × σ → Prop}
    (hok : (sink (.apply action) w).1 = true → Q () (s, (sink (.apply action) w).2))
    (herr : (sink (.apply action) w).1 = false →
      E .effectRejected (s.fail, (sink (.apply action) w).2)) :
    Ends (apply sink action) (s, w) Q E := by
  simp only [apply, ends_bind, ends_ask, ends_ite, ends_pure, ends_update, ends_throw]
  split
  · rename_i h
    exact hok h
  · rename_i h
    exact herr (by simpa using h)

/-- A frame without payload is sent by one move. -/
theorem ends_transmit_nil {control : UInt8} {Q : Unit → Session × σ → Prop}
    (h : Moves sink op start (s, w))
    (hok : ∀ w', Moves sink op start (s, w') → Q () (s, w')) :
    Ends (transmit sink c control []) (s, w) Q fun _ => Moves sink op start := by
  have hsent := h.tail (.send ⟨commandAddress c, control, []⟩ (Or.inl rfl))
  have hecho : s.echoes control [] = false := by simp [echoes]
  simp only [transmit, ends_bind, ends_read, ends_ite, hecho, List.length_nil, Nat.not_lt_zero,
    if_false, Bool.false_eq_true]
  refine ends_apply ?_ ?_
  · intro hsink
    rw [hsink] at hsent
    exact hok _ hsent
  · intro hsink
    rw [hsink] at hsent
    exact hsent

theorem recoverChannel_moves (h : Moves sink op start (s, w)) (hphase : s.phase ≠ .idle)
    (hc : c ≠ 0) (hclosed : (s.channels c).isOpen = false)
    (hsettled : (s.channels c).opening = false) (hrecovery : s.recovery = true)
    (hpresent : s.phase ≠ .failed → (s.channels c).endpointPresent = true) :
    Ends (recoverChannel sink c) (s, w) (fun _ => Moves sink op start)
      fun _ => Moves sink op start := by
  have hpause := h.tail (Move.pause (c := c) hphase hc hclosed hsettled)
  simp only [recoverChannel, ends_bind, ends_update, ends_ask, ends_ite, ends_read, ends_pure,
    ends_throw]
  split
  · split
    · refine ends_deadline ?_ hpause
      refine hpause.tail (Move.schedule hphase hc hrecovery ?_ ?_ ?_ ?_)
      · omega
      · simpa [Session.modify] using hclosed
      · simp [Session.modify]
      · simpa [Session.modify] using hpresent
    · exact hpause
  · exact hpause

theorem closeEndpoint_moves (h : Moves sink op start (s, w)) (hc : c ≠ 0)
    (hclosed : (s.channels c).isOpen = false) (hsettled : (s.channels c).opening = false)
    (hretry : s.retryAt c = 0) :
    Ends (closeEndpoint sink c) (s, w) (fun _ => Moves sink op start)
      fun _ => Moves sink op start := by
  have hclose := h.tail (.close hc hclosed hsettled hretry)
  simp only [closeEndpoint, ends_bind, ends_update]
  refine ends_apply ?_ ?_
  · intro hsink
    rw [hsink] at hclose
    exact hclose
  · intro hsink
    rw [hsink] at hclose
    exact hclose

theorem receiveUa_moves (h : Moves sink op start (s, w)) (hop : op.Receives ua c)
    (htalking : s.talking) (hconf : s.configured c) :
    Ends (receiveUa sink c) (s, w) (fun _ => Moves sink op start)
      fun _ => Moves sink op start := by
  simp only [receiveUa, ends_bind, ends_read, ends_ite, ends_update, ends_pure]
  split
  · split
    · exact h.tail (.lose (hop.not_sabm (by decide)) htalking.phase_ne_idle false)
    · exact h
  · rename_i hclosed
    split
    · rename_i hopening
      have hends := ends_endState.mpr
        (h.tail (.accept hop htalking hconf (by simpa using hclosed) hopening))
      simpa only [resolveWhen, ends_ite, ends_pure, accepted] using hends
    · exact h.tail (.settle htalking.phase_ne_idle false)

/-- The flags of an open channel leave nothing to retry or to accept. -/
theorem Sound.of_open (hs : s.Sound) (hopen : (s.channels c).isOpen = true) :
    (s.channels c).opening = false ∧ s.retryAt c = 0 ∧
      (c ≠ 0 → s.phase ≠ .failed → (s.channels c).endpointPresent = true) := by
  refine ⟨(hs c).open_settled hopen, ?_, fun hc hphase => (hs c).present hphase hc (Or.inl hopen)⟩
  by_contra hretry
  have hclosed := (hs c).retry_closed hretry
  rw [hopen] at hclosed
  cases hclosed

/-- A closed channel is given up: kept for a retry with recovery, else closed with
its endpoint. -/
theorem giveUp_moves (h : Moves sink op start (s, w)) (hphase : s.phase ≠ .idle) (hc : c ≠ 0)
    (hclosed : (s.channels c).isOpen = false) (hsettled : (s.channels c).opening = false)
    (hretry : s.retryAt c = 0)
    (hpresent : s.phase ≠ .failed → (s.channels c).endpointPresent = true) :
    Ends (if s.recovery then recoverChannel sink c else closeEndpoint sink c) (s, w)
      (fun _ => Moves sink op start) fun _ => Moves sink op start := by
  split
  · rename_i hrecovery
    exact recoverChannel_moves h hphase hc hclosed hsettled hrecovery hpresent
  · exact closeEndpoint_moves h hc hclosed hsettled hretry

/-- A DM refuses a channel, ends one, or gives up a retry. -/
theorem receiveDm_moves (h : Moves sink op start (s, w)) (hs : s.Sound) (hop : op.Receives dm c)
    (htalking : s.talking) (hconf : s.configured c) :
    Ends (receiveDm sink c) (s, w) (fun _ => Moves sink op start)
      fun _ => Moves sink op start := by
  have hidle := htalking.phase_ne_idle
  have hfailed := htalking.phase_ne_failed
  simp only [receiveDm, ends_bind, ends_read, ends_ite, ends_update, ends_pure]
  split
  · rename_i hretry
    exact h.tail (.abandon hretry.2.2)
  · rename_i hnoRetry
    split
    -- An open channel is lost; on the control channel that ends the session.
    · rename_i hopen
      obtain ⟨hsettled, hretry, hpresent⟩ := hs.of_open hopen
      have hlose := h.tail (.lose (hop.not_sabm (by decide)) hidle false)
      split
      · exact hlose.tail (.leave hidle hfailed (Or.inr rfl))
      · rename_i hc
        have hgive := giveUp_moves (c := c) hlose hidle hc (by simp [Session.modify])
          (by simpa [Session.modify] using hsettled) hretry
          (by simpa [Session.modify] using hpresent hc)
        rw [ends_ite] at hgive
        exact hgive
    -- A closed one has been refused, if it was being opened.
    · rename_i hclosed
      split
      · exact h.tail (.leave hidle hfailed (Or.inl rfl))
      · rename_i hc
        split
        · rename_i hopening
          -- No retry was under way, so this was the first attempt.
          have hattempts : s.attempts c = 0 := by
            by_contra hne
            have hretry := (hs c).attempt_retry hopening hne
            exact hnoRetry ⟨(hs c).retry_recovery hretry, hc, hretry⟩
          have hmove := fun w' => @Move.refuse _ sink op s w c hop htalking hconf hc
            (by simpa using hclosed) hopening hattempts w'
          split
          · rename_i hatci
            refine ends_apply ?_ ?_
            · intro hsink
              refine ends_endState.mpr (h.tail (hmove _ ?_))
              rw [if_pos hatci]
              exact Prod.ext hsink rfl
            · intro hsink
              exact h.tail (.refuseRejected hop hidle hsink)
          · rename_i hatci
            refine ends_endState.mpr (h.tail (hmove w ?_))
            rw [if_neg hatci]
        · exact h

theorem joinChannel_moves (h : Moves sink op start (s, w)) (hop : op.Receives sabm c)
    (htalking : s.talking) (hconf : s.configured c)
    (hpresent : c ≠ 0 → (s.channels c).endpointPresent = true) :
    Ends (joinChannel sink c) (s, w) (fun _ => Moves sink op start)
      fun _ => Moves sink op start := by
  have hends := ends_endState.mpr (h.tail (.join hop htalking hconf hpresent))
  have hjoin : Ends (resolveWhen sink ((s.channels c).opening = true ∧ s.attempts c = 0))
      (s.joined c, w)
      (fun _ st => Ends (transmit sink c (ua ||| pollFinal) []) st (fun _ => Moves sink op start)
        fun _ => Moves sink op start) fun _ => Moves sink op start :=
    hends.mono (fun _ st hst => ends_transmit_nil (s := st.1) (w := st.2) hst fun _ h' => h')
      fun _ _ h' => h'
  simpa only [joinChannel, resolveWhen, ends_bind, ends_read, ends_ite, ends_update, ends_pure,
    joined] using hjoin

/-- A SABM is answered, and opens a channel or the session. -/
theorem receiveSabm_moves (h : Moves sink op start (s, w)) (hop : op.Receives sabm c)
    (htalking : s.talking) :
    Ends (receiveSabm sink c) (s, w) (fun _ => Moves sink op start)
      fun _ => Moves sink op start := by
  simp only [receiveSabm, ends_bind, ends_read, ends_ite, ends_update, ends_ask]
  split
  · rename_i hconf
    split
    · rename_i habsent
      split
      · rename_i hsink
        have hopen := h.tail (.openFresh htalking hconf habsent.1 habsent.2 hsink)
        exact joinChannel_moves hopen hop htalking hconf fun _ => by simp [Session.modify]
      · rename_i hsink
        have hrefused := h.tail (.openRefused (c := c) (by simpa using hsink))
        exact ends_transmit_nil hrefused fun _ h' => h'
    · rename_i hpresent
      refine joinChannel_moves h hop htalking hconf fun hc => ?_
      by_contra hne
      exact hpresent ⟨hc, by simpa using hne⟩
  · exact ends_transmit_nil h fun _ h' => h'

/-- A DISC closes a channel or ends the session. -/
theorem receiveDisc_moves (h : Moves sink op start (s, w)) (hs : s.Sound)
    (hop : op.Receives disc c) (htalking : s.talking) :
    Ends (receiveDisc sink c) (s, w) (fun _ => Moves sink op start)
      fun _ => Moves sink op start := by
  have hidle := htalking.phase_ne_idle
  have hfailed := htalking.phase_ne_failed
  simp only [receiveDisc, ends_bind, ends_read, ends_ite, ends_update]
  split
  · rename_i hopen
    obtain ⟨hsettled, hretry, hpresent⟩ := hs.of_open hopen.2
    have hlose := h.tail
      (.lose (hop.not_sabm (by decide)) hidle (s.channels c).disconnecting)
    refine ends_transmit_nil hlose fun w' hsent => ?_
    split
    · exact hsent.tail (.leave hidle hfailed (Or.inr rfl))
    · rename_i hc
      have hgive := giveUp_moves (c := c) hsent hidle hc (by simp [Session.modify])
        (by simpa [Session.modify] using hsettled) hretry
        (by simpa [Session.modify] using hpresent hc)
      rw [ends_ite] at hgive
      exact hgive
  · exact ends_transmit_nil h fun _ h' => h'

/-- **A frame is a run of moves.** -/
theorem receiveFrame_moves {frame : Frame} (h : Moves sink (.receive frame) start (s, w))
    (hs : s.Sound) (htalking : s.talking) :
    Ends (receiveFrame sink frame) (s, w) (fun _ => Moves sink (.receive frame) start)
      fun _ => Moves sink (.receive frame) start := by
  have hop : ∀ kind, frame.kind = kind →
      (Operation.receive frame).Receives kind frame.dlci := fun kind hkind =>
    ⟨frame, rfl, hkind, rfl⟩
  have hforget : ∀ {p : Op σ Unit}, Ends p (s, w) (fun _ => Moves sink (.receive frame) start)
      (fun _ => Moves sink (.receive frame) start) →
      Ends (do p; pure Handoff.none) (s, w) (fun _ => Moves sink (.receive frame) start)
        (fun _ => Moves sink (.receive frame) start) := by
    intro p hp
    rw [ends_bind]
    exact hp.mono (fun _ _ h' => (ends_pure _).mpr h') fun _ _ h' => h'
  unfold receiveFrame
  rw [ends_bind, ends_read]
  dsimp only
  split
  · simp only [receiveData, ends_bind, ends_update, ends_read, ends_ite, ends_pure]
    have hecho := h.tail (.echo (s.pollFinalEcho || frame.control &&& pollFinal != 0))
    simpa using hecho
  · split
    · rename_i hkind
      exact hforget (receiveUa_moves h (hop _ hkind.1) htalking hkind.2)
    · split
      · rename_i hkind
        exact hforget (receiveDm_moves h hs (hop _ hkind.1) htalking hkind.2)
      · split
        · rename_i hkind
          exact hforget (receiveSabm_moves h (hop _ hkind) htalking)
        · split
          · rename_i hkind
            exact hforget (receiveDisc_moves h hs (hop _ hkind) htalking)
          · exact (ends_pure _).mpr h

theorem receive_moves {frame : Frame} (hs : s.Sound) :
    Ends (receive sink frame) (s, w) (fun _ => Moves sink (.receive frame) (s, w))
      fun _ => Moves sink (.receive frame) (s, w) := by
  unfold receive
  rw [ends_bind]
  refine ends_active ?_ (fun _ => .refl) (fun _ => .refl)
  intro hidle hfailed
  rw [ends_bind, ends_read]
  dsimp only
  split
  · split
    · rename_i hua
      have hop : (Operation.receive frame).Receives ua frame.dlci := ⟨frame, rfl, hua.2.2.1, rfl⟩
      rw [ends_bind, ends_update]
      exact (ends_pure _).mpr (.single (.lose (hop.not_sabm (by decide)) hidle false))
    · exact (ends_pure _).mpr .refl
  · rename_i hphase
    split
    · exact (ends_throw _).mpr .refl
    · exact receiveFrame_moves .refl hs (talking_of_active hidle hfailed hphase)

/-- The loop of `recovery_tick` in an arbitrary state reached so far. -/
theorem tickChannels_moves {now : Nat} (channels : List Dlci) (hop : op = .recoveryTick now)
    (hstart : start.1.Sound) (h : Moves sink op start (s, w)) :
    Ends (tickChannels sink now channels) (s, w) (fun _ => Moves sink op start)
      fun _ => Moves sink op start := by
  induction channels generalizing s w with
  | nil => exact (ends_pure _).mpr h
  | cons c rest ih =>
      have hs : s.Sound := h.sound hstart
      unfold tickChannels
      rw [ends_bind, ends_read]
      dsimp only
      split
      · exact ih h
      -- The channel has a retry that is due, which fixes what else is true of it.
      · rename_i hdue
        have hretry : s.retryAt c ≠ 0 := fun hzero => hdue (Or.inl hzero)
        have hidle : s.phase ≠ .idle := fun hi => hretry ((hs c).idle_clear hi).2.2.1
        have hc : c ≠ 0 := fun hzero => hretry ((hs c).control_retry hzero)
        have hclosed := (hs c).retry_closed hretry
        have hrecovery := (hs c).retry_recovery hretry
        have hpresent := fun hfailed => (hs c).present hfailed hc (Or.inr (Or.inr hretry))
        split
        -- All attempts are used up: the channel is given up, and the session may escalate.
        · have habandon := h.tail (.abandon hretry)
          rw [ends_bind, ends_update, ends_ite]
          split
          · rw [ends_bind]
            refine ends_deadline ?_ habandon
            rw [ends_bind, ends_update]
            exact (ends_pure _).mpr (habandon.tail (.tick s.now (now + 300000)))
          -- Too early for an escalation: the next look is scheduled for when it may come.
          · rename_i hearly
            rw [ends_bind, ends_update]
            refine ih (habandon.tail (.schedule hidle hc hrecovery ?_ ?_ ?_ ?_))
            · show s.escalationAfter ≠ 0
              omega
            · simpa [Session.modify] using hclosed
            · simp [Session.modify]
            · simpa [Session.modify] using hpresent
        · rename_i hattempts
          -- Another attempt is made, and the next one is scheduled.
          have htry := h.tail (.retry hop hretry hattempts)
          rw [ends_bind, ends_update, ends_bind]
          refine ends_transmit_nil htry fun w' hsent => ?_
          rw [ends_bind]
          refine ends_deadline ?_ hsent
          rw [ends_bind, ends_update]
          refine ih (hsent.tail (.schedule hidle hc hrecovery ?_ ?_ ?_ ?_))
          · omega
          · simpa [Session.modify, setAttempts] using hclosed
          · simp [Session.modify, setAttempts]
          · simpa [Session.modify, setAttempts] using hpresent

/-- A control message is a move. -/
theorem sendControl_moves {control : UInt8} {payload : List UInt8} :
    Ends (sendControl sink control payload) (s, w)
      (fun _ => Moves sink (.sendControl control payload) (s, w))
      fun _ => Moves sink (.sendControl control payload) (s, w) := by
  have hsend : ∀ s' control', Moves sink (.sendControl control payload) (s, w) (s', w) →
      Ends (apply sink (.transmit ⟨commandAddress 0, control', payload⟩)) (s', w)
        (fun _ => Moves sink (.sendControl control payload) (s, w))
        fun _ => Moves sink (.sendControl control payload) (s, w) := by
    intro s' control' hreached
    have hsent := hreached.tail
      (.send ⟨commandAddress 0, control', payload⟩ (Or.inr ⟨control, rfl⟩))
    refine ends_apply ?_ ?_
    · intro hsink
      rw [hsink] at hsent
      exact hsent
    · intro hsink
      rw [hsink] at hsent
      exact hsent
  unfold sendControl
  rw [ends_bind]
  refine ends_active ?_ (fun _ => .refl) (fun _ => .refl)
  intro hidle hfailed
  simp only [transmit, ends_bind, ends_read, ends_ite, ends_update, ends_throw]
  split
  · exact .single .halt
  · split
    · exact hsend _ _ (.single (.echo false))
    · exact hsend _ _ .refl

/-- The operations that are chains of moves. -/
def Operation.plain : Operation → Bool
  | .begin _ | .setLocalPause _ _ | .recreateEndpoint _ | .resetAfterTransportClose => false
  | _ => true

/-- **Every plain operation is a chain of moves.** -/
theorem run_moves (st : Session × σ) (hs : st.1.Sound) (hop : op.plain = true) :
    Moves sink op st (step sink st op) := by
  obtain ⟨s, w⟩ := st
  refine ends_endState.mp ?_
  cases op with
  | enableRecovery escalationAfter =>
      rw [Operation.run, ends_update]
      exact .single (.enable rfl)
  -- a plain operation builds no table
  | begin now => cases hop
  -- a frame is a chain of its own
  | receive frame =>
      rw [Operation.run, ends_bind]
      exact (receive_moves hs).mono (fun _ _ h => (ends_pure _).mpr h) fun _ _ h => h
  -- the clock first, and then channel by channel
  | recoveryTick now =>
      rw [Operation.run, ends_bind, recoveryTick, ends_bind, ends_update]
      have htick : Moves sink (.recoveryTick now) (s, w) ({ s with now := now }, w) :=
        .single (.tick now s.escalationAfter)
      exact (tickChannels_moves dataChannels rfl hs htick).mono (fun _ _ h => (ends_pure _).mpr h)
        fun _ _ h => h
  -- the rest looks at one channel, or at the session as a whole
  | applyPeerSignals channel signals =>
      rw [Operation.run, applyPeerSignals, ends_bind]
      refine ends_active ?_ (fun _ => .refl) (fun _ => .refl)
      intro hidle hfailed
      rw [ends_bind, ends_read]
      cases hfind : s.find channel with
      | none => exact (ends_pure _).mpr .refl
      | some c =>
          dsimp only
          rw [ends_ite]
          split
          · rename_i hopen
            exact ends_update.mpr (.single (.peerSignals rfl hfind hopen))
          · exact (ends_pure _).mpr .refl
  | applicationInput channel =>
      rw [Operation.run, ends_bind, applicationInput, ends_bind]
      refine ends_active ?_ (fun _ => .refl) (fun _ => .refl)
      intro hidle hfailed
      rw [ends_bind, ends_read]
      cases hfind : s.find channel with
      | none => exact (ends_throw _).mpr .refl
      | some c =>
          simp only [ends_ite, ends_bind, ends_update, ends_pure]
          split
          · exact .single (.reported hidle)
          · exact .refl
  | setLocalPause channel paused => cases hop
  | recreateEndpoint channel => cases hop
  | requestDisconnect channel =>
      rw [Operation.run, requestDisconnect, ends_bind]
      refine ends_active ?_ (fun _ => .refl) (fun _ => .refl)
      intro hidle hfailed
      rw [ends_bind, ends_read]
      cases hfind : s.find channel with
      | none => exact (ends_throw _).mpr .refl
      | some c =>
          simp only [ends_ite, ends_bind, ends_update, ends_pure]
          split
          · exact ends_transmit_nil (Relation.ReflTransGen.single (.settle hidle true)) fun _ h => h
          · exact .refl
  | sendControl control payload => exact sendControl_moves
  -- only a setup that is late ends the session
  | pollTimeout now transmitPending =>
      rw [Operation.run, ends_bind, pollTimeout, ends_bind]
      refine ends_active ?_ (fun _ => .refl) (fun _ => .refl)
      intro hidle hfailed
      simp only [ends_bind, ends_read, ends_ite, ends_update, ends_pure, ends_throw]
      split
      · exact .refl
      · split
        · exact .refl
        · split
          · exact .single .halt
          · exact .refl
  | peerClose =>
      rw [Operation.run, peerClose, ends_bind]
      refine ends_active ?_ (fun _ => .refl) (fun _ => .refl)
      intro hidle hfailed
      exact ends_update.mpr (.single (.leave hidle hfailed (Or.inr rfl)))
  | resetAfterTransportClose => cases hop

end Chains

/-! ### The operations that rebuild endpoints -/

section Rebuild

variable {sink : Sink σ} {s : Session} {w : σ}

/-- The session in the middle of `begin`, with the channels `done` started. -/
def started (s : Session) (due : Nat) (done : List Dlci) : Session :=
  { s with
    phase := .setup
    setupDone := false
    unresolved := s.layout.order.length + 1
    setupDeadline := due
    channels := fun c =>
      if c = 0 then { s.channels 0 with opening := true }
      else if c ∈ done then { s.channels c with endpointPresent := true, opening := true }
      else s.channels c }

/-- A session that has begun is sound. -/
theorem started_sound (hs : s.Sound) (hidle : s.phase = .idle) (due : Nat) (done : List Dlci) :
    (s.started due done).Sound := by
  intro c
  obtain ⟨hclear, hpeer, hretry, hattempts⟩ := (hs c).idle_clear hidle
  have hch : (s.started due done).channels c =
      if c = 0 then { s.channels 0 with opening := true }
      else if c ∈ done then { s.channels c with endpointPresent := true, opening := true }
      else s.channels c := rfl
  show ChannelSound .setup s.recovery c ((s.started due done).channels c) (s.retryAt c)
    (s.attempts c)
  rw [hch, hretry, hattempts]
  split
  · rename_i hc
    subst hc
    rw [hclear]
    constructor <;> simp
  · rename_i hc
    rw [hclear]
    split
    · constructor <;> simp [hc]
    · constructor <;> simp

theorem started_cons {due : Nat} {done : List Dlci} {c : Dlci} (hc : c ≠ 0) (hnew : c ∉ done) :
    ((s.started due done).modify c fun ch =>
      { ch with endpointPresent := true, opening := true }) = s.started due (done ++ [c]) := by
  unfold Session.modify started
  congr 1
  funext d
  by_cases hd : d = c
  · subst hd
    simp [hc, hnew]
  · simp [hd]

/-- What a `transmit` of a frame without payload leads to. -/
theorem transmit_nil_spec {c : Dlci} {control : UInt8} {Q : Unit → Session × σ → Prop}
    {E : Error → Session × σ → Prop}
    (hok : ∀ w', sink (.apply (.transmit ⟨commandAddress c, control, []⟩)) w = (true, w') →
      Q () (s, w'))
    (herr : ∀ w', sink (.apply (.transmit ⟨commandAddress c, control, []⟩)) w = (false, w') →
      E .effectRejected (s.fail, w')) :
    Ends (transmit sink c control []) (s, w) Q E := by
  have hecho : s.echoes control [] = false := by simp [echoes]
  simp only [transmit, ends_bind, ends_read, ends_ite, hecho, List.length_nil, Nat.not_lt_zero,
    if_false, Bool.false_eq_true]
  exact ends_apply (fun h => hok _ (Prod.ext h rfl)) fun h => herr _ (Prod.ext h rfl)

/-- **`begin` starts every channel, or leaves the session unchanged or failed.** -/
theorem begin_spec {now : Nat} :
    Ends (begin sink now) (s, w)
      (fun _ st => s.phase = .idle ∧
        st.1 = s.started (now + setupTimeoutMs) s.layout.order)
      fun _ st => st = (s, w) ∨ s.phase = .idle ∧ ∃ due done, st.1 = (s.started due done).fail := by
  unfold begin
  rw [ends_bind, ends_read]
  dsimp only
  split
  · exact (ends_throw _).mpr (Or.inl rfl)
  · rename_i hphase
    have hidle : s.phase = .idle := by simpa using hphase
    rw [ends_bind]
    refine ends_deadline ?_ (Or.inl rfl)
    simp only [ends_bind, ends_update]
    have hzero : (Session.modify { s with
        phase := .setup
        setupDone := false
        unresolved := s.layout.order.length + 1
        setupDeadline := now + setupTimeoutMs } 0 fun ch => { ch with opening := true }) =
        s.started (now + setupTimeoutMs) [] := by
      unfold Session.modify started
      congr 1
      funext c
      by_cases hc : c = 0
      · subst hc
        simp
      · simp [hc]
    rw [hzero]
    -- the channels already started and those still to come make up the layout's order
    refine transmit_nil_spec ?_ fun w' _ => Or.inr ⟨hidle, _, [], rfl⟩
    intro w' _
    refine (ends_forM (I := fun rest st => ∃ done, done ++ rest = s.layout.order ∧
      st.1 = s.started (now + setupTimeoutMs) done) ?_ ⟨[], rfl, rfl⟩).mono ?_ fun _ _ h => h
    rotate_left
    · rintro _ st ⟨done, hdone, hst⟩
      rw [List.append_nil] at hdone
      exact ⟨hidle, hdone ▸ hst⟩
    · rintro c rest ⟨s', w₁⟩ ⟨done, hdone, rfl : s' = _⟩
      have hnodup := s.layout.nodup
      rw [← hdone] at hnodup
      have hc : c ≠ 0 := fun hc => s.layout.zero_notMem (by simp [← hdone, hc])
      have hnew : c ∉ done := fun hmem =>
        (List.disjoint_of_nodup_append hnodup) hmem (List.mem_cons_self ..)
      simp only [beginChannel, ends_bind, ends_ask, ends_ite, ends_update, ends_throw]
      split
      · rw [started_cons hc hnew]
        refine transmit_nil_spec (fun w₂ _ => ?_) fun w₂ _ => Or.inr ⟨hidle, _, _, rfl⟩
        exact ⟨done ++ [c], by simp [hdone], rfl⟩
      · exact Or.inr ⟨hidle, _, done, rfl⟩

/-- The frame `send_local_signals` transmits. -/
def signalsFrame (c : Dlci) (paused : Bool) : Frame :=
  ⟨commandAddress 0, uih ||| pollFinal, signalsPayload c paused⟩

theorem sendLocalSignals_spec {c : Dlci} {paused : Bool} {Q : Unit → Session × σ → Prop}
    {E : Error → Session × σ → Prop}
    (hok : ∀ w', sink (.apply (.transmit (signalsFrame c paused))) w = (true, w') → Q () (s, w'))
    (herr : ∀ e w', E e (s.fail, w')) :
    Ends (sendLocalSignals sink c paused) (s, w) Q E := by
  -- the poll/final bit is already set, so a pending echo is left alone
  have hecho : s.echoes (uih ||| pollFinal) (signalsPayload c paused) = false := by
    have hcontrol : ((uih ||| pollFinal) == ui || (uih ||| pollFinal) == uih) = false := by decide
    rw [echoes, hcontrol, Bool.false_and, Bool.false_and]
  simp only [sendLocalSignals, transmit, ends_bind, ends_read, ends_ite, ends_update, ends_throw,
    hecho]
  split
  · exact herr _ _
  · exact ends_apply (fun h => hok _ (Prod.ext h rfl)) fun _ => herr _ _

/-- The channel with its flow-control flag set to `paused`. -/
def pausedAt (s : Session) (c : Dlci) (paused : Bool) : Session :=
  s.modify c fun ch => { ch with localPaused := paused }

/-- **`set_local_pause`** changes the flag and tells the peer, when the flag differs. -/
theorem setLocalPause_spec {channel : UInt8} {paused : Bool} :
    Ends (setLocalPause sink channel paused) (s, w)
      (fun _ st => s.phase ≠ .idle ∧ s.phase ≠ .failed ∧ ∃ c, s.find channel = some c ∧
        (s.channels c).endpointPresent = true ∧
        (((s.channels c).localPaused = paused ∧ st = (s, w)) ∨
          ((s.channels c).localPaused ≠ paused ∧ st.1 = s.pausedAt c paused ∧
            sink (.apply (.transmit (signalsFrame c paused))) w = (true, st.2))))
      fun _ st => st = (s, w) ∨ s.phase ≠ .idle ∧ ∃ c, (s.channels c).endpointPresent = true ∧
        st.1 = (s.pausedAt c paused).fail := by
  unfold setLocalPause
  rw [ends_bind]
  refine ends_active ?_ (fun _ => Or.inl rfl) (fun _ => Or.inl rfl)
  intro hidle hfailed
  rw [ends_bind, ends_read]
  cases hfind : (s.find channel).filter fun c => (s.channels c).endpointPresent with
  | none => exact (ends_throw _).mpr (Or.inl rfl)
  | some c =>
      obtain ⟨hc, hpresent⟩ := Option.filter_eq_some_iff.mp hfind
      simp only [ends_ite, ends_bind, ends_update, ends_pure]
      split
      · rename_i hdiffer
        refine sendLocalSignals_spec ?_ fun _ _ => Or.inr ⟨hidle, c, hpresent, rfl⟩
        intro w' hsink
        exact ⟨hidle, hfailed, c, hc, hpresent, Or.inr ⟨hdiffer, rfl, hsink⟩⟩
      · rename_i hsame
        exact ⟨hidle, hfailed, c, hc, hpresent, Or.inl ⟨by simpa using hsame, trivial⟩⟩

/-- The channel without its endpoint. -/
def closedAt (s : Session) (c : Dlci) : Session :=
  s.modify c fun ch => { ch with endpointPresent := false, peerPaused := false, localPaused := false }

/-- The channel with a new endpoint. -/
def recreatedAt (s : Session) (c : Dlci) : Session :=
  s.modify c fun ch => { ch with endpointPresent := true, peerPaused := false, localPaused := false }

theorem modify_modify (s : Session) (c : Dlci) (f g : Channel → Channel) :
    (s.modify c f).modify c g = s.modify c fun ch => g (f ch) := by
  simp [Session.modify]

/-- **`recreate_endpoint`** closes the endpoint, releases the peer when it was
paused, and opens a new one; the protocol state of the channel is kept. -/
theorem recreateEndpoint_spec {channel : UInt8} :
    Ends (recreateEndpoint sink channel) (s, w)
      (fun _ st => s.phase ≠ .idle ∧ s.phase ≠ .failed ∧ ∃ c, s.find channel = some c ∧ c ≠ 0 ∧
        st.1 = s.recreatedAt c ∧ ∃ w₁ w₂,
          sink (.apply (.closeEndpoint c)) w = (true, w₁) ∧
          (if (s.channels c).localPaused then
            sink (.apply (.transmit (signalsFrame c false))) w₁ = (true, w₂) else w₂ = w₁) ∧
          sink (.openEndpoint c) w₂ = (true, st.2))
      fun _ st => st = (s, w) ∨ s.phase ≠ .idle ∧
        (st.1 = s.fail ∨ ∃ c, c ≠ 0 ∧ st.1 = (s.closedAt c).fail) := by
  unfold recreateEndpoint
  rw [ends_bind]
  refine ends_active ?_ (fun _ => Or.inl rfl) (fun _ => Or.inl rfl)
  intro hidle hfailed
  rw [ends_bind, ends_read]
  cases hfind : s.find channel with
  | none => exact (ends_throw _).mpr (Or.inl rfl)
  | some c =>
      simp only [ends_ite, ends_throw]
      split
      · exact Or.inl trivial
      · rename_i hc
        -- The old endpoint first, then the peer, then the new endpoint.
        simp only [ends_bind, closeEndpoint, ends_update, ends_ask, ends_ite, ends_throw]
        refine ends_apply ?_ fun _ => Or.inr ⟨hidle, Or.inl rfl⟩
        intro hclose
        -- The last of the three asks, whatever world the second has left.
        have hopen : ∀ w₂, (if (s.channels c).localPaused then
            sink (.apply (.transmit (signalsFrame c false))) (sink (.apply (.closeEndpoint c)) w).2
              = (true, w₂) else w₂ = (sink (.apply (.closeEndpoint c)) w).2) →
            if (sink (.openEndpoint c) w₂).1 then
              s.phase ≠ .idle ∧ s.phase ≠ .failed ∧ ∃ c', some c = some c' ∧ c' ≠ 0 ∧
                ((s.closedAt c).modify c fun ch => { ch with endpointPresent := true }) =
                  s.recreatedAt c' ∧ ∃ w₁ w₂',
                  sink (.apply (.closeEndpoint c')) w = (true, w₁) ∧
                  (if (s.channels c').localPaused then
                    sink (.apply (.transmit (signalsFrame c' false))) w₁ = (true, w₂')
                  else w₂' = w₁) ∧
                  sink (.openEndpoint c') w₂' = (true, (sink (.openEndpoint c) w₂).2)
            else ((s.closedAt c).fail, (sink (.openEndpoint c) w₂).2) = (s, w) ∨ s.phase ≠ .idle ∧
              ((s.closedAt c).fail = s.fail ∨
                ∃ c', c' ≠ 0 ∧ (s.closedAt c).fail = (s.closedAt c').fail) := by
          intro w₂ hw₂
          split
          · rename_i hsink
            exact ⟨hidle, hfailed, c, rfl, hc, modify_modify .., _, w₂, Prod.ext hclose rfl, hw₂,
              Prod.ext hsink rfl⟩
          · exact Or.inr ⟨hidle, Or.inr ⟨c, hc, rfl⟩⟩
        split
        -- Only a paused peer has to be released.
        · rename_i hpaused
          refine sendLocalSignals_spec ?_ fun _ _ => Or.inr ⟨hidle, Or.inr ⟨c, hc, rfl⟩⟩
          intro w₂ hsink
          exact hopen w₂ (by rw [if_pos hpaused]; exact hsink)
        · rename_i hpaused
          exact hopen _ (by rw [if_neg hpaused])

theorem Sound.pausedAt (hs : s.Sound) {c : Dlci} (hidle : s.phase ≠ .idle)
    (hpresent : (s.channels c).endpointPresent = true) (paused : Bool) :
    (s.pausedAt c paused).Sound := by
  refine hs.modify c _ ?_
  exact { hs c with
    paused_present := fun _ => hpresent
    idle_clear := fun h => absurd h hidle }

theorem Sound.recreatedAt (hs : s.Sound) {c : Dlci} (hidle : s.phase ≠ .idle) (hc : c ≠ 0) :
    (s.recreatedAt c).Sound := by
  refine hs.modify c _ ?_
  exact { hs c with
    control_absent := fun h => absurd h hc
    paused_present := fun h => by cases h
    present := fun _ _ _ => rfl
    idle_clear := fun h => absurd h hidle }

/-- A failed session may have lost an endpoint. -/
theorem Sound.closedAt_fail (hs : s.Sound) (c : Dlci) :
    (s.closedAt c).fail.Sound := by
  have hswap : (s.closedAt c).fail = s.fail.modify c fun ch =>
      { ch with endpointPresent := false, peerPaused := false, localPaused := false } := rfl
  rw [hswap]
  refine hs.fail.modify c _ ?_
  exact { hs.fail c with
    control_absent := fun _ => rfl
    paused_present := fun h => by cases h
    present := fun h => absurd rfl h
    idle_clear := fun h => by cases h }

/-- **Every operation keeps the invariant.** -/
theorem step_sound (sink : Sink σ) {st : Session × σ} (hs : st.1.Sound) (op : Operation) :
    (step sink st op).1.Sound := by
  obtain ⟨s, w⟩ := st
  by_cases hop : op.plain = true
  · exact (run_moves _ hs hop).sound hs
  · refine (ends_endState (P := fun st : Session × σ => st.1.Sound)).mp ?_
    cases op with
    | begin now =>
        refine (begin_spec (s := s) (w := w)).mono ?_ ?_
        · rintro _ st ⟨hidle, hst⟩
          rw [hst]
          exact started_sound hs hidle _ _
        · rintro _ st (rfl | ⟨hidle, due, done, hst⟩)
          · exact hs
          · rw [hst]
            exact (started_sound hs hidle _ _).fail
    | setLocalPause channel paused =>
        refine (setLocalPause_spec (s := s) (w := w)).mono ?_ ?_
        · rintro _ st ⟨hidle, -, c, -, hpresent, ⟨-, rfl⟩ | ⟨-, hst, -⟩⟩
          · exact hs
          · rw [hst]
            exact hs.pausedAt hidle hpresent paused
        · rintro _ st (rfl | ⟨hidle, c, hpresent, hst⟩)
          · exact hs
          · rw [hst]
            exact (hs.pausedAt hidle hpresent paused).fail
    | recreateEndpoint channel =>
        refine (recreateEndpoint_spec (s := s) (w := w)).mono ?_ ?_
        · rintro _ st ⟨hidle, -, c, -, hc, hst, -⟩
          rw [hst]
          exact hs.recreatedAt hidle hc
        · rintro _ st (rfl | ⟨-, hst | ⟨c, -, hst⟩⟩)
          · exact hs
          · rw [hst]
            exact hs.fail
          · rw [hst]
            exact hs.closedAt_fail c
    | resetAfterTransportClose => exact ends_update.mpr (resetAfterTransportClose_sound s)
    | _ => exact absurd rfl hop

end Rebuild

/-- The protocol state that a pause or a new endpoint leaves alone. -/
structure Kept (s s' : Session) : Prop where
  layout : s'.layout = s.layout
  unresolved : s'.unresolved = s.unresolved
  setupDone : s'.setupDone = s.setupDone
  readyStarted : s'.readyStarted = s.readyStarted
  attempts : s'.attempts = s.attempts
  opening : ∀ c, (s'.channels c).opening = (s.channels c).opening
  isOpen : ∀ c, (s'.channels c).isOpen = (s.channels c).isOpen
  phase : s'.phase = s.phase ∨ s'.phase = .failed

theorem Kept.refl (s : Session) : Kept s s :=
  ⟨rfl, rfl, rfl, rfl, rfl, fun _ => rfl, fun _ => rfl, Or.inl rfl⟩

theorem Kept.fail {s s' : Session} (h : Kept s s') : Kept s s'.fail :=
  { h with phase := Or.inr rfl }

theorem Kept.modify (s : Session) {c : Dlci} {f : Channel → Channel}
    (hopening : ∀ ch, (f ch).opening = ch.opening) (hopen : ∀ ch, (f ch).isOpen = ch.isOpen) :
    Kept s (s.modify c f) where
  layout := rfl
  unresolved := rfl
  setupDone := rfl
  readyStarted := rfl
  attempts := rfl
  opening := fun d => by
    by_cases hd : d = c
    · subst hd
      simp [Session.modify, hopening]
    · simp [Session.modify, hd]
  isOpen := fun d => by
    by_cases hd : d = c
    · subst hd
      simp [Session.modify, hopen]
    · simp [Session.modify, hd]
  phase := Or.inl rfl

theorem setLocalPause_kept (sink : Sink σ) (st : Session × σ) (channel : UInt8) (paused : Bool) :
    Kept st.1 (step sink st (.setLocalPause channel paused)).1 := by
  obtain ⟨s, w⟩ := st
  have hpaused : ∀ c, Kept s (s.pausedAt c paused) := fun c =>
    Kept.modify s (fun _ => rfl) fun _ => rfl
  refine (ends_endState (P := fun st : Session × σ => Kept s st.1)).mp ?_
  refine (setLocalPause_spec (s := s) (w := w)).mono ?_ ?_
  · rintro _ st ⟨-, -, c, -, -, ⟨-, rfl⟩ | ⟨-, hst, -⟩⟩
    · exact Kept.refl s
    · rw [hst]
      exact hpaused c
  · rintro _ st (rfl | ⟨-, c, -, hst⟩)
    · exact Kept.refl s
    · rw [hst]
      exact (hpaused c).fail

theorem recreateEndpoint_kept (sink : Sink σ) (st : Session × σ) (channel : UInt8) :
    Kept st.1 (step sink st (.recreateEndpoint channel)).1 := by
  obtain ⟨s, w⟩ := st
  refine (ends_endState (P := fun st : Session × σ => Kept s st.1)).mp ?_
  refine (recreateEndpoint_spec (s := s) (w := w)).mono ?_ ?_
  · rintro _ st ⟨-, -, c, -, -, hst, -⟩
    rw [hst]
    exact Kept.modify s (fun _ => rfl) fun _ => rfl
  · rintro _ st (rfl | ⟨-, hst | ⟨c, -, hst⟩⟩)
    · exact Kept.refl s
    · rw [hst]
      exact (Kept.refl s).fail
    · have hclosed : Kept s (s.closedAt c) := Kept.modify s (fun _ => rfl) fun _ => rfl
      rw [hst]
      exact hclosed.fail

/-! ### What happens to the sink -/

section Calls

variable {sink : Sink σ} {K : σ → Prop}

theorem ends_apply_calls {action : Action} (hK : ∀ w, K w → K (sink (.apply action) w).2)
    {s : Session} {w : σ} (hw : K w) :
    Ends (apply sink action) (s, w) (fun _ st => K st.2) fun _ st => K st.2 :=
  ends_apply (fun _ => hK w hw) fun _ => hK w hw

theorem ends_transmit_calls (hK : ∀ frame w, K w → K (sink (.apply (.transmit frame)) w).2)
    {c : Dlci} {control : UInt8} {payload : List UInt8} {s : Session} {w : σ} (hw : K w) :
    Ends (transmit sink c control payload) (s, w) (fun _ st => K st.2) fun _ st => K st.2 := by
  simp only [transmit, ends_bind, ends_read, ends_ite, ends_update, ends_throw]
  split
  · exact hw
  · split
    · exact ends_apply_calls (hK _) hw
    · exact ends_apply_calls (hK _) hw

/-- The operations that are not chains of moves transmit, open and close: what
these calls keep, the operations keep. -/
theorem rebuild_calls (htransmit : ∀ frame w, K w → K (sink (.apply (.transmit frame)) w).2)
    (hopen : ∀ c w, K w → K (sink (.openEndpoint c) w).2)
    (hclose : ∀ c w, K w → K (sink (.apply (.closeEndpoint c)) w).2)
    {op : Operation} (hop : op.plain = false) {st : Session × σ} (hw : K st.2) :
    K (step sink st op).2 := by
  obtain ⟨s, w⟩ := st
  have hsend : ∀ {c control payload s w}, K w →
      Ends (transmit sink c control payload) (s, w) (fun _ st => K st.2) fun _ st => K st.2 :=
    fun h => ends_transmit_calls htransmit h
  refine (ends_endState (P := fun st : Session × σ => K st.2)).mp ?_
  cases op with
  -- the control channel, and then each data channel
  | begin now =>
      rw [Operation.run, begin, ends_bind, ends_read]
      dsimp only
      split
      · exact (ends_throw _).mpr hw
      · rw [ends_bind]
        refine ends_deadline ?_ hw
        simp only [ends_bind, ends_update]
        refine (hsend hw).mono ?_ fun _ _ h => h
        intro _ st hst
        refine ends_forM (I := fun _ (st : Session × σ) => K st.2) ?_ hst
        intro c rest st hst
        simp only [beginChannel, ends_bind, ends_ask, ends_ite, ends_update, ends_throw]
        split
        · exact hsend (hopen c _ hst)
        · exact hopen c _ hst
  -- a pause sends the signals
  | setLocalPause channel paused =>
      rw [Operation.run, setLocalPause, ends_bind]
      refine ends_active ?_ (fun _ => hw) (fun _ => hw)
      intro _ _
      rw [ends_bind, ends_read]
      cases (s.find channel).filter fun c => (s.channels c).endpointPresent with
      | none => exact (ends_throw _).mpr hw
      | some c =>
          simp only [ends_ite, ends_bind, ends_update, ends_pure]
          split
          · exact hsend hw
          · exact hw
  -- an endpoint is closed, its loss told, and opened again
  | recreateEndpoint channel =>
      rw [Operation.run, recreateEndpoint, ends_bind]
      refine ends_active ?_ (fun _ => hw) (fun _ => hw)
      intro _ _
      rw [ends_bind, ends_read]
      have hreopen : ∀ (c : Dlci) (st : Session × σ), K st.2 →
          Ends (do
            if ← ask sink (.openEndpoint c) then
              update fun s => s.modify c fun ch => { ch with endpointPresent := true }
            else
              update fail
              throw .endpointUnavailable) st (fun _ st => K st.2) fun _ st => K st.2 := by
        intro c st hst
        simp only [ends_bind, ends_ask, ends_ite, ends_update, ends_throw]
        split
        · exact hopen c _ hst
        · exact hopen c _ hst
      cases s.find channel with
      | none => exact (ends_throw _).mpr hw
      | some c =>
          dsimp only
          rw [ends_ite]
          split
          · exact (ends_throw _).mpr hw
          · rw [ends_bind, closeEndpoint, ends_bind]
            refine (ends_apply_calls (hclose c) hw).mono ?_ fun _ _ h => h
            intro _ st hst
            rw [ends_update]
            split
            · rw [ends_bind]
              exact (hsend hst).mono (fun _ st hst => hreopen c st hst) fun _ _ h => h
            · exact hreopen c _ hst
  | resetAfterTransportClose => exact ends_update.mpr hw
  | _ => cases hop

end Calls

/-- A session from `new` is sound. -/
theorem new_sound {config : List ChannelConfig} {limit : Nat} {s : Session}
    (h : new config limit = .ok s) : s.Sound := by
  obtain ⟨layout, rfl⟩ := new_initial h
  exact initial_sound layout limit

end Mindone.Mux.Session
