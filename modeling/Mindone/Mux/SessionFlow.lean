import Mindone.Mux.SessionMoves

/-!
# Mindone.Mux.SessionFlow

**Peer flow control.** While a channel stays open, what the peer said last about
its flow decides whether the channel's endpoint is read, until the endpoint itself
is recreated: a new endpoint starts unpaused, by design of `close_endpoint`, although
the protocol channel stays open.
-/

namespace Mindone.Mux.Session

open Mindone.Lib

variable {σ : Type}

/-! ### One operation and one channel -/

/-- The operation delivers the peer's signals for channel `c`. -/
def Operation.SignalsTo (op : Operation) (c : Dlci) : Prop :=
  ∃ channel signals, op = .applyPeerSignals channel signals ∧ dlci? channel = some c

theorem dlci_of_find {s : Session} {channel : UInt8} {c : Dlci} (h : s.find channel = some c) :
    dlci? channel = some c ∧ s.configured c = true :=
  Option.filter_eq_some_iff.mp h

/-- What an operation other than the peer's signals can have done to the flow flag
of a channel that was open in `s₀`: nothing while the channel stays open. -/
structure FlowKept (op : Operation) (c : Dlci) (s₀ s : Session) : Prop where
  layout : s.layout = s₀.layout
  failed : s₀.phase = .failed → s.phase = .failed
  kept : (s₀.channels c).isOpen = true →
    ((s.channels c).isOpen = true ∧ (s.channels c).opening = false ∧
      (s.channels c).peerPaused = (s₀.channels c).peerPaused) ∨
    ((s.channels c).isOpen = false ∧ ¬ op.Receives sabm c ∧
      ((s.channels c).opening = false ∨ ∃ now, op = .recoveryTick now))

theorem FlowKept.refl {op : Operation} {c : Dlci} {s : Session} (hs : s.Sound) :
    FlowKept op c s s where
  layout := rfl
  failed := id
  kept := fun hopen => Or.inl ⟨hopen, (hs c).open_settled hopen, rfl⟩

/-- A move that leaves the three flags of the channel alone. -/
theorem FlowKept.same {op : Operation} {c : Dlci} {s₀ s s' : Session} (h : FlowKept op c s₀ s)
    (hlayout : s'.layout = s.layout) (hphase : s.phase = .failed → s'.phase = .failed)
    (hopen : (s'.channels c).isOpen = (s.channels c).isOpen)
    (hopening : (s'.channels c).opening = (s.channels c).opening)
    (hpeer : (s'.channels c).peerPaused = (s.channels c).peerPaused) :
    FlowKept op c s₀ s' where
  layout := hlayout.trans h.layout
  failed := fun hf => hphase (h.failed hf)
  kept := fun ho => by
    rw [hopen, hopening, hpeer]
    exact h.kept ho

/-- A move on another channel. -/
theorem FlowKept.modify_ne {op : Operation} {c d : Dlci} {s₀ s : Session}
    (h : FlowKept op c s₀ s) (hd : c ≠ d) (f : Channel → Channel) :
    FlowKept op c s₀ (s.modify d f) :=
  have hch : (s.modify d f).channels c = s.channels c := Function.update_of_ne hd ..
  h.same rfl id (by rw [hch]) (by rw [hch]) (by rw [hch])

/-- A move on the channel that does not touch the three flags. -/
theorem FlowKept.modify {op : Operation} {c d : Dlci} {s₀ s : Session} (h : FlowKept op c s₀ s)
    {f : Channel → Channel} (hopen : ∀ ch, (f ch).isOpen = ch.isOpen)
    (hopening : ∀ ch, (f ch).opening = ch.opening)
    (hpeer : ∀ ch, (f ch).peerPaused = ch.peerPaused) : FlowKept op c s₀ (s.modify d f) := by
  by_cases hd : c = d
  · subst hd
    refine h.same rfl id ?_ ?_ ?_
    · simp [Session.modify, hopen]
    · simp [Session.modify, hopening]
    · simp [Session.modify, hpeer]
  · exact h.modify_ne hd f

theorem FlowKept.fail {op : Operation} {c : Dlci} {s₀ s : Session} (h : FlowKept op c s₀ s) :
    FlowKept op c s₀ s.fail :=
  h.same rfl (fun _ => rfl) rfl rfl rfl

theorem FlowKept.resolve {sink : Sink σ} {w : σ} {op : Operation} {c : Dlci} {s₀ s : Session}
    (h : FlowKept op c s₀ s) (htalking : s.talking) :
    FlowKept op c s₀ (endState (resolve sink (s, w))).1 := by
  have hsame := resolve_sameTable sink s w
  refine h.same hsame.layout (fun hf => absurd hf htalking.phase_ne_failed) ?_ ?_ ?_
  · rw [hsame.channels]
  · rw [hsame.channels]
  · rw [hsame.channels]

/-- A channel closed by this operation is not touched by a frame that opens it. -/
theorem FlowKept.closed {op : Operation} {c : Dlci} {s₀ s : Session} (h : FlowKept op c s₀ s)
    (hopen : (s₀.channels c).isOpen = true) (hclosed : (s.channels c).isOpen = false) :
    ¬ op.Receives sabm c ∧ ((s.channels c).opening = false ∨ ∃ now, op = .recoveryTick now) := by
  rcases h.kept hopen with ⟨hstill, -⟩ | ⟨-, hrest⟩
  · rw [hclosed] at hstill
    cases hstill
  · exact hrest

/-- A move that ends the opening of a channel. -/
theorem FlowKept.drop_opening {op : Operation} {c d : Dlci} {s₀ s : Session}
    (h : FlowKept op c s₀ s) {f : Channel → Channel} (hopen : ∀ ch, (f ch).isOpen = ch.isOpen)
    (hopening : ∀ ch, (f ch).opening = false)
    (hpeer : ∀ ch, (f ch).peerPaused = ch.peerPaused) : FlowKept op c s₀ (s.modify d f) := by
  by_cases hd : c = d
  · subst hd
    refine ⟨h.layout, h.failed, fun ho => ?_⟩
    simp only [Session.modify, Function.update_self, hopen, hopening, hpeer]
    rcases h.kept ho with ⟨hstill, -, hp⟩ | ⟨hclosed, hnot, -⟩
    · exact Or.inl ⟨hstill, trivial, hp⟩
    · exact Or.inr ⟨hclosed, hnot, Or.inl trivial⟩
  · exact h.modify_ne hd f

/-- **Every move keeps the flow flag of a channel that stays open.** -/
theorem Move.flowKept {sink : Sink σ} {op : Operation} {c : Dlci} {s₀ : Session}
    {st st' : Session × σ} (h : Move sink op st st') (hs : st.1.Sound)
    (hop : ¬ op.SignalsTo c)
    (hk : FlowKept op c s₀ st.1) : FlowKept op c s₀ st'.1 := by
  cases h with
  | @tick s w now escalationAfter => exact hk.same rfl id rfl rfl rfl
  | @enable s w escalationAfter _ => exact hk.same rfl id rfl rfl rfl
  | @echo s w pending => exact hk.same rfl id rfl rfl rfl
  | @send s w frame hpayload =>
      dsimp only
      split
      · exact hk
      · exact hk.fail
  | @halt s w => exact hk.fail
  | @leave s w phase hidle hfailed hphase =>
      exact hk.same rfl (fun hf => absurd hf hfailed) rfl rfl rfl
  | @openRefused s w d hsink => exact hk
  | @openFresh s w d htalking hconf hd habsent hsink =>
      dsimp only at hk hs ⊢
      by_cases hc : c = d
      · subst hc
        -- an open channel has its endpoint, so this one was not open
        have hclosed : (s.channels c).isOpen = false := by
          by_contra hopen
          have hpresent := (hs c).present htalking.phase_ne_failed hd
            (Or.inl (Bool.eq_true_of_not_eq_false hopen))
          rw [habsent] at hpresent
          cases hpresent
        refine ⟨hk.layout, hk.failed, fun hopen => Or.inr ?_⟩
        have hrest := hk.closed hopen hclosed
        simpa [Session.modify, hclosed] using hrest
      · exact hk.modify_ne hc _
  | @close s w d hd hclosed hsettled hretry =>
      dsimp only at hk hs ⊢
      split
      · by_cases hc : c = d
        · subst hc
          refine ⟨hk.layout, hk.failed, fun hopen => Or.inr ?_⟩
          have hrest := hk.closed hopen hclosed
          simpa [Session.modify, hclosed] using hrest
        · exact hk.modify_ne hc _
      · exact hk.fail
  | @accept s w d hrec htalking hconf hclosed hopening =>
      dsimp only at hk hs ⊢
      have haccepted : FlowKept op c s₀ (s.accepted d) := by
        by_cases hc : c = d
        · subst hc
          -- a channel closed by this operation is not opening, unless by a retry
          refine ⟨hk.layout, hk.failed, fun hopen => ?_⟩
          rcases (hk.closed hopen hclosed).2 with hnot | ⟨now, hnow⟩
          · rw [hopening] at hnot
            cases hnot
          · obtain ⟨frame, hframe, -⟩ := hrec
            rw [hnow] at hframe
            cases hframe
        · exact (hk.modify_ne hc fun ch => { ch with opening := false, isOpen := true }).same rfl id
            rfl rfl rfl
      have htalking' : (s.accepted d).talking := htalking
      unfold resolveWhen
      split
      · exact haccepted.resolve htalking'
      · exact haccepted
  | @join s w d hrec htalking hconf hpresent =>
      dsimp only at hk hs ⊢
      have hjoined : FlowKept op c s₀ (s.joined d) := by
        by_cases hc : c = d
        · subst hc
          refine ⟨hk.layout, hk.failed, fun hopen => ?_⟩
          rcases hk.kept hopen with ⟨-, -, hpeer⟩ | ⟨-, hnot, -⟩
          · exact Or.inl (by simp [joined, Session.modify, setRetryAt, hpeer])
          · exact absurd hrec hnot
        · exact (hk.modify_ne hc fun ch =>
            { ch with
              isOpen := true
              disconnecting := false
              refused := false
              refusalReported := false
              opening := false }).same rfl id rfl rfl rfl
      have htalking' : (s.joined d).talking := htalking
      unfold resolveWhen
      split
      · exact hjoined.resolve htalking'
      · exact hjoined
  | @refuse s w d hrec htalking hconf hd hclosed hopening hattempts w' hatci =>
      have hrefused : FlowKept op c s₀ (s.refusedAt d) :=
        hk.drop_opening (fun _ => rfl) (fun _ => rfl) fun _ => rfl
      have htalking' : (s.refusedAt d).talking := htalking
      exact hrefused.resolve htalking'
  | @refuseRejected s w d hrec hphase hsink =>
      have hrefused : FlowKept op c s₀ (s.refusedAt d) :=
        hk.drop_opening (fun _ => rfl) (fun _ => rfl) fun _ => rfl
      exact hrefused.fail
  | @lose s w d hnot hphase disconnecting =>
      dsimp only at hk hs ⊢
      by_cases hc : c = d
      · subst hc
        refine ⟨hk.layout, hk.failed, fun hopen => Or.inr ?_⟩
        rcases hk.kept hopen with ⟨-, hsettled, -⟩ | ⟨-, -, hrest⟩
        · simp [Session.modify, hnot, hsettled]
        · simpa [Session.modify, hnot] using hrest
      · exact hk.modify_ne hc _
  | @settle s w d hphase disconnecting =>
      dsimp only at hk ⊢
      exact hk.modify (fun _ => rfl) (fun _ => rfl) fun _ => rfl
  | @pause s w d hphase hd hclosed hsettled =>
      dsimp only at hk hs ⊢
      by_cases hc : c = d
      · subst hc
        refine ⟨hk.layout, hk.failed, fun hopen => Or.inr ?_⟩
        have hrest := hk.closed hopen hclosed
        simp [Session.modify, hclosed, hrest.1]
      · exact hk.modify_ne hc _
  | @schedule s w d due hphase hd hrecovery hdue hclosed hfresh hpresent =>
      exact hk.same rfl id rfl rfl rfl
  | @abandon s w d hretry =>
      dsimp only at hk ⊢
      exact hk.drop_opening (fun _ => rfl) (fun _ => rfl) fun _ => rfl
  | @retry s w d now hrec hretry hattempts =>
      dsimp only at hk hs ⊢
      by_cases hc : c = d
      · subst hc
        have hclosed := (hs c).retry_closed hretry
        refine ⟨hk.layout, hk.failed, fun hopen => Or.inr ?_⟩
        refine ⟨?_, (hk.closed hopen hclosed).1, Or.inr ⟨now, hrec⟩⟩
        simpa [Session.modify, setAttempts] using hclosed
      · exact (hk.modify_ne hc fun ch => { ch with opening := true }).same rfl id rfl rfl rfl
  | @peerSignals s w d channel signals hsignals hd hopen =>
      dsimp only at hk ⊢
      have hc : c ≠ d := by
        rintro rfl
        exact hop ⟨channel, signals, hsignals, (dlci_of_find hd).1⟩
      exact hk.modify_ne hc _
  | @reported s w d hphase =>
      dsimp only at hk ⊢
      exact hk.modify (fun _ => rfl) (fun _ => rfl) fun _ => rfl

theorem Moves.flowKept {sink : Sink σ} {op : Operation} {c : Dlci} {st st' : Session × σ}
    (h : Moves sink op st st') (hs : st.1.Sound) (hop : ¬ op.SignalsTo c) :
    FlowKept op c st.1 st'.1 := by
  induction h with
  | refl => exact .refl hs
  | tail hmoves hmove ih => exact hmove.flowKept (Moves.sound hmoves hs) hop ih

/-! ### Watched runs -/

/-- What the peer said last about the flow of a channel since the channel last
became open, and whether its endpoint was recreated after that. -/
structure Flow where
  signals : Option UInt8 := none
  recreated : Bool := false
  deriving DecidableEq

/-- A run together with what it has shown of every channel's flow. -/
structure Watched (σ : Type) where
  session : Session
  world : σ
  flow : Dlci → Flow

namespace Watched

def start (s : Session) (w : σ) : Watched σ := ⟨s, w, fun _ => {}⟩

/-- What a call says about channel `c`. -/
def heard (op : Operation) (c : Dlci) (flow : Flow) : Flow :=
  match op with
  | .applyPeerSignals channel signals =>
      if dlci? channel = some c then ⟨some signals, false⟩ else flow
  | .recreateEndpoint channel =>
      if dlci? channel = some c then { flow with recreated := true } else flow
  | _ => flow

def next (sink : Sink σ) (o : Watched σ) (op : Operation) : Watched σ where
  session := (step sink (o.session, o.world) op).1
  world := (step sink (o.session, o.world) op).2
  flow := fun c =>
    -- a channel that has just become open starts with nothing said
    if (o.session.channels c).isOpen = false ∧
        ((step sink (o.session, o.world) op).1.channels c).isOpen = true then {}
    else heard op c (o.flow c)

def run (sink : Sink σ) (o : Watched σ) (ops : List Operation) : Watched σ :=
  ops.foldl (next sink) o

/-- The flow flag of an open channel is what was heard last, until a recreation. -/
structure Valid (o : Watched σ) : Prop where
  sound : o.session.Sound
  flow : ∀ c signals, o.session.configured c = true → (o.session.channels c).isOpen = true →
    (o.flow c).signals = some signals → (o.flow c).recreated = false →
    o.session.phase = .failed ∨ (o.session.channels c).peerPaused = (signals &&& 2 != 0)

theorem start_valid {s : Session} (hs : s.Sound) (w : σ) : (start s w).Valid where
  sound := hs
  flow := fun c signals _ _ hsignals => by cases hsignals

theorem still_open_flow {sink : Sink σ} {o : Watched σ} {op : Operation} {c : Dlci}
    (hbefore : (o.session.channels c).isOpen = true) :
    (o.next sink op).flow c = heard op c (o.flow c) := by
  refine if_neg ?_
  rw [hbefore]
  exact fun hnot => Bool.noConfusion hnot.1

/-- Nothing was said since a channel became open in this very step. -/
theorem fresh_signals {sink : Sink σ} {o : Watched σ} {op : Operation} {c : Dlci}
    (hbefore : (o.session.channels c).isOpen = false)
    (hopen : ((o.next sink op).session.channels c).isOpen = true) (signals : UInt8) :
    ((o.next sink op).flow c).signals ≠ some signals := by
  have hnone : (o.next sink op).flow c = {} := if_pos ⟨hbefore, hopen⟩
  rw [hnone]
  intro hsome
  cases hsome

/-- When channel `c` stays open and the operation leaves its flag alone, what was
heard before still holds. -/
theorem Valid.still {sink : Sink σ} {o : Watched σ} (h : o.Valid) {op : Operation} {c : Dlci}
    {signals : UInt8} (hheard : heard op c (o.flow c) = o.flow c)
    (hlayout : (o.next sink op).session.layout = o.session.layout)
    (hkept : (o.session.channels c).isOpen = true → (o.next sink op).session.phase = .failed ∨
      o.session.phase ≠ .failed ∧
        ((o.next sink op).session.channels c).peerPaused = (o.session.channels c).peerPaused)
    (hconf : (o.next sink op).session.configured c = true)
    (hopen : ((o.next sink op).session.channels c).isOpen = true)
    (hsignals : ((o.next sink op).flow c).signals = some signals)
    (hrecreated : ((o.next sink op).flow c).recreated = false) :
    (o.next sink op).session.phase = .failed ∨
      ((o.next sink op).session.channels c).peerPaused = (signals &&& 2 != 0) := by
  have hconf' : o.session.configured c = true := by
    rw [configured, ← hlayout]
    exact hconf
  cases hbefore : (o.session.channels c).isOpen with
  | false => exact absurd hsignals (fresh_signals hbefore hopen _)
  | true =>
      rw [still_open_flow hbefore, hheard] at hsignals hrecreated
      rcases hkept hbefore with hfailed | ⟨hactive, hsame⟩
      · exact Or.inl hfailed
      · rcases h.flow c signals hconf' hbefore hsignals hrecreated with hphase | hpeer
        · exact absurd hphase hactive
        · exact Or.inr (hsame.trans hpeer)

/-- The peer's signals set the flag of an open channel. -/
theorem step_applyPeerSignals (sink : Sink σ) {s : Session} (w : σ) (hs : s.Sound) {c : Dlci}
    {channel signals : UInt8} (hc : dlci? channel = some c)
    (hopen : (s.channels c).isOpen = true) :
    (step sink (s, w) (.applyPeerSignals channel signals)).1.layout = s.layout ∧
      (s.configured c = true →
        (step sink (s, w) (.applyPeerSignals channel signals)).1.phase = .failed ∨
        ((step sink (s, w) (.applyPeerSignals channel signals)).1.channels c).peerPaused =
          (signals &&& 2 != 0)) := by
  refine (ends_endState (P := fun st : Session × σ => st.1.layout = s.layout ∧
    (s.configured c = true → st.1.phase = .failed ∨
      (st.1.channels c).peerPaused = (signals &&& 2 != 0)))).mp ?_
  rw [Operation.run, applyPeerSignals, ends_bind]
  refine ends_active ?_ ?_ fun hfailed => ⟨rfl, fun _ => Or.inl hfailed⟩
  · intro _ _
    rw [ends_bind, ends_read]
    cases hfind : s.find channel with
    | none =>
        refine (ends_pure _).mpr ⟨rfl, fun hconf => ?_⟩
        rw [find, hc, Option.filter_some, if_pos hconf] at hfind
        cases hfind
    | some d =>
        have hd : d = c := Option.some.inj ((dlci_of_find hfind).1.symm.trans hc)
        subst hd
        simp [hopen, Session.modify]
  · -- no channel is open in an idle session
    intro hidle
    rw [((hs c).idle_clear hidle).1] at hopen
    cases hopen

/-- The operations other than the chains of moves leave the flag of an open channel
alone, the recreation of its own endpoint apart. -/
theorem rebuild_keeps {sink : Sink σ} {s : Session} {w : σ} (hs : s.Sound) {op : Operation}
    (hop : op.plain = false) {c : Dlci}
    (hrecreate : ∀ channel, op = .recreateEndpoint channel → dlci? channel ≠ some c)
    (hopen : ((step sink (s, w) op).1.channels c).isOpen = true) :
    (step sink (s, w) op).1.layout = s.layout ∧
      ((step sink (s, w) op).1.phase = .failed ∨ s.phase ≠ .failed ∧
        ((step sink (s, w) op).1.channels c).peerPaused = (s.channels c).peerPaused) := by
  have hunchanged : s.layout = s.layout ∧ (s.phase = .failed ∨ s.phase ≠ .failed ∧
      (s.channels c).peerPaused = (s.channels c).peerPaused) := by
    by_cases hfailed : s.phase = .failed
    · exact ⟨rfl, Or.inl hfailed⟩
    · exact ⟨rfl, Or.inr ⟨hfailed, rfl⟩⟩
  revert hopen
  refine (ends_endState (P := fun st : Session × σ => (st.1.channels c).isOpen = true →
    st.1.layout = s.layout ∧ (st.1.phase = .failed ∨ s.phase ≠ .failed ∧
      (st.1.channels c).peerPaused = (s.channels c).peerPaused))).mp ?_
  cases op with
  | begin now =>
      -- no channel is open before setup, and `begin` opens none
      have hclosed : ∀ due done, s.phase = .idle →
          ((s.started due done).channels c).isOpen = false := by
        intro due done hidle
        have hbefore : (s.channels c).isOpen = false := by
          rw [((hs c).idle_clear hidle).1]
        by_cases hc : c = 0
        · subst hc
          simpa [started] using hbefore
        · by_cases hdone : c ∈ done
          · simpa [started, hc, hdone] using hbefore
          · simpa [started, hc, hdone] using hbefore
      refine begin_spec.mono ?_ ?_
      · rintro _ st ⟨hidle, hst⟩ hopen
        rw [hst, hclosed _ _ hidle] at hopen
        cases hopen
      · rintro _ st (rfl | ⟨hidle, due, done, hst⟩) hopen
        · exact hunchanged
        · have hnot : (st.1.channels c).isOpen = false := by
            rw [hst]
            exact hclosed due done hidle
          rw [hnot] at hopen
          cases hopen
  | setLocalPause channel paused =>
      have hflag : ∀ d, ((s.pausedAt d paused).channels c).peerPaused =
          (s.channels c).peerPaused := by
        intro d
        by_cases hd : c = d
        · subst hd
          simp [pausedAt, Session.modify]
        · simp [pausedAt, Session.modify, hd]
      refine setLocalPause_spec.mono ?_ ?_
      · rintro _ st ⟨-, hfailed, d, -, -, ⟨-, rfl⟩ | ⟨-, hst, -⟩⟩ _
        · exact hunchanged
        · rw [hst]
          exact ⟨rfl, Or.inr ⟨hfailed, hflag d⟩⟩
      · rintro _ st (rfl | ⟨-, d, -, hst⟩) _
        · exact hunchanged
        · rw [hst]
          exact ⟨rfl, Or.inl rfl⟩
  | recreateEndpoint channel =>
      refine recreateEndpoint_spec.mono ?_ ?_
      · rintro _ st ⟨-, hfailed, d, hd, -, hst, -⟩ _
        have hcd : c ≠ d := by
          rintro rfl
          exact hrecreate channel rfl (dlci_of_find hd).1
        rw [hst]
        exact ⟨rfl, Or.inr ⟨hfailed, by simp [recreatedAt, Session.modify, hcd]⟩⟩
      · rintro _ st (rfl | ⟨-, hst | ⟨d, -, hst⟩⟩) _
        · exact hunchanged
        · rw [hst]
          exact ⟨rfl, Or.inl rfl⟩
        · rw [hst]
          exact ⟨rfl, Or.inl rfl⟩
  | resetAfterTransportClose =>
      refine ends_update.mpr fun hopen => ?_
      by_cases hc : c = 0
      · subst hc
        simp [resetAfterTransportClose] at hopen
      · simp [resetAfterTransportClose, hc] at hopen
  | _ => cases hop

/-- **Every operation keeps the invariant of watched runs.** -/
theorem Valid.next {sink : Sink σ} {o : Watched σ} (h : o.Valid) (op : Operation) :
    (o.next sink op).Valid := by
  refine ⟨step_sound sink h.sound op, ?_⟩
  intro c signals hconf hopen hsignals hrecreated
  by_cases hspeaks : op.SignalsTo c
  · -- the signals are for this channel, and they are what was heard last
    obtain ⟨channel, value, rfl, hc⟩ := hspeaks
    cases hbefore : (o.session.channels c).isOpen with
    | false => exact absurd hsignals (fresh_signals hbefore hopen _)
    | true =>
        obtain ⟨hlayout, hpeer⟩ := step_applyPeerSignals sink o.world h.sound hc hbefore
        rw [still_open_flow hbefore, heard, if_pos hc] at hsignals
        cases hsignals
        refine hpeer ?_
        rw [configured, ← hlayout]
        exact hconf
  · by_cases hrecreate : ∃ channel, op = .recreateEndpoint channel ∧ dlci? channel = some c
    · obtain ⟨channel, rfl, hc⟩ := hrecreate
      cases hbefore : (o.session.channels c).isOpen with
      | false => exact absurd hsignals (fresh_signals hbefore hopen _)
      | true =>
          rw [still_open_flow hbefore, heard, if_pos hc] at hrecreated
          cases hrecreated
    · have hheard : heard op c (o.flow c) = o.flow c := by
        cases op with
        | applyPeerSignals channel value =>
            exact if_neg fun hc => hspeaks ⟨channel, value, rfl, hc⟩
        | recreateEndpoint channel => exact if_neg fun hc => hrecreate ⟨channel, rfl, hc⟩
        | _ => rfl
      by_cases hop : op.plain = true
      · have hk : FlowKept op c o.session (o.next sink op).session :=
          Moves.flowKept (run_moves (o.session, o.world) h.sound hop) h.sound hspeaks
        refine h.still hheard hk.layout ?_ hconf hopen hsignals hrecreated
        intro hbefore
        by_cases hfailed : o.session.phase = .failed
        · exact Or.inl (hk.failed hfailed)
        · rcases hk.kept hbefore with ⟨-, -, hpeer⟩ | ⟨hclosed, -⟩
          · exact Or.inr ⟨hfailed, hpeer⟩
          · rw [hclosed] at hopen
            cases hopen
      · obtain ⟨hlayout, hpeer⟩ := rebuild_keeps h.sound (Bool.eq_false_of_not_eq_true hop)
          (fun channel hch hc => hrecreate ⟨channel, hch, hc⟩) hopen
        exact h.still hheard hlayout (fun _ => hpeer) hconf hopen hsignals hrecreated

theorem Valid.run {sink : Sink σ} {o : Watched σ} (h : o.Valid) (ops : List Operation) :
    (o.run sink ops).Valid := by
  induction ops generalizing o with
  | nil => exact h
  | cons op ops ih => exact ih (h.next op)

end Watched

/-- **Peer flow control.** After every run of a session from `new`, under every
behaviour of the sink: a configured channel that is open, whose last signals since it
became open carry the flow-control bit and whose endpoint was not recreated after
them, is not read. -/
theorem peer_flow_control {config : List ChannelConfig} {limit : Nat} {s : Session}
    (hnew : new config limit = .ok s) (sink : Sink σ) (w : σ) (ops : List Operation)
    {channel signals : UInt8} {c : Dlci} :
    let o := (Watched.start s w).run sink ops
    o.session.find channel = some c → (o.session.channels c).isOpen = true →
    (o.flow c).signals = some signals → signals &&& 2 ≠ 0 → (o.flow c).recreated = false →
    ∀ transmitCapacity, o.session.canReadEndpoint channel transmitCapacity = false := by
  intro o hfind hopen hsignals hbit hrecreated transmitCapacity
  have hvalid : o.Valid := (Watched.start_valid (new_sound hnew) w).run ops
  have hconf := (dlci_of_find hfind).2
  unfold canReadEndpoint
  rcases hvalid.flow c signals hconf hopen hsignals hrecreated with hfailed | hpeer
  · simp [hfailed]
  · simp [Session.channel, hfind, hpeer, hbit]

/-- Channel 1 of a running session, paused by the peer. -/
theorem peer_flow_control_paused :
    ∃ s, new [⟨1, false⟩] 64 = .ok s ∧
      let sink : Sink Unit := fun _ w => (true, w)
      let o := (Watched.start s ()).run sink
        [.begin 0, .receive ⟨3, 0x73, []⟩, .receive ⟨7, 0x73, []⟩, .applyPeerSignals 1 2,
          .setLocalPause 1 true]
      (o.session.channels 1).isOpen = true ∧ (o.flow 1).signals = some 2 ∧
        o.session.canReadEndpoint 1 true = false := by
  obtain ⟨s, hnew⟩ : ∃ s, new [⟨1, false⟩] 64 = .ok s := ⟨_, rfl⟩
  refine ⟨s, hnew, ?_⟩
  intro sink o
  have hfacts : o.session.find 1 = some 1 ∧ (o.session.channels 1).isOpen = true ∧
      (o.flow 1).signals = some 2 ∧ (o.flow 1).recreated = false := by
    cases hnew
    decide
  obtain ⟨hfind, hopen, hsignals, hrecreated⟩ := hfacts
  exact ⟨hopen, hsignals, peer_flow_control hnew sink () _ hfind hopen hsignals (by decide)
    hrecreated true⟩

/-- After the endpoint is recreated the channel is read again, although it stayed open
and the peer's last signals since it opened carry the flow-control bit. -/
theorem recreation_lifts_peer_pause :
    ∃ s, new [⟨1, false⟩] 64 = .ok s ∧
      let sink : Sink Unit := fun _ w => (true, w)
      let o := (Watched.start s ()).run sink
        [.begin 0, .receive ⟨3, 0x73, []⟩, .receive ⟨7, 0x73, []⟩, .applyPeerSignals 1 2,
          .recreateEndpoint 1]
      (o.session.channels 1).isOpen = true ∧ (o.flow 1).signals = some 2 ∧
        o.session.canReadEndpoint 1 true = true := by
  obtain ⟨s, hnew⟩ : ∃ s, new [⟨1, false⟩] 64 = .ok s := ⟨_, rfl⟩
  refine ⟨s, hnew, ?_⟩
  cases hnew
  decide

end Mindone.Mux.Session
