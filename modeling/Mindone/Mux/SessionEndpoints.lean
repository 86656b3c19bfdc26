import Mindone.Mux.SessionMoves

/-!
# Mindone.Mux.SessionEndpoints

**What an operation does to the owner of a session**: what every call of the sink
keeps, every operation keeps (`step_calls`), and a relation between the endpoint flags
of the channels and the sink that follows each opening, closing and pausing
(`Follows`) holds behind every operation but `set_local_pause` (`step_follows`).
-/

namespace Mindone.Mux.Session

open Mindone.Lib

variable {σ : Type} {sink : Sink σ}

/-! ### Operations with a result -/

@[simp] theorem step_receive (st : Session × σ) (frame : Frame) :
    step sink st (.receive frame) = endState (receive sink frame st) :=
  endState_bind_pure ..

@[simp] theorem step_recoveryTick (st : Session × σ) (now : Nat) :
    step sink st (.recoveryTick now) = endState (recoveryTick sink now st) :=
  endState_bind_pure ..

@[simp] theorem step_applicationInput (st : Session × σ) (channel : UInt8) :
    step sink st (.applicationInput channel) = endState (applicationInput channel st) :=
  endState_bind_pure ..

@[simp] theorem step_pollTimeout (st : Session × σ) (now : Nat) (pending : Bool) :
    step sink st (.pollTimeout now pending) = endState (pollTimeout now pending st) :=
  endState_bind_pure ..

/-! ### What the session hands over -/

/-- The session may hand over a payload for channel `c`. -/
structure HandsOver (s : Session) (c : Dlci) (payload : List UInt8) : Prop where
  talking : s.talking
  configured : s.configured c = true
  ne_zero : c ≠ 0
  present : (s.channels c).endpointPresent = true
  isOpen : s.recovery = true → (s.channels c).isOpen = true
  length : payload.length ≤ s.limit

/-- A payload is handed over only from these sessions, and nothing else happens then. -/
theorem receive_data (s : Session) (w : σ) (frame : Frame) :
    Ends (receive sink frame) (s, w)
      (fun handoff st => ∀ c payload, handoff = .data c payload →
        HandsOver s c payload ∧ ∃ echo, st = ({ s with pollFinalEcho := echo }, w))
      fun _ _ => True := by
  -- the branches that hand over nothing
  have hnone : ∀ p : Op σ Unit, Ends (do p; pure Handoff.none) (s, w)
      (fun handoff st => ∀ c payload, handoff = .data c payload →
        HandsOver s c payload ∧ ∃ echo, st = ({ s with pollFinalEcho := echo }, w))
      fun _ _ => True := by
    intro p
    rw [ends_bind]
    refine (ends_true p _).mono ?_ fun _ _ _ => trivial
    intro _ st _
    exact (ends_pure _).mpr fun _ _ h => by cases h
  unfold receive
  rw [ends_bind]
  refine ends_active ?_ (fun _ => trivial) (fun _ => trivial)
  intro hidle hfailed
  rw [ends_bind, ends_read, ends_ite]
  split
  · split
    · exact hnone _
    · exact (ends_pure _).mpr fun _ _ h => by cases h
  · rename_i hphase
    rw [ends_ite]
    split
    · exact (ends_throw _).mpr trivial
    · rename_i hlength
      unfold receiveFrame
      rw [ends_bind, ends_read]
      dsimp only
      split
      · simp only [receiveData, ends_bind, ends_update, ends_read, ends_ite, ends_pure]
        split
        · intro _ _ h
          cases h
        · rename_i hc
          split
          -- the one that does: a channel that is open and has its endpoint
          · rename_i hconf
            split
            · rename_i hpresent
              rintro c payload h
              cases h
              refine ⟨⟨talking_of_active hidle hfailed hphase, hconf, hc, hpresent.1, ?_, ?_⟩,
                _, rfl⟩
              · intro hrecovery
                simpa [hrecovery] using hpresent.2
              · exact Nat.le_of_not_lt hlength
            · intro _ _ h
              cases h
          · intro _ _ h
            cases h
      · split
        · exact hnone _
        · split
          · exact hnone _
          · split
            · exact hnone _
            · split
              · exact hnone _
              · exact (ends_pure _).mpr fun _ _ h => by cases h

/-! ### What no operation changes -/

/-- What is fixed when a session is made and when recovery is enabled. -/
structure Fixed (s s' : Session) : Prop where
  layout : s'.layout = s.layout
  limit : s'.limit = s.limit
  recovery : s'.recovery = s.recovery

theorem Fixed.refl (s : Session) : Fixed s s := ⟨rfl, rfl, rfl⟩

theorem resolve_fixed (sink : Sink σ) (s : Session) (w : σ) : Fixed s (endState (resolve sink (s, w))).1 := by
  rcases resolve_spec sink s w with ⟨-, h⟩ | ⟨-, -, h⟩ | ⟨-, -, -, h⟩ | ⟨-, -, -, h⟩
  · rw [h]
    exact .refl s
  · rw [h]
    exact ⟨rfl, rfl, rfl⟩
  · rw [h]
    exact ⟨rfl, rfl, rfl⟩
  · rw [h]
    cases (sink (.apply (.ready s.refusedChannels)) w).1 with
    | true => exact ⟨rfl, rfl, rfl⟩
    | false => exact ⟨rfl, rfl, rfl⟩

theorem resolveWhen_fixed (sink : Sink σ) (p : Prop) [Decidable p] (s : Session) (w : σ) :
    Fixed s (endState (resolveWhen sink p (s, w))).1 := by
  unfold resolveWhen
  split
  · exact resolve_fixed sink s w
  · exact .refl s

/-- Only `enable_recovery` changes one of the three. -/
theorem Move.fixed {op : Operation} {st st' : Session × σ} (h : Move sink op st st')
    (hop : ∀ escalationAfter, op ≠ .enableRecovery escalationAfter) : Fixed st.1 st'.1 := by
  cases h with
  | @enable s w escalationAfter henable => exact absurd henable (hop _)
  | @send s w frame hpayload =>
      dsimp only
      split
      · exact .refl s
      · exact ⟨rfl, rfl, rfl⟩
  | @close s w c hc hclosed hsettled hretry =>
      dsimp only
      split
      · exact ⟨rfl, rfl, rfl⟩
      · exact ⟨rfl, rfl, rfl⟩
  | @accept s w c hreceives htalking hconf hclosed hopening =>
      obtain ⟨hlayout, hlimit, hrecovery⟩ :=
        resolveWhen_fixed sink (s.attempts c = 0) (s.accepted c) w
      exact ⟨hlayout, hlimit, hrecovery⟩
  | @join s w c hreceives htalking hconf hpresent =>
      obtain ⟨hlayout, hlimit, hrecovery⟩ :=
        resolveWhen_fixed sink ((s.channels c).opening = true ∧ s.attempts c = 0) (s.joined c) w
      exact ⟨hlayout, hlimit, hrecovery⟩
  | @refuse s w c hreceives htalking hconf hc hclosed hopening hattempts w' hatci =>
      obtain ⟨hlayout, hlimit, hrecovery⟩ := resolve_fixed sink (s.refusedAt c) w'
      exact ⟨hlayout, hlimit, hrecovery⟩
  | _ => exact ⟨rfl, rfl, rfl⟩

/-- **Layout, limit and recovery stay as they are.** -/
theorem step_fixed {st : Session × σ} (hs : st.1.Sound) {op : Operation}
    (hop : ∀ escalationAfter, op ≠ .enableRecovery escalationAfter) :
    Fixed st.1 (step sink st op).1 := by
  -- A plain operation is a run of moves, none of which touches the three.
  by_cases hplain : op.plain = true
  · refine invariant_of_steps (I := fun st' : Session × σ => Fixed st.1 st'.1) ?_
      (run_moves st hs hplain) (.refl _)
    intro s s' hmove hfixed
    have hnext := hmove.fixed hop
    exact ⟨hnext.layout.trans hfixed.layout, hnext.limit.trans hfixed.limit,
      hnext.recovery.trans hfixed.recovery⟩
  -- The others are gone through one by one.
  · obtain ⟨s, w⟩ := st
    refine (ends_endState (P := fun st : Session × σ => Fixed s st.1)).mp ?_
    cases op with
    | begin now =>
        refine (begin_spec (s := s) (w := w)).mono ?_ ?_
        · rintro _ st ⟨-, hst⟩
          rw [hst]
          exact ⟨rfl, rfl, rfl⟩
        · rintro _ st (rfl | ⟨-, due, done, hst⟩)
          · exact .refl s
          · rw [hst]
            exact ⟨rfl, rfl, rfl⟩
    | setLocalPause channel paused =>
        refine (setLocalPause_spec (s := s) (w := w)).mono ?_ ?_
        · rintro _ st ⟨-, -, c, -, -, ⟨-, rfl⟩ | ⟨-, hst, -⟩⟩
          · exact .refl s
          · rw [hst]
            exact ⟨rfl, rfl, rfl⟩
        · rintro _ st (rfl | ⟨-, c, -, hst⟩)
          · exact .refl s
          · rw [hst]
            exact ⟨rfl, rfl, rfl⟩
    | recreateEndpoint channel =>
        refine (recreateEndpoint_spec (s := s) (w := w)).mono ?_ ?_
        · rintro _ st ⟨-, -, c, -, -, hst, -⟩
          rw [hst]
          exact ⟨rfl, rfl, rfl⟩
        · rintro _ st (rfl | ⟨-, hst | ⟨c, -, hst⟩⟩)
          · exact .refl s
          · rw [hst]
            exact ⟨rfl, rfl, rfl⟩
          · rw [hst]
            exact ⟨rfl, rfl, rfl⟩
    | resetAfterTransportClose => exact ends_update.mpr ⟨rfl, rfl, rfl⟩
    | _ => exact absurd rfl hplain

/-! ### What every call keeps -/

section Calls

variable {K : σ → Prop}

theorem resolve_calls (hK : ∀ call w, K w → K (sink call w).2) {s : Session} {w : σ} (hw : K w) :
    K (endState (resolve sink (s, w))).2 := by
  rcases resolve_spec sink s w with ⟨-, h⟩ | ⟨-, -, h⟩ | ⟨-, -, -, h⟩ | ⟨-, -, -, h⟩
  · rw [h]
    exact hw
  · rw [h]
    exact hw
  · rw [h]
    exact hw
  · rw [h]
    exact hK _ w hw

theorem resolveWhen_calls (hK : ∀ call w, K w → K (sink call w).2) {p : Prop} [Decidable p]
    {s : Session} {w : σ} (hw : K w) : K (endState (resolveWhen sink p (s, w))).2 := by
  unfold resolveWhen
  split
  · exact resolve_calls hK hw
  · exact hw

theorem Move.calls (hK : ∀ call w, K w → K (sink call w).2) {op : Operation}
    {st st' : Session × σ} (h : Move sink op st st') (hw : K st.2) : K st'.2 := by
  cases h with
  | send frame hpayload => exact hK _ _ hw
  | openRefused hsink => exact hK _ _ hw
  | openFresh htalking hconf hc habsent hsink => exact hK _ _ hw
  | close hc hclosed hsettled hretry => exact hK _ _ hw
  | accept hop htalking hconf hclosed hopening => exact resolveWhen_calls hK hw
  | join hop htalking hconf hpresent => exact resolveWhen_calls hK hw
  | @refuse s w c hop htalking hconf hc hclosed hopening hattempts w' hatci =>
      refine resolve_calls hK ?_
      split at hatci
      · have hasked := hK (.apply .atciUnavailable) w hw
        rw [hatci] at hasked
        exact hasked
      · rw [hatci]
        exact hw
  | refuseRejected hop hphase hsink => exact hK _ _ hw
  | pause hphase hc hclosed hsettled => exact hK _ _ hw
  | _ => exact hw

/-- **What every call of the sink keeps, every operation keeps.** -/
theorem step_calls (hK : ∀ call w, K w → K (sink call w).2) {st : Session × σ}
    (hs : st.1.Sound) (op : Operation) (hw : K st.2) : K (step sink st op).2 := by
  by_cases hplain : op.plain = true
  · exact invariant_of_steps (I := fun st : Session × σ => K st.2)
      (fun _ _ hmove => hmove.calls hK) (run_moves st hs hplain) hw
  · exact rebuild_calls (fun _ => hK _) (fun _ => hK _) (fun _ => hK _)
      (Bool.eq_false_iff.mpr hplain) hw

end Calls

/-! ### Endpoints -/

/-- What a session says of each endpoint: whether it is there, and whether the peer is
paused for it. -/
def endpoints (s : Session) : Dlci → Bool × Bool := fun c =>
  ((s.channels c).endpointPresent, (s.channels c).localPaused)

theorem endpoints_modify (s : Session) (c : Dlci) (f : Channel → Channel) :
    (s.modify c f).endpoints = Function.update s.endpoints c
      ((f (s.channels c)).endpointPresent, (f (s.channels c)).localPaused) := by
  funext d
  by_cases hd : d = c
  · subst hd
    simp [endpoints, Session.modify]
  · simp [endpoints, Session.modify, hd]

theorem endpoints_modify_same (s : Session) (c : Dlci) {f : Channel → Channel}
    (hpresent : ∀ ch, (f ch).endpointPresent = ch.endpointPresent)
    (hpaused : ∀ ch, (f ch).localPaused = ch.localPaused) :
    (s.modify c f).endpoints = s.endpoints := by
  rw [endpoints_modify, hpresent, hpaused]
  exact Function.update_eq_self c s.endpoints

/-- A relation between the endpoint flags and the sink that follows the calls; endpoints
are opened for the channels of the layout only. -/
structure Follows (sink : Sink σ) (layout : Layout) (R : (Dlci → Bool × Bool) → σ → Prop) :
    Prop where
  other : ∀ {f w action}, (∀ c, action ≠ .closeEndpoint c) → R f w →
    R f (sink (.apply action) w).2
  opened : ∀ {f w c}, c ∈ layout.order → R f w → (sink (.openEndpoint c) w).1 = true →
    R (Function.update f c (true, false)) (sink (.openEndpoint c) w).2
  notOpened : ∀ {f w c}, R f w → (sink (.openEndpoint c) w).1 = false →
    R f (sink (.openEndpoint c) w).2
  closed : ∀ {f w c}, R f w → (sink (.apply (.closeEndpoint c)) w).1 = true →
    R (Function.update f c (false, false)) (sink (.apply (.closeEndpoint c)) w).2
  notClosed : ∀ {f w c}, R f w → (sink (.apply (.closeEndpoint c)) w).1 = false →
    R f (sink (.apply (.closeEndpoint c)) w).2
  paused : ∀ {f w c}, R f w →
    R (Function.update f c ((f c).1, false)) (sink (.pauseEndpoint c) w).2

section Follows

variable {layout : Layout} {R : (Dlci → Bool × Bool) → σ → Prop} (h : Follows sink layout R)

/-- The relation, of a session with its sink. -/
def Related (layout : Layout) (R : (Dlci → Bool × Bool) → σ → Prop) (st : Session × σ) : Prop :=
  st.1.layout = layout ∧ R st.1.endpoints st.2

theorem mem_order {s : Session} {c : Dlci} (hlayout : s.layout = layout)
    (hconf : s.configured c = true) (hc : c ≠ 0) : c ∈ layout.order := by
  subst hlayout
  simpa [configured, hc] using hconf

include h

theorem Follows.resolve {s : Session} {w : σ} (hR : Related layout R (s, w)) :
    Related layout R (endState (resolve sink (s, w))) := by
  have htable := resolve_sameTable sink s w
  have hsame := congrArg (fun channels c => ((channels c).endpointPresent, (channels c).localPaused))
    htable.channels
  refine ⟨htable.layout.trans hR.1, ?_⟩
  unfold endpoints
  rw [hsame]
  rcases resolve_spec sink s w with ⟨-, hend⟩ | ⟨-, -, hend⟩ | ⟨-, -, -, hend⟩ | ⟨-, -, -, hend⟩
  · rw [hend]
    exact hR.2
  · rw [hend]
    exact hR.2
  · rw [hend]
    exact hR.2
  · rw [hend]
    exact h.other (by simp) hR.2

theorem Follows.resolveWhen {p : Prop} [Decidable p] {s : Session} {w : σ}
    (hR : Related layout R (s, w)) : Related layout R (endState (resolveWhen sink p (s, w))) := by
  unfold Session.resolveWhen
  split
  · exact h.resolve hR
  · exact hR

/-- **Every move keeps the relation.** -/
theorem Follows.move {op : Operation} {st st' : Session × σ} (hmove : Move sink op st st')
    (hR : Related layout R st) : Related layout R st' := by
  -- a change of flags that are not the endpoint's
  have hsame : ∀ {s : Session} {w : σ} {c : Dlci} {f : Channel → Channel}, Related layout R (s, w) →
      (∀ ch, (f ch).endpointPresent = ch.endpointPresent) →
      (∀ ch, (f ch).localPaused = ch.localPaused) → Related layout R (s.modify c f, w) := by
    intro s w c f hst hpresent hpaused
    refine ⟨hst.1, ?_⟩
    rw [endpoints_modify_same s c hpresent hpaused]
    exact hst.2
  cases hmove with
  | @send s w frame hpayload =>
      have hsent : Related layout R (s, (sink (.apply (.transmit frame)) w).2) :=
        ⟨hR.1, h.other (by simp) hR.2⟩
      split
      · exact hsent
      · exact hsent
  | openRefused hsink => exact ⟨hR.1, h.notOpened hR.2 hsink⟩
  | @openFresh s w c htalking hconf hc habsent hsink =>
      refine ⟨hR.1, ?_⟩
      rw [endpoints_modify]
      exact h.opened (mem_order hR.1 hconf hc) hR.2 hsink
  | @close s w c hc hclosed hsettled hretry =>
      split
      · rename_i hsink
        refine ⟨hR.1, ?_⟩
        rw [endpoints_modify]
        exact h.closed hR.2 hsink
      · rename_i hsink
        exact ⟨hR.1, h.notClosed hR.2 (Bool.eq_false_iff.mpr hsink)⟩
  | @accept s w c hop htalking hconf hclosed hopening =>
      have hflags : (s.accepted c).endpoints = s.endpoints := endpoints_modify_same s c
        (f := fun ch => { ch with opening := false, isOpen := true }) (fun _ => rfl) fun _ => rfl
      refine h.resolveWhen ⟨hR.1, ?_⟩
      rw [hflags]
      exact hR.2
  | @join s w c hop htalking hconf hpresent =>
      have hflags : (s.joined c).endpoints = s.endpoints := endpoints_modify_same s c
        (f := fun ch =>
          { ch with
            isOpen := true
            disconnecting := false
            refused := false
            refusalReported := false
            opening := false }) (fun _ => rfl) fun _ => rfl
      refine h.resolveWhen ⟨hR.1, ?_⟩
      rw [hflags]
      exact hR.2
  | @refuse s w c hop htalking hconf hc hclosed hopening hattempts w' hatci =>
      refine h.resolve (hsame ?_ (fun _ => rfl) fun _ => rfl)
      split at hatci
      · have hasked : Related layout R (s, (sink (.apply .atciUnavailable) w).2) :=
          ⟨hR.1, h.other (by simp) hR.2⟩
        rw [hatci] at hasked
        exact hasked
      · rw [hatci]
        exact hR
  | @refuseRejected s w c hop hphase hsink =>
      have hflags : (s.refusedAt c).fail.endpoints = s.endpoints := endpoints_modify_same s c
        (f := fun ch => { ch with opening := false, refused := true }) (fun _ => rfl) fun _ => rfl
      refine ⟨hR.1, ?_⟩
      rw [hflags]
      exact h.other (by simp) hR.2
  | @pause s w c hphase hc hclosed hsettled =>
      refine ⟨hR.1, ?_⟩
      rw [endpoints_modify]
      exact h.paused hR.2
  | lose hop hphase disconnecting => exact hsame hR (fun _ => rfl) fun _ => rfl
  | settle hphase disconnecting => exact hsame hR (fun _ => rfl) fun _ => rfl
  | abandon hretry => exact hsame hR (fun _ => rfl) fun _ => rfl
  | @retry s w c now hop hretry hattempts =>
      exact hsame (s := s.setAttempts c (s.attempts c + 1)) hR (fun _ => rfl) fun _ => rfl
  | peerSignals hop hc hopen => exact hsame hR (fun _ => rfl) fun _ => rfl
  | reported hphase => exact hsame hR (fun _ => rfl) fun _ => rfl
  | _ => exact hR

theorem Follows.transmit {c : Dlci} {control : UInt8} {payload : List UInt8} {s : Session} {w : σ}
    (hR : Related layout R (s, w)) :
    Ends (transmit sink c control payload) (s, w)
      (fun _ st => st.1.endpoints = s.endpoints ∧ Related layout R st) fun _ => Related layout R := by
  simp only [Session.transmit, ends_bind, ends_read, ends_ite, ends_update, ends_throw]
  split
  · exact hR
  · split
    · exact ends_apply (fun _ => ⟨rfl, hR.1, h.other (by simp) hR.2⟩)
        fun _ => ⟨hR.1, h.other (by simp) hR.2⟩
    · exact ends_apply (fun _ => ⟨rfl, hR.1, h.other (by simp) hR.2⟩)
        fun _ => ⟨hR.1, h.other (by simp) hR.2⟩

/-- `begin` opens the endpoints of an idle session, where no peer is paused. -/
theorem Follows.begin {s : Session} {w : σ} (hs : s.Sound) (now : Nat) (hR : Related layout R (s, w)) :
    Ends (begin sink now) (s, w) (fun _ => Related layout R) fun _ => Related layout R := by
  rw [Session.begin, ends_bind, ends_read]
  dsimp only
  split
  · exact (ends_throw _).mpr hR
  · rename_i hphase
    have hidle : s.phase = .idle := by simpa using hphase
    -- An idle session has paused nobody.
    have hclear : ∀ c, (s.endpoints c).2 = false := by
      intro c
      have hch := ((hs c).idle_clear hidle).1
      exact congrArg Channel.localPaused hch
    rw [ends_bind]
    refine ends_deadline ?_ hR
    simp only [ends_bind, ends_update]
    have hsame := fun s => endpoints_modify_same s 0 (f := fun ch => { ch with opening := true })
      (fun _ => rfl) fun _ => rfl
    -- The control channel is opened first; it has no endpoint.
    refine (h.transmit ?_).mono ?_ fun _ _ h' => h'
    · refine ⟨hR.1, ?_⟩
      rw [hsame]
      exact hR.2
    rintro _ st ⟨hst, hRst⟩
    rw [hsame] at hst
    -- Then the channels in the order of the layout, each opened before its SABM is sent.
    refine (ends_forM (I := fun rest st => (∀ c ∈ rest, c ∈ layout.order) ∧
      (∀ c, (st.1.endpoints c).2 = false) ∧ Related layout R st) ?_
      ⟨by rw [← hR.1]; exact fun _ => id, by rw [hst]; exact hclear, hRst⟩).mono
        (fun _ _ h' => h'.2.2) fun _ _ h' => h'
    · rintro c rest ⟨s', w'⟩ ⟨horder, hclear', hR'⟩
      simp only [beginChannel, ends_bind, ends_ask, ends_ite, ends_update, ends_throw]
      have hpaused : (s'.channels c).localPaused = false := hclear' c
      split
      · rename_i hsink
        have hopened : (s'.modify c fun ch =>
            { ch with endpointPresent := true, opening := true }).endpoints =
            Function.update s'.endpoints c (true, false) := by
          rw [endpoints_modify]
          simp [hpaused]
        have hc := horder c (List.mem_cons_self ..)
        refine (h.transmit ?_).mono ?_ fun _ _ h' => h'
        · refine ⟨hR'.1, ?_⟩
          rw [hopened]
          exact h.opened hc hR'.2 hsink
        rintro _ st' ⟨hst', hRst'⟩
        refine ⟨fun d hd => horder d (List.mem_cons_of_mem _ hd), fun d => ?_, hRst'⟩
        rw [hst', hopened]
        by_cases hd : d = c
        · subst hd
          simp
        · simpa [hd] using hclear' d
      · rename_i hsink
        exact ⟨hR'.1, h.notOpened hR'.2 (Bool.eq_false_iff.mpr hsink)⟩

/-- Recreating an endpoint closes it and opens it again. -/
theorem Follows.recreateEndpoint {s : Session} {w : σ} (channel : UInt8)
    (hR : Related layout R (s, w)) :
    Ends (recreateEndpoint sink channel) (s, w) (fun _ => Related layout R) fun _ => Related layout R := by
  rw [Session.recreateEndpoint, ends_bind]
  refine ends_active ?_ (fun _ => hR) (fun _ => hR)
  intro _ _
  rw [ends_bind, ends_read]
  cases hfind : s.find channel with
  | none => exact (ends_throw _).mpr hR
  | some c =>
      simp only [ends_ite, ends_throw]
      split
      · exact hR
      · rename_i hc
        have horder := mem_order hR.1 (Option.filter_eq_some_iff.mp hfind).2 hc
        simp only [ends_bind, closeEndpoint, ends_update, ends_ask, ends_ite, ends_throw]
        refine ends_apply (fun hsink => ?_) fun hsink => ⟨hR.1, h.notClosed hR.2 hsink⟩
        -- Once it is closed, the relation holds with the endpoint gone.
        have hclosed : Related layout R (s.closedAt c, (sink (.apply (.closeEndpoint c)) w).2) := by
          refine ⟨hR.1, ?_⟩
          rw [closedAt, endpoints_modify]
          exact h.closed hR.2 hsink
        -- Whatever the signal in between does, it leaves the endpoints as they are.
        have hreopen : ∀ st : Session × σ, st.1.endpoints = (s.closedAt c).endpoints →
            Related layout R st →
            if (sink (.openEndpoint c) st.2).1 = true then
              Related layout R (st.1.modify c fun ch => { ch with endpointPresent := true },
                (sink (.openEndpoint c) st.2).2)
            else Related layout R (st.1.fail, (sink (.openEndpoint c) st.2).2) := by
          intro st hst hRst
          have hpaused : (st.1.channels c).localPaused = false := by
            have hflag := congrFun hst c
            rw [closedAt, endpoints_modify, Function.update_self] at hflag
            exact congrArg Prod.snd hflag
          split
          · rename_i hopen
            refine ⟨hRst.1, ?_⟩
            rw [endpoints_modify]
            dsimp only
            rw [hpaused]
            exact h.opened horder hRst.2 hopen
          · rename_i hopen
            exact ⟨hRst.1, h.notOpened hRst.2 (Bool.eq_false_iff.mpr hopen)⟩
        split
        · refine (h.transmit hclosed).mono ?_ fun _ _ h' => h'
          rintro _ st ⟨hst, hRst⟩
          exact hreopen st hst hRst
        · exact hreopen _ rfl hclosed

/-- **Every operation but `set_local_pause` and the reset follows.** -/
theorem Follows.step {st : Session × σ} (hs : st.1.Sound) {op : Operation}
    (hpause : ∀ channel paused, op ≠ .setLocalPause channel paused)
    (hreset : op ≠ .resetAfterTransportClose) (hR : Related layout R st) :
    Related layout R (step sink st op) := by
  by_cases hplain : op.plain = true
  · exact invariant_of_steps (I := Related layout R) (fun _ _ hmove => h.move hmove)
      (run_moves st hs hplain) hR
  · obtain ⟨s, w⟩ := st
    refine ends_endState.mp ?_
    cases op with
    | begin now => exact h.begin hs now hR
    | setLocalPause channel paused => exact absurd rfl (hpause channel paused)
    | recreateEndpoint channel => exact h.recreateEndpoint channel hR
    | resetAfterTransportClose => exact absurd rfl hreset
    | _ => exact absurd rfl hplain

end Follows

end Mindone.Mux.Session
