import Mindone.Mux.SessionMoves

/-!
# Mindone.Mux.SessionSetup

**Setup accounting.** While a session is live, `unresolved` is the number of
configured channels that still wait for their first answer, `setup_done` says
that there is none left, and `Ready` is offered exactly when the last answer
arrives: once for each `begin`, and never again after it was taken.

The proof is one invariant over the moves of an operation (`Progress`), read back
at the end of the operation and carried over whole runs by `Observed`.
-/

namespace Mindone.Mux.Session

open Mindone.Lib

variable {σ : Type}

/-! ### Counting the channels that wait -/

/-- Neither idle nor failed. -/
def Live (s : Session) : Prop := s.phase ≠ .idle ∧ s.phase ≠ .failed

/-- The channel waits for the answer to the `SABM` of `begin`. -/
def waiting (s : Session) (c : Dlci) : Bool := (s.channels c).opening && s.attempts c == 0

/-- The configured channels that wait. -/
def waitingSet (s : Session) : Finset Dlci :=
  Finset.univ.filter fun c => s.configured c = true ∧ s.waiting c = true

/-- The counters say what the channels say. -/
structure Accounted (s : Session) : Prop where
  unresolved_eq : s.unresolved = s.waitingSet.card
  done_iff : s.setupDone = true ↔ s.unresolved = 0
  running_done : s.phase = .running → s.setupDone = true

theorem mem_waitingSet {s : Session} {c : Dlci} :
    c ∈ s.waitingSet ↔ s.configured c = true ∧ s.waiting c = true := by
  simp [waitingSet]

theorem waitingSet_congr {s s' : Session} (hlayout : s'.layout = s.layout)
    (hwaiting : ∀ c, s'.waiting c = s.waiting c) : s'.waitingSet = s.waitingSet := by
  ext c
  rw [mem_waitingSet, mem_waitingSet, hwaiting, configured, configured, hlayout]

/-- A channel that no longer waits leaves the set. -/
theorem waitingSet_erase {s s' : Session} {c : Dlci} (hlayout : s'.layout = s.layout)
    (hc : s'.waiting c = false) (hother : ∀ d, d ≠ c → s'.waiting d = s.waiting d) :
    s'.waitingSet = s.waitingSet.erase c := by
  ext d
  rw [Finset.mem_erase, mem_waitingSet, mem_waitingSet, configured, configured, hlayout]
  by_cases hd : d = c
  · subst hd
    simp [hc]
  · simp [hd, hother d hd]

/-- The control channel and the channels of the layout are the configured ones. -/
theorem card_configured (s : Session) :
    (Finset.univ.filter fun c => s.configured c = true).card = s.layout.order.length + 1 := by
  have hset : (Finset.univ.filter fun c => s.configured c = true) =
      (0 :: s.layout.order).toFinset := by
    ext c
    simp [configured]
  rw [hset, List.toFinset_card_of_nodup]
  · rfl
  · exact List.nodup_cons.mpr ⟨s.layout.zero_notMem, s.layout.nodup⟩

/-! ### What was asked of the sink -/

/-- The sink that also records its calls and its answers. -/
def logged (sink : Sink σ) : Sink (σ × List (Call × Bool)) := fun call w =>
  ((sink call w.1).1, (sink call w.1).2, w.2 ++ [(call, (sink call w.1).1)])

/-- An offer of `Ready`. -/
def offersReady : Call × Bool → Bool
  | (.apply (.ready _), _) => true
  | _ => false

/-- An offer of `Ready` that was taken. -/
def takesReady (entry : Call × Bool) : Bool := offersReady entry && entry.2

/-- The operation brings the peer's answer for channel `c`: `UA` or its own `SABM`
accept the channel, `DM` refuses it. -/
def Operation.answers (op : Operation) (c : Dlci) : Bool :=
  match op with
  | .receive frame => frame.dlci == c && (frame.kind == ua || frame.kind == sabm || frame.kind == dm)
  | _ => false

theorem Operation.Receives.answers {op : Operation} {kind : UInt8} {c : Dlci}
    (h : op.Receives kind c) (hkind : kind = ua ∨ kind = sabm ∨ kind = dm) :
    op.answers c = true := by
  obtain ⟨frame, rfl, rfl, rfl⟩ := h
  simp only [Operation.answers, beq_self_eq_true, Bool.true_and, Bool.or_eq_true, beq_iff_eq]
  rcases hkind with h | h | h
  · exact Or.inl (Or.inl h)
  · exact Or.inl (Or.inr h)
  · exact Or.inr h

/-! ### One operation -/

/-- What holds at every point of an operation that began in the session `s₀` with
an empty record: `s` is the session and `log` the record so far. -/
structure Progress (op : Operation) (s₀ s : Session) (log : List (Call × Bool)) : Prop where
  layout : s.layout = s₀.layout
  live : s.Live → s₀.Live
  accounted : s.Live → s.Accounted
  waiting_old : ∀ c, s.waiting c = true → s₀.waiting c = true
  answered : ∀ c, s₀.waiting c = true → s.waiting c = false → op.answers c = true
  done_mono : s₀.setupDone = true → s.setupDone = true
  started_mono : s₀.readyStarted = true → s.readyStarted = true
  offers_le : log.countP offersReady ≤ 1
  offered : log.any offersReady = true → s₀.setupDone = false ∧ s₀.readyStarted = false ∧
    s₀.Live ∧ s.setupDone = true ∧ ∀ c, s.configured c = true → s.waiting c = false
  taken : log.any takesReady = true → s.readyStarted = true

theorem Progress.start {op : Operation} {s : Session} (h : s.Live → s.Accounted) :
    Progress op s s [] where
  layout := rfl
  live := id
  accounted := h
  waiting_old := fun _ => id
  answered := fun c hw hn => by simp [hw] at hn
  done_mono := id
  started_mono := id
  offers_le := by simp
  offered := by simp
  taken := by simp

/-- A move that neither answers a channel nor offers `Ready`. -/
theorem Progress.quiet {op : Operation} {s₀ s s' : Session} {log log' : List (Call × Bool)}
    (h : Progress op s₀ s log) (hlayout : s'.layout = s.layout)
    (hwaiting : ∀ c, s'.waiting c = s.waiting c) (hunresolved : s'.unresolved = s.unresolved)
    (hdone : s'.setupDone = s.setupDone) (hready : s'.readyStarted = s.readyStarted)
    (hlive : s'.Live → s.Live) (hrunning : s'.phase = .running → s.phase = .running)
    (hlog : log' = log ∨ ∃ entry, log' = log ++ [entry] ∧ offersReady entry = false) :
    Progress op s₀ s' log' := by
  -- The log has grown by an entry at most, and not by an offer.
  have hoffers : log'.countP offersReady = log.countP offersReady := by
    rcases hlog with rfl | ⟨entry, rfl, hentry⟩
    · rfl
    · simp [hentry]
  have hany : log'.any offersReady = log.any offersReady := by
    rcases hlog with rfl | ⟨entry, rfl, hentry⟩
    · rfl
    · simp [hentry]
  have htaken : log'.any takesReady = log.any takesReady := by
    rcases hlog with rfl | ⟨entry, rfl, hentry⟩
    · rfl
    · simp [takesReady, hentry]
  refine
    { layout := hlayout.trans h.layout
      live := fun hl => h.live (hlive hl)
      accounted := ?_
      waiting_old := fun c hw => h.waiting_old c (by rwa [hwaiting] at hw)
      answered := fun c hw hn => h.answered c hw (by rwa [hwaiting] at hn)
      done_mono := fun hd => by rw [hdone]; exact h.done_mono hd
      started_mono := fun hr => by rw [hready]; exact h.started_mono hr
      offers_le := by rw [hoffers]; exact h.offers_le
      offered := ?_
      taken := fun ht => by rw [hready]; exact h.taken (by rwa [htaken] at ht) }
  -- The books are about fields that are the same.
  · intro hl
    have hacc := h.accounted (hlive hl)
    exact
      { unresolved_eq := by rw [hunresolved, waitingSet_congr hlayout hwaiting, hacc.unresolved_eq]
        done_iff := by rw [hdone, hunresolved]; exact hacc.done_iff
        running_done := fun hr => by rw [hdone]; exact hacc.running_done (hrunning hr) }
  · intro ho
    obtain ⟨hd, hr, hl, hs, hall⟩ := h.offered (by rwa [hany] at ho)
    refine ⟨hd, hr, hl, by rw [hdone]; exact hs, fun c hc => ?_⟩
    rw [hwaiting]
    exact hall c (by rwa [configured, hlayout] at hc)

theorem countP_offersReady_of_any {log : List (Call × Bool)} (h : log.any offersReady = false) :
    log.countP offersReady = 0 := by
  rw [List.countP_eq_zero]
  intro entry hmem hoffers
  have := List.any_eq_false.mp h entry hmem
  exact this hoffers

theorem takesReady_of_any {log : List (Call × Bool)} (h : log.any offersReady = false) :
    log.any takesReady = false := by
  rw [List.any_eq_false]
  intro entry hmem htakes
  exact List.any_eq_false.mp h entry hmem (Bool.and_eq_true_iff.mp htakes).1

/-- A channel that waited is answered: one fewer is unresolved, and the last answer
completes the setup and offers `Ready`. Here `s₁` is the session behind the answer,
before `resolve`. -/
theorem Progress.resolve {sink : Sink σ} {w : σ} {op : Operation} {s₀ s s₁ : Session}
    {log log₁ : List (Call × Bool)} {c : Dlci} (h : Progress op s₀ s log) (hlive : s.Live)
    (hconf : s.configured c = true) (hwaiting : s.waiting c = true)
    (hanswers : op.answers c = true) (hlayout : s₁.layout = s.layout)
    (hc : s₁.waiting c = false) (hother : ∀ d, d ≠ c → s₁.waiting d = s.waiting d)
    (hunresolved : s₁.unresolved = s.unresolved) (hdone : s₁.setupDone = s.setupDone)
    (hready : s₁.readyStarted = s.readyStarted) (hphase : s₁.phase = s.phase)
    (hlog : log₁ = log ∨ ∃ entry, log₁ = log ++ [entry] ∧ offersReady entry = false) :
    Progress op s₀ (endState (resolve (logged sink) (s₁, w, log₁))).1
      (endState (resolve (logged sink) (s₁, w, log₁))).2.2 := by
  have hacc := h.accounted hlive
  have hmem : c ∈ s.waitingSet := mem_waitingSet.mpr ⟨hconf, hwaiting⟩
  have hcard : s₁.waitingSet.card + 1 = s.unresolved := by
    rw [waitingSet_erase hlayout hc hother, Finset.card_erase_add_one hmem, hacc.unresolved_eq]
  have hnotDone : s.setupDone = false := by
    by_contra hd
    have := hacc.done_iff.mp (Bool.eq_true_of_not_eq_false hd)
    omega
  have hlogged : log₁.any offersReady = false := by
    have hnone : log.any offersReady = false := by
      by_contra ho
      have := (h.offered (Bool.eq_true_of_not_eq_false ho)).2.2.2.1
      rw [hnotDone] at this
      cases this
    rcases hlog with rfl | ⟨entry, rfl, hentry⟩
    · exact hnone
    · simp [hnone, hentry]
  have hold : ∀ d, s₁.waiting d = true → s₀.waiting d = true := by
    intro d hd
    by_cases hdc : d = c
    · subst hdc
      rw [hc] at hd
      cases hd
    · exact h.waiting_old d (by rwa [hother d hdc] at hd)
  have hanswered : ∀ d, s₀.waiting d = true → s₁.waiting d = false → op.answers d = true := by
    intro d hw hn
    by_cases hdc : d = c
    · rw [hdc]
      exact hanswers
    · exact h.answered d hw (by rwa [hother d hdc] at hn)
  have hfirst : s₀.setupDone = false := by
    by_contra hd
    have := h.done_mono (Bool.eq_true_of_not_eq_false hd)
    rw [hnotDone] at this
    cases this
  have hstart : s₀.readyStarted = true → s₁.readyStarted = true := fun hr => by
    rw [hready]
    exact h.started_mono hr
  have hempty : s₁.unresolved = 1 → ∀ d, s₁.configured d = true → s₁.waiting d = false := by
    intro hone d hd
    have hzero : s₁.waitingSet = ∅ := Finset.card_eq_zero.mp (by omega)
    by_contra hw
    have hd' : d ∈ s₁.waitingSet := mem_waitingSet.mpr ⟨hd, by simpa using hw⟩
    rw [hzero] at hd'
    simp at hd'
  rcases resolve_spec (logged sink) s₁ (w, log₁) with
    ⟨hzero, -⟩ | ⟨hpos, hmore, hend⟩ | ⟨hone, -, hrs, hend⟩ | ⟨hone, -, hrs, hend⟩
  · omega
  · -- other channels still wait
    rw [hend]
    have hmany : s₁.unresolved ≠ 1 := fun hone => hmore ⟨hone, by rw [hdone]; exact hnotDone⟩
    refine
      { layout := hlayout.trans h.layout
        live := fun _ => h.live hlive
        accounted := fun _ =>
          { unresolved_eq := ?_
            done_iff := ?_
            running_done := fun hr => ?_ }
        waiting_old := hold
        answered := hanswered
        done_mono := fun hd => by rw [hfirst] at hd; cases hd
        started_mono := hstart
        offers_le := by simp [countP_offersReady_of_any hlogged]
        offered := by simp [hlogged]
        taken := by simp [takesReady_of_any hlogged] }
    · show s₁.unresolved - 1 = s₁.waitingSet.card
      omega
    · show s₁.setupDone = true ↔ s₁.unresolved - 1 = 0
      rw [hdone, hnotDone]
      simp
      omega
    · have hrun := hacc.running_done (hphase ▸ hr)
      rw [hnotDone] at hrun
      cases hrun
  · -- setup completes again after a reset: `Ready` was taken before
    rw [hend]
    refine
      { layout := hlayout.trans h.layout
        live := fun _ => h.live hlive
        accounted := fun _ =>
          { unresolved_eq := ?_
            done_iff := by simp
            running_done := fun _ => rfl }
        waiting_old := hold
        answered := hanswered
        done_mono := fun _ => rfl
        started_mono := hstart
        offers_le := by simp [countP_offersReady_of_any hlogged]
        offered := by simp [hlogged]
        taken := by simp [takesReady_of_any hlogged] }
    show 0 = s₁.waitingSet.card
    omega
  · -- setup completes and `Ready` is offered
    rw [hend]
    have hnever : s₀.readyStarted = false := by
      by_contra hr
      have := hstart (Bool.eq_true_of_not_eq_false hr)
      rw [hrs] at this
      cases this
    have hcount := countP_offersReady_of_any hlogged
    have hnone := takesReady_of_any hlogged
    cases hsink : (sink (.apply (.ready s₁.refusedChannels)) w).1 with
    | true =>
        simp only [logged, hsink, if_true]
        refine
          { layout := hlayout.trans h.layout
            live := fun _ => h.live hlive
            accounted := fun _ =>
              { unresolved_eq := ?_
                done_iff := by simp
                running_done := fun _ => rfl }
            waiting_old := hold
            answered := hanswered
            done_mono := fun _ => rfl
            started_mono := fun _ => rfl
            offers_le := by simp [hcount, offersReady]
            offered := fun _ => ⟨hfirst, hnever, h.live hlive, rfl, hempty hone⟩
            taken := fun _ => rfl }
        show 0 = s₁.waitingSet.card
        omega
    | false =>
        simp only [logged, hsink, Bool.false_eq_true, if_false]
        exact
          { layout := hlayout.trans h.layout
            live := fun hl => absurd rfl hl.2
            accounted := fun hl => absurd rfl hl.2
            waiting_old := hold
            answered := hanswered
            done_mono := fun _ => rfl
            started_mono := fun hr => by rw [hnever] at hr; cases hr
            offers_le := by simp [hcount, offersReady]
            offered := fun _ => ⟨hfirst, hnever, h.live hlive, rfl, hempty hone⟩
            taken := by simp [hnone, takesReady] }

theorem talking.live {s : Session} (h : s.talking) : s.Live :=
  ⟨h.phase_ne_idle, h.phase_ne_failed⟩

theorem waiting_modify_of_ne {s : Session} {c d : Dlci} {f : Channel → Channel} (hd : d ≠ c) :
    (s.modify c f).waiting d = s.waiting d := by
  simp [waiting, Session.modify, hd]

/-- A change of flags other than `opening` changes no channel's waiting. -/
theorem waiting_modify {s : Session} {c : Dlci} {f : Channel → Channel}
    (hf : (f (s.channels c)).opening = (s.channels c).opening) (d : Dlci) :
    (s.modify c f).waiting d = s.waiting d := by
  by_cases hd : d = c
  · subst hd
    simp [waiting, Session.modify, hf]
  · exact waiting_modify_of_ne hd

theorem not_live_fail (s : Session) : ¬ s.fail.Live := fun h => h.2 rfl

/-- A quiet move that fails the session, or does not, as the sink says. -/
theorem Progress.quiet_ite {op : Operation} {s₀ s s₁ : Session} {log log' : List (Call × Bool)}
    (h : Progress op s₀ s log) (b : Bool) (hlayout : s₁.layout = s.layout)
    (hwaiting : ∀ c, s₁.waiting c = s.waiting c) (hunresolved : s₁.unresolved = s.unresolved)
    (hdone : s₁.setupDone = s.setupDone) (hready : s₁.readyStarted = s.readyStarted)
    (hphase : s₁.phase = s.phase)
    (hlog : log' = log ∨ ∃ entry, log' = log ++ [entry] ∧ offersReady entry = false) :
    Progress op s₀ (if b then s₁ else s.fail) log' := by
  cases b with
  | true =>
      refine h.quiet hlayout hwaiting hunresolved hdone hready ?_ ?_ hlog
      · exact fun hl => ⟨hphase ▸ hl.1, hphase ▸ hl.2⟩
      · exact fun hr => hphase ▸ hr
  | false =>
      refine h.quiet rfl (fun _ => rfl) rfl rfl rfl (fun hl => absurd hl (not_live_fail s)) ?_ hlog
      intro hr
      cases hr

/-- A refusal whose effect the sink rejects ends the session. -/
theorem Progress.broken {op : Operation} {s₀ s : Session} {log log' : List (Call × Bool)}
    (h : Progress op s₀ s log) {c : Dlci} (hanswers : op.answers c = true)
    (hlog : log' = log ∨ ∃ entry, log' = log ++ [entry] ∧ offersReady entry = false) :
    Progress op s₀ (s.refusedAt c).fail log' := by
  have hfail : Progress op s₀ s.fail log' :=
    h.quiet_ite false rfl (fun _ => rfl) rfl rfl rfl rfl hlog
  have hsub : ∀ d, (s.refusedAt c).fail.waiting d = true → s.fail.waiting d = true ∧ d ≠ c := by
    intro d hd
    by_cases hdc : d = c
    · subst hdc
      simp [waiting, refusedAt, Session.modify, Session.fail] at hd
    · refine ⟨?_, hdc⟩
      simpa [waiting, refusedAt, Session.modify, Session.fail, hdc] using hd
  exact
    { hfail with
      waiting_old := fun d hd => hfail.waiting_old d (hsub d hd).1
      answered := fun d hw hn => by
        by_cases hdc : d = c
        · rw [hdc]
          exact hanswers
        · refine hfail.answered d hw ?_
          simpa [waiting, refusedAt, Session.modify, Session.fail, hdc] using hn
      accounted := fun hl => absurd rfl hl.2
      offered := fun ho => by
        obtain ⟨hd, hr, hl, hs, hall⟩ := hfail.offered ho
        refine ⟨hd, hr, hl, hs, fun d hd => ?_⟩
        by_contra hw
        have hsome := (hsub d (Bool.eq_true_of_not_eq_false hw)).1
        rw [hall d hd] at hsome
        cases hsome }

/-- A channel with a retry due does not wait. -/
theorem not_waiting_of_retry {s : Session} (hs : s.Sound) {c : Dlci} (hretry : s.retryAt c ≠ 0) :
    s.waiting c = false := by
  by_cases hattempts : s.attempts c = 0
  · simp [waiting, (hs c).retry_fresh hretry hattempts]
  · simp [waiting, hattempts]

/-- A quiet move that changes the flags of one channel. -/
theorem Progress.modify {op : Operation} {s₀ s : Session} {log log' : List (Call × Bool)}
    (h : Progress op s₀ s log) {c : Dlci} {f : Channel → Channel}
    (hf : (f (s.channels c)).opening = (s.channels c).opening)
    (hlog : log' = log ∨ ∃ entry, log' = log ++ [entry] ∧ offersReady entry = false) :
    Progress op s₀ (s.modify c f) log' :=
  h.quiet rfl (waiting_modify hf) rfl rfl rfl id id hlog

/-- **Every move of an operation makes progress.** -/
theorem Move.progress {sink : Sink σ} {op : Operation} {s₀ : Session}
    {st st' : Session × σ × List (Call × Bool)} (h : Move (logged sink) op st st')
    (hs : st.1.Sound) (hp : Progress op s₀ st.1 st.2.2) : Progress op s₀ st'.1 st'.2.2 := by
  cases h with
  -- moves that no account of the setup looks at
  | @tick s w now escalationAfter =>
      exact hp.quiet rfl (fun _ => rfl) rfl rfl rfl id id (Or.inl rfl)
  | @enable s w escalationAfter hop =>
      exact hp.quiet rfl (fun _ => rfl) rfl rfl rfl id id (Or.inl rfl)
  | @echo s w pending => exact hp.quiet rfl (fun _ => rfl) rfl rfl rfl id id (Or.inl rfl)
  | @send s w frame hpayload =>
      exact hp.quiet_ite _ rfl (fun _ => rfl) rfl rfl rfl rfl (Or.inr ⟨_, rfl, rfl⟩)
  | @halt s w =>
      exact hp.quiet_ite false rfl (fun _ => rfl) rfl rfl rfl rfl (Or.inl rfl)
  -- leaving the setup, with channels that wait no longer
  | @leave s w phase hidle hfailed hphase =>
      refine hp.quiet rfl (fun _ => rfl) rfl rfl rfl (fun _ => ⟨hidle, hfailed⟩) ?_ (Or.inl rfl)
      intro hr
      rcases hphase with rfl | rfl
      · cases hr
      · cases hr
  | @openRefused s w c hsink =>
      exact hp.quiet rfl (fun _ => rfl) rfl rfl rfl id id (Or.inr ⟨_, rfl, rfl⟩)
  -- an endpoint is opened before its channel is counted
  | @openFresh s w c htalking hconf hc habsent hsink =>
      dsimp only at hp ⊢
      exact hp.modify rfl (Or.inr ⟨_, rfl, rfl⟩)
  | @close s w c hc hclosed hsettled hretry =>
      exact hp.quiet_ite _ rfl (waiting_modify rfl) rfl rfl rfl rfl (Or.inr ⟨_, rfl, rfl⟩)
  -- the channel is counted when its attempts were those of the setup
  | @accept s w c hop htalking hconf hclosed hopening =>
      unfold resolveWhen
      have hother : ∀ d, d ≠ c → (s.accepted c).waiting d = s.waiting d := fun d hd => by
        simp [waiting, accepted, Session.modify, setRetryAt, hd]
      have hc : (s.accepted c).waiting c = false := by
        simp [waiting, accepted, Session.modify, setRetryAt]
      split
      -- it waited, and waits no longer
      · rename_i hattempts
        have hwaiting : s.waiting c = true := by simp [waiting, hopening, hattempts]
        exact hp.resolve htalking.live hconf hwaiting (hop.answers (Or.inl rfl)) rfl hc hother
          rfl rfl rfl rfl (Or.inl rfl)
      · rename_i hattempts
        show Progress op s₀ (s.accepted c) w.2
        refine hp.quiet rfl (fun d => ?_) rfl rfl rfl id id (Or.inl rfl)
        by_cases hd : d = c
        · rw [hd, hc]
          simp [waiting, hattempts]
        · exact hother d hd
  -- a join counts the channel unless it was there before
  | @join s w c hop htalking hconf hpresent =>
      unfold resolveWhen
      have hother : ∀ d, d ≠ c → (s.joined c).waiting d = s.waiting d := fun d hd => by
        simp [waiting, joined, Session.modify, setRetryAt, hd]
      have hc : (s.joined c).waiting c = false := by
        simp [waiting, joined, Session.modify, setRetryAt]
      split
      · rename_i hfirst
        have hwaiting : s.waiting c = true := by simp [waiting, hfirst.1, hfirst.2]
        exact hp.resolve htalking.live hconf hwaiting (hop.answers (Or.inr (Or.inl rfl))) rfl hc
          hother rfl rfl rfl rfl (Or.inl rfl)
      · rename_i hlater
        show Progress op s₀ (s.joined c) w.2
        refine hp.quiet rfl (fun d => ?_) rfl rfl rfl id id (Or.inl rfl)
        by_cases hd : d = c
        · rw [hd, hc]
          simpa [waiting] using hlater
        · exact hother d hd
  -- a refusal counts the channel too, and may tell of the missing service
  | @refuse s w c hop htalking hconf hc hclosed hopening hattempts w' hatci =>
      have hwaiting : s.waiting c = true := by simp [waiting, hopening, hattempts]
      have hlog : w'.2 = w.2 ∨ ∃ entry, w'.2 = w.2 ++ [entry] ∧ offersReady entry = false := by
        split at hatci
        · refine Or.inr ⟨(.apply .atciUnavailable, true), ?_, rfl⟩
          have hanswer := congrArg Prod.fst hatci
          have hrecord := congrArg (fun r => r.2.2) hatci
          simp only [logged] at hanswer hrecord
          rw [← hrecord, hanswer]
        · exact Or.inl (by rw [hatci])
      have hc : (s.refusedAt c).waiting c = false := by simp [waiting, refusedAt, Session.modify]
      have hother : ∀ d, d ≠ c → (s.refusedAt c).waiting d = s.waiting d :=
        fun d hd => waiting_modify_of_ne hd
      exact hp.resolve (w := w'.1) htalking.live hconf hwaiting
        (hop.answers (Or.inr (Or.inr rfl))) rfl hc hother rfl rfl rfl rfl hlog
  -- the message was rejected, and the session ends
  | @refuseRejected s w c hop hphase hsink =>
      exact hp.broken (hop.answers (Or.inr (Or.inr rfl))) (Or.inr ⟨_, rfl, rfl⟩)
  | @lose s w c hop hphase disconnecting =>
      dsimp only at hp ⊢
      exact hp.modify rfl (Or.inl rfl)
  | @settle s w c hphase disconnecting =>
      dsimp only at hp ⊢
      exact hp.modify rfl (Or.inl rfl)
  | @pause s w c hphase hc hclosed hsettled =>
      dsimp only at hp ⊢
      exact hp.modify hsettled.symm (Or.inr ⟨_, rfl, rfl⟩)
  | @schedule s w c due hphase hc hrecovery hdue hclosed hfresh hpresent =>
      exact hp.quiet rfl (fun _ => rfl) rfl rfl rfl id id (Or.inl rfl)
  -- a channel with a retry does not wait, before or behind
  | @abandon s w c hretry =>
      refine hp.quiet rfl (fun d => ?_) rfl rfl rfl id id (Or.inl rfl)
      by_cases hd : d = c
      · rw [hd, not_waiting_of_retry hs hretry]
        simp [waiting, Session.modify]
      · simp [waiting, Session.modify, hd]
  | @retry s w c now hop hretry hattempts =>
      refine hp.quiet rfl (fun d => ?_) rfl rfl rfl id id (Or.inl rfl)
      by_cases hd : d = c
      · rw [hd, not_waiting_of_retry hs hretry]
        simp [waiting, Session.modify, setAttempts]
      · simp [waiting, Session.modify, setAttempts, hd]
  | @peerSignals s w c channel signals hop hc hopen =>
      dsimp only at hp ⊢
      exact hp.modify rfl (Or.inl rfl)
  | @reported s w c hphase =>
      dsimp only at hp ⊢
      exact hp.modify rfl (Or.inl rfl)

/-- An operation that leaves the setup alone and never offers `Ready`. -/
theorem Progress.of_silent {op : Operation} {s s' : Session} {log : List (Call × Bool)}
    (hs : s.Live → s.Accounted) (hlayout : s'.layout = s.layout)
    (hwaiting : ∀ c, s'.waiting c = s.waiting c) (hunresolved : s'.unresolved = s.unresolved)
    (hdone : s'.setupDone = s.setupDone) (hready : s'.readyStarted = s.readyStarted)
    (hphase : s'.phase = s.phase ∨ s'.phase = .failed) (hlog : log.any offersReady = false) :
    Progress op s s' log := by
  have hquiet : Progress op s s' [] := by
    refine (Progress.start hs).quiet hlayout hwaiting hunresolved hdone hready ?_ ?_ (Or.inl rfl)
    · intro hl
      rcases hphase with heq | heq
      · exact ⟨heq ▸ hl.1, heq ▸ hl.2⟩
      · exact absurd heq hl.2
    · intro hr
      rcases hphase with heq | heq
      · exact heq ▸ hr
      · rw [heq] at hr
        cases hr
  exact
    { hquiet with
      offers_le := by simp [countP_offersReady_of_any hlog]
      offered := by simp [hlog]
      taken := by simp [takesReady_of_any hlog] }

/-- The operations that rebuild endpoints never offer `Ready`. -/
theorem rebuild_silent (sink : Sink σ) {op : Operation} (hop : op.plain = false) (s : Session)
    (w : σ) : (step (logged sink) (s, w, []) op).2.2.any offersReady = false := by
  refine rebuild_calls (K := fun w : σ × List (Call × Bool) => w.2.any offersReady = false) ?_ ?_ ?_ hop rfl
  · intro frame w hw
    simp [logged, hw, offersReady]
  · intro c w hw
    simp [logged, hw, offersReady]
  · intro c w hw
    simp [logged, hw, offersReady]

/-- **What one operation does to the setup**, the two that begin and end a session
apart. -/
theorem step_progress (sink : Sink σ) {s : Session} (w : σ) (hs : s.Sound)
    (hacc : s.Live → s.Accounted) {op : Operation} (hbegin : ∀ now, op ≠ .begin now)
    (hreset : op ≠ .resetAfterTransportClose) :
    Progress op s (step (logged sink) (s, w, []) op).1 (step (logged sink) (s, w, []) op).2.2 := by
  by_cases hop : op.plain = true
  · have hmoves : Moves (logged sink) op (s, w, []) (step (logged sink) (s, w, []) op) :=
      run_moves (s, w, []) hs hop
    have hboth := invariant_of_steps
      (I := fun st : Session × σ × List (Call × Bool) => st.1.Sound ∧ Progress op s st.1 st.2.2)
      (fun st st' hmove hst => ⟨hmove.sound hst.1, hmove.progress hst.1 hst.2⟩) hmoves
      ⟨hs, Progress.start hacc⟩
    exact hboth.2
  · have hplain : op.plain = false := by simpa using hop
    have hsilent := rebuild_silent sink hplain s w
    have hkept : Kept s (step (logged sink) (s, w, []) op).1 := by
      cases op with
      | begin now => exact absurd rfl (hbegin now)
      | setLocalPause channel paused => exact setLocalPause_kept _ (s, w, []) _ _
      | recreateEndpoint channel => exact recreateEndpoint_kept _ (s, w, []) _
      | resetAfterTransportClose => exact absurd rfl hreset
      | _ => exact absurd rfl hop
    refine .of_silent hacc hkept.layout (fun c => ?_) hkept.unresolved hkept.setupDone
      hkept.readyStarted hkept.phase hsilent
    rw [waiting, waiting, hkept.opening, hkept.attempts]

/-! ### Runs -/

/-- A session under observation: what was answered and offered since the last
`begin`, and whether `Ready` was ever taken. -/
structure Observed (σ : Type) where
  session : Session
  world : σ
  answered : Dlci → Bool
  offers : Nat
  readyTaken : Bool

namespace Observed

/-- A session before its first operation. -/
def start (s : Session) (w : σ) : Observed σ where
  session := s
  world := w
  answered := fun _ => false
  offers := 0
  readyTaken := false

/-- The end of one operation, with the record of its calls. -/
def perform (sink : Sink σ) (o : Observed σ) (op : Operation) :
    Session × σ × List (Call × Bool) :=
  step (logged sink) (o.session, o.world, []) op

/-- The operation is a `begin` that starts the session. -/
def begins (sink : Sink σ) (o : Observed σ) (op : Operation) : Bool :=
  match op with
  | .begin _ => o.session.phase == .idle && (o.perform sink op).1.phase != .idle
  | _ => false

/-- Observe one operation. -/
def next (sink : Sink σ) (o : Observed σ) (op : Operation) : Observed σ where
  session := (o.perform sink op).1
  world := (o.perform sink op).2.1
  answered := fun c => !o.begins sink op && (o.answered c ||
    op.answers c && o.session.waiting c && !(o.perform sink op).1.waiting c)
  offers := (if o.begins sink op then 0 else o.offers) +
    (o.perform sink op).2.2.countP offersReady
  readyTaken := o.readyTaken || (o.perform sink op).2.2.any takesReady

def run (sink : Sink σ) (o : Observed σ) (ops : List Operation) : Observed σ :=
  ops.foldl (next sink) o

/-- The invariant of observed runs. -/
structure Valid (o : Observed σ) : Prop where
  sound : o.session.Sound
  accounted : o.session.Live → o.session.Accounted
  answered : o.session.Live → ∀ c, o.session.configured c = true →
    o.answered c = true ∨ o.session.waiting c = true
  offers_le : o.offers ≤ 1
  offers_done : o.session.Live → o.session.setupDone = false → o.offers = 0
  taken : o.readyTaken = true → o.session.readyStarted = true

theorem start_valid {s : Session} (hs : s.Sound) (hidle : s.phase = .idle) (w : σ) :
    (start s w).Valid where
  sound := hs
  accounted := fun hl => absurd hidle hl.1
  answered := fun hl => absurd hidle hl.1
  offers_le := Nat.zero_le _
  offers_done := fun _ _ => rfl
  taken := fun h => by cases h

/-- After a successful `begin` every configured channel waits. -/
theorem started_accounted {s : Session} (hs : s.Sound) (hidle : s.phase = .idle) (due : Nat) :
    (s.started due s.layout.order).Accounted ∧
      ∀ c, s.configured c = true → (s.started due s.layout.order).waiting c = true := by
  have hwaiting : ∀ c, s.configured c = true →
      (s.started due s.layout.order).waiting c = true := by
    intro c hc
    have hattempts := ((hs c).idle_clear hidle).2.2.2
    by_cases hzero : c = 0
    · simp [waiting, started, hzero ▸ hattempts, hzero]
    · have hmem : c ∈ s.layout.order := by simpa [configured, hzero] using hc
      simp [waiting, started, hattempts, hzero, hmem]
  refine ⟨?_, hwaiting⟩
  have hset : (s.started due s.layout.order).waitingSet =
      Finset.univ.filter fun c => s.configured c = true := by
    ext c
    rw [mem_waitingSet, Finset.mem_filter]
    constructor
    · exact fun h => ⟨Finset.mem_univ c, h.1⟩
    · exact fun h => ⟨h.2, hwaiting c h.2⟩
  exact
    { unresolved_eq := by rw [hset, card_configured]; rfl
      done_iff := by simp [started]
      running_done := fun h => by cases h }

/-- The three ways `begin` can end. -/
theorem perform_begin (sink : Sink σ) (o : Observed σ) (now : Nat) :
    (o.session.phase = .idle ∧ ∃ due,
      (o.perform sink (.begin now)).1 = o.session.started due o.session.layout.order) ∨
    (o.perform sink (.begin now)).1 = o.session ∨
    (o.session.phase = .idle ∧ ∃ due done,
      (o.perform sink (.begin now)).1 = (o.session.started due done).fail) := by
  refine (ends_endState (P := fun st : Session × σ × List (Call × Bool) =>
    (o.session.phase = .idle ∧ ∃ due, st.1 = o.session.started due o.session.layout.order) ∨
    st.1 = o.session ∨
    (o.session.phase = .idle ∧ ∃ due done, st.1 = (o.session.started due done).fail))).mp ?_
  refine begin_spec.mono ?_ ?_
  · rintro _ st ⟨hidle, hst⟩
    exact Or.inl ⟨hidle, _, hst⟩
  · rintro _ st (rfl | hfailed)
    · exact Or.inr (Or.inl rfl)
    · exact Or.inr (Or.inr hfailed)

/-- `begin` starts the accounting over. -/
theorem Valid.next_begin {sink : Sink σ} {o : Observed σ} (h : o.Valid) (now : Nat) :
    (o.next sink (.begin now)).Valid := by
  have hsound : (o.perform sink (.begin now)).1.Sound := step_sound _ h.sound _
  have hsilent : (o.perform sink (.begin now)).2.2.any offersReady = false :=
    rebuild_silent sink rfl _ _
  have hoffers := countP_offersReady_of_any hsilent
  have htakes := takesReady_of_any hsilent
  rcases perform_begin sink o now with ⟨hidle, due, hst⟩ | hst | ⟨hidle, due, done, hst⟩
  · -- started: every channel waits
    obtain ⟨hacc, hwaiting⟩ := started_accounted h.sound hidle due
    have hbegins : o.begins sink (.begin now) = true := by
      simp [begins, hidle, hst, started]
    refine
      { sound := hsound
        accounted := fun _ => by simp only [next, hst]; exact hacc
        answered := fun _ c hc => Or.inr ?_
        offers_le := by simp [next, hbegins, hoffers]
        offers_done := fun _ _ => by simp [next, hbegins, hoffers]
        taken := fun ht => ?_ }
    · simp only [next, hst] at hc ⊢
      exact hwaiting c hc
    · simp only [next, hst, htakes, Bool.or_false] at ht ⊢
      exact h.taken ht
  · -- refused: nothing changes
    have hbegins : o.begins sink (.begin now) = false := by
      simp [begins, hst]
    refine
      { sound := hsound
        accounted := by simp only [next, hst]; exact h.accounted
        answered := ?_
        offers_le := by simp only [next, hbegins, hoffers]; exact h.offers_le
        offers_done := ?_
        taken := ?_ }
    · intro hl c hc
      simp only [next, hst] at hl hc
      rcases h.answered hl c hc with ha | hw
      · exact Or.inl (by simp [next, hbegins, ha])
      · exact Or.inr (by simpa only [next, hst] using hw)
    · intro hl hd
      simp only [next, hst] at hl hd
      simp [next, hbegins, hoffers, h.offers_done hl hd]
    · intro ht
      simp only [next, hst, htakes, Bool.or_false] at ht ⊢
      exact h.taken ht
  · -- failed on the way
    have hbegins : o.begins sink (.begin now) = true := by
      simp [begins, hidle, hst, fail]
    have hdead : ¬ (o.next sink (.begin now)).session.Live := by
      simp only [next, hst]
      exact not_live_fail _
    exact
      { sound := hsound
        accounted := fun hl => absurd hl hdead
        answered := fun hl => absurd hl hdead
        offers_le := by simp [next, hbegins, hoffers]
        offers_done := fun hl => absurd hl hdead
        taken := fun ht => by
          simp only [next, hst, htakes, Bool.or_false] at ht ⊢
          exact h.taken ht }

/-- **Every operation keeps the invariant of observed runs.** -/
theorem Valid.next {sink : Sink σ} {o : Observed σ} (h : o.Valid) (op : Operation) :
    (o.next sink op).Valid := by
  have hsound : (o.perform sink op).1.Sound := step_sound _ h.sound op
  by_cases hbegin : ∃ now, op = .begin now
  -- a new setup starts the account
  · obtain ⟨now, rfl⟩ := hbegin
    exact h.next_begin now
  · by_cases hreset : op = .resetAfterTransportClose
    · subst hreset
      -- behind a reset there is no session
      have hdead : ¬ (o.next sink .resetAfterTransportClose).session.Live := fun hl => hl.1 rfl
      exact
        { sound := hsound
          accounted := fun hl => absurd hl hdead
          answered := fun hl => absurd hl hdead
          offers_le := h.offers_le
          offers_done := fun hl => absurd hl hdead
          taken := fun ht => h.taken (by
            have htaken : (o.readyTaken || false) = true := ht
            simpa using htaken) }
    · have hp := step_progress sink o.world h.sound h.accounted
        (fun now hop => hbegin ⟨now, hop⟩) hreset
      -- any other operation makes progress in the running setup
      have hbegins : o.begins sink op = false := by
        cases op with
        | begin now => exact absurd ⟨now, rfl⟩ hbegin
        | _ => rfl
      refine
        { sound := hsound
          accounted := hp.accounted
          answered := ?_
          offers_le := ?_
          offers_done := ?_
          taken := ?_ }
      · intro hl c hc
        have hconf : o.session.configured c = true := by
          rw [configured, ← hp.layout]
          exact hc
        -- a channel that waits no longer was answered just now
        rcases h.answered (hp.live hl) c hconf with ha | hw
        · exact Or.inl (by simp [Observed.next, hbegins, ha])
        · cases hafter : (o.perform sink op).1.waiting c with
          | true => exact Or.inr hafter
          | false =>
              have hanswers := hp.answered c hw hafter
              exact Or.inl (by simp [Observed.next, hbegins, hanswers, hw, hafter])
      · simp only [Observed.next, hbegins]
        cases hany : (o.perform sink op).2.2.any offersReady with
        | true =>
            obtain ⟨hdone, -, hlive, -⟩ := hp.offered hany
            have hzero := h.offers_done hlive hdone
            have hle : (o.perform sink op).2.2.countP offersReady ≤ 1 := hp.offers_le
            simpa [hzero] using hle
        | false => simpa [countP_offersReady_of_any hany] using h.offers_le
      · intro hl hd
        have hnotDone : o.session.setupDone = false := by
          by_contra hdone
          have := hp.done_mono (Bool.eq_true_of_not_eq_false hdone)
          exact absurd this (by simpa [Observed.next, perform] using hd)
        have hnone : (o.perform sink op).2.2.any offersReady = false := by
          by_contra hany
          have := (hp.offered (Bool.eq_true_of_not_eq_false hany)).2.2.2.1
          exact absurd this (by simpa [Observed.next, perform] using hd)
        simp [Observed.next, hbegins, countP_offersReady_of_any hnone,
          h.offers_done (hp.live hl) hnotDone]
      · intro ht
        rcases Bool.or_eq_true_iff.mp ht with hbefore | hnow
        · exact hp.started_mono (h.taken hbefore)
        · exact hp.taken hnow

theorem Valid.run {sink : Sink σ} {o : Observed σ} (h : o.Valid) (ops : List Operation) :
    (o.run sink ops).Valid := by
  induction ops generalizing o with
  | nil => exact h
  | cons op ops ih => exact ih (h.next op)

end Observed

/-- **Setup accounting.** After every run of a session from `new`, under every
behaviour of the sink: while the session is live, `unresolved` counts the
configured channels that wait for their first answer, `setup_done` says that there
is none, and `Running` implies it. `Ready` has been offered at most once since the
last `begin`; when an operation offers it, every configured channel has been
accepted or refused since then and no earlier offer was taken. -/
theorem setup_accounting {config : List ChannelConfig} {limit : Nat} {s : Session}
    (hnew : new config limit = .ok s) (sink : Sink σ) (w : σ) (ops : List Operation) :
    let o := (Observed.start s w).run sink ops
    (o.session.phase ≠ .idle → o.session.phase ≠ .failed →
      o.session.unresolved = (Finset.univ.filter fun c => o.session.configured c = true ∧
        (o.session.channels c).opening = true ∧ o.session.attempts c = 0).card ∧
      (o.session.setupDone = true ↔ o.session.unresolved = 0) ∧
      (o.session.phase = .running → o.session.setupDone = true)) ∧
    o.offers ≤ 1 ∧
    ∀ op, (o.perform sink op).2.2.any offersReady = true →
      (∀ c, o.session.configured c = true → (o.next sink op).answered c = true) ∧
      o.readyTaken = false := by
  intro o
  obtain ⟨layout, rfl⟩ := new_initial hnew
  -- The invariant of the observed runs has all three parts in it.
  have hvalid : o.Valid := (Observed.start_valid (initial_sound layout limit) rfl w).run ops
  refine ⟨?_, hvalid.offers_le, ?_⟩
  · intro hidle hfailed
    -- The accounting, read off the invariant.
    have hacc := hvalid.accounted ⟨hidle, hfailed⟩
    refine ⟨?_, hacc.done_iff, hacc.running_done⟩
    rw [hacc.unresolved_eq]
    congr 1
    ext c
    simp [mem_waitingSet, waiting]
  · intro op hoffer
    -- Neither of the two operations that start over offers `Ready`.
    have hbegin : ∀ now, op ≠ .begin now := by
      rintro now rfl
      have hplain : (Operation.begin now).plain = false := rfl
      rw [Observed.perform, rebuild_silent sink hplain o.session o.world] at hoffer
      cases hoffer
    have hreset : op ≠ .resetAfterTransportClose := by
      rintro rfl
      cases hoffer
    -- So the offer comes from progress, which says what had been answered by then.
    have hp := step_progress sink o.world hvalid.sound hvalid.accounted hbegin hreset
    obtain ⟨-, hnever, hlive, -, hall⟩ := hp.offered hoffer
    have hbegins : o.begins sink op = false := by
      cases op with
      | begin now => exact absurd rfl (hbegin now)
      | _ => rfl
    refine ⟨fun c hc => ?_, ?_⟩
    · have hafter : (o.perform sink op).1.waiting c = false := by
        refine hall c ?_
        rw [configured, hp.layout]
        exact hc
      rcases hvalid.answered hlive c hc with ha | hw
      · simp [Observed.next, hbegins, ha]
      · simp [Observed.next, hbegins, hp.answered c hw hafter, hw, hafter]
    · by_contra htaken
      have := hvalid.taken (Bool.eq_true_of_not_eq_false htaken)
      rw [hnever] at this
      cases this

/-- One channel beside the control channel, a sink that accepts everything, and the
`UA` frames for both: the second one offers `Ready`. -/
theorem setup_accounting_two_answers :
    ∃ s, new [⟨1, false⟩] 64 = .ok s ∧
      let sink : Sink Unit := fun _ w => (true, w)
      let o := (Observed.start s ()).run sink [.begin 0, .receive ⟨3, 0x73, []⟩]
      (o.perform sink (.receive ⟨7, 0x73, []⟩)).2.2.any offersReady = true ∧
      ∀ c, o.session.configured c = true →
        (o.next sink (.receive ⟨7, 0x73, []⟩)).answered c = true := by
  obtain ⟨s, hnew⟩ : ∃ s, new [⟨1, false⟩] 64 = .ok s := ⟨_, rfl⟩
  have hoffer : ((Observed.start s ()).run (fun _ w => (true, w))
      [.begin 0, .receive ⟨3, 0x73, []⟩]).perform (fun _ w => (true, w))
        (.receive ⟨7, 0x73, []⟩) |>.2.2.any offersReady := by
    cases hnew
    decide
  refine ⟨s, hnew, hoffer, ?_⟩
  exact ((setup_accounting hnew (fun _ w => (true, w)) () _).2.2 _ hoffer).1

end Mindone.Mux.Session
