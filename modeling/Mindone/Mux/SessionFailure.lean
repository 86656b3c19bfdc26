import Mindone.Mux.SessionSetup

/-!
# Mindone.Mux.SessionFailure

**When the failure of a required effect is terminal.** A rejected effect should
fail the session, and a failed session should do nothing until its reset. Two
paths of the source miss this: a refused `pause_endpoint` in `recover_channel`
returns the error but keeps the phase, and `recovery_tick`, alone among the
operations, does not ask whether the session is active.
`failureTerminal_iff` shows that these two are the only exceptions.
-/

namespace Mindone.Mux.Session

open Mindone.Lib

variable {σ : Type}

/-- The end of an operation from the session `s`, with the record of its calls. -/
def outcome (sink : Sink σ) (s : Session) (w : σ) (op : Operation) :
    EStateM.Result Error (Session × σ × List (Call × Bool)) Unit :=
  op.run (logged sink) (s, w, [])

/-- A rejected effect ends in `Failed`, and there only the reset does anything. -/
def FailureTerminal (sink : Sink σ) (s : Session) (w : σ) (op : Operation) : Prop :=
  (∀ st, outcome sink s w op = .error .effectRejected st → st.1.phase = .failed) ∧
  (s.phase = .failed → op ≠ .resetAfterTransportClose →
    (endState (outcome sink s w op)).1.phase = .failed ∧
      (endState (outcome sink s w op)).2.2 = [])

/-- The frame `UA` that `receive` sends on channel `c`. -/
def uaFrame (c : Dlci) : Frame := ⟨commandAddress c, ua ||| pollFinal, []⟩

/-- The frame takes an open channel away from a session with recovery, and the sink
refuses to pause its endpoint. -/
def PauseRefused (sink : Sink σ) (s : Session) (w : σ) (frame : Frame) : Prop :=
  s.talking ∧ frame.payload.length ≤ s.limit ∧ s.recovery = true ∧ frame.dlci ≠ 0 ∧
  s.configured frame.dlci = true ∧ (s.channels frame.dlci).isOpen = true ∧
  ((frame.kind = dm ∧ s.retryAt frame.dlci = 0 ∧
      (sink (.pauseEndpoint frame.dlci) w).1 = false) ∨
    (frame.kind = disc ∧ (sink (.apply (.transmit (uaFrame frame.dlci))) w).1 = true ∧
      (sink (.pauseEndpoint frame.dlci)
        (sink (.apply (.transmit (uaFrame frame.dlci))) w).2).1 = false))

/-- A retry of channel `c` is due. -/
def due (s : Session) (now : Nat) (c : Dlci) : Prop := s.retryAt c ≠ 0 ∧ s.retryAt c ≤ now

/-- Some channel is due for another `SABM`, and no channel before it asks for the
escalation that ends the tick. -/
def Retries (s : Session) (now : Nat) (channels : List Dlci) : Prop :=
  ∃ before c after, channels = before ++ c :: after ∧ s.due now c ∧ s.attempts c ≠ 3 ∧
    ∀ d ∈ before, s.due now d → s.attempts d = 3 → now < s.escalationAfter

/-! ### Rejected effects -/

section Rejected

variable {sink : Sink σ} {α β : Type}

/-- A program that fails the session when it reports a rejected effect. -/
def Safe (p : Op σ α) (st : Session × σ) : Prop :=
  Ends p st (fun _ _ => True) fun e st' => e = .effectRejected → st'.1.phase = .failed

theorem Safe.bind {p : Op σ α} {f : α → Op σ β} {st : Session × σ} (hp : Safe p st)
    (hf : ∀ a st', Safe (f a) st') : Safe (p >>= f) st :=
  ends_bind.mpr (hp.mono (fun a st' _ => hf a st') fun _ _ h => h)

theorem Safe.update {f : Session → Session} {st : Session × σ} : Safe (update f) st :=
  ends_update.mpr trivial

theorem Safe.pure {a : α} {st : Session × σ} : Safe (pure a : Op σ α) st :=
  (ends_pure a).mpr trivial

theorem Safe.throw {e : Error} {st : Session × σ} (he : e ≠ .effectRejected) :
    Safe (throw e : Op σ α) st :=
  (ends_throw e).mpr fun h => absurd h he

theorem Safe.deadline {now duration : Nat} {st : Session × σ} :
    Safe (deadline now duration) st :=
  ends_deadline trivial fun h => by cases h

theorem Safe.active {st : Session × σ} : Safe active st :=
  ends_active (fun _ _ => trivial) (fun _ h => by cases h) (fun _ h => by cases h)

theorem Safe.apply {action : Action} {st : Session × σ} : Safe (apply sink action) st :=
  ends_apply (s := st.1) (w := st.2) (fun _ => trivial) fun _ _ => rfl

theorem Safe.transmit {c : Dlci} {control : UInt8} {payload : List UInt8} {st : Session × σ} :
    Safe (transmit sink c control payload) st := by
  unfold Safe Session.transmit
  simp only [ends_bind, ends_read, ends_ite, ends_update, ends_throw]
  split
  · exact fun _ => rfl
  · split
    · exact Safe.apply
    · exact Safe.apply

theorem Safe.resolve {st : Session × σ} : Safe (resolve sink) st := by
  unfold Safe Session.resolve
  simp only [ends_bind, ends_read, ends_ite, ends_update, ends_pure]
  split
  · trivial
  · split
    · split
      · trivial
      · exact Safe.apply
    · trivial

theorem Safe.closeEndpoint {c : Dlci} {st : Session × σ} : Safe (closeEndpoint sink c) st :=
  Safe.apply.bind fun _ _ => Safe.update

/-- Recovery of a channel is safe when the sink pauses the endpoint. -/
theorem Safe.recoverChannel {c : Dlci} {st : Session × σ}
    (hpause : (sink (.pauseEndpoint c) st.2).1 = true) : Safe (recoverChannel sink c) st := by
  unfold Safe Session.recoverChannel
  simp only [ends_bind, ends_update, ends_ask, hpause, if_true, ends_read, ends_ite, ends_pure]
  split
  · exact ends_deadline trivial fun h => by cases h
  · trivial

theorem Safe.ite {c : Prop} [Decidable c] {p q : Op σ α} {st : Session × σ}
    (hp : c → Safe p st) (hq : ¬ c → Safe q st) : Safe (if c then p else q) st := by
  split
  · rename_i h
    exact hp h
  · rename_i h
    exact hq h

theorem Safe.read {f : Session → Op σ α} {st : Session × σ} (h : Safe (f st.1) st) :
    Safe (read >>= f) st :=
  ends_bind.mpr (ends_read.mpr h)

theorem Safe.receiveUa {c : Dlci} {st : Session × σ} : Safe (receiveUa sink c) st := by
  refine Safe.read ?_
  refine .ite (fun _ => .ite (fun _ => .update) fun _ => .pure) fun _ => ?_
  refine .ite (fun _ => ?_) fun _ => .update
  exact Safe.update.bind fun _ _ => .ite (fun _ => .resolve) fun _ => .pure

theorem Safe.receiveDm {c : Dlci} {s : Session} {w : σ}
    (hpause : s.recovery = true → c ≠ 0 → s.retryAt c = 0 → (s.channels c).isOpen = true →
      (sink (.pauseEndpoint c) w).1 = true) : Safe (receiveDm sink c) (s, w) := by
  refine Safe.read ?_
  refine .ite (fun _ => .update) fun hretry => ?_
  refine .ite (fun hopen => ?_) fun _ => ?_
  · refine ends_bind.mpr (ends_update.mpr ?_)
    refine Safe.ite (fun _ => .update) fun hc => ?_
    refine Safe.ite (fun hrecovery => ?_) fun _ => .closeEndpoint
    refine Safe.recoverChannel (hpause hrecovery hc ?_ hopen)
    by_contra hne
    exact hretry ⟨hrecovery, hc, hne⟩
  · refine .ite (fun _ => .update) fun _ => ?_
    refine .ite (fun _ => ?_) fun _ => .pure
    refine Safe.update.bind fun _ _ => ?_
    dsimp only
    split
    · exact Safe.apply.bind fun _ _ => .resolve
    · exact .resolve

theorem Safe.joinChannel {c : Dlci} {st : Session × σ} : Safe (joinChannel sink c) st := by
  refine Safe.read ?_
  refine Safe.update.bind fun _ _ => ?_
  dsimp only
  split
  · exact Safe.resolve.bind fun _ _ => .transmit
  · exact .transmit

theorem Safe.receiveSabm {c : Dlci} {st : Session × σ} : Safe (receiveSabm sink c) st := by
  refine Safe.read ?_
  refine .ite (fun _ => .ite (fun _ => ?_) fun _ => .joinChannel) fun _ => .transmit
  refine ends_bind.mpr (ends_ask.mpr ?_)
  refine Safe.ite (fun _ => ?_) fun _ => .transmit
  exact Safe.update.bind fun _ _ => .joinChannel

theorem Safe.receiveDisc {c : Dlci} {s : Session} {w : σ}
    (hpause : s.recovery = true → c ≠ 0 → s.configured c = true → (s.channels c).isOpen = true →
      ∀ w', sink (.apply (.transmit (uaFrame c))) w = (true, w') →
        (sink (.pauseEndpoint c) w').1 = true) : Safe (receiveDisc sink c) (s, w) := by
  refine Safe.read ?_
  refine .ite (fun hopen => ?_) fun _ => .transmit
  refine ends_bind.mpr (ends_update.mpr (ends_bind.mpr ?_))
  refine transmit_nil_spec (fun w' hsent => ?_) fun _ _ _ => rfl
  refine Safe.ite (fun _ => .update) fun hc => ?_
  refine Safe.ite (fun hrecovery => ?_) fun _ => .closeEndpoint
  exact Safe.recoverChannel (hpause hrecovery hc hopen.1 hopen.2 w' hsent)

/-- `receive` is safe unless the sink refuses a pause. -/
theorem Safe.receive {s : Session} {w : σ} {frame : Frame} (h : ¬ PauseRefused sink s w frame) :
    Safe (receive sink frame) (s, w) := by
  refine ends_bind.mpr (ends_active ?_ (fun _ h => by cases h) (fun _ h => by cases h))
  intro hidle hfailed
  refine Safe.read ?_
  dsimp only
  split
  · split
    · exact Safe.update.bind fun _ _ => .pure
    · exact .pure
  · rename_i hphase
    have htalking := talking_of_active hidle hfailed hphase
    split
    · exact .throw (by simp)
    · rename_i hlimit
      have hfits : frame.payload.length ≤ s.limit := by omega
      refine Safe.read ?_
      refine .ite (fun _ => ?_) fun _ => ?_
      · refine Safe.update.bind fun _ st => Safe.read ?_
        refine .ite (fun _ => .pure) fun _ => ?_
        exact .ite (fun _ => .ite (fun _ => .pure) fun _ => .pure) fun _ => .pure
      · refine .ite (fun _ => Safe.receiveUa.bind fun _ _ => .pure) fun _ => ?_
        refine .ite (fun hkind => ?_) fun _ => ?_
        · refine Safe.bind (Safe.receiveDm ?_) fun _ _ => .pure
          intro hrecovery hc hretry hopen
          by_contra hpause
          exact h ⟨htalking, hfits, hrecovery, hc, hkind.2, hopen,
            Or.inl ⟨hkind.1, hretry, by simpa using hpause⟩⟩
        · refine .ite (fun _ => Safe.receiveSabm.bind fun _ _ => .pure) fun _ => ?_
          refine .ite (fun hkind => ?_) fun _ => .pure
          refine Safe.bind (Safe.receiveDisc ?_) fun _ _ => .pure
          intro hrecovery hc hconf hopen w' hsent
          by_contra hpause
          exact h ⟨htalking, hfits, hrecovery, hc, hconf, hopen,
            Or.inr ⟨hkind, by rw [hsent], by rw [hsent]; simpa using hpause⟩⟩

theorem Safe.tickChannels {now : Nat} (channels : List Dlci) {st : Session × σ} :
    Safe (tickChannels sink now channels) st := by
  induction channels generalizing st with
  | nil => exact .pure
  | cons c rest ih =>
      refine Safe.read ?_
      refine .ite (fun _ => ih) fun _ => .ite (fun _ => ?_) fun _ => ?_
      · refine Safe.update.bind fun _ st' => .ite (fun _ => ?_) fun _ => ?_
        · exact Safe.deadline.bind fun _ _ => Safe.update.bind fun _ _ => .pure
        · exact Safe.update.bind fun _ _ => ih
      · refine Safe.update.bind fun _ _ => Safe.transmit.bind fun _ _ => ?_
        exact Safe.deadline.bind fun _ _ => Safe.update.bind fun _ _ => ih

/-- Every operation is safe unless the sink refuses a pause. -/
theorem run_safe {s : Session} {w : σ} {op : Operation}
    (h : ∀ frame, op = .receive frame → ¬ PauseRefused sink s w frame) :
    Safe (op.run sink) (s, w) := by
  cases op with
  -- safe: an error ends the session, or leaves it as it was
  | enableRecovery escalationAfter => exact Safe.update (f := (·.enableRecovery escalationAfter))
  | begin now =>
      refine Safe.read ?_
      refine .ite (fun _ => .throw (by simp)) fun _ => ?_
      refine Safe.deadline.bind fun _ _ => Safe.update.bind fun _ _ => Safe.update.bind fun _ _ => ?_
      refine Safe.transmit.bind fun _ _ => ?_
      refine (ends_forM (I := fun _ _ => True) ?_ trivial).mono (fun _ _ h => h) fun _ _ h => h
      intro c rest st _
      refine ends_bind.mpr (ends_ask.mpr (Safe.ite (fun _ => ?_) fun _ => ?_))
      · exact Safe.update.bind fun _ _ => .transmit
      · exact Safe.update.bind fun _ _ => .throw (by simp)
  -- the only place where a pause can be refused
  | receive frame => exact (Safe.receive (h frame rfl)).bind fun _ _ => .pure
  | recoveryTick now =>
      exact Safe.bind (Safe.update.bind fun _ _ => .tickChannels dataChannels) fun _ _ => .pure
  | applyPeerSignals channel signals =>
      refine Safe.active.bind fun _ _ => Safe.read ?_
      split
      · exact .ite (fun _ => .update) fun _ => .pure
      · exact .pure
  | applicationInput channel =>
      refine Safe.bind (Safe.active.bind fun _ _ => Safe.read ?_) fun _ _ => .pure
      split
      · exact .throw (by simp)
      · exact .ite (fun _ => Safe.update.bind fun _ _ => .pure) fun _ => .pure
  | setLocalPause channel paused =>
      refine Safe.active.bind fun _ _ => Safe.read ?_
      split
      · exact .throw (by simp)
      · exact .ite (fun _ => Safe.update.bind fun _ _ => .transmit) fun _ => .pure
  -- a refused endpoint ends the session in front of the error
  | recreateEndpoint channel =>
      refine Safe.active.bind fun _ _ => Safe.read ?_
      have hreopen : ∀ (c : Dlci) (st : Session × σ), Safe (do
          if ← ask sink (.openEndpoint c) then
            Session.update fun s => s.modify c fun ch => { ch with endpointPresent := true }
          else
            Session.update fail
            throw .endpointUnavailable) st := fun c st => by
        refine ends_bind.mpr (ends_ask.mpr (Safe.ite (fun _ => .update) fun _ => ?_))
        exact Safe.update.bind fun _ _ => .throw (by simp)
      dsimp only
      split
      · exact .throw (by simp)
      · refine .ite (fun _ => .throw (by simp)) fun _ => Safe.closeEndpoint.bind fun _ _ => ?_
        split
        · exact Safe.transmit.bind fun _ _ => hreopen _ _
        · exact hreopen _ _
  | requestDisconnect channel =>
      refine Safe.active.bind fun _ _ => Safe.read ?_
      split
      · exact .throw (by simp)
      · exact .ite (fun _ => Safe.update.bind fun _ _ => .transmit) fun _ => .pure
  | sendControl control payload => exact Safe.active.bind fun _ _ => .transmit
  | pollTimeout now transmitPending =>
      refine Safe.bind (Safe.active.bind fun _ _ => Safe.read ?_) fun _ _ => .pure
      refine .ite (fun _ => .pure) fun _ => .ite (fun _ => .pure) fun _ => ?_
      exact .ite (fun _ => Safe.update.bind fun _ _ => .throw (by simp)) fun _ => .pure
  | peerClose => exact Safe.active.bind fun _ _ => .update
  | resetAfterTransportClose => exact .update

end Rejected

/-! ### The tick of a failed session -/

section Tick

variable {sink : Sink σ} {now : Nat}

/-- Whether a retry is due, channel by channel. -/
theorem retries_cons {s : Session} {c : Dlci} {rest : List Dlci} :
    s.Retries now (c :: rest) ↔ (s.due now c ∧ s.attempts c ≠ 3) ∨
      ((s.due now c → s.attempts c = 3 → now < s.escalationAfter) ∧ s.Retries now rest) := by
  constructor
  · rintro ⟨before, d, after, hsplit, hdue, hattempts, hbefore⟩
    cases before with
    | nil =>
        rw [List.nil_append] at hsplit
        cases hsplit
        exact Or.inl ⟨hdue, hattempts⟩
    | cons b before =>
        rw [List.cons_append] at hsplit
        cases hsplit
        refine Or.inr ⟨hbefore _ (List.mem_cons_self ..), before, d, after, rfl, hdue, hattempts, ?_⟩
        exact fun e he => hbefore e (List.mem_cons_of_mem _ he)
  · rintro (⟨hdue, hattempts⟩ | ⟨hc, before, d, after, rfl, hdue, hattempts, hbefore⟩)
    · exact ⟨[], c, rest, rfl, hdue, hattempts, fun d hd => by cases hd⟩
    · refine ⟨c :: before, d, after, rfl, hdue, hattempts, fun e he => ?_⟩
      rcases List.mem_cons.mp he with rfl | hmem
      · exact hc
      · exact hbefore e hmem

/-- Whether a later channel is retried depends on the later channels only. -/
theorem retries_congr {s s' : Session} {channels : List Dlci}
    (hretry : ∀ d ∈ channels, s'.retryAt d = s.retryAt d)
    (hattempts : ∀ d ∈ channels, s'.attempts d = s.attempts d)
    (hescalation : s'.escalationAfter = s.escalationAfter) :
    s'.Retries now channels ↔ s.Retries now channels := by
  induction channels with
  | nil =>
      constructor
      · rintro ⟨before, c, after, hsplit, -⟩
        simp at hsplit
      · rintro ⟨before, c, after, hsplit, -⟩
        simp at hsplit
  | cons c rest ih =>
      have hrest := ih (fun d hd => hretry d (List.mem_cons_of_mem _ hd))
        fun d hd => hattempts d (List.mem_cons_of_mem _ hd)
      have hc := hretry c (List.mem_cons_self ..)
      have hc' := hattempts c (List.mem_cons_self ..)
      rw [retries_cons, retries_cons, hrest, hescalation, due, due, hc, hc']

theorem not_due_iff {s : Session} {c : Dlci} :
    (s.retryAt c = 0 ∨ now < s.retryAt c) ↔ ¬ s.due now c := by
  unfold due
  omega

/-- A tick keeps what its transmissions keep. -/
theorem tickChannels_calls {K : σ → Prop}
    (hK : ∀ frame w, K w → K (sink (.apply (.transmit frame)) w).2) (channels : List Dlci)
    {s : Session} {w : σ} (hw : K w) :
    Ends (tickChannels sink now channels) (s, w) (fun _ st => K st.2) fun _ st => K st.2 := by
  induction channels generalizing s w with
  | nil => exact (ends_pure _).mpr hw
  | cons c rest ih =>
      simp only [tickChannels, ends_bind, ends_read, ends_ite, ends_update, ends_pure]
      split
      · exact ih hw
      · split
        · split
          · exact ends_deadline hw hw
          · exact ih hw
        · refine (ends_transmit_calls hK hw).mono ?_ fun _ _ h => h
          intro _ st hst
          exact ends_deadline (ih hst) hst

/-- A tick never leaves `Failed`. -/
theorem tickChannels_failed (channels : List Dlci) {s : Session} {w : σ}
    (hs : s.phase = .failed) :
    Ends (tickChannels sink now channels) (s, w) (fun _ st => st.1.phase = .failed)
      fun _ st => st.1.phase = .failed := by
  induction channels generalizing s w with
  | nil => exact (ends_pure _).mpr hs
  | cons c rest ih =>
      simp only [tickChannels, ends_bind, ends_read, ends_ite, ends_update, ends_pure]
      split
      · exact ih hs
      · split
        · split
          · exact ends_deadline hs hs
          · exact ih hs
        · refine transmit_nil_spec (fun w' _ => ?_) fun w' _ => rfl
          exact ends_deadline (ih hs) hs

/-- Without a channel to retry, a tick leaves the sink alone. -/
theorem tickChannels_silent {channels : List Dlci} (hnodup : channels.Nodup) {s : Session} {w : σ}
    (h : ¬ s.Retries now channels) :
    Ends (tickChannels sink now channels) (s, w) (fun _ st => st.2 = w) fun _ st => st.2 = w := by
  induction channels generalizing s with
  | nil => exact (ends_pure _).mpr rfl
  | cons c rest ih =>
      obtain ⟨hc, hrest⟩ := List.nodup_cons.mp hnodup
      rw [retries_cons] at h
      push Not at h
      simp only [tickChannels, ends_bind, ends_read, ends_ite, ends_update, ends_pure]
      split
      · rename_i hnot
        exact ih hrest (h.2 fun hdue => absurd hdue (not_due_iff.mp hnot))
      · rename_i hdue
        have hdue : s.due now c := by
          by_contra hnot
          exact hdue (not_due_iff.mpr hnot)
        have hattempts := h.1 hdue
        rw [if_pos hattempts]
        split
        · exact ends_deadline rfl rfl
        · rename_i hearly
          refine ih hrest ?_
          rw [retries_congr]
          · exact h.2 fun _ _ => by omega
          · intro d hd
            have hne : d ≠ c := fun heq => hc (heq ▸ hd)
            simp [setRetryAt, Session.modify, hne]
          · exact fun _ _ => rfl
          · rfl

theorem logged_ne_nil {call : Call} {w w' : σ × List (Call × Bool)} {b : Bool}
    (h : logged sink call w = (b, w')) : w'.2 ≠ [] := by
  have hrecord : w.2 ++ [(call, (sink call w.1).1)] = w'.2 := congrArg (fun r => r.2.2) h
  simp [← hrecord]

/-- With a channel to retry, a tick calls the sink. -/
theorem tickChannels_loud {channels : List Dlci} (hnodup : channels.Nodup) {s : Session} {w : σ}
    (h : s.Retries now channels) :
    Ends (tickChannels (logged sink) now channels) (s, w, []) (fun _ st => st.2.2 ≠ [])
      fun _ st => st.2.2 ≠ [] := by
  have hkeep : ∀ frame (w : σ × List (Call × Bool)), w.2 ≠ [] →
      (logged sink (.apply (.transmit frame)) w).2.2 ≠ [] := by
    intro frame w _
    simp [logged]
  induction channels generalizing s with
  | nil =>
      obtain ⟨before, c, after, hsplit, -⟩ := h
      simp at hsplit
  | cons c rest ih =>
      obtain ⟨hc, hrest⟩ := List.nodup_cons.mp hnodup
      rw [retries_cons] at h
      simp only [tickChannels, ends_bind, ends_read, ends_ite, ends_update, ends_pure]
      split
      · rename_i hnot
        rcases h with ⟨hdue, -⟩ | ⟨-, hlater⟩
        · exact absurd hdue (not_due_iff.mp hnot)
        · exact ih hrest hlater
      · rename_i hdue
        have hdue : s.due now c := by
          by_contra hnot
          exact hdue (not_due_iff.mpr hnot)
        split
        · rename_i hattempts
          rcases h with ⟨-, hne⟩ | ⟨hstop, hlater⟩
          · exact absurd hattempts hne
          · have hearly := hstop hdue hattempts
            rw [if_neg (by omega)]
            refine ih hrest ?_
            rw [retries_congr]
            · exact hlater
            · intro d hd
              have hne : d ≠ c := fun heq => hc (heq ▸ hd)
              simp [setRetryAt, Session.modify, hne]
            · exact fun _ _ => rfl
            · rfl
        · -- the `SABM` of channel `c` is the first call; later ones only add to the record
          refine transmit_nil_spec (fun w' hsent => ?_) fun w' hsent => ?_
          · have hlog := logged_ne_nil hsent
            exact ends_deadline (tickChannels_calls
              (K := fun w : σ × List (Call × Bool) => w.2 ≠ []) hkeep rest hlog) hlog
          · exact logged_ne_nil hsent

end Tick

theorem dataChannels_nodup : dataChannels.Nodup :=
  (List.nodup_finRange 64).sublist (List.drop_sublist 1 _)

/-! ### Failure is terminal but for two paths -/

/-- Behind `active` a failed session does nothing. -/
theorem ends_active_failed {α : Type} {f : Unit → Op σ α} {s : Session} {w : σ}
    (hs : s.phase = .failed) :
    Ends (active >>= f) (s, w) (fun _ st => st = (s, w)) fun _ st => st = (s, w) :=
  ends_bind.mpr (ends_active (fun _ hne => absurd hs hne) (fun _ => rfl) fun _ => rfl)

/-- A failed session that is not ticked changes nothing but its recovery settings. -/
theorem failed_untouched {sink : Sink σ} {s : Session} {w : σ} {op : Operation}
    (hs : s.phase = .failed) (hreset : op ≠ .resetAfterTransportClose)
    (htick : ∀ now, op ≠ .recoveryTick now) :
    (step sink (s, w) op).1.phase = .failed ∧ (step sink (s, w) op).2 = w := by
  have hsame : ∀ {α : Type} {p : Op σ α}, Ends p (s, w) (fun _ st => st = (s, w))
      (fun _ st => st = (s, w)) → (endState (p (s, w))).1.phase = .failed ∧
        (endState (p (s, w))).2 = w := by
    intro α p hp
    have hend := ends_endState.mp hp
    rw [hend]
    exact ⟨hs, rfl⟩
  unfold step
  cases op with
  | enableRecovery escalationAfter => exact ⟨hs, rfl⟩
  | begin now =>
      refine hsame (ends_bind.mpr (ends_read.mpr ?_))
      rw [if_pos (by simp [hs])]
      exact (ends_throw _).mpr rfl
  | recoveryTick now => exact absurd rfl (htick now)
  | receive frame =>
      exact hsame (ends_bind.mpr ((ends_active_failed hs).mono (fun _ _ h => (ends_pure _).mpr h)
        fun _ _ h => h))
  | applicationInput channel =>
      exact hsame (ends_bind.mpr ((ends_active_failed hs).mono (fun _ _ h => (ends_pure _).mpr h)
        fun _ _ h => h))
  | pollTimeout now transmitPending =>
      exact hsame (ends_bind.mpr ((ends_active_failed hs).mono (fun _ _ h => (ends_pure _).mpr h)
        fun _ _ h => h))
  | applyPeerSignals channel signals => exact hsame (ends_active_failed hs)
  | setLocalPause channel paused => exact hsame (ends_active_failed hs)
  | recreateEndpoint channel => exact hsame (ends_active_failed hs)
  | requestDisconnect channel => exact hsame (ends_active_failed hs)
  | sendControl control payload => exact hsame (ends_active_failed hs)
  | peerClose => exact hsame (ends_active_failed hs)
  | resetAfterTransportClose => exact absurd rfl hreset

/-- A refused pause is reported, and the phase stays. -/
theorem pauseRefused_error {sink : Sink σ} {s : Session} {w : σ} {frame : Frame}
    (h : PauseRefused sink s w frame) :
    ∃ st, outcome sink s w (.receive frame) = .error .effectRejected st ∧
      st.1.phase ≠ .failed := by
  obtain ⟨htalking, hfits, hrecovery, hc, hconf, hopen, hkind⟩ := h
  have hidle := htalking.phase_ne_idle
  have hfailed := htalking.phase_ne_failed
  have hclosing : ¬ (s.phase = .closing ∨ s.phase = .peerClosing) := by
    rcases htalking with hp | hp
    · simp [hp]
    · simp [hp]
  -- Recovery begins with the pause, and a refusal comes back as it is.
  have hrecover : ∀ (s' : Session) (w' : σ × List (Call × Bool)), s'.phase = s.phase →
      (sink (.pauseEndpoint frame.dlci) w'.1).1 = false →
      Ends (recoverChannel (logged sink) frame.dlci) (s', w') (fun _ _ => False)
        fun e st => e = .effectRejected ∧ st.1.phase ≠ .failed := by
    intro s' w' hphase hpause
    have hanswer : (logged sink (.pauseEndpoint frame.dlci) w').1 = false := hpause
    simp only [recoverChannel, ends_bind, ends_update, ends_ask, hanswer, Bool.false_eq_true,
      if_false, ends_throw, true_and]
    exact hphase ▸ hfailed
  have hends : Ends (receiveFrame (logged sink) frame) (s, w, []) (fun _ _ => False)
      fun e st => e = .effectRejected ∧ st.1.phase ≠ .failed := by
    refine ends_bind.mpr (ends_read.mpr ?_)
    -- A DM leads there at once; a DISC is answered first, and the answer was sent.
    rcases hkind with ⟨hdm, hretry, hpause⟩ | ⟨hdisc, hsent, hpause⟩
    · have hdata : ¬ (dm = ui ∨ dm = uih) := by decide
      have hua : ¬ dm = ua := by decide
      simp only [hdm, if_neg hdata, hua, hconf, and_self, false_and, if_false, if_true, receiveDm,
        ends_bind, ends_read, ends_ite, ends_update, hretry, ne_eq, not_true, and_false, hopen,
        if_neg hc, hrecovery]
      exact Ends.mono (hrecover _ _ (by rfl) hpause) (fun _ _ h => h.elim) fun _ _ h => h
    · have hdata : ¬ (disc = ui ∨ disc = uih) := by decide
      have hua : ¬ disc = ua := by decide
      have hdm : ¬ disc = dm := by decide
      have hsabm : ¬ disc = sabm := by decide
      simp only [hdisc, if_neg hdata, hua, hdm, hsabm, false_and, if_false, if_true, receiveDisc,
        ends_bind, ends_read, ends_ite, ends_update, hconf, hopen, and_self, if_neg hc, hrecovery]
      refine transmit_nil_spec (fun w' hw' => ?_) fun w' hw' => ?_
      · have hworld : w'.1 = (sink (.apply (.transmit (uaFrame frame.dlci))) w).2 :=
          (congrArg (fun r => r.2.1) hw').symm
        exact Ends.mono (hrecover _ _ (by rfl) (by rw [hworld]; exact hpause))
          (fun _ _ h => h.elim) fun _ _ h => h
      · have hanswer := congrArg Prod.fst hw'
        simp only [logged] at hanswer
        exact absurd (hsent.symm.trans hanswer) (by simp)
  -- Neither guard of `receive_frame` stops the frame.
  have hrun : Ends ((Operation.receive frame).run (logged sink)) (s, w, []) (fun _ _ => False)
      fun e st => e = .effectRejected ∧ st.1.phase ≠ .failed := by
    refine ends_bind.mpr (ends_bind.mpr (ends_active (fun _ _ => ?_)
      (fun h => absurd h hidle) fun h => absurd h hfailed))
    refine ends_bind.mpr (ends_read.mpr ?_)
    rw [if_neg hclosing, if_neg (Nat.not_lt.mpr hfits)]
    exact hends.mono (fun _ _ h => h.elim) fun _ _ h => h
  obtain ⟨e, st, hst, rfl, hphase⟩ := hrun.exists_error
  exact ⟨st, hst, hphase⟩

/-- **Exactly when the failure of a required effect is terminal**: unless the sink
refuses to pause the endpoint of a channel that is being recovered, or a failed
session is ticked while a retry is due. -/
theorem failureTerminal_iff (sink : Sink σ) (s : Session) (w : σ) (op : Operation) :
    FailureTerminal sink s w op ↔
      (∀ frame, op = .receive frame → ¬ PauseRefused sink s w frame) ∧
      (∀ now, op = .recoveryTick now → s.phase = .failed → ¬ s.Retries now dataChannels) := by
  constructor
  · rintro ⟨hrejected, hfailed⟩
    refine ⟨?_, ?_⟩
    · rintro frame rfl hrefused
      -- A refused pause is an error that leaves the phase.
      obtain ⟨st, hst, hphase⟩ := pauseRefused_error hrefused
      exact hphase (hrejected st hst)
    · rintro now rfl hphase hretries
      -- A retry in a failed session speaks to the sink.
      have hsilent := (hfailed hphase (by simp)).2
      refine absurd hsilent ?_
      refine (ends_endState (P := fun st : Session × σ × List (Call × Bool) => st.2.2 ≠ [])).mp ?_
      refine ends_bind.mpr (ends_bind.mpr (ends_update.mpr ?_))
      have hretries' : ({ s with now := now } : Session).Retries now dataChannels := hretries
      exact (tickChannels_loud dataChannels_nodup hretries').mono
        (fun _ _ h => (ends_pure _).mpr h) fun _ _ h => h
  · rintro ⟨hpause, htick⟩
    refine ⟨?_, ?_⟩
    · intro st hst
      have hpause' : ∀ frame, op = .receive frame →
          ¬ PauseRefused (logged sink) s (w, []) frame := fun frame hop hrefused =>
        hpause frame hop hrefused
      -- Conversely every other error is one that fails the session.
      exact (run_safe hpause').of_error hst rfl
    · intro hphase hreset
      by_cases hop : ∃ now, op = .recoveryTick now
      · obtain ⟨now, rfl⟩ := hop
        have hquiet : ¬ ({ s with now := now } : Session).Retries now dataChannels :=
          htick now rfl hphase
        refine ⟨?_, ?_⟩
        · refine (ends_endState
            (P := fun st : Session × σ × List (Call × Bool) => st.1.phase = .failed)).mp ?_
          refine ends_bind.mpr (ends_bind.mpr (ends_update.mpr ?_))
          have hphase' : ({ s with now := now } : Session).phase = .failed := hphase
          exact (tickChannels_failed dataChannels hphase').mono (fun _ _ h => (ends_pure _).mpr h)
            fun _ _ h => h
        · refine (ends_endState
            (P := fun st : Session × σ × List (Call × Bool) => st.2.2 = [])).mp ?_
          refine ends_bind.mpr (ends_bind.mpr (ends_update.mpr ?_))
          refine (tickChannels_silent dataChannels_nodup hquiet).mono ?_ ?_
          · intro _ st hst
            exact (ends_pure _).mpr (by rw [hst])
          · intro _ st hst
            rw [hst]
      -- Only the tick runs in a failed session; any other operation is turned away.
      · have hsame : (step (logged sink) (s, w, []) op).1.phase = .failed ∧
            (step (logged sink) (s, w, []) op).2 = (w, []) :=
          failed_untouched hphase hreset fun now h => hop ⟨now, h⟩
        exact ⟨hsame.1, congrArg Prod.snd hsame.2⟩

/-- Both exceptions, each reached from `new` with recovery enabled and channel 1
open. A sink that refuses to pause turns `DM` into a rejected effect that leaves the
session in `Setup`; and with every effect accepted, the tick after the setup timed
out sends a `SABM` from a failed session. -/
theorem failureTerminal_exceptions :
    ∃ s, new [⟨1, false⟩] 64 = .ok s ∧
      (let sink : Sink Unit := fun call w => (call != .pauseEndpoint 1, w)
       let st := runAll sink (s, ()) [.enableRecovery 0, .begin 0, .receive ⟨7, 0x73, []⟩]
       ¬ FailureTerminal sink st.1 st.2 (.receive ⟨7, 0x1f, []⟩)) ∧
      (let sink : Sink Unit := fun _ w => (true, w)
       let st := runAll sink (s, ()) [.enableRecovery 0, .begin 0, .receive ⟨7, 0x73, []⟩,
         .receive ⟨7, 0x1f, []⟩, .pollTimeout 30000 false]
       ¬ FailureTerminal sink st.1 st.2 (.recoveryTick 30000)) := by
  refine ⟨_, rfl, ?_, ?_⟩
  · intro sink st hterminal
    have hphase := hterminal.1 _ rfl
    exact absurd hphase (by decide)
  · intro sink st hterminal
    have hsilent := (hterminal.2 (by decide) (by simp)).2
    exact absurd hsilent (by decide)

end Mindone.Mux.Session
