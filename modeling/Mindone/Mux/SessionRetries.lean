import Mindone.Mux.SessionPause

/-!
# Mindone.Mux.SessionRetries

**Recovery asks for a channel three times at most.** The `SABM` frames that `recovery_tick`
sends on a channel are counted over a run of a session, from one reset to the next. The count
is the session's own counter `attempts`, which no other operation touches and which stops at
three.
-/

namespace Mindone.Mux.Session

open Mindone.Lib

variable {σ : Type}

/-! ### Counting -/

/-- A call that sends the command `SABM` on channel `c`. -/
def sendsSabm (c : Dlci) : Call → Bool
  | .apply (.transmit frame) => frame == ⟨commandAddress c, sabm ||| pollFinal, []⟩
  | _ => false

/-- A sink with a list of its calls. -/
def traced (sink : Sink σ) : Sink (σ × List Call) := fun call w =>
  ((sink call w.1).1, (sink call w.1).2, w.2 ++ [call])

/-- An operation, and the number of `SABM` frames that recovery has sent on channel `c` since
the last reset. -/
def tallyStep (sink : Sink σ) (c : Dlci) (acc : (Session × σ) × Nat) (op : Operation) :
    (Session × σ) × Nat :=
  let st := step (traced sink) (acc.1.1, acc.1.2, []) op
  ((st.1, st.2.1),
    match op with
    | .recoveryTick _ => acc.2 + st.2.2.countP (sendsSabm c)
    | .resetAfterTransportClose => 0
    | _ => acc.2)

/-- The count over a run. -/
def recoverySabms (sink : Sink σ) (c : Dlci) (st : Session × σ) (ops : List Operation) : Nat :=
  (ops.foldl (tallyStep sink c) (st, 0)).2

/-! ### What the operations do with the counter -/

theorem resolveWhen_attempts (sink : Sink σ) (p : Prop) [Decidable p] (s : Session) (w : σ) :
    (endState (resolveWhen sink p (s, w))).1.attempts = s.attempts := by
  unfold resolveWhen
  split
  · exact (resolve_sameTable sink s w).attempts
  · rfl

/-- Only a tick changes the attempts. -/
theorem Move.attempts {sink : Sink σ} {op : Operation} {st st' : Session × σ}
    (h : Move sink op st st') (hop : ∀ now, op ≠ .recoveryTick now) :
    st'.1.attempts = st.1.attempts := by
  cases h with
  | send frame =>
      dsimp only
      split
      · rfl
      · rfl
  | close =>
      dsimp only
      split
      · rfl
      · rfl
  | @accept s w c =>
      exact (resolveWhen_attempts sink (s.attempts c = 0) (s.accepted c) w).trans rfl
  | @join s w c =>
      exact (resolveWhen_attempts sink ((s.channels c).opening ∧ s.attempts c = 0) (s.joined c) w).trans
        rfl
  | @refuse s w c hreceives htalking hconf hc hclosed hopening hattempts w' =>
      exact ((resolve_sameTable sink (s.refusedAt c) w').attempts).trans rfl
  | @retry s w c now hop' => exact absurd hop' (hop now)
  | _ => rfl

/-- **No other operation touches the counter**, but for the reset. -/
theorem step_attempts (sink : Sink σ) {st : Session × σ} (hs : st.1.Sound) {op : Operation}
    (htick : ∀ now, op ≠ .recoveryTick now) (hreset : op ≠ .resetAfterTransportClose) :
    (step sink st op).1.attempts = st.1.attempts := by
  by_cases hplain : op.plain = true
  · exact invariant_of_steps (I := fun st' : Session × σ => st'.1.attempts = st.1.attempts)
      (fun _ _ hmove hsame => (hmove.attempts htick).trans hsame) (run_moves st hs hplain) rfl
  · cases op with
    | begin now =>
        obtain ⟨s, w⟩ := st
        refine (ends_endState (P := fun st : Session × σ => st.1.attempts = s.attempts)).mp ?_
        refine (begin_spec (s := s) (w := w)).mono ?_ ?_
        · rintro _ st ⟨-, hst⟩
          rw [hst]
          rfl
        · rintro _ st (rfl | ⟨-, due, done, hst⟩)
          · rfl
          · rw [hst]
            rfl
    | setLocalPause channel paused => exact (setLocalPause_kept sink st channel paused).attempts
    | recreateEndpoint channel => exact (recreateEndpoint_kept sink st channel).attempts
    | resetAfterTransportClose => exact absurd rfl hreset
    | _ => exact absurd rfl hplain

theorem sendsSabm_self (c d : Dlci) :
    sendsSabm c (.apply (.transmit ⟨commandAddress d, sabm ||| pollFinal, []⟩)) = decide (d = c) := by
  by_cases hd : d = c
  · subst hd
    simp [sendsSabm]
  · simp only [sendsSabm, decide_eq_false hd, beq_eq_false_iff_ne, ne_eq, Frame.mk.injEq, and_true]
    exact fun heq => hd (commandAddress_inj heq)

/-- What a tick counts and what it sends, from the attempts `a` on. -/
structure Tallied (c : Dlci) (a : Dlci → Nat) (log : List Call) (st : Session × (σ × List Call)) :
    Prop where
  sent : st.1.attempts c + log.countP (sendsSabm c) = a c + st.2.2.countP (sendsSabm c)
  bounded : (∀ d, a d ≤ 3) → ∀ d, st.1.attempts d ≤ 3

/-- One attempt with its frame, and what is counted behind it. -/
theorem Tallied.retry {c d : Dlci} {a a' : Dlci → Nat} {log : List Call}
    {st : Session × (σ × List Call)} (hmore : a d ≠ 3) (ha' : a' = Function.update a d (a d + 1))
    (h : Tallied c a' (log ++ [.apply (.transmit ⟨commandAddress d, sabm ||| pollFinal, []⟩)]) st) :
    Tallied c a log st := by
  obtain ⟨hsent, hbounded⟩ := h
  subst ha'
  refine ⟨?_, fun hs => hbounded fun e => ?_⟩
  · rw [List.countP_append, List.countP_singleton, sendsSabm_self] at hsent
    by_cases hd : d = c
    · subst hd
      simp only [Function.update_self, decide_true, if_true] at hsent
      omega
    · simpa [hd, Ne.symm hd] using hsent
  · have hle := hs d
    by_cases he : e = d
    · subst he
      rw [Function.update_self]
      omega
    · rw [Function.update_of_ne he]
      exact hs e

/-- **A tick sends one frame for each attempt that it counts.** -/
theorem tickChannels_tallied (sink : Sink σ) (c : Dlci) (now : Nat) (cs : List Dlci)
    (s : Session) (w : σ) (log : List Call) :
    Ends (tickChannels (traced sink) now cs) (s, w, log) (fun _ => Tallied c s.attempts log)
      fun _ => Tallied c s.attempts log := by
  induction cs generalizing s w log with
  | nil => exact (ends_pure _).mpr ⟨rfl, fun hs => hs⟩
  | cons d rest ih =>
      unfold tickChannels
      simp only [ends_bind, ends_read, ends_ite]
      split
      · exact ih s w log
      split
      · simp only [ends_update]
        split
        · exact ends_deadline ((ends_pure _).mpr ⟨rfl, fun hs => hs⟩) ⟨rfl, fun hs => hs⟩
        · exact ih _ w log
      · rename_i hdue hmore
        rw [ends_update]
        refine transmit_nil_spec (fun w' hsend => ?_) fun w' hsend => ?_
        · obtain ⟨w₁, log₁⟩ := w'
          cases (Prod.mk.inj hsend).2
          refine ends_deadline ?_ (.retry hmore rfl ⟨rfl, fun hs => hs⟩)
          rw [ends_update]
          exact (ih _ _ _).mono (fun _ _ h => .retry hmore rfl h) fun _ _ h => .retry hmore rfl h
        · obtain ⟨w₁, log₁⟩ := w'
          cases (Prod.mk.inj hsend).2
          exact .retry hmore rfl ⟨rfl, fun hs => hs⟩

theorem recoveryTick_tallied (sink : Sink σ) (c : Dlci) (now : Nat) (s : Session) (w : σ) :
    Tallied c s.attempts [] (step (traced sink) (s, w, []) (.recoveryTick now)) := by
  refine (ends_endState (P := Tallied c s.attempts [])).mp ?_
  rw [Operation.run, ends_bind, recoveryTick, ends_bind, ends_update]
  refine (tickChannels_tallied sink c now dataChannels _ w []).mono ?_ ?_
  · exact fun _ _ h => (ends_pure _).mpr h
  · exact fun _ _ h => h

/-! ### Runs -/

/-- The count is the session's own counter. -/
structure Tally (c : Dlci) (acc : (Session × σ) × Nat) : Prop where
  sound : acc.1.1.Sound
  counted : acc.2 = acc.1.1.attempts c
  bounded : ∀ d, acc.1.1.attempts d ≤ 3

/-- A step keeps the tally of the attempts. -/
theorem Tally.step (sink : Sink σ) {c : Dlci} {acc : (Session × σ) × Nat} (h : Tally c acc)
    (op : Operation) : Tally c (tallyStep sink c acc op) := by
  have hstart : ((acc.1.1, acc.1.2, []) : Session × (σ × List Call)).1.Sound := h.sound
  have hsound := step_sound (traced sink) hstart op
  by_cases htick : ∃ now, op = .recoveryTick now
  · obtain ⟨now, rfl⟩ := htick
    obtain ⟨hsent, hbounded⟩ := recoveryTick_tallied sink c now acc.1.1 acc.1.2
    refine ⟨hsound, ?_, hbounded h.bounded⟩
    rw [List.countP_nil, Nat.add_zero] at hsent
    show acc.2 + _ = _
    rw [h.counted]
    exact hsent.symm
  by_cases hreset : op = .resetAfterTransportClose
  · subst hreset
    exact ⟨hsound, rfl, fun _ => Nat.zero_le 3⟩
  have hsame := step_attempts (traced sink) hstart (fun now heq => htick ⟨now, heq⟩) hreset
  refine ⟨hsound, ?_, fun d => ?_⟩
  · have hcount : (tallyStep sink c acc op).2 = acc.2 := by
      cases op with
      | recoveryTick now => exact absurd ⟨now, rfl⟩ htick
      | resetAfterTransportClose => exact absurd rfl hreset
      | _ => rfl
    rw [hcount, h.counted]
    exact (congrFun hsame c).symm
  · exact Nat.le_trans (Nat.le_of_eq (congrFun hsame d)) (h.bounded d)

/-- **Recovery sends `SABM` on a channel three times at most** from one reset of the session
to the next. -/
theorem recoverySabms_le (sink : Sink σ) (c : Dlci) {config : List ChannelConfig} {limit : Nat}
    {s : Session} (hnew : new config limit = .ok s) (w : σ) (ops : List Operation) :
    recoverySabms sink c (s, w) ops ≤ 3 := by
  obtain ⟨layout, rfl⟩ := new_initial hnew
  have hrun : ∀ (ops : List Operation) (acc : (Session × σ) × Nat), Tally c acc →
      Tally c (ops.foldl (tallyStep sink c) acc) := by
    intro ops
    induction ops with
    | nil => exact fun _ h => h
    | cons op rest ih => exact fun acc h => ih _ (h.step sink op)
  have htally := hrun ops ((initial layout limit, w), 0)
    ⟨initial_sound layout limit, rfl, fun _ => Nat.zero_le 3⟩
  unfold recoverySabms
  rw [htally.counted]
  exact htally.bounded c

end Mindone.Mux.Session
