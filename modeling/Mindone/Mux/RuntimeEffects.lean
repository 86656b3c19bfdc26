import Mindone.Mux.RuntimeRules
import Mindone.Mux.Service
import Mindone.Mux.TransportBudget

/-!
# Mindone.Mux.RuntimeEffects

**A rejected effect ends the turn.** What the world outside keeps as long as it accepts the
effects of the runtime, a turn keeps unless it ends in an error; and it does nothing more
after the effect that was rejected. The same walk through the program shows that the end of
the cool-down, `escalation_after`, is changed by `recovery_tick` only.

`K` speaks of the world and of the cool-down and holds while everything is accepted, `J` is
what is left after a rejected effect.
-/

namespace Mindone.Mux

open Mindone.Lib Transport

/-! ### Operations of the session -/

namespace Session

variable {σ : Type}

/-- What the calls of a sink keep: an effect that is rejected leaves `J`. -/
structure Heeded (sink : Sink σ) (K J : σ → Nat → Prop) : Prop where
  weaken : ∀ {w e}, K w e → J w e
  openEndpoint : ∀ {c w e}, K w e → K (sink (.openEndpoint c) w).2 e
  pauseEndpoint : ∀ {c w e}, K w e → K (sink (.pauseEndpoint c) w).2 e
  accepted : ∀ {action w e}, K w e → (sink (.apply action) w).1 = true →
    K (sink (.apply action) w).2 e
  rejected : ∀ {action w e}, K w e → (sink (.apply action) w).1 = false →
    J (sink (.apply action) w).2 e

/-- The property of the sink and the cool-down, as one of an operation's state. -/
def Within (K : σ → Nat → Prop) (st : Session × σ) : Prop := K st.2 st.1.escalationAfter

namespace Heeded

variable {α : Type} {sink : Sink σ} {K J : σ → Nat → Prop} (h : Heeded sink K J)
include h

theorem within {st : Session × σ} (hst : Within K st) : Within J st := h.weaken hst

theorem throw (e : Error) : Keeps (Within K) (Within J) (throw e : Op σ α) :=
  keeps_throw (fun _ hst => h.within hst) e

omit h in
theorem read : Keeps (Within K) (Within J) (Session.read : Op σ Session) :=
  fun _ hst => ends_read.mpr hst

omit h in
theorem update {f : Session → Session} (hf : ∀ s, (f s).escalationAfter = s.escalationAfter) :
    Keeps (Within K) (Within J) (Session.update f : Op σ Unit) := by
  intro st hst
  refine ends_update.mpr ?_
  unfold Within at hst ⊢
  rw [hf]
  exact hst

theorem apply (action : Action) : Keeps (Within K) (Within J) (Session.apply sink action) := by
  intro st hst
  refine ends_apply (fun haccepted => h.accepted hst haccepted) fun hrejected => ?_
  exact h.rejected hst hrejected

theorem deadline (now duration : Nat) :
    Keeps (Within K) (Within J) (Session.deadline now duration : Op σ Nat) :=
  fun _ hst => ends_deadline hst (h.within hst)

theorem active : Keeps (Within K) (Within J) (Session.active : Op σ Unit) :=
  fun _ hst => ends_active (fun _ _ => hst) (fun _ => h.within hst) fun _ => h.within hst

theorem transmit (c : Dlci) (control : UInt8) (payload : List UInt8) :
    Keeps (Within K) (Within J) (Session.transmit sink c control payload) := by
  unfold Session.transmit
  refine read.bind fun s => keeps_ite (fun _ => ?_) fun _ => keeps_ite (fun _ => ?_) fun _ => ?_
  · exact Keeps.bind (update fun _ => rfl) fun _ => h.throw _
  · exact Keeps.bind (update fun _ => rfl) fun _ => h.apply _
  · exact h.apply _

omit h in
/-- A question to the sink, and what is done with the answer. -/
theorem asked {call : Call} (hcall : ∀ {w e}, K w e → K (sink call w).2 e)
    {f : Bool → Op σ α} (hf : ∀ answer, Keeps (Within K) (Within J) (f answer)) :
    Keeps (Within K) (Within J) (ask sink call >>= f) := by
  refine Keeps.bind (fun st hst => ?_) hf
  exact ends_ask.mpr (hcall hst)

theorem resolve : Keeps (Within K) (Within J) (Session.resolve sink) := by
  unfold Session.resolve
  refine read.bind fun s => keeps_ite (fun _ => keeps_pure _) fun _ => ?_
  refine Keeps.bind (update fun _ => rfl) fun _ => keeps_ite (fun _ => ?_) fun _ => keeps_pure _
  refine Keeps.bind (update fun _ => rfl) fun _ => keeps_ite (fun _ => keeps_pure _) fun _ => ?_
  exact (h.apply _).bind fun _ => update fun _ => rfl

theorem closeEndpoint (c : Dlci) : Keeps (Within K) (Within J) (Session.closeEndpoint sink c) :=
  (h.apply _).bind fun _ => update fun _ => rfl

theorem recoverChannel (c : Dlci) :
    Keeps (Within K) (Within J) (Session.recoverChannel sink c) := by
  unfold Session.recoverChannel
  refine Keeps.bind (update fun _ => rfl) fun _ => asked h.pauseEndpoint fun answer => ?_
  refine keeps_ite (fun _ => ?_) fun _ => h.throw _
  refine read.bind fun s => keeps_ite (fun _ => ?_) fun _ => keeps_pure _
  exact (h.deadline _ _).bind fun due => update fun _ => rfl

theorem receiveUa (c : Dlci) : Keeps (Within K) (Within J) (Session.receiveUa sink c) := by
  unfold Session.receiveUa
  refine read.bind fun s => keeps_ite (fun _ => keeps_ite (fun _ => ?_) fun _ => keeps_pure _)
    fun _ => keeps_ite (fun _ => ?_) fun _ => update fun _ => rfl
  · exact update fun _ => rfl
  · exact Keeps.bind (update fun _ => rfl) fun _ =>
      keeps_ite (fun _ => h.resolve) fun _ => keeps_pure _

theorem receiveDm (c : Dlci) : Keeps (Within K) (Within J) (Session.receiveDm sink c) := by
  unfold Session.receiveDm
  refine read.bind fun s => keeps_ite (fun _ => update fun _ => rfl) fun _ =>
    keeps_ite (fun _ => ?_) fun _ => keeps_ite (fun _ => update fun _ => rfl) fun _ =>
      keeps_ite (fun _ => ?_) fun _ => keeps_pure _
  · refine Keeps.bind (update fun _ => rfl) fun _ => keeps_ite (fun _ => update fun _ => rfl) fun _ => ?_
    exact keeps_ite (fun _ => h.recoverChannel c) fun _ => h.closeEndpoint c
  · refine Keeps.bind (update fun _ => rfl) fun _ => ?_
    exact keeps_ite (fun _ => (h.apply _).bind fun _ => h.resolve) fun _ => h.resolve

theorem joinChannel (c : Dlci) : Keeps (Within K) (Within J) (Session.joinChannel sink c) := by
  unfold Session.joinChannel
  refine read.bind fun s => Keeps.bind (update fun _ => rfl) fun _ => ?_
  exact keeps_ite (fun _ => h.resolve.bind fun _ => h.transmit _ _ _) fun _ => h.transmit _ _ _

theorem receiveSabm (c : Dlci) : Keeps (Within K) (Within J) (Session.receiveSabm sink c) := by
  unfold Session.receiveSabm
  refine read.bind fun s => keeps_ite (fun _ => keeps_ite (fun _ => ?_) fun _ => h.joinChannel c)
    fun _ => h.transmit _ _ _
  refine asked h.openEndpoint fun answer => keeps_ite (fun _ => ?_) fun _ => h.transmit _ _ _
  exact Keeps.bind (update fun _ => rfl) fun _ => h.joinChannel c

theorem receiveDisc (c : Dlci) : Keeps (Within K) (Within J) (Session.receiveDisc sink c) := by
  unfold Session.receiveDisc
  refine read.bind fun s => keeps_ite (fun _ => ?_) fun _ => h.transmit _ _ _
  refine Keeps.bind (update fun _ => rfl) fun _ => (h.transmit _ _ _).bind fun _ =>
    keeps_ite (fun _ => update fun _ => rfl) fun _ => ?_
  exact keeps_ite (fun _ => h.recoverChannel c) fun _ => h.closeEndpoint c

omit h in
theorem receiveData (frame : Frame) :
    Keeps (Within K) (Within J) (Session.receiveData frame : Op σ Handoff) := by
  unfold Session.receiveData
  refine Keeps.bind (update fun _ => rfl) fun _ => read.bind fun s =>
    keeps_ite (fun _ => keeps_pure _) fun _ => keeps_ite (fun _ => ?_) fun _ => keeps_pure _
  exact keeps_ite (fun _ => keeps_pure _) fun _ => keeps_pure _

theorem receive (frame : Frame) : Keeps (Within K) (Within J) (Session.receive sink frame) := by
  unfold Session.receive
  refine h.active.bind fun _ => read.bind fun s => keeps_ite (fun _ => ?_) fun _ =>
    keeps_ite (fun _ => h.throw _) fun _ => ?_
  · refine keeps_ite (fun _ => ?_) fun _ => keeps_pure _
    exact Keeps.bind (update fun _ => rfl) fun _ => keeps_pure _
  · unfold Session.receiveFrame
    refine read.bind fun s => keeps_ite (fun _ => receiveData frame) fun _ =>
      keeps_ite (fun _ => ?_) fun _ => keeps_ite (fun _ => ?_) fun _ =>
        keeps_ite (fun _ => ?_) fun _ => keeps_ite (fun _ => ?_) fun _ => keeps_pure _
    · exact (h.receiveUa _).bind fun _ => keeps_pure _
    · exact (h.receiveDm _).bind fun _ => keeps_pure _
    · exact (h.receiveSabm _).bind fun _ => keeps_pure _
    · exact (h.receiveDisc _).bind fun _ => keeps_pure _

theorem sendControl (control : UInt8) (payload : List UInt8) :
    Keeps (Within K) (Within J) (Session.sendControl sink control payload) :=
  h.active.bind fun _ => h.transmit _ _ _

theorem applyPeerSignals (channel signals : UInt8) :
    Keeps (Within K) (Within J) (Session.applyPeerSignals channel signals : Op σ Unit) := by
  unfold Session.applyPeerSignals
  refine h.active.bind fun _ => read.bind fun s => ?_
  cases s.find channel with
  | none => exact keeps_pure _
  | some c => exact keeps_ite (fun _ => update fun _ => rfl) fun _ => keeps_pure _

theorem applicationInput (channel : UInt8) :
    Keeps (Within K) (Within J) (Session.applicationInput channel : Op σ ApplicationInput) := by
  unfold Session.applicationInput
  refine h.active.bind fun _ => read.bind fun s => ?_
  cases s.find channel with
  | none => exact h.throw _
  | some c =>
      exact keeps_ite (fun _ => Keeps.bind (update fun _ => rfl) fun _ => keeps_pure _)
        fun _ => keeps_pure _

theorem setLocalPause (channel : UInt8) (paused : Bool) :
    Keeps (Within K) (Within J) (Session.setLocalPause sink channel paused) := by
  unfold Session.setLocalPause
  refine h.active.bind fun _ => read.bind fun s => ?_
  cases (s.find channel).filter fun c => (s.channels c).endpointPresent with
  | none => exact h.throw _
  | some c =>
      exact keeps_ite (fun _ => Keeps.bind (update fun _ => rfl) fun _ => h.transmit _ _ _)
        fun _ => keeps_pure _

theorem recreateEndpoint (channel : UInt8) :
    Keeps (Within K) (Within J) (Session.recreateEndpoint sink channel) := by
  unfold Session.recreateEndpoint
  refine h.active.bind fun _ => read.bind fun s => ?_
  cases s.find channel with
  | none => exact h.throw _
  | some c =>
      refine keeps_ite (fun _ => h.throw _) fun _ => (h.closeEndpoint c).bind fun _ => ?_
      have hopen : Keeps (Within K) (Within J) (do
          if ← ask sink (.openEndpoint c) then
            Session.update fun s => s.modify c fun ch => { ch with endpointPresent := true }
          else
            Session.update fail
            MonadExcept.throw .endpointUnavailable : Op σ Unit) := by
        refine asked h.openEndpoint fun answer => keeps_ite (fun _ => update fun _ => rfl) fun _ => ?_
        exact Keeps.bind (update fun _ => rfl) fun _ => h.throw _
      exact keeps_ite (fun _ => (h.transmit _ _ _).bind fun _ => hopen) fun _ => hopen

theorem requestDisconnect (channel : UInt8) :
    Keeps (Within K) (Within J) (Session.requestDisconnect sink channel) := by
  unfold Session.requestDisconnect
  refine h.active.bind fun _ => read.bind fun s => ?_
  cases s.find channel with
  | none => exact h.throw _
  | some c =>
      exact keeps_ite (fun _ => Keeps.bind (update fun _ => rfl) fun _ => h.transmit _ _ _)
        fun _ => keeps_pure _

theorem peerClose : Keeps (Within K) (Within J) (Session.peerClose : Op σ Unit) :=
  h.active.bind fun _ => update fun _ => rfl

theorem pollTimeout (now : Nat) (transmitPending : Bool) :
    Keeps (Within K) (Within J) (Session.pollTimeout now transmitPending : Op σ (Option Nat)) := by
  unfold Session.pollTimeout
  refine h.active.bind fun _ => read.bind fun s => keeps_ite (fun _ => keeps_pure _) fun _ =>
    keeps_ite (fun _ => keeps_pure _) fun _ => keeps_ite (fun _ => ?_) fun _ => keeps_pure _
  exact Keeps.bind (update fun _ => rfl) fun _ => h.throw _

theorem begin (now : Nat) : Keeps (Within K) (Within J) (Session.begin sink now) := by
  unfold Session.begin
  refine read.bind fun s => keeps_ite (fun _ => h.throw _) fun _ => (h.deadline _ _).bind fun due =>
    Keeps.bind (update fun _ => rfl) fun _ => Keeps.bind (update fun _ => rfl) fun _ =>
      (h.transmit _ _ _).bind fun _ => keeps_forM (fun c => ?_) _
  refine asked h.openEndpoint fun answer => keeps_ite (fun _ => ?_) fun _ => ?_
  · exact Keeps.bind (update fun _ => rfl) fun _ => h.transmit _ _ _
  · exact Keeps.bind (update fun _ => rfl) fun _ => h.throw _

/-- **A tick that returns `true` finds the cool-down over and starts it again**; no other
operation changes it. -/
theorem tickChannels {L : σ → Nat → Prop} {now : Nat}
    (hlater : ∀ {w e}, K w e → e ≤ now → L w (now + 300000)) (cs : List Dlci) {st : Session × σ}
    (hst : Within K st) :
    Ends (Session.tickChannels sink now cs) st
      (fun escalates => Within (if escalates then L else K)) fun _ => Within J := by
  induction cs generalizing st with
  | nil => exact (ends_pure _).mpr hst
  | cons c rest ih =>
      unfold Session.tickChannels
      simp only [ends_bind, ends_read, ends_ite]
      split
      · exact ih hst
      split
      · simp only [ends_update]
        split
        · rename_i hover
          exact ends_deadline ((ends_pure _).mpr (hlater hst hover)) (h.within hst)
        · exact ih hst
      · rw [ends_update]
        refine Ends.mono (h.transmit c (sabm ||| pollFinal) [] _ ?_) ?_ fun _ _ hJ => hJ
        · exact hst
        intro _ st' hst'
        exact ends_deadline (ends_update.mpr (ih hst')) (h.within hst')

theorem recoveryTick {L : σ → Nat → Prop} {now : Nat}
    (hlater : ∀ {w e}, K w e → e ≤ now → L w (now + 300000)) {st : Session × σ}
    (hst : Within K st) :
    Ends (Session.recoveryTick sink now) st
      (fun escalates => Within (if escalates then L else K)) fun _ => Within J := by
  unfold Session.recoveryTick
  rw [ends_bind, ends_update]
  exact h.tickChannels hlater dataChannels hst

end Heeded

end Session

namespace Runtime

variable {E ω : Type}

/-- What the world outside keeps: an effect that it rejects leaves `J`. -/
structure Heeded (env : Env E ω) (K J : ω → Nat → Prop) : Prop where
  weaken : ∀ {w e}, K w e → J w e
  prepare : ∀ {endpoint w e}, K w e → K (env.prepare endpoint w).2 e
  openEndpoint : ∀ {c w e}, K w e → K (env.openEndpoint c w).2 e
  epochsTaken : ∀ {w e}, K w e → K (env.epochsTaken w).2 e
  read : ∀ {endpoint size w e}, K w e → K (env.read endpoint size w).2 e
  write : ∀ {endpoint bytes w e}, K w e → K (env.write endpoint bytes w).2 e
  accepted : ∀ {event w e}, K w e → (env.apply event w).1 = true → K (env.apply event w).2 e
  rejected : ∀ {event w e}, K w e → (env.apply event w).1 = false → J (env.apply event w).2 e

/-- The property of the world and the cool-down, as one of turns at the time `n`. -/
structure Heeds (n : Nat) (K : ω → Nat → Prop) (t : Turn E ω) : Prop where
  kept : K t.runtime.context.world t.runtime.session.escalationAfter
  lastNow : t.runtime.lastNow = n

/-- What `Heeds` looks at. -/
def heeded (r : Runtime E ω) : ω × Nat × Nat :=
  (r.context.world, r.session.escalationAfter, r.lastNow)

theorem heeds_of_same {n : Nat} {K : ω → Nat → Prop} {t t' : Turn E ω} (ht : Heeds n K t)
    (hsame : t'.runtime.heeded = t.runtime.heeded) : Heeds n K t' := by
  have hworld : t'.runtime.context.world = t.runtime.context.world := congrArg (·.1) hsame
  have hcooldown : t'.runtime.session.escalationAfter = t.runtime.session.escalationAfter :=
    congrArg (·.2.1) hsame
  have hnow : t'.runtime.lastNow = t.runtime.lastNow := congrArg (·.2.2) hsame
  exact ⟨by rw [hworld, hcooldown]; exact ht.kept, hnow.trans ht.lastNow⟩

namespace Heeded

variable {α : Type} {env : Env E ω} {K J : ω → Nat → Prop} {n : Nat} (h : Heeded env K J)
include h

/-! ### The context -/

theorem replaceEpoch {ctx : Context E ω} {e : Nat} (hctx : K ctx.world e) (endpoint : EndpointId)
    (descriptor : Int) : K (ctx.replaceEpoch env endpoint descriptor).2.world e := by
  unfold Context.replaceEpoch
  dsimp only
  split
  · exact h.epochsTaken hctx
  · exact h.epochsTaken hctx

/-- Opening an endpoint, in the order of the source. -/
theorem openSlot {ctx : Context E ω} {e : Nat} (hctx : K ctx.world e) (c : Dlci) :
    K (ctx.openEndpoint env c).2.world e := by
  unfold Context.openEndpoint
  split
  · exact hctx
  have hopened := h.openEndpoint (c := c) hctx
  split
  · rename_i w hopen
    rw [hopen] at hopened
    exact hopened
  rename_i endpoint w hopen
  rw [hopen] at hopened
  have hprepared : K (env.prepare endpoint w).2 e := h.prepare hopened
  split
  · rename_i w' hprepare
    rw [hprepare] at hprepared
    exact hprepared
  rename_i w' hprepare
  rw [hprepare] at hprepared
  split
  · exact hprepared
  have hepoch : K ({ ctx with world := w' }.replaceEpoch env (.channel (number c))
      (env.descriptor endpoint)).2.world e := h.replaceEpoch hprepared _ _
  split
  · rename_i ctx' hreplace
    rw [hreplace] at hepoch
    exact hepoch
  · rename_i token ctx' hreplace
    rw [hreplace] at hepoch
    exact hepoch

omit h in
theorem dropSlot_world (ctx : Context E ω) (c : Dlci) : (ctx.dropSlot c).world = ctx.world := by
  unfold Context.dropSlot
  split
  · rfl
  · rfl

/-- The sink of a session passes effects on, and everything else is accepted by the world. -/
theorem sink : Session.Heeded (Context.sink env) (fun ctx e => K ctx.world e)
    fun ctx e => J ctx.world e where
  weaken := h.weaken
  openEndpoint {c ctx e} hctx := h.openSlot hctx c
  -- Pausing and transmitting do not reach the world.
  pauseEndpoint {c ctx e} hctx := by
    show K (Context.pauseEndpoint c ctx).2.world e
    unfold Context.pauseEndpoint
    split
    · exact hctx
    · exact hctx
  accepted {action ctx e} hctx haccepted := by
    cases action with
    | transmit frame =>
        show K (Context.transmit frame ctx).2.world e
        unfold Context.transmit
        split
        · exact hctx
        · exact hctx
    | closeEndpoint c =>
        simp only [Context.sink] at haccepted ⊢
        split
        · exact hctx
        · rw [dropSlot_world]
          exact hctx
    -- The two reports are the world's to accept or reject.
    | ready refusedChannels => exact h.accepted hctx haccepted
    | atciUnavailable => exact h.accepted hctx haccepted
  rejected {action ctx e} hctx hrejected := by
    cases action with
    | transmit frame =>
        refine h.weaken (show K (Context.transmit frame ctx).2.world e from ?_)
        unfold Context.transmit
        split
        · exact hctx
        · exact hctx
    | closeEndpoint c =>
        simp only [Context.sink] at hrejected ⊢
        split
        · exact h.weaken hctx
        · rw [dropSlot_world]
          exact h.weaken hctx
    | ready refusedChannels => exact h.rejected hctx hrejected
    | atciUnavailable => exact h.rejected hctx hrejected

/-! ### Acts -/

theorem quiet {p : Act E ω α} (hp : Leaves heeded p) : Keeps (Heeds n K) (Heeds n J) p := by
  intro t ht
  refine (hp t).mono (fun _ t' hsame => heeds_of_same ht hsame) fun _ t' hsame => ?_
  exact heeds_of_same ⟨h.weaken ht.kept, ht.lastNow⟩ hsame

theorem throw (e : Error) : Keeps (Heeds n K) (Heeds n J) (throw e : Act E ω α) :=
  h.quiet (leaves_throw e)

theorem look (f : Runtime E ω → α) : Keeps (Heeds n K) (Heeds n J) (look f) := h.quiet (leaves_look f)

theorem change {f : Runtime E ω → Runtime E ω} (hf : ∀ r, (f r).heeded = r.heeded) :
    Keeps (Heeds n K) (Heeds n J) (change f) := h.quiet (leaves_change hf)

theorem chatDo (wrap : Chat.Error → Error) (step : Chat.Step α) :
    Keeps (Heeds n K) (Heeds n J) (chatDo wrap step : Act E ω α) :=
  h.quiet fun _ => ends_chatDo.mpr ((ends_true _ _).mono (fun _ _ _ => rfl) fun _ _ _ => rfl)

omit h in
/-- **An operation of the session.** -/
theorem sessionDo {op : Session.Op (Context E ω) α}
    (hop : Keeps (Session.Within fun ctx e => K ctx.world e)
      (Session.Within fun ctx e => J ctx.world e) op) :
    Keeps (Heeds n K) (Heeds n J) (sessionDo op) := by
  intro t ht
  refine ends_sessionDo.mpr ?_
  exact (hop (t.runtime.session, t.runtime.context) ht.kept).mono
    (fun _ _ hst => ⟨hst, ht.lastNow⟩) fun _ _ hst => ⟨hst, ht.lastNow⟩

omit h in
/-- A part that works on the context only. -/
theorem onContext {p : EStateM Error (Context E ω × TurnBudget) α}
    (hp : ∀ {e : Nat} (ctx : Context E ω) (budget : TurnBudget), K ctx.world e →
      Ends p (ctx, budget) (fun _ s => K s.1.world e) fun _ s => J s.1.world e) :
    Keeps (Heeds n K) (Heeds n J) (onContext p) :=
  fun _ ht => ends_onContext.mpr ((hp _ _ ht.kept).mono (fun _ _ hs => ⟨hs, ht.lastNow⟩)
    fun _ _ hs => ⟨hs, ht.lastNow⟩)

/-! ### Reading and writing -/

theorem readTurn (endpoint : E) (size requested : Nat) :
    Keeps (Heeds n K) (Heeds n J) (readTurn env endpoint size requested) := by
  refine onContext fun {e} ctx budget hctx => ?_
  have hkept : Ends (ioTurn requested fun offered (w : ω × List UInt8) =>
      ((env.read endpoint offered w.1).1.1, (env.read endpoint offered w.1).2,
        blit (List.replicate size 0) 0 ((env.read endpoint offered w.1).1.2.take offered)))
      ((ctx.world, []), budget) (fun _ s => K s.1.1 e) fun _ s => K s.1.1 e :=
    ioTurn_keeps (I := fun (w : ω × List UInt8) _ => K w.1 e) (fun _ _ => h.read hctx) hctx
  unfold Ends at hkept ⊢
  dsimp only at hkept ⊢
  split at hkept
  · rename_i answer s hturn
    rw [hturn]
    obtain _ | ⟨n | fault⟩ := answer
    · exact hkept
    · exact hkept
    · exact hkept
  · rename_i error s hturn
    rw [hturn]
    exact h.weaken hkept

theorem writeTurn (endpoint : E) (bytes : List UInt8) :
    Keeps (Heeds n K) (Heeds n J) (writeTurn env endpoint bytes) := by
  refine onContext fun {e} ctx budget hctx => ?_
  have hkept : Ends (ioTurn bytes.length fun offered => env.write endpoint (bytes.take offered))
      (ctx.world, budget) (fun _ s => K s.1 e) fun _ s => K s.1 e :=
    ioTurn_keeps (I := fun w _ => K w e) (fun _ _ => h.write hctx) hctx
  unfold Ends at hkept ⊢
  dsimp only at hkept ⊢
  split at hkept
  · rename_i answer s hturn
    rw [hturn]
    exact hkept
  · rename_i error s hturn
    rw [hturn]
    exact h.weaken hkept

theorem endpointWriter {endpoint : E} {pty : Bool} {input : List UInt8} {w : ω} {e : Nat}
    (hw : K w e) : K (endpointWriter env endpoint pty input w).2 e := by
  have hwritten : K (env.write endpoint input w).2 e := h.write hw
  unfold Runtime.endpointWriter
  split
  · rename_i w' hwrite
    rw [hwrite] at hwritten
    exact hwritten
  · rename_i w' hwrite
    rw [hwrite] at hwritten
    exact hwritten
  · rename_i w' hwrite
    rw [hwrite] at hwritten
    exact hwritten
  · exact hwritten

theorem deliver (c : Dlci) (input : List UInt8) :
    Keeps (Heeds n K) (Heeds n J) (Runtime.onContext (deliver env c input)) := by
  refine onContext fun {e} ctx budget hctx => ?_
  unfold Ends Runtime.deliver
  dsimp only
  cases hslot : (ctx.note (.delivered c input)).slots c with
  | none => exact hctx
  | some slot =>
      have hkept : K (writeLoop (recording (env.write slot.endpoint)) input
          ((ctx.note (.delivered c input)).world, []) budget).world.1 e :=
        writeLoop_keeps (I := fun (w : ω × List UInt8) _ => K w.1 e) (fun hw _ => h.write hw)
          input _ budget hctx
      by_cases hwaiting : slot.pending.pending ≠ []
      · simp only [if_pos hwaiting]
        cases slot.pending.bufferRemainder input with
        | error _ => exact hctx
        | ok pending => exact hctx
      · simp only [if_neg hwaiting]
        generalize writeLoop (recording (env.write slot.endpoint)) input
          ((ctx.note (.delivered c input)).world, []) budget = written at hkept ⊢
        obtain ⟨error | (_ | fault), rest, w, budget'⟩ := written
        · exact h.weaken hkept
        · by_cases hrest : rest = []
          · simp only [if_pos hrest]
            exact hkept
          · simp only [if_neg hrest]
            cases slot.pending.bufferRemainder rest with
            | error _ => exact h.weaken hkept
            | ok pending => exact hkept
        · exact hkept

theorem drainPending (c : Dlci) :
    Keeps (Heeds n K) (Heeds n J) (Runtime.onContext (drainPending env c)) := by
  refine onContext fun {e} ctx budget hctx => ?_
  unfold Ends Runtime.drainPending
  dsimp only
  cases hslot : ctx.slots c with
  | none => exact hctx
  | some slot =>
      exact drainLoop_keeps (I := fun (w : ω × List UInt8) _ => K w.1 e)
        (fun hw _ => h.endpointWriter hw) slot.pending.bytes (ctx.world, []) budget hctx

theorem backOff (now : Nat) : Keeps (Heeds n K) (Heeds n J) (backOff now : Act E ω Unit) :=
  (h.quiet (leaves_after now retryMs)).bind fun _ => h.change fun _ => rfl

/-- **`flush_tx`**: the exception of the modem is published here, and a rejection ends the
turn. -/
theorem flushTx (now : Nat) : Keeps (Heeds n K) (Heeds n J) (flushTx env now) := by
  refine (h.look _).bind fun r => keeps_ite (fun _ => keeps_pure _) fun _ => ?_
  refine (h.quiet leaves_theSerial).bind fun serial => Keeps.bind ?_ fun report => ?_
  · refine onContext fun {e} ctx budget hctx => Iff.mpr (ends_of_ok rfl) ?_
    exact drainLoop_keeps (I := fun w _ => K w e) (fun hw _ => h.endpointWriter hw) ctx.tx.bytes
      ctx.world budget hctx
  cases report.stop with
  | complete => exact keeps_pure _
  | yielded => exact keeps_pure _
  | blocked => exact h.backOff now
  | deviceReset =>
      intro t ht
      simp only [ends_bind]
      refine ends_onContext.mpr (Iff.mpr (ends_of_ok rfl) ?_)
      cases hanswer : (env.apply .modemException t.runtime.context.world).1 with
      | true =>
          simp only [Context.publish, hanswer, if_true, ends_pure]
          exact ⟨h.accepted ht.kept hanswer, ht.lastNow⟩
      | false =>
          simp only [Context.publish, hanswer, Bool.false_eq_true, if_false, ends_throw]
          exact ⟨h.rejected ht.kept hanswer, ht.lastNow⟩
  | _ => exact h.throw _

theorem startupLoop (now turns : Nat) :
    Keeps (Heeds n K) (Heeds n J) (startupLoop env now turns) := by
  induction turns with
  | zero => exact keeps_pure _
  | succ turns ih =>
      refine (h.look _).bind fun chat => ?_
      cases chat.pendingWrite with
      | none => exact keeps_pure _
      | some request =>
          refine (h.quiet leaves_theSerial).bind fun serial => ?_
          refine (h.writeTurn serial request.bytes).bind fun result => ?_
          match result with
          | none => exact keeps_pure _
          | some (.transferred bytes) => exact (h.chatDo _ _).bind fun _ => ih
          | some (.fault fault) =>
              refine (h.chatDo _ _).bind fun _ => ?_
              exact keeps_ite (fun _ => h.backOff now) fun _ => ih

theorem writeSerial (now : Nat) : Keeps (Heeds n K) (Heeds n J) (writeSerial env now) := by
  refine (h.look _).bind fun state => ?_
  cases state with
  | startup =>
      refine (h.look _).bind fun retryAt => ?_
      exact keeps_ite (fun _ => keeps_pure _) fun _ => h.startupLoop now 8
  | multiplexing => exact h.flushTx now
  | peerClosing => exact h.flushTx now
  | closed => exact keeps_pure _
  | failed => exact keeps_pure _

theorem recreate (c : Dlci) : Keeps (Heeds n K) (Heeds n J) (recreate env c) :=
  sessionDo (h.sink.recreateEndpoint _)

theorem drainChannel (c : Dlci) : Keeps (Heeds n K) (Heeds n J) (drainChannel env c) := by
  refine (h.drainPending c).bind fun stop => ?_
  match stop with
  | none | some .yielded | some .blocked => exact keeps_pure _
  | some .complete =>
      refine (h.look _).bind fun session => keeps_ite (fun _ => ?_) fun _ => keeps_pure _
      exact sessionDo (h.sink.setLocalPause _ _)
  | some .endOfStream | some .deviceReset | some .failure | some .noProgress
  | some .invalidProgress | some .rejected | some .invalidBuffer => exact h.recreate c

/-- A read of a channel. -/
theorem readChannel (c : Dlci) : Keeps (Heeds n K) (Heeds n J) (readChannel env c) := by
  refine (h.look _).bind fun r => keeps_ite (fun _ => keeps_pure _) fun _ => ?_
  cases (r : Runtime E ω).context.slots c with
  | none => exact h.throw _
  | some slot =>
      refine (h.readTurn slot.endpoint _ _).bind fun result => ?_
      match result with
      | none => exact keeps_pure _
      | some (.transferred n, input) =>
          refine keeps_ite (fun _ => h.recreate c) fun _ => ?_
          refine (sessionDo (h.sink.applicationInput _)).bind fun answer => ?_
          cases answer with
          | forward =>
              refine onContext fun {e} ctx budget hctx => ?_
              unfold Ends
              dsimp only
              cases TransmitQueue.admitPtyInput (number c) input ctx.tx with
              | ok _ tx => exact hctx
              | error _ tx => exact h.weaken hctx
          | reportRefusal => exact h.change fun _ => rfl
          | discard => exact h.change fun _ => rfl
      | some (.fault .interrupted, _) => exact keeps_pure _
      | some (.fault .wouldBlock, _) => exact keeps_pure _
      | some (.fault .busy, _) | some (.fault .endOfStream, _) | some (.fault .deviceReset, _)
      | some (.fault .failure, _) => exact h.recreate c

/-! ### Frames -/

theorem control (input : List UInt8) : Keeps (Heeds n K) (Heeds n J) (control env input) := by
  refine (h.look _).bind fun frameLimit => ?_
  cases Mcc.prepare input frameLimit (List.replicate maxPayload 0) with
  | error e => exact h.throw _
  | ok prepared =>
      have heffect : Keeps (Heeds n K) (Heeds n J) (Runtime.takeEffect prepared.effect : Act E ω Bool) := by
        cases prepared.effect with
        | peerClosing => exact keeps_pure _
        | none => exact keeps_pure _
        | peerSignals channel signals =>
            exact (sessionDo (h.sink.applyPeerSignals _ _)).bind fun _ => keeps_pure _
      cases hreply : prepared.reply with
      | none =>
          simp only [hreply]
          exact heffect
      | some reply =>
          simp only [hreply]
          exact (sessionDo (h.sink.sendControl _ _)).bind fun _ => heffect

theorem data (c : Dlci) (payload : List UInt8) :
    Keeps (Heeds n K) (Heeds n J) (data env c payload) := by
  refine (h.deliver c payload).bind fun delivery => ?_
  cases delivery with
  | buffered => exact sessionDo (h.sink.setLocalPause _ _)
  | recreate => exact sessionDo (h.sink.recreateEndpoint _)
  | done => exact keeps_pure _

theorem dispatch (frame : Frame) : Keeps (Heeds n K) (Heeds n J) (dispatch env frame) := by
  refine (sessionDo (h.sink.receive frame)).bind fun handoff => Keeps.bind ?_ fun finished => ?_
  · cases handoff with
    | none => exact keeps_pure _
    | control input => exact h.control input
    | data c payload => exact (h.data c payload).bind fun _ => keeps_pure _
    | endpointMissing c bytes =>
        refine Keeps.bind (h.change ?_) fun _ => keeps_pure _
        exact fun _ => rfl
  · refine keeps_ite (fun _ => keeps_pure _) fun _ => (h.look _).bind fun session => ?_
    cases session.phase with
    | closing => exact keeps_ite (fun _ => keeps_pure _) fun _ => h.throw _
    | _ => exact keeps_pure _

theorem peerClose (now : Nat) : Keeps (Heeds n K) (Heeds n J) (peerClose now : Act E ω Unit) := by
  refine (sessionDo h.sink.peerClose).bind fun _ => (h.quiet (leaves_after _ _)).bind fun due => ?_
  exact h.change fun _ => rfl

theorem closeLocally (now : Nat) : Keeps (Heeds n K) (Heeds n J) (closeLocally env now) := by
  refine Keeps.bind (keeps_forM (fun c => ?_) _) fun _ =>
    (h.quiet (leaves_after _ _)).bind fun due => h.change fun _ => rfl
  refine (h.look _).bind fun session => keeps_ite (fun _ => ?_) fun _ => keeps_pure _
  exact sessionDo (h.sink.requestDisconnect _)

theorem framesLoop (now : Nat) (d : Decoder rxBytes) :
    Keeps (Heeds n K) (Heeds n J) (framesLoop env now d) := by
  induction hn : d.length - d.consumed using Nat.strong_induction_on generalizing d with
  | _ n ih =>
      unfold Runtime.framesLoop
      split
      · exact h.change fun _ => rfl
      · rename_i frame d' hnext
        have hagain := ih _ (hn ▸ Decoder.nextFrame_lt hnext) d' rfl
        refine Keeps.bind (h.change fun _ => rfl) fun _ => Keeps.bind ?_ fun _ => ?_
        · exact fun t ht => ends_countFrame.mpr ⟨ht.kept, ht.lastNow⟩
        refine (h.look _).bind fun closing => keeps_ite (fun _ => hagain) fun _ => ?_
        refine (h.dispatch frame).bind fun finished => keeps_ite (fun _ => h.peerClose now) fun _ => ?_
        refine (h.look _).bind fun r => ?_
        exact keeps_ite (fun _ => h.closeLocally now) fun _ => hagain

theorem frames (now : Nat) : Keeps (Heeds n K) (Heeds n J) (frames env now) :=
  (h.look _).bind fun d => h.framesLoop now d

theorem enterMux (now : Nat) : Keeps (Heeds n K) (Heeds n J) (enterMux env now) := by
  refine (sessionDo (h.sink.begin now)).bind fun _ => ?_
  refine (h.quiet leaves_theSerial).bind fun serial => (h.look _).bind fun epochs => ?_
  cases epochs.invalidate .serial with
  | error e => exact h.throw _
  | ok epochs =>
      refine Keeps.bind (h.change fun _ => rfl) fun _ => ?_
      intro t ht
      have hreplaced := h.replaceEpoch ht.kept .serial (env.descriptor serial)
      simp only [ends_bind, ends_look]
      split
      · rename_i context hreplace
        rw [hreplace] at hreplaced
        exact ends_bind.mpr (ends_change.mpr ((ends_throw _).mpr
          ⟨h.weaken hreplaced, ht.lastNow⟩))
      · rename_i token context hreplace
        rw [hreplace] at hreplaced
        exact ends_change.mpr ⟨hreplaced, ht.lastNow⟩

theorem beginMux (now : Nat) : Keeps (Heeds n K) (Heeds n J) (beginMux env now) := by
  refine (h.enterMux now).bind fun _ => (h.look _).bind fun r => ?_
  cases r.decoder.push r.heldTail with
  | error e => exact h.throw _
  | ok decoder => exact Keeps.bind (h.change fun _ => rfl) fun _ => h.frames now

theorem whenReady (now : Nat) : Keeps (Heeds n K) (Heeds n J) (do
    if (← Runtime.look (·.chat.phase)) = .ready then Runtime.beginMux env now else pure ()) :=
  (h.look _).bind fun _ => keeps_ite (fun _ => h.beginMux now) fun _ => keeps_pure _

theorem feedChat (now : Nat) (input : List UInt8) :
    Keeps (Heeds n K) (Heeds n J) (feedChat env now input) := by
  refine (h.chatDo _ _).bind fun fed => ?_
  cases fed.muxTail with
  | none => exact h.whenReady now
  | some tail =>
      refine (h.look _).bind fun held => ?_
      refine keeps_ite (fun _ => (h.throw _).bind fun _ => h.whenReady now) fun _ => ?_
      exact Keeps.bind (h.change fun _ => rfl) fun _ => h.whenReady now

theorem readSerial (now : Nat) : Keeps (Heeds n K) (Heeds n J) (readSerial env now) := by
  refine (h.look _).bind fun r => keeps_ite (fun _ => keeps_pure _) fun _ => ?_
  refine (h.quiet leaves_theSerial).bind fun serial => ?_
  refine (h.readTurn serial _ _).bind fun result => ?_
  match result with
  | none => exact keeps_pure _
  | some (.transferred n, input) =>
      refine keeps_ite (fun _ => h.throw _) fun _ => ?_
      refine keeps_ite (fun _ => h.feedChat now input) fun _ => ?_
      cases r.decoder.push input with
      | error e => exact h.throw _
      | ok decoder => exact Keeps.bind (h.change fun _ => rfl) fun _ => h.frames now
  | some (.fault .interrupted, _) => exact keeps_pure _
  | some (.fault .wouldBlock, _) => exact keeps_pure _
  | some (.fault .busy, _) | some (.fault .endOfStream, _) | some (.fault .deviceReset, _)
  | some (.fault .failure, _) => exact keeps_ite (fun _ => h.chatDo _ _) fun _ => h.throw _

/-! ### The clocks -/

theorem tickChat (now : Nat) (serialReadable : Bool) :
    Keeps (Heeds n K) (Heeds n J) (tickChat env now serialReadable) := by
  refine (h.look _).bind fun state => keeps_ite (fun _ => ?_) fun _ => keeps_pure _
  refine (h.look _).bind fun pending => keeps_ite (fun _ => h.whenReady now) fun _ => ?_
  exact (h.chatDo _ _).bind fun _ => h.whenReady now

/-- **The call of `recovery_tick`**: `L` is what it leaves when it asks for a new
multiplexer. -/
theorem tickRecovery {L : ω → Nat → Prop} {now : Nat}
    (hlater : ∀ {w e}, K w e → e ≤ now → L w (now + 300000)) {t : Turn E ω} (ht : Heeds n K t) :
    Ends (tickRecovery env now) t (fun escalates => Heeds n (if escalates then L else K))
      fun _ => Heeds n J := by
  have htick : ∀ t, Heeds n K t → Ends (do
      let r ← Runtime.look id
      if r.state = .multiplexing ∧ r.localCloseAt = none then
        Runtime.sessionDo (Session.recoveryTick (Context.sink env) now)
      else pure false : Act E ω Bool) t (fun escalates => Heeds n (if escalates then L else K))
      fun _ => Heeds n J := by
    intro t ht
    simp only [ends_bind, ends_look, ends_ite]
    split
    · have hsession : Ends (Session.recoveryTick (Context.sink env) now)
          (t.runtime.session, t.runtime.context)
          (fun escalates => Session.Within
            (if escalates then fun ctx e => L ctx.world e else fun ctx e => K ctx.world e))
          fun _ => Session.Within fun ctx e => J ctx.world e := h.sink.recoveryTick hlater ht.kept
      refine ends_sessionDo.mpr (hsession.mono ?_ fun _ _ hst => ⟨hst, ht.lastNow⟩)
      intro escalates st hst
      cases escalates with
      | true => exact ⟨hst, ht.lastNow⟩
      | false => exact ⟨hst, ht.lastNow⟩
    · exact (ends_pure _).mpr ht
  unfold Runtime.tickRecovery
  rw [ends_bind, ends_look]
  dsimp only
  rw [ends_ite]
  split
  · rw [ends_bind, ends_look, ends_bind]
    refine (sessionDo (h.sink.pollTimeout now _) t ht).mono ?_ fun _ _ hJ => hJ
    exact fun _ t' ht' => htick t' ht'
  · exact htick t ht

theorem finishLocalClose (now : Nat) :
    Keeps (Heeds n K) (Heeds n J) (finishLocalClose now : Act E ω Unit) := by
  refine (h.look _).bind fun r => keeps_ite (fun _ => ?_) fun _ => keeps_pure _
  cases Frame.command 0 uih [0xc3, 1] with
  | error e => exact h.throw _
  | ok frame =>
      refine Keeps.bind (onContext fun {e} ctx budget hctx => ?_) fun _ =>
        Keeps.bind (h.change fun _ => rfl) fun _ => h.peerClose now
      unfold Ends
      dsimp only
      cases TransmitQueue.admitFrame frame ctx.tx with
      | ok _ tx => exact hctx
      | error _ tx => exact h.weaken hctx

omit h in
/-- Closing calls nobody, and the cool-down goes on. -/
theorem closeAll_heeded (r : Runtime E ω) : r.closeAll.heeded = r.heeded := by
  have hfold : ∀ (cs : List Dlci) (ctx : Context E ω),
      (cs.foldl (fun ctx c => Context.dropSlot c ctx) ctx).world = ctx.world := by
    intro cs
    induction cs with
    | nil => exact fun _ => rfl
    | cons c rest ih => exact fun ctx => (ih _).trans (dropSlot_world ctx c)
  unfold heeded closeAll
  dsimp only
  rw [hfold]
  rfl

theorem closeTurn (now : Nat) : Keeps (Heeds n K) (Heeds n J) (closeTurn env now) := by
  refine (h.writeSerial now).bind fun _ => (h.look _).bind fun r => ?_
  refine keeps_ite (fun _ => h.change fun r => ?_) fun _ => keeps_pure _
  exact closeAll_heeded r

end Heeded

/-! ### Whole turns -/

/-- The report names the state that the turn ended in. -/
theorem drive_report_state (env : Env E ω) (r : Runtime E ω) (now : Nat) (events : List Ready)
    (limits : Limits) :
    (drive env r now events limits).1.state = (drive env r now events limits).2.state := by
  unfold drive
  split
  · rfl
  dsimp only
  split
  · rfl
  · unfold conclude
    split
    · rfl
    · rfl

/-- The property in the part of a turn that counts stale events. -/
def Attends (n : Nat) (K : ω → Nat → Prop) (s : Turn E ω × Nat) : Prop := Heeds n K s.1

theorem attends_act {α : Type} {n : Nat} {K J : ω → Nat → Prop} {p : Act E ω α}
    (hp : Keeps (Heeds n K) (Heeds n J) p) : Keeps (Attends n K) (Attends n J) (act p) :=
  fun s hs => ends_act.mpr (hp s.1 hs)

theorem attends_addStale {n : Nat} {K J : ω → Nat → Prop} (k : Nat) :
    Keeps (Attends n K) (Attends n J) (addStale k : Service E ω Unit) :=
  fun s hs => (ends_of_ok (rfl : addStale k s = .ok () (s.1, s.2 + k))).mpr hs

namespace Heeded

variable {env : Env E ω} {K J : ω → Nat → Prop} {n : Nat} (h : Heeded env K J)
include h

theorem act_look {α : Type} (f : Runtime E ω → α) :
    Keeps (Attends n K) (Attends n J) (act (Runtime.look f)) := attends_act (h.look f)

theorem act_change {f : Runtime E ω → Runtime E ω} (hf : ∀ r, (f r).heeded = r.heeded) :
    Keeps (Attends n K) (Attends n J) (act (Runtime.change f)) := attends_act (h.change hf)

theorem serveSerial (now : Nat) (event : Ready) :
    Keeps (Attends n K) (Attends n J) (serveSerial env now event) := by
  have hwrite : Keeps (Attends n K) (Attends n J) (act (Runtime.writeSerial env now)) :=
    attends_act (h.writeSerial now)
  refine Keeps.bind (keeps_onlyIf (h.act_change fun _ => rfl)) fun _ => ?_
  refine (h.act_look _).bind fun earlyWrite => ?_
  refine Keeps.bind (keeps_onlyIf (h.act_change fun _ => rfl)) fun _ => ?_
  refine (keeps_onlyIf hwrite).bind fun _ => ?_
  refine (h.act_look _).bind fun state => (h.act_look _).bind fun current => ?_
  refine (keeps_onlyIf (attends_act (h.readSerial now))).bind fun _ => ?_
  refine (h.act_look _).bind fun still => ?_
  refine keeps_ite (fun _ => ?_) fun _ => (attends_addStale 1).bind fun _ => keeps_pure _
  refine (keeps_onlyIf hwrite).bind fun _ => ?_
  exact keeps_ite (fun _ => keeps_throw (fun _ hs => ⟨h.weaken hs.kept, hs.lastNow⟩) _) fun _ => keeps_pure _

theorem serveChannel (c : Dlci) (event : Ready) :
    Keeps (Attends n K) (Attends n J) (serveChannel env c event) := by
  refine (h.act_look _).bind fun r => keeps_ite (fun _ => ?_) fun _ => keeps_pure _
  refine keeps_ite (fun _ => keeps_pure _) fun _ => ?_
  refine (keeps_onlyIf (attends_act (h.drainChannel c))).bind fun _ => ?_
  refine (h.act_look _).bind fun still => ?_
  refine keeps_ite (fun _ => ?_) fun _ => (attends_addStale 1).bind fun _ => keeps_pure _
  refine keeps_ite (fun _ => ?_) fun _ => ?_
  · exact (attends_act (h.readChannel c)).bind fun _ => keeps_pure _
  · exact (keeps_onlyIf (attends_act (h.recreate c))).bind fun _ => keeps_pure _

theorem serveLoop (now callLimit : Nat) (ready : Dlci → Option Ready) (offsets : List Nat) :
    Keeps (Attends n K) (Attends n J) (serveLoop env now callLimit ready offsets) := by
  induction offsets with
  | nil => exact keeps_pure _
  | cons offset rest ih =>
      refine (h.act_look _).bind fun cursor => ?_
      cases hnode : ready (Fin.ofNat 64 (cursor + offset)) with
      | none =>
          simp only [hnode]
          exact ih
      | some event =>
          simp only [hnode]
          refine (h.act_look _).bind fun current => ?_
          refine keeps_ite (fun _ => ?_) fun _ => (attends_addStale 1).bind fun _ => ih
          refine Keeps.bind ?_ fun served => ?_
          · exact keeps_ite (fun _ => h.serveSerial now event) fun _ => h.serveChannel _ event
          refine (attends_act (h.quiet (leaves_spent callLimit))).bind fun finished => ?_
          exact keeps_ite (fun _ => h.act_change fun _ => rfl) fun _ => ih

theorem serveEvents (now : Nat) (events : List Ready) (callLimit : Nat) :
    Keeps (Attends n K) (Attends n J) (serveEvents env now events callLimit) := by
  refine (h.act_look _).bind fun collected => (attends_addStale _).bind fun _ => ?_
  exact (h.serveLoop now callLimit _ _).bind fun _ => attends_act (h.closeTurn now)

theorem turnTick {L : ω → Nat → Prop} {now : Nat}
    (hlater : ∀ {w e}, K w e → e ≤ now → L w (now + 300000)) (events : List Ready) {t : Turn E ω}
    (ht : Heeds n K t) :
    Ends (turnTick env now events) t (fun escalates => Heeds now (if escalates then L else K))
      fun _ _ => True := by
  have hbegun : Heeds now K
      { t with runtime := { t.runtime with lastNow := now, polloutTurn := false } } := ⟨ht.kept, rfl⟩
  unfold Runtime.turnTick
  simp only [ends_bind, ends_look, ends_ite, ends_throw, ends_change, ends_pure]
  split
  · trivial
  split
  · trivial
  split
  · exact hbegun
  · refine (h.tickChat now _ _ hbegun).mono ?_ fun _ _ _ => trivial
    exact fun _ t' ht' => (h.tickRecovery hlater ht').mono (fun _ _ hend => hend)
      fun _ _ _ => trivial

end Heeded

/-- A turn goes on behind the answer of `recovery_tick`. -/
theorem tickSession_eq (env : Env E ω) (now : Nat) : tickSession env now = (do
    if ← tickRecovery env now then closeLocally env now else pure ()) := by
  unfold tickSession tickRecovery
  simp only [bind_assoc]
  congr 1
  funext state
  split
  · simp only [bind_assoc]
    congr 1
    funext pending
    congr 1
    funext timeout
    congr 1
    funext r
    split
    · rfl
    · rfl
  · simp only [bind_assoc]
    congr 1
    funext r
    split
    · rfl
    · rfl

namespace Heeded

variable {env : Env E ω} {K L J : ω → Nat → Prop}

/-- **A turn**, up to the answer of `recovery_tick` and then behind it. -/
theorem runTurn (hK : Heeded env K J) (hL : Heeded env L J) {now : Nat}
    (hlater : ∀ {w e}, K w e → e ≤ now → L w (now + 300000)) (events : List Ready)
    (callLimit stale : Nat) {n : Nat} {t : Turn E ω} (ht : Heeds n K t) :
    Ends (runTurn env now events callLimit) (t, stale)
      (fun _ s => ∃ escalates t', Runtime.turnTick env now events t = .ok escalates t' ∧
        Attends now (if escalates then L else K) s)
      fun _ s => Attends n J s ∨ Attends now J s := by
  unfold Runtime.runTurn
  simp only [ends_bind, ends_act, ends_look, ends_ite, ends_throw, ends_change, id]
  split
  · exact .inl ⟨hK.weaken ht.kept, ht.lastNow⟩
  rename_i hclock
  split
  · exact .inl ⟨hK.weaken ht.kept, ht.lastNow⟩
  rename_i hevents
  generalize hstart : ({ t with runtime :=
    { t.runtime with lastNow := now, polloutTurn := false } } : Turn E ω) = start
  have hbegun : Heeds now K start := hstart ▸ ⟨ht.kept, rfl⟩
  have hturn : Runtime.turnTick env now events t =
      (if start.runtime.state = State.peerClosing ∧
          start.runtime.closeAt.any fun due => decide (now ≥ due) then pure false
        else do
          Runtime.tickChat env now (start.runtime.serialReadable events)
          Runtime.tickRecovery env now : Act E ω Bool) start := by
    subst hstart
    unfold Runtime.turnTick
    show (if now < t.runtime.lastNow then _ else _ : Act E ω Bool) t = _
    rw [if_neg hclock, if_neg hevents]
    rfl
  unfold Runtime.openTurn
  simp only [ends_bind, ends_look, ends_ite, ends_change, ends_pure, id]
  split
  · rename_i hover
    refine ⟨false, start, by rw [hturn, if_pos hover]; rfl, ?_⟩
    exact heeds_of_same hbegun (closeAll_heeded start.runtime)
  rename_i hover
  rw [if_neg hover] at hturn
  -- the tick of the dialogue
  refine ((hK.tickChat now _ start hbegun).traced).mono ?_ fun _ _ hend => .inr hend.2
  rintro ⟨⟩ ticked ⟨hchat, hticked⟩
  have hchat' : Runtime.tickChat env now (start.runtime.serialReadable events) start =
      .ok ⟨⟩ ticked := by
    subst hstart
    exact hchat
  rw [run_bind_ok hchat'] at hturn
  -- the tick of the session, and its answer
  rw [tickSession_eq, ends_bind]
  refine ((hK.tickRecovery hlater hticked).traced).mono ?_ fun _ _ hend => .inr hend.2
  rintro escalates t' ⟨htick, ht'⟩
  rw [htick] at hturn
  have hM : Heeded env (if escalates then L else K) J := by
    cases escalates with
    | true => exact hL
    | false => exact hK
  refine Ends.mono (keeps_ite (fun _ => hM.closeLocally now) (fun _ => keeps_pure _) t' ht') ?_
    fun _ _ hend => .inr hend
  intro _ t₁ ht₁
  refine (hM.finishLocalClose now t₁ ht₁).mono ?_ fun _ _ hend => .inr hend
  intro _ t₂ ht₂
  rw [if_neg Bool.false_ne_true]
  refine Ends.mono (hM.serveEvents now events callLimit (t₂, stale) ht₂) ?_ fun _ _ hend => .inr hend
  exact fun _ s hs => ⟨escalates, t', hturn, hs⟩

/-- **A turn of the runtime.** Unless the runtime has failed, everything was accepted, and
`L` holds if the turn asked for a new multiplexer; in any case `J` is left. -/
theorem drive (hK : Heeded env K J) (hL : Heeded env L J) {now : Nat}
    (hlater : ∀ {w e}, K w e → e ≤ now → L w (now + 300000)) (events : List Ready)
    (limits : Limits) {r : Runtime E ω} (hr : K r.context.world r.session.escalationAfter) :
    let after := (drive env r now events limits).2
    (after.state ≠ .failed → (if escalates env r now events limits then L else K)
        after.context.world after.session.escalationAfter) ∧
      J after.context.world after.session.escalationAfter ∧
      (after.lastNow = r.lastNow ∨ after.lastNow = now) := by
  intro after
  -- closing leaves what is looked at
  have hfail : ∀ (r : Runtime E ω) (e : Error), J r.context.world r.session.escalationAfter →
      J (r.fail e).context.world (r.fail e).session.escalationAfter ∧
        (r.fail e).lastNow = r.lastNow := by
    intro r e hr
    have hsame := closeAll_heeded { r with error := some e, state := .failed }
    simp only [heeded, Prod.mk.injEq] at hsame
    obtain ⟨hworld, hcooldown, hnow⟩ := hsame
    unfold Runtime.fail
    rw [hworld, hcooldown]
    exact ⟨hr, hnow⟩
  by_cases hover : r.state = .closed ∨ r.state = .failed
  · have hafter : after = r := by
      show (Runtime.drive env r now events limits).2 = r
      unfold Runtime.drive
      rw [if_pos hover]
    rw [hafter]
    unfold Runtime.escalates
    rw [if_pos hover]
    exact ⟨fun _ => hr, hK.weaken hr, .inl rfl⟩
  cases hbudget : TurnBudget.new limits.calls limits.bytes with
  | error e =>
      have hafter : after = fail { r with context := { r.context with discarded := 0 } }
          .configuration := by
        show (Runtime.drive env r now events limits).2 = _
        unfold Runtime.drive
        rw [if_neg hover]
        simp only [hbudget]
      rw [hafter]
      refine ⟨fun hstate => absurd rfl hstate, ?_⟩
      obtain ⟨hJ, hnow⟩ := hfail { r with context := { r.context with discarded := 0 } }
        .configuration (hK.weaken hr)
      exact ⟨hJ, .inl hnow⟩
  | ok budget =>
      generalize hturn : (⟨{ r with context := { r.context with discarded := 0 } }, budget, 0⟩ :
        Turn E ω) = t
      have ht : Heeds r.lastNow K t := hturn ▸ ⟨hr, rfl⟩
      have hafter : after = (conclude (Runtime.runTurn env now events limits.calls (t, 0))).2 := by
        show (Runtime.drive env r now events limits).2 = _
        unfold Runtime.drive
        rw [if_neg hover]
        simp only [hbudget, hturn]
      have hrun := runTurn hK hL hlater events limits.calls 0 ht
      rw [hafter]
      cases hresult : Runtime.runTurn env now events limits.calls (t, 0) with
      | error e s =>
          refine ⟨fun hstate => absurd rfl hstate, ?_⟩
          rcases (ends_of_error hresult).mp hrun with hJ | hJ
          · obtain ⟨hkept, hnow⟩ := hfail s.1.runtime e hJ.kept
            exact ⟨hkept, .inl (hnow.trans hJ.lastNow)⟩
          · obtain ⟨hkept, hnow⟩ := hfail s.1.runtime e hJ.kept
            exact ⟨hkept, .inr (hnow.trans hJ.lastNow)⟩
      | ok _ s =>
          obtain ⟨answer, t', htick, hs⟩ := (ends_of_ok hresult).mp hrun
          have hanswer : Runtime.escalates env r now events limits = answer := by
            unfold Runtime.escalates
            rw [if_neg hover]
            simp only [hbudget, hturn, htick]
          rw [hanswer]
          refine ⟨fun _ => hs.kept, ?_, .inr hs.lastNow⟩
          cases answer with
          | true => exact hL.weaken hs.kept
          | false => exact hK.weaken hs.kept

/-- A fresh runtime has prepared its serial line and taken a token; its cool-down is over, and
its clock starts at `now`. A failure leaves what it has done to the world. -/
theorem new (h : Heeded env K J) (serial : E) (channels : List ChannelConfig)
    (config : Chat.Config) (now generation nextWrite : Nat) {w : ω} (hw : K w 0) :
    let made := Runtime.new env serial channels config now w generation nextWrite
    K made.2 0 ∧ ∀ r, made.1 = .ok r →
      r.context.world = made.2 ∧ r.session.escalationAfter = 0 ∧ r.lastNow = now := by
  intro made
  have hprepare : K (env.prepare serial w).2 0 := h.prepare hw
  have hmade : made = Runtime.new env serial channels config now w generation nextWrite := rfl
  -- The cases are the places where `new` may fail.
  clear_value made
  unfold Runtime.new at hmade
  split at hmade
  · subst hmade
    exact ⟨hw, fun r hr => by cases hr⟩
  rename_i session chat hparts
  obtain ⟨layout, rfl⟩ := newParts_session hparts
  split at hmade
  · rename_i w' hprepared
    rw [hprepared] at hprepare
    subst hmade
    exact ⟨hprepare, fun r hr => by cases hr⟩
  rename_i w' hprepared
  rw [hprepared] at hprepare
  split at hmade
  · subst hmade
    exact ⟨hprepare, fun r hr => by cases hr⟩
  rename_i tx _
  dsimp only at hmade
  -- The last effect on the world is the token of the serial line.
  have hepoch : K (Context.replaceEpoch env .serial (env.descriptor serial)
      ⟨tx, fun _ => none, .default, generation, config.frameLimit, 0, w', []⟩).2.world 0 :=
    h.replaceEpoch hprepare _ _
  split at hmade
  · rename_i context hreplace
    rw [hreplace] at hepoch
    subst hmade
    exact ⟨hepoch, fun r hr => by cases hr⟩
  rename_i token context hreplace
  rw [hreplace] at hepoch
  split at hmade
  · subst hmade
    exact ⟨hepoch, fun r hr => by cases hr⟩
  · subst hmade
    refine ⟨hepoch, fun r hr => ?_⟩
    cases hr
    exact ⟨rfl, rfl, rfl⟩

/-- The cool-down is over when a turn asks for a new multiplexer. -/
theorem escalates_due (hK : Heeded env K J) {now : Nat} {P : Prop}
    (hdue : ∀ {w e}, K w e → e ≤ now → P) {events : List Ready} {limits : Limits}
    {r : Runtime E ω} (hr : K r.context.world r.session.escalationAfter)
    (hescalates : escalates env r now events limits = true) : P := by
  unfold Runtime.escalates at hescalates
  split at hescalates
  · cases hescalates
  split at hescalates
  · cases hescalates
  rename_i budget hbudget
  split at hescalates
  · rename_i answer t' htick
    subst hescalates
    exact ((ends_of_ok htick).mp (hK.turnTick (L := fun _ _ => P) hdue events ⟨hr, rfl⟩)).kept
  · cases hescalates

end Heeded

end Runtime

end Mindone.Mux
