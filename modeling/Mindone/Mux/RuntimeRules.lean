import Mindone.Mux.ContextLedger
import Mindone.Mux.Runtime
import Mindone.Mux.SessionEndpoints

/-!
# Mindone.Mux.RuntimeRules

**How to prove an invariant of the runtime.** An invariant speaks of the `View`: the
session, the slots and the epochs with their history, and the few fields that decide
which operations run. Everything else a turn does leaves the view alone. `Rules` lists
what is left to show, one rule for each thing that changes the view; from these,
`runTurn_keeps`, `drive_keeps` and `run_keeps` follow once and for all.
-/

namespace Mindone.Mux.Runtime

open Mindone.Lib Transport

variable {E ω : Type}

/-- The part of a runtime that its invariants speak of. -/
structure View (E : Type) where
  session : Session
  ledger : Ledger E
  serialToken : Option PollToken
  state : State
  localCloseAt : Option Nat

def view (r : Runtime E ω) : View E :=
  ⟨r.session, r.context.ledger, r.serialToken, r.state, r.localCloseAt⟩

/-- An invariant of the view, as one of turns. -/
def Turn.Within (I : View E → Prop) (t : Turn E ω) : Prop := I t.runtime.view

/-- The session of a new runtime has not been used. -/
theorem newParts_session {channels : List ChannelConfig} {config : Chat.Config}
    {now nextWrite : Nat} {session : Session} {chat : Chat.Controller}
    (h : newParts channels config now nextWrite = .ok (session, chat)) :
    ∃ layout, session = Session.initial layout config.frameLimit := by
  simp only [newParts, bind, Except.bind, pure, Except.pure, throw, throwThe,
    MonadExceptOf.throw] at h
  split_ifs at h
  cases hsession : Session.new channels config.frameLimit with
  | error e =>
      rw [hsession] at h
      cases h
  | ok session' =>
      rw [hsession] at h
      dsimp only [Except.mapError] at h
      split at h
      · cases h
      · cases h
        exact Session.new_initial hsession

/-! ### The primitives of a turn -/

section Primitives

variable {α : Type} {t : Turn E ω} {Q : α → Turn E ω → Prop} {F : Error → Turn E ω → Prop}

@[simp] theorem ends_look {f : Runtime E ω → α} : Ends (look f) t Q F ↔ Q (f t.runtime) t :=
  ends_of_ok rfl

@[simp] theorem ends_change {f : Runtime E ω → Runtime E ω} {Q : Unit → Turn E ω → Prop} :
    Ends (change f) t Q F ↔ Q () { t with runtime := f t.runtime } := ends_of_ok rfl

@[simp] theorem ends_countFrame {Q : Unit → Turn E ω → Prop} :
    Ends countFrame t Q F ↔ Q () { t with frames := t.frames + 1 } := ends_of_ok rfl

/-- The turn with another context and budget. -/
def Turn.put (t : Turn E ω) (s : Context E ω × TurnBudget) : Turn E ω :=
  { t with runtime := { t.runtime with context := s.1 }, budget := s.2 }

theorem ends_onContext {p : EStateM Error (Context E ω × TurnBudget) α} :
    Ends (onContext p) t Q F ↔ Ends p (t.runtime.context, t.budget)
      (fun a s => Q a (t.put s)) fun e s => F e (t.put s) := by
  cases hp : p (t.runtime.context, t.budget) with
  | ok a s =>
      have hresult : onContext p t = .ok a (t.put s) := by simp only [onContext, hp]; rfl
      rw [ends_of_ok hresult, ends_of_ok hp]
  | error e s =>
      have hresult : onContext p t = .error e (t.put s) := by simp only [onContext, hp]; rfl
      rw [ends_of_error hresult, ends_of_error hp]

/-- The turn after an operation of the session. -/
def Turn.perform (t : Turn E ω) (st : Session × Context E ω) : Turn E ω :=
  { t with runtime := { t.runtime with
    session := st.1
    context := st.2.noteOpened t.runtime.session st.1 } }

theorem ends_sessionDo {op : Session.Op (Context E ω) α} :
    Ends (sessionDo op) t Q F ↔ Ends op (t.runtime.session, t.runtime.context)
      (fun a st => Q a (t.perform st)) fun e st => F (.session e) (t.perform st) := by
  cases hp : op (t.runtime.session, t.runtime.context) with
  | ok a st =>
      have hresult : sessionDo op t = .ok a (t.perform st) := by simp only [sessionDo, hp]; rfl
      rw [ends_of_ok hresult, ends_of_ok hp]
  | error e st =>
      have hresult : sessionDo op t = .error (.session e) (t.perform st) := by
        simp only [sessionDo, hp]; rfl
      rw [ends_of_error hresult, ends_of_error hp]

/-- The turn with another state of the dialogue. -/
def Turn.say (t : Turn E ω) (chat : Chat.Controller) : Turn E ω :=
  { t with runtime := { t.runtime with chat } }

theorem ends_chatDo {wrap : Chat.Error → Error} {step : Chat.Step α} :
    Ends (chatDo wrap step) t Q F ↔ Ends step t.runtime.chat (fun a chat => Q a (t.say chat))
      fun e chat => F (wrap e) (t.say chat) := by
  cases hstep : step t.runtime.chat with
  | ok a chat =>
      have hresult : chatDo wrap step t = .ok a (t.say chat) := by simp only [chatDo, hstep]; rfl
      rw [ends_of_ok hresult, ends_of_ok hstep]
  | error e chat =>
      have hresult : chatDo wrap step t = .error (wrap e) (t.say chat) := by
        simp only [chatDo, hstep]; rfl
      rw [ends_of_error hresult, ends_of_error hstep]

end Primitives

/-! ### Acts that leave something alone -/

section Leaves

variable {α β γ : Type} {g : Runtime E ω → γ}

/-- The act leaves `g` of the runtime alone, however it ends. -/
def Leaves (g : Runtime E ω → γ) (p : Act E ω α) : Prop :=
  ∀ t, Ends p t (fun _ t' => g t'.runtime = g t.runtime) fun _ t' => g t'.runtime = g t.runtime

theorem leaves_pure (a : α) : Leaves g (pure a : Act E ω α) := fun _ => (ends_pure a).mpr rfl

theorem leaves_throw (e : Error) : Leaves g (throw e : Act E ω α) :=
  fun _ => (ends_throw e).mpr rfl

theorem leaves_look (f : Runtime E ω → α) : Leaves g (look f) := fun _ => ends_look.mpr rfl

theorem leaves_change {f : Runtime E ω → Runtime E ω} (h : ∀ r, g (f r) = g r) :
    Leaves g (change f) := fun _ => ends_change.mpr (h _)

theorem Leaves.bind {p : Act E ω α} {f : α → Act E ω β} (hp : Leaves g p)
    (hf : ∀ a, Leaves g (f a)) : Leaves g (p >>= f) := by
  intro t
  refine ends_bind.mpr ((hp t).mono ?_ fun _ _ h => h)
  intro a t' hsame
  exact (hf a t').mono (fun _ _ h => h.trans hsame) fun _ _ h => h.trans hsame

theorem leaves_ite {c : Prop} [Decidable c] {p q : Act E ω α} (hp : Leaves g p) (hq : Leaves g q) :
    Leaves g (if c then p else q) := by
  split
  · exact hp
  · exact hq

theorem leaves_forM {body : α → Act E ω Unit} (hbody : ∀ x, Leaves g (body x)) (xs : List α) :
    Leaves g (xs.forM body) := by
  induction xs with
  | nil => exact leaves_pure _
  | cons x rest ih => exact (hbody x).bind fun _ => ih

theorem leaves_after (now duration : Nat) : Leaves g (after now duration : Act E ω Nat) := by
  unfold after
  split
  · exact leaves_throw _
  · exact leaves_pure _

theorem leaves_sessionDo {op : Session.Op (Context E ω) α}
    (hg : ∀ (r : Runtime E ω) session context, g { r with session, context } = g r) :
    Leaves g (sessionDo op) :=
  fun _ => ends_sessionDo.mpr ((ends_true _ _).mono (fun _ _ _ => hg ..) fun _ _ _ => hg ..)

theorem leaves_onContext {p : EStateM Error (Context E ω × TurnBudget) α}
    (hg : ∀ (r : Runtime E ω) context, g { r with context } = g r) : Leaves g (onContext p) :=
  fun _ => ends_onContext.mpr ((ends_true _ _).mono (fun _ _ _ => hg ..) fun _ _ _ => hg ..)

/-- A payload moves bytes and tells the session. -/
theorem leaves_data (hg : ∀ (r : Runtime E ω) session context, g { r with session, context } = g r)
    (env : Env E ω) (c : Dlci) (payload : List UInt8) : Leaves g (data env c payload) := by
  refine (leaves_onContext fun r context => hg r r.session context).bind fun delivery => ?_
  cases delivery with
  | buffered => exact leaves_sessionDo hg
  | recreate => exact leaves_sessionDo hg
  | done => exact leaves_pure _

/-- **A frame** changes the session and the context only. -/
theorem leaves_dispatch
    (hg : ∀ (r : Runtime E ω) session context, g { r with session, context } = g r)
    (env : Env E ω) (frame : Frame) : Leaves g (dispatch env frame) := by
  have hcontrol : ∀ input, Leaves g (control env input) := by
    intro input
    refine (leaves_look _).bind fun frameLimit => ?_
    cases Mcc.prepare input frameLimit (List.replicate maxPayload 0) with
    | error e => exact leaves_throw _
    | ok prepared =>
        have heffect : Leaves g (takeEffect prepared.effect : Act E ω Bool) := by
          cases prepared.effect with
          | peerClosing => exact leaves_pure _
          | none => exact leaves_pure _
          | peerSignals channel signals =>
              exact (leaves_sessionDo hg).bind fun _ => leaves_pure _
        cases hreply : prepared.reply with
        | none =>
            simp only [hreply]
            exact heffect
        | some reply =>
            simp only [hreply]
            exact (leaves_sessionDo hg).bind fun _ => heffect
  refine (leaves_sessionDo hg).bind fun handoff => Leaves.bind ?_ fun finished => ?_
  · cases handoff with
    | none => exact leaves_pure _
    | control input => exact hcontrol input
    | data c payload => exact (leaves_data hg env c payload).bind fun _ => leaves_pure _
    | endpointMissing c bytes =>
        exact (leaves_change fun r => hg r r.session _).bind fun _ => leaves_pure _
  · refine leaves_ite (leaves_pure _) ((leaves_look _).bind fun session => ?_)
    cases session.phase with
    | closing => exact leaves_ite (leaves_pure _) (leaves_throw _)
    | _ => exact leaves_pure _

theorem leaves_spent (callLimit : Nat) : Leaves g (spent callLimit : Act E ω Bool) := by
  intro t
  have hresult : (spent callLimit : Act E ω Bool) t =
      .ok (t.budget.calls == callLimit || t.budget.availableBytes == 0) t := rfl
  exact (ends_of_ok hresult).mpr rfl

theorem leaves_theSerial : Leaves g (theSerial : Act E ω E) := by
  refine (leaves_look _).bind fun serial => ?_
  cases serial with
  | none => exact leaves_throw _
  | some serial => exact leaves_pure _

end Leaves

/-! ### Acts that leave the view alone -/

section Silent

variable {α β : Type}

/-- The act leaves the view alone. -/
abbrev Silent (p : Act E ω α) : Prop := Leaves view p

theorem Leaves.keeps {p : Act E ω α} (h : Silent p) {I J : View E → Prop}
    (hJ : ∀ v, I v → J v) : Keeps (Turn.Within I) (Turn.Within J) p := by
  intro t ht
  refine (h t).mono ?_ ?_
  · intro _ t' hview
    unfold Turn.Within
    rw [hview]
    exact ht
  · intro _ t' hview
    unfold Turn.Within
    rw [hview]
    exact hJ _ ht

theorem silent_chatDo (wrap : Chat.Error → Error) (step : Chat.Step α) :
    Silent (chatDo wrap step : Act E ω α) :=
  fun _ => ends_chatDo.mpr ((ends_true _ _).mono (fun _ _ _ => rfl) fun _ _ _ => rfl)

theorem view_put {t : Turn E ω} {s : Context E ω × TurnBudget}
    (h : s.1.ledger = t.runtime.context.ledger) : (t.put s).runtime.view = t.runtime.view := by
  unfold view Turn.put
  rw [h]

/-- Reading, writing and queueing leave the ledger alone. -/
theorem silent_onContext {p : EStateM Error (Context E ω × TurnBudget) α}
    (h : ∀ ctx budget, (endState (p (ctx, budget))).1.ledger = ctx.ledger) :
    Silent (onContext p) := by
  intro t
  refine ends_onContext.mpr ?_
  have hends := (ends_endState (p := p)
    (P := fun s : Context E ω × TurnBudget => s.1.ledger = t.runtime.context.ledger)).mpr
      (h t.runtime.context t.budget)
  exact hends.mono (fun _ _ hsame => view_put hsame) fun _ _ hsame => view_put hsame

variable (env : Env E ω)

theorem silent_readTurn (endpoint : E) (size requested : Nat) :
    Silent (readTurn env endpoint size requested) := by
  refine silent_onContext fun ctx budget => ?_
  dsimp only
  split <;> rfl

theorem silent_writeTurn (endpoint : E) (bytes : List UInt8) :
    Silent (writeTurn env endpoint bytes) := by
  refine silent_onContext fun ctx budget => ?_
  dsimp only
  split <;> rfl

theorem silent_forward (c : Dlci) (input : List UInt8) :
    Silent (forward c input : Act E ω Unit) := by
  refine silent_onContext fun ctx budget => ?_
  dsimp only
  split <;> rfl

theorem silent_backOff (now : Nat) : Silent (backOff now : Act E ω Unit) :=
  (leaves_after now retryMs).bind fun _ => leaves_change fun _ => rfl

theorem silent_startupLoop (now n : Nat) : Silent (startupLoop env now n) := by
  induction n with
  | zero => exact leaves_pure _
  | succ n ih =>
      refine (leaves_look _).bind fun chat => ?_
      cases chat.pendingWrite with
      | none => exact leaves_pure _
      | some request =>
          refine leaves_theSerial.bind fun serial => ?_
          refine (silent_writeTurn env serial request.bytes).bind fun result => ?_
          match result with
          | none => exact leaves_pure _
          | some (.transferred bytes) => exact (silent_chatDo _ _).bind fun _ => ih
          | some (.fault fault) =>
              exact (silent_chatDo _ _).bind fun _ => leaves_ite (silent_backOff now) ih

theorem silent_writeStartup (now : Nat) : Silent (writeStartup env now) :=
  (leaves_look _).bind fun _ => leaves_ite (leaves_pure _) (silent_startupLoop env now 8)

theorem silent_flushTx (now : Nat) : Silent (flushTx env now) := by
  refine (leaves_look _).bind fun r => leaves_ite (leaves_pure _) ?_
  refine leaves_theSerial.bind fun serial => ?_
  refine Leaves.bind (silent_onContext fun ctx budget => rfl) fun report => ?_
  cases report.stop with
  | complete => exact leaves_pure _
  | yielded => exact leaves_pure _
  | blocked => exact silent_backOff now
  | deviceReset =>
      refine Leaves.bind (silent_onContext fun ctx budget => rfl) fun _ => ?_
      exact leaves_ite (leaves_pure _) (leaves_throw _)
  | endOfStream => exact leaves_throw _
  | failure => exact leaves_throw _
  | noProgress => exact leaves_throw _
  | invalidProgress => exact leaves_throw _
  | rejected => exact leaves_throw _
  | invalidBuffer => exact leaves_throw _

theorem silent_writeSerial (now : Nat) : Silent (writeSerial env now) := by
  refine (leaves_look _).bind fun state => ?_
  cases state with
  | startup => exact silent_writeStartup env now
  | multiplexing => exact silent_flushTx env now
  | peerClosing => exact silent_flushTx env now
  | closed => exact leaves_pure _
  | failed => exact leaves_pure _

end Silent

/-! ### The rules -/

/-- What is to be shown of an invariant `I` of the runtime, with `J` what an error may
leave of it. -/
structure Rules (env : Env E ω) (I J : View E → Prop) : Prop where
  weaken : ∀ v, I v → J v
  /-- A frame from the peer; during a local close only `UA` frames are looked at. -/
  receive : ∀ {t : Turn E ω} {frame : Frame}, Turn.Within I t →
    (t.runtime.localCloseAt.isSome = true → frame.kind = ua) →
    Ends (sessionDo (Session.receive (Context.sink env) frame)) t (fun _ => Turn.Within I)
      fun _ => Turn.Within J
  sendControl : ∀ {reply : Mcc.Reply}, reply.Answers →
    Keeps (Turn.Within I) (Turn.Within J)
      (sessionDo (Session.sendControl (Context.sink env) reply.control reply.payload))
  applyPeerSignals : ∀ channel signals, Keeps (Turn.Within I) (Turn.Within J)
    (sessionDo (Session.applyPeerSignals channel signals) : Act E ω Unit)
  data : ∀ {t : Turn E ω} {c : Dlci} {payload : List UInt8}, Turn.Within I t →
    t.runtime.session.HandsOver c payload →
    Ends (data env c payload) t (fun _ => Turn.Within I) fun _ => Turn.Within J
  enterMux : ∀ now, Keeps (Turn.Within I) (Turn.Within J) (enterMux env now)
  pollTimeout : ∀ now pending,
    Keeps (Turn.Within I) (Turn.Within J)
      (sessionDo (Session.pollTimeout now pending) : Act E ω (Option Nat))
  /-- Retries are sent only while no local close is under way. -/
  recoveryTick : ∀ {t : Turn E ω} {now : Nat}, Turn.Within I t →
    t.runtime.localCloseAt = none →
    Ends (sessionDo (Session.recoveryTick (Context.sink env) now)) t (fun _ => Turn.Within I)
      fun _ => Turn.Within J
  closeLocally : ∀ now, Keeps (Turn.Within I) (Turn.Within J) (closeLocally env now)
  peerClose : ∀ now, Keeps (Turn.Within I) (Turn.Within J) (peerClose now : Act E ω Unit)
  finishClose : ∀ now, Keeps (Turn.Within I) (Turn.Within J) (do
    change fun r => { r with localCloseAt := none }
    Runtime.peerClose now : Act E ω Unit)
  applicationInput : ∀ c, Keeps (Turn.Within I) (Turn.Within J)
    (sessionDo (Session.applicationInput (number c)) : Act E ω ApplicationInput)
  recreate : ∀ c, Keeps (Turn.Within I) (Turn.Within J) (recreate env c)
  drainChannel : ∀ c, Keeps (Turn.Within I) (Turn.Within J) (drainChannel env c)
  closeAll : ∀ (r : Runtime E ω) (state : State), J r.view → I { r.closeAll with state }.view

/-- The local close: while channels are disconnected one by one, `K` holds. -/
theorem keeps_closeLocally {env : Env E ω} {I K J : View E → Prop} (hstart : ∀ v, I v → K v)
    (herr : ∀ v, K v → J v)
    (hdisconnect : ∀ c, Keeps (Turn.Within K) (Turn.Within J)
      (sessionDo (Session.requestDisconnect (Context.sink env) (number c))))
    (hend : ∀ v due, K v → I { v with localCloseAt := some due }) (now : Nat) :
    Keeps (Turn.Within I) (Turn.Within J) (closeLocally env now) := by
  have hall : Keeps (Turn.Within K) (Turn.Within J) (disconnectOpen env) := by
    refine keeps_forM (fun c => ?_) _
    refine ((leaves_look _).keeps herr).bind fun session => ?_
    exact keeps_ite (fun _ => hdisconnect c) fun _ => (leaves_pure _).keeps herr
  intro t ht
  unfold closeLocally
  rw [ends_bind]
  refine (hall t (hstart _ ht)).mono ?_ fun _ _ hJ => hJ
  intro _ t' ht'
  rw [ends_bind]
  refine ((leaves_after now 2000).keeps herr t' ht').mono ?_ fun _ _ hJ => hJ
  intro due t'' ht''
  exact ends_change.mpr (hend _ due ht'')

namespace Rules

variable {env : Env E ω} {I J : View E → Prop} (h : Rules env I J)

include h

theorem silent {α : Type} {p : Act E ω α} (hp : Silent p) :
    Keeps (Turn.Within I) (Turn.Within J) p := hp.keeps h.weaken

theorem change {f : Runtime E ω → Runtime E ω} (hf : ∀ r, (f r).view = r.view) :
    Keeps (Turn.Within I) (Turn.Within J) (change f) := h.silent (leaves_change hf)

theorem control (input : List UInt8) :
    Keeps (Turn.Within I) (Turn.Within J) (control env input) := by
  refine (h.silent (leaves_look _)).bind fun frameLimit => ?_
  cases hprepare : Mcc.prepare input frameLimit (List.replicate maxPayload 0) with
  | error e => exact h.silent (leaves_throw _)
  | ok prepared =>
      have heffect : Keeps (Turn.Within I) (Turn.Within J) (takeEffect prepared.effect : Act E ω Bool) := by
        cases prepared.effect with
        | peerClosing => exact h.silent (leaves_pure _)
        | none => exact h.silent (leaves_pure _)
        | peerSignals channel signals =>
            exact (h.applyPeerSignals channel signals).bind fun _ => h.silent (leaves_pure _)
      cases hreply : prepared.reply with
      | none =>
          simp only [hreply]
          exact heffect
      | some reply =>
          simp only [hreply]
          exact (h.sendControl (Mcc.prepare_answers hprepare hreply)).bind fun _ => heffect

/-- A frame is received, and what the session hands over is taken care of. -/
theorem dispatch {t : Turn E ω} {frame : Frame} (ht : Turn.Within I t)
    (hguard : t.runtime.localCloseAt.isSome = true → frame.kind = ua) :
    Ends (dispatch env frame) t (fun _ => Turn.Within I) fun _ => Turn.Within J := by
  have hphase : ∀ closing : Bool, Keeps (Turn.Within I) (Turn.Within J) (closes closing : Act E ω Bool) := by
    intro closing
    refine keeps_ite (fun _ => h.silent (leaves_pure _)) fun _ => ?_
    refine (h.silent (leaves_look _)).bind fun session => ?_
    cases session.phase with
    | closing =>
        exact keeps_ite (fun _ => h.silent (leaves_pure _)) fun _ => h.silent (leaves_throw _)
    | _ => exact h.silent (leaves_pure _)
  unfold Runtime.dispatch
  rw [ends_bind]
  have hdata : Ends (sessionDo (Session.receive (Context.sink env) frame)) t
      (fun handoff t' => ∀ c payload, handoff = .data c payload →
        t'.runtime.session.HandsOver c payload) fun _ _ => True := by
    refine ends_sessionDo.mpr ((Session.receive_data _ _ frame).mono ?_ fun _ _ _ => trivial)
    intro handoff st hst c payload heq
    obtain ⟨hands, echo, rfl⟩ := hst c payload heq
    exact ⟨hands.talking, hands.configured, hands.ne_zero, hands.present, hands.isOpen,
      hands.length⟩
  refine ((h.receive ht hguard).and hdata).mono ?_ fun _ _ hend => hend.1
  rintro handoff t' ⟨ht', hhands⟩
  rw [ends_bind]
  cases handoff with
  | none => exact (ends_pure _).mpr (hphase false t' ht')
  | control input => exact (h.control input t' ht').mono (hphase ·) fun _ _ hJ => hJ
  | endpointMissing c bytes =>
      simp only [handOver, ends_bind, ends_change, ends_pure]
      exact hphase false _ ht'
  | data c payload =>
      simp only [handOver, ends_bind, ends_pure]
      exact (h.data ht' (hhands c payload rfl)).mono (fun _ => hphase false) fun _ _ hJ => hJ

/-- The loop over the frames: the guard of a local close is looked up for each. -/
theorem framesLoop (now : Nat) (d : Decoder rxBytes) :
    Keeps (Turn.Within I) (Turn.Within J) (framesLoop env now d) := by
  intro t ht
  induction hn : d.length - d.consumed using Nat.strong_induction_on generalizing d t with
  | _ n ih =>
      unfold Runtime.framesLoop
      split
      · exact ends_change.mpr ht
      · rename_i frame d' hnext
        have hlt := Decoder.nextFrame_lt hnext
        have hagain : ∀ t : Turn E ω, Turn.Within I t →
            Ends (Runtime.framesLoop env now d') t (fun _ => Turn.Within I)
              fun _ => Turn.Within J := fun t ht => ih _ (hn ▸ hlt) d' t ht rfl
        simp only [ends_bind, ends_change, ends_countFrame, ends_look, ends_ite]
        split
        · exact hagain _ ht
        · rename_i hguard
          have hdispatch : ∀ s : Turn E ω, s.runtime.view = t.runtime.view →
              Ends (Runtime.dispatch env frame) s (fun _ => Turn.Within I)
                fun _ => Turn.Within J := by
            intro s hs
            refine h.dispatch (by rw [Turn.Within, hs]; exact ht) fun hclosing => ?_
            have hsame : s.runtime.localCloseAt = t.runtime.localCloseAt :=
              congrArg View.localCloseAt hs
            rw [hsame] at hclosing
            by_contra hkind
            exact hguard ⟨hclosing, hkind⟩
          refine Ends.mono (hdispatch _ ?_) ?_ fun _ _ hJ => hJ
          · rfl
          · intro closing t' ht'
            split
            · exact h.peerClose now t' ht'
            · split
              · exact h.closeLocally now t' ht'
              · exact hagain t' ht'

theorem frames (now : Nat) : Keeps (Turn.Within I) (Turn.Within J) (frames env now) :=
  (h.silent (leaves_look _)).bind fun d => h.framesLoop now d

theorem beginMux (now : Nat) : Keeps (Turn.Within I) (Turn.Within J) (beginMux env now) := by
  refine (h.enterMux now).bind fun _ => (h.silent (leaves_look _)).bind fun r => ?_
  cases r.decoder.push r.heldTail with
  | error e => exact h.silent (leaves_throw _)
  | ok decoder =>
      refine Keeps.bind (h.change ?_) fun _ => h.frames now
      exact fun _ => rfl

theorem feedChat (now : Nat) (input : List UInt8) :
    Keeps (Turn.Within I) (Turn.Within J) (feedChat env now input) := by
  refine (h.silent (silent_chatDo _ _)).bind fun fed => ?_
  have hready : Keeps (Turn.Within I) (Turn.Within J) (do
      if (← look (·.chat.phase)) = .ready then Runtime.beginMux env now else pure ()) :=
    (h.silent (leaves_look _)).bind fun _ =>
      keeps_ite (fun _ => h.beginMux now) fun _ => h.silent (leaves_pure _)
  cases fed.muxTail with
  | none => exact hready
  | some tail =>
      refine (h.silent (leaves_look _)).bind fun held => ?_
      refine keeps_ite (fun _ => (h.silent (leaves_throw _)).bind fun _ => hready) fun _ => ?_
      refine Keeps.bind (h.change ?_) fun _ => hready
      exact fun _ => rfl

theorem readSerial (now : Nat) : Keeps (Turn.Within I) (Turn.Within J) (readSerial env now) := by
  refine (h.silent (leaves_look _)).bind fun r => ?_
  refine keeps_ite (fun _ => h.silent (leaves_pure _)) fun _ => ?_
  refine (h.silent leaves_theSerial).bind fun serial => ?_
  refine (h.silent (silent_readTurn env serial _ _)).bind fun result => ?_
  match result with
  | none => exact h.silent (leaves_pure _)
  | some (.transferred n, input) =>
      refine keeps_ite (fun _ => h.silent (leaves_throw _)) fun _ => ?_
      refine keeps_ite (fun _ => h.feedChat now input) fun _ => ?_
      cases r.decoder.push input with
      | error e => exact h.silent (leaves_throw _)
      | ok decoder =>
          refine Keeps.bind (h.change ?_) fun _ => h.frames now
          exact fun _ => rfl
  | some (.fault .interrupted, _) => exact h.silent (leaves_pure _)
  | some (.fault .wouldBlock, _) => exact h.silent (leaves_pure _)
  | some (.fault .busy, _) | some (.fault .endOfStream, _) | some (.fault .deviceReset, _)
  | some (.fault .failure, _) =>
      exact h.silent (leaves_ite (silent_chatDo _ _) (leaves_throw _))

/-- A read of a channel. -/
theorem readChannel (c : Dlci) : Keeps (Turn.Within I) (Turn.Within J) (readChannel env c) := by
  refine (h.silent (leaves_look _)).bind fun r => ?_
  refine keeps_ite (fun _ => h.silent (leaves_pure _)) fun _ => ?_
  cases (r : Runtime E ω).context.slots c with
  | none => exact h.silent (leaves_throw _)
  | some slot =>
      refine (h.silent (silent_readTurn env slot.endpoint _ _)).bind fun result => ?_
      match result with
      | none => exact h.silent (leaves_pure _)
      | some (.transferred n, input) =>
          refine keeps_ite (fun _ => h.recreate c) fun _ => ?_
          refine (h.applicationInput c).bind fun answer => ?_
          cases answer with
          | forward => exact h.silent (silent_forward c input)
          | reportRefusal =>
              refine h.change ?_
              exact fun _ => rfl
          | discard =>
              refine h.change ?_
              exact fun _ => rfl
      | some (.fault .interrupted, _) => exact h.silent (leaves_pure _)
      | some (.fault .wouldBlock, _) => exact h.silent (leaves_pure _)
      | some (.fault .busy, _) | some (.fault .endOfStream, _) | some (.fault .deviceReset, _)
      | some (.fault .failure, _) => exact h.recreate c

theorem tickChat (now : Nat) (serialReadable : Bool) :
    Keeps (Turn.Within I) (Turn.Within J) (tickChat env now serialReadable) := by
  refine (h.silent (leaves_look _)).bind fun state => ?_
  refine keeps_ite (fun _ => ?_) fun _ => h.silent (leaves_pure _)
  refine (h.silent (leaves_look _)).bind fun pending => ?_
  have hready : Keeps (Turn.Within I) (Turn.Within J) (do
      if (← look (·.chat.phase)) = .ready then Runtime.beginMux env now else pure ()) :=
    (h.silent (leaves_look _)).bind fun _ =>
      keeps_ite (fun _ => h.beginMux now) fun _ => h.silent (leaves_pure _)
  refine keeps_ite (fun _ => hready) fun _ => ?_
  exact (h.silent (silent_chatDo _ _)).bind fun _ => hready

/-- The session's tick. -/
theorem tickSession (now : Nat) : Keeps (Turn.Within I) (Turn.Within J) (tickSession env now) := by
  have htick : Keeps (Turn.Within I) (Turn.Within J) (do
      let r ← look id
      if r.state = .multiplexing ∧ r.localCloseAt = none then
        if ← sessionDo (Session.recoveryTick (Context.sink env) now) then
          Runtime.closeLocally env now
        else pure ()
      else pure ()) := by
    intro t ht
    simp only [ends_bind, ends_look, ends_ite, id]
    split
    · rename_i hguard
      refine (h.recoveryTick ht hguard.2).mono ?_ fun _ _ hJ => hJ
      intro escalate t' ht'
      split
      · exact h.closeLocally now t' ht'
      · exact (ends_pure _).mpr ht'
    · exact (ends_pure _).mpr ht
  refine (h.silent (leaves_look _)).bind fun state => ?_
  refine keeps_ite (fun _ => ?_) fun _ => htick
  refine (h.silent (leaves_look _)).bind fun pending => ?_
  exact (h.pollTimeout now pending).bind fun _ => htick

theorem finishLocalClose (now : Nat) :
    Keeps (Turn.Within I) (Turn.Within J) (finishLocalClose now : Act E ω Unit) := by
  refine (h.silent (leaves_look _)).bind fun r => ?_
  refine keeps_ite (fun _ => ?_) fun _ => h.silent (leaves_pure _)
  cases Frame.command 0 uih [0xc3, 1] with
  | error e => exact h.silent (leaves_throw _)
  | ok frame =>
      refine Keeps.bind (h.silent (silent_onContext fun ctx budget => ?_)) fun _ =>
        h.finishClose now
      dsimp only
      split
      · rfl
      · rfl

/-- **The first part of a turn keeps the invariant.** -/
theorem openTurn (now : Nat) (serialReadable : Bool) :
    Keeps (Turn.Within I) (Turn.Within J) (openTurn env now serialReadable) := by
  refine (h.silent (leaves_look _)).bind fun r => ?_
  refine keeps_ite (fun _ => ?_) fun _ => ?_
  · refine Keeps.bind ?_ fun _ => h.silent (leaves_pure _)
    intro t ht
    exact ends_change.mpr (h.closeAll t.runtime .closed (h.weaken _ ht))
  · refine (h.tickChat now serialReadable).bind fun _ => (h.tickSession now).bind fun _ => ?_
    exact (h.finishLocalClose now).bind fun _ => h.silent (leaves_pure _)

theorem closeTurn (now : Nat) : Keeps (Turn.Within I) (Turn.Within J) (closeTurn env now) := by
  refine (h.silent (silent_writeSerial env now)).bind fun _ => ?_
  refine (h.silent (leaves_look _)).bind fun r => ?_
  refine keeps_ite (fun _ => ?_) fun _ => h.silent (leaves_pure _)
  intro t ht
  exact ends_change.mpr (h.closeAll t.runtime .closed (h.weaken _ ht))

end Rules

/-! ### Whole turns -/

/-- The invariant in the part of a turn that counts stale events. -/
def Serving (I : View E → Prop) (s : Turn E ω × Nat) : Prop := Turn.Within I s.1

section Serving

variable {α : Type} {t : Turn E ω} {n : Nat} {Q : α → Turn E ω × Nat → Prop}
variable {F : Error → Turn E ω × Nat → Prop} {I J : View E → Prop}

theorem ends_act {p : Act E ω α} :
    Ends (act p) (t, n) Q F ↔ Ends p t (fun a t' => Q a (t', n)) fun e t' => F e (t', n) := by
  cases hp : p t with
  | ok a t' =>
      have hresult : act p (t, n) = .ok a (t', n) := by simp only [act, hp]
      rw [ends_of_ok hresult, ends_of_ok hp]
  | error e t' =>
      have hresult : act p (t, n) = .error e (t', n) := by simp only [act, hp]
      rw [ends_of_error hresult, ends_of_error hp]

theorem keeps_act {p : Act E ω α} (hp : Keeps (Turn.Within I) (Turn.Within J) p) :
    Keeps (Serving I) (Serving J) (act p) :=
  fun s hs => ends_act.mpr (hp s.1 hs)

theorem keeps_addStale (n : Nat) : Keeps (Serving I) (Serving J) (addStale n : Service E ω Unit) :=
  fun s hs => (ends_of_ok (rfl : addStale n s = .ok () (s.1, s.2 + n))).mpr hs

end Serving

namespace Rules

variable {env : Env E ω} {I J : View E → Prop} (h : Rules env I J)

include h

theorem act_silent {α : Type} {p : Act E ω α} (hp : Silent p) :
    Keeps (Serving I) (Serving J) (act p) := keeps_act (h.silent hp)

theorem act_change {f : Runtime E ω → Runtime E ω} (hf : ∀ r, (f r).view = r.view) :
    Keeps (Serving I) (Serving J) (act (Runtime.change f)) := keeps_act (h.change hf)

theorem serveSerial (now : Nat) (event : Ready) :
    Keeps (Serving I) (Serving J) (serveSerial env now event) := by
  have hthrow : Keeps (Serving I) (Serving J) (throw .io : Service E ω Bool) :=
    keeps_throw (fun s => h.weaken _) _
  have hwrite : Keeps (Serving I) (Serving J) (act (writeSerial env now)) :=
    h.act_silent (silent_writeSerial env now)
  refine Keeps.bind (keeps_onlyIf (h.act_change ?_)) fun _ => ?_
  · exact fun _ => rfl
  refine (h.act_silent (leaves_look _)).bind fun earlyWrite => ?_
  refine Keeps.bind (keeps_onlyIf (h.act_change ?_)) fun _ => ?_
  · exact fun _ => rfl
  refine (keeps_onlyIf hwrite).bind fun _ => ?_
  refine (h.act_silent (leaves_look _)).bind fun state => ?_
  refine (h.act_silent (leaves_look _)).bind fun current => ?_
  refine (keeps_onlyIf (keeps_act (h.readSerial now))).bind fun _ => ?_
  refine (h.act_silent (leaves_look _)).bind fun still => ?_
  refine keeps_ite (fun _ => ?_) fun _ => (keeps_addStale 1).bind fun _ => keeps_pure _
  refine (keeps_onlyIf hwrite).bind fun _ => ?_
  exact keeps_ite (fun _ => hthrow) fun _ => keeps_pure _

theorem serveChannel (c : Dlci) (event : Ready) :
    Keeps (Serving I) (Serving J) (serveChannel env c event) := by
  refine (h.act_silent (leaves_look _)).bind fun r => ?_
  refine keeps_ite (fun _ => ?_) fun _ => keeps_pure _
  refine keeps_ite (fun _ => keeps_pure _) fun _ => ?_
  refine (keeps_onlyIf (keeps_act (h.drainChannel c))).bind fun _ => ?_
  refine (h.act_silent (leaves_look _)).bind fun still => ?_
  refine keeps_ite (fun _ => ?_) fun _ => (keeps_addStale 1).bind fun _ => keeps_pure _
  refine keeps_ite (fun _ => ?_) fun _ => ?_
  · exact (keeps_act (h.readChannel c)).bind fun _ => keeps_pure _
  · exact (keeps_onlyIf (keeps_act (h.recreate c))).bind fun _ => keeps_pure _

theorem serve (now : Nat) (node : Dlci) (event : Ready) :
    Keeps (Serving I) (Serving J) (serve env now node event) :=
  keeps_ite (fun _ => h.serveSerial now event) fun _ => h.serveChannel node event

theorem serveLoop (now callLimit : Nat) (ready : Dlci → Option Ready) (offsets : List Nat) :
    Keeps (Serving I) (Serving J) (serveLoop env now callLimit ready offsets) := by
  induction offsets with
  | nil => exact keeps_pure _
  | cons offset rest ih =>
      refine (h.act_silent (leaves_look _)).bind fun cursor => ?_
      cases hnode : ready (Fin.ofNat 64 (cursor + offset)) with
      | none =>
          simp only [hnode]
          exact ih
      | some event =>
          simp only [hnode]
          refine (h.act_silent (leaves_look _)).bind fun current => ?_
          refine keeps_ite (fun _ => ?_) fun _ => (keeps_addStale 1).bind fun _ => ih
          refine (h.serve now _ event).bind fun served => ?_
          refine (h.act_silent (leaves_spent callLimit)).bind fun finished => ?_
          refine keeps_ite (fun _ => h.act_change ?_) fun _ => ih
          exact fun _ => rfl

theorem serveEvents (now : Nat) (events : List Ready) (callLimit : Nat) :
    Keeps (Serving I) (Serving J) (serveEvents env now events callLimit) := by
  refine (h.act_silent (leaves_look _)).bind fun collected => ?_
  refine (keeps_addStale _).bind fun _ => (h.serveLoop now callLimit _ _).bind fun _ => ?_
  exact keeps_act (h.closeTurn now)

/-- **A turn keeps the invariant**, and an error leaves what an error may leave. -/
theorem runTurn (now : Nat) (events : List Ready) (callLimit : Nat) :
    Keeps (Serving I) (Serving J) (runTurn env now events callLimit) := by
  refine (h.act_silent (leaves_look _)).bind fun r => ?_
  refine keeps_ite (fun _ => keeps_throw (fun s => h.weaken _) _) fun _ => ?_
  refine keeps_ite (fun _ => keeps_throw (fun s => h.weaken _) _) fun _ => ?_
  refine Keeps.bind (h.act_change ?_) fun _ => ?_
  · exact fun _ => rfl
  refine (h.act_silent (leaves_look _)).bind fun serialReadable => ?_
  refine (keeps_act (h.openTurn now serialReadable)).bind fun finished => ?_
  exact keeps_ite (fun _ => keeps_pure _) fun _ => h.serveEvents now events callLimit

/-- **`drive` keeps the invariant.** -/
theorem drive {r : Runtime E ω} (hr : I r.view) (now : Nat) (events : List Ready)
    (limits : Limits) : I (drive env r now events limits).2.view := by
  unfold Runtime.drive
  split
  · exact hr
  · dsimp only
    split
    · exact h.closeAll
        { r with
          context := { r.context with discarded := 0 }
          error := some .configuration } .failed (h.weaken _ hr)
    · rename_i budget hbudget
      have hturn : Ends (Runtime.runTurn env now events limits.calls)
          (⟨{ r with context := { r.context with discarded := 0 } }, budget, 0⟩, 0)
          (fun _ => Serving I) fun _ => Serving J := h.runTurn now events limits.calls _ hr
      cases hresult : Runtime.runTurn env now events limits.calls
          (⟨{ r with context := { r.context with discarded := 0 } }, budget, 0⟩, 0) with
      | ok a s => exact (ends_of_ok hresult).mp hturn
      | error e s =>
          have hJ : J s.1.runtime.view := (ends_of_error hresult).mp hturn
          exact h.closeAll { s.1.runtime with error := some e } .failed hJ

theorem next {r : Runtime E ω} (hr : I r.view) (input : Input) : I (next env r input).view := by
  cases input with
  | drive now events limits => exact h.drive hr now events limits
  | stop => exact h.closeAll r .closed (h.weaken _ hr)

/-- **Every run keeps the invariant.** -/
theorem run {r : Runtime E ω} (hr : I r.view) (inputs : List Input) :
    I (run env r inputs).view := by
  induction inputs generalizing r with
  | nil => exact hr
  | cons input rest ih => exact ih (h.next hr input)

end Rules

end Mindone.Mux.Runtime
