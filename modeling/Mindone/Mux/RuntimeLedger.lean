import Mindone.Mux.RuntimeRules

/-!
# Mindone.Mux.RuntimeLedger

Two kinds of invariants of the runtime for which the rules come down to less. A
`Steady` invariant speaks of the session and the ledger only and is kept by every
operation of the session. A `Tracked` one speaks of the ledger alone: it is enough to
look at the calls of the sink, at `deliver` and the draining of a queue, at the switch
of the serial line and at `close_all`.
-/

namespace Mindone.Mux.Runtime

open Mindone.Lib Transport

variable {E ω : Type}

open Ledger

/-! ### Changes outside the session -/

theorem closeAll_ledger (r : Runtime E ω) :
    r.closeAll.context.ledger = r.context.ledger.emptied := by
  have hfold := foldl_dropSlot (List.finRange 64) (List.nodup_finRange 64)
    ({ r.context with epochs := r.context.epochs.reset }.note (.closed 0))
  simp only [Context.ledger, Context.note, Ledger.mk.injEq, List.mem_finRange, if_true] at hfold
  obtain ⟨hslots, hepochs, hgeneration, hlimit, hhistory⟩ := hfold
  simp only [closeAll, Context.ledger, emptied, Context.note, hslots, hepochs, hgeneration, hlimit,
    hhistory, List.append_assoc, List.cons_append, List.nil_append]

/-- The new token of the serial line. -/
theorem serialEpoch_change (env : Env E ω) (ctx : Context E ω) (descriptor : Int)
    (hmax : ctx.generation ≤ u64Max) :
    Change env ctx.ledger (ctx.replaceEpoch env .serial descriptor).2.ledger ∧
      (ctx.replaceEpoch env .serial descriptor).2.slots = ctx.slots := by
  have hnode : EndpointId.serial.slot = .ok 0 := rfl
  rcases replaceEpoch_spec env ctx hnode descriptor with
    ⟨generation, ctx', hmore, hmax', hreplace, hledger | hledger⟩ |
    ⟨token, ctx', hendpoint, hfresh, hmax', hreplace, hledger⟩
  · rw [hreplace]
    refine ⟨?_, congrArg Ledger.slots hledger⟩
    rw [hledger]
    exact .counted (hmore hmax) hmax'
  · rw [hreplace]
    refine ⟨?_, congrArg Ledger.slots hledger⟩
    rw [hledger]
    exact .exhausted (Or.inl rfl) (hmore hmax) hmax'
  · rw [hreplace]
    refine ⟨?_, congrArg Ledger.slots hledger⟩
    rw [hledger]
    exact .serialCreated hendpoint (hfresh hmax) hmax'

/-- Terminals answer with plain failures, so no bytes are dropped by a device reset. -/
theorem endpointWriter_ne_deviceReset (env : Env E ω) (endpoint : E) (input : List UInt8) (w : ω) :
    (endpointWriter env endpoint true input w).1 ≠ .fault .deviceReset := by
  unfold endpointWriter
  split
  · simp
  · simp
  · simp
  · rename_i hreset _
    intro hfault
    exact hreset _ (Prod.ext hfault rfl)

/-- **Draining is one change**, and all bytes are gone exactly when it says so. -/
theorem drainPending_spec (env : Env E ω) (c : Dlci) (ctx : Context E ω) (budget : TurnBudget) :
    Ends (drainPending env c) (ctx, budget)
      (fun stop s => (stop = none ∧ s = (ctx, budget)) ∨
        ∃ slot pending reason, ctx.slots c = some slot ∧ stop = some reason ∧
          Change env ctx.ledger s.1.ledger ∧
          s.1.slots = Function.update ctx.slots c (some { slot with pending }) ∧
          (reason = .complete → pending.pending = []) ∧
          (reason ≠ .complete → slot.pending.pending ≠ [] ∧ pending.pending ≠ []))
      fun _ _ => False := by
  cases hslot : ctx.slots c with
  | none =>
      have hresult : drainPending env c (ctx, budget) = .ok none (ctx, budget) := by
        simp only [drainPending, hslot]
      exact (ends_of_ok hresult).mpr (Or.inl ⟨rfl, rfl⟩)
  | some slot =>
      obtain ⟨taken, lost, hspec⟩ := drainLoop_spec (endpointWriter env slot.endpoint true)
        slot.pending.bytes (ctx.world, []) budget
      -- The writer of an endpoint never reports a reset, so the queue loses nothing.
      have hreset : (drainLoop (recording (endpointWriter env slot.endpoint true))
          slot.pending.bytes (ctx.world, []) budget).stop ≠ .deviceReset := by
        refine drainLoop_stop_ne_deviceReset ?_ _ _ _
        exact fun input w => endpointWriter_ne_deviceReset env slot.endpoint input w.1
      have hlost := hspec.lost_nil hreset
      subst hlost
      cases hdrain : slot.pending.drain (endpointWriter env slot.endpoint true) ctx.world budget with
      | mk report rest =>
          obtain ⟨pending, ⟨w, accepted⟩, budget'⟩ := rest
          have hresult : drainPending env c (ctx, budget) = .ok (some report.stop)
              (({ ctx with world := w }.setSlot c (some { slot with pending })).note
                (.accepted c accepted), budget') := by
            simp only [drainPending, hslot, hdrain]
          simp only [PendingQueue.drain, Transport.drain, Prod.mk.injEq] at hdrain
          obtain ⟨hreport, hpending, hworld, -⟩ := hdrain
          have haccepted := congrArg Prod.snd hworld
          have hstop := congrArg TurnReport.stop hreport
          dsimp only at haccepted hstop
          -- What waited is what was taken and what still waits.
          have hsplit : slot.pending.pending = accepted ++ pending.pending := by
            have heq := hspec.pending_eq
            rw [List.append_nil] at heq
            rw [← haccepted, ← hpending, hspec.accepted_eq]
            exact heq
          -- One change in the ledger, and the reason says whether the queue is empty.
          refine (ends_of_ok hresult).mpr (Or.inr ⟨slot, pending, report.stop, rfl, rfl, ?_, rfl,
            ?_, ?_⟩)
          · exact .drained hslot hsplit (by rw [← hpending])
          · intro hcomplete
            rw [← hpending]
            exact hspec.complete (hstop.trans hcomplete)
          · intro hother
            have hstays : pending.pending ≠ [] := by
              rw [← hpending]
              exact hspec.stays (fun h => hother (hstop.symm.trans h)) hreset
            refine ⟨?_, hstays⟩
            rw [hsplit]
            exact List.append_ne_nil_of_right_ne_nil _ hstays

/-! ### Invariants of the session and the ledger -/

/-- A statement about the session and the ledger, as one about the view. -/
def both (P : Session → Ledger E → Prop) (v : View E) : Prop := P v.session v.ledger

/-- The operations that neither change the configuration of a session nor set a pause. -/
def ordinary : Session.Operation → Bool
  | .enableRecovery _ | .setLocalPause _ _ | .resetAfterTransportClose => false
  | _ => true

/-- The session and the ledger after an operation. -/
def afterStep (env : Env E ω) (s : Session) (ctx : Context E ω) (op : Session.Operation) :
    Session × Ledger E :=
  let st := Session.step (Context.sink env) (s, ctx) op
  (st.1, (st.2.noteOpened s st.1).ledger)

/-- An invariant that every operation keeps, also where it stops with an error. -/
structure Steady (env : Env E ω) (P P' : Session → Ledger E → Prop) : Prop where
  weaken : ∀ {s l}, P s l → P' s l
  step : ∀ {s ctx op}, ordinary op = true → P s ctx.ledger →
    P (afterStep env s ctx op).1 (afterStep env s ctx op).2
  data : ∀ {t : Turn E ω} {c : Dlci} {payload : List UInt8}, Turn.Within (both P) t →
    t.runtime.session.HandsOver c payload →
    Ends (data env c payload) t (fun _ => Turn.Within (both P)) fun _ => Turn.Within (both P')
  drainChannel : ∀ c, Keeps (Turn.Within (both P)) (Turn.Within (both P')) (drainChannel env c)
  /-- What happens outside the session and leaves the slots alone. -/
  outside : ∀ {s l l'}, Change env l l' → l'.slots = l.slots → P s l → P s l'
  bounded : ∀ {s l}, P s l → l.generation ≤ u64Max
  closeAll : ∀ {s l}, P' s l → P s.resetAfterTransportClose l.emptied

section Steady

variable {env : Env E ω} {P P' : Session → Ledger E → Prop}

/-- An operation of the session, in a turn. -/
theorem keeps_sessionDo {α : Type} {p : Session.Op (Context E ω) α} {op : Session.Operation}
    (hstep : ∀ {s ctx}, P s ctx.ledger → P (afterStep env s ctx op).1 (afterStep env s ctx op).2)
    (hweaken : ∀ {s l}, P s l → P' s l)
    (hp : ∀ st, Session.step (Context.sink env) st op = endState (p st)) :
    Keeps (Turn.Within (both P)) (Turn.Within (both P')) (sessionDo p) := by
  intro t ht
  refine ends_sessionDo.mpr ?_
  have hend := hstep ht
  unfold afterStep at hend
  rw [hp] at hend
  have hends := (ends_endState (p := p) (s := (t.runtime.session, t.runtime.context))
    (P := fun st => P st.1 (st.2.noteOpened t.runtime.session st.1).ledger)).mpr hend
  exact hends.mono (fun _ _ h => h) fun _ _ h => hweaken h

variable (h : Steady env P P')

include h

theorem Steady.sessionDo {α : Type} {p : Session.Op (Context E ω) α} (op : Session.Operation)
    (hop : ordinary op = true)
    (hp : ∀ st, Session.step (Context.sink env) st op = endState (p st)) :
    Keeps (Turn.Within (both P)) (Turn.Within (both P')) (sessionDo p) :=
  keeps_sessionDo (h.step hop) h.weaken hp

theorem Steady.peerClose (now : Nat) :
    Keeps (Turn.Within (both P)) (Turn.Within (both P')) (peerClose now : Act E ω Unit) := by
  refine (h.sessionDo .peerClose rfl fun _ => rfl).bind fun _ => ?_
  refine ((leaves_after now closeFlushMs).keeps fun _ => h.weaken).bind fun due => ?_
  intro t ht
  exact ends_change.mpr ht

/-- At the switch to the multiplexer. -/
theorem Steady.enterMux (now : Nat) :
    Keeps (Turn.Within (both P)) (Turn.Within (both P')) (enterMux env now) := by
  have hweaken : ∀ v, both P v → both P' v := fun _ => h.weaken
  refine (h.sessionDo (.begin now) rfl fun _ => rfl).bind fun _ => ?_
  refine (leaves_theSerial.keeps hweaken).bind fun serial => ?_
  intro t ht
  rw [ends_bind, ends_look]
  -- the serial line has a node, so its token can be taken back
  have hinvalidate : t.runtime.context.epochs.invalidate .serial =
      .ok ⟨Function.update t.runtime.context.epochs.entries 0 none⟩ := rfl
  rw [hinvalidate]
  dsimp only
  rw [ends_bind, ends_change, ends_bind, ends_look]
  have hclosed : P t.runtime.session
      ((t.runtime.context.ledger.setToken 0 none).note [.closed 0]) :=
    h.outside .serialClosed rfl ht
  obtain ⟨hchange, hslots⟩ := serialEpoch_change env ({ t.runtime.context with
    epochs := ⟨Function.update t.runtime.context.epochs.entries 0 none⟩ }.note (.closed 0))
    (env.descriptor serial) (h.bounded hclosed)
  dsimp only at hchange hslots ⊢
  cases hcontext : ({ t.runtime.context with
      epochs := ⟨Function.update t.runtime.context.epochs.entries 0 none⟩ }.note
        (.closed 0)).replaceEpoch env .serial (env.descriptor serial) with
  | mk token context =>
      rw [hcontext] at hchange hslots
      have hcreated : P t.runtime.session context.ledger := h.outside hchange hslots hclosed
      cases token with
      | none =>
          simp only [ends_bind, ends_change]
          exact (ends_throw _).mpr (h.weaken hcreated)
      | some token =>
          exact ends_change.mpr hcreated

/-- **The rules of a steady invariant.** -/
theorem Steady.rules : Rules env (both P) (both P') where
  weaken := fun _ => h.weaken
  receive := fun {t frame} ht _ => h.sessionDo (.receive frame) rfl
    (fun st => Session.step_receive st frame) t ht
  sendControl := fun {reply} _ =>
    h.sessionDo (.sendControl reply.control reply.payload) rfl fun _ => rfl
  applyPeerSignals := fun channel signals =>
    h.sessionDo (.applyPeerSignals channel signals) rfl fun _ => rfl
  data := h.data
  enterMux := h.enterMux
  pollTimeout := fun now pending => h.sessionDo (.pollTimeout now pending) rfl
    fun st => Session.step_pollTimeout st now pending
  recoveryTick := fun {t now} ht _ => h.sessionDo (.recoveryTick now) rfl
    (fun st => Session.step_recoveryTick st now) t ht
  closeLocally := keeps_closeLocally (fun _ hv => hv) (fun _ => h.weaken)
    (fun c => h.sessionDo (.requestDisconnect (number c)) rfl fun _ => rfl) fun _ _ hv => hv
  peerClose := h.peerClose
  finishClose := fun now => by
    intro t ht
    rw [ends_bind, ends_change]
    exact h.peerClose now _ ht
  applicationInput := fun c => h.sessionDo (.applicationInput (number c)) rfl
    fun st => Session.step_applicationInput st (number c)
  recreate := fun c => h.sessionDo (.recreateEndpoint (number c)) rfl fun _ => rfl
  drainChannel := h.drainChannel
  closeAll := fun r state hr => by
    unfold both
    show P r.closeAll.session r.closeAll.context.ledger
    rw [closeAll_ledger]
    exact h.closeAll hr

end Steady

/-! ### Invariants of the ledger -/

/-- What always holds between a session and its ledger. -/
structure Basic (s : Session) (l : Ledger E) : Prop where
  sound : s.Sound
  limit : s.limit = l.frameLimit
  bounded : l.generation ≤ u64Max

/-- An invariant of the ledger that every change keeps. -/
def Tracked (env : Env E ω) (K : Ledger E → Prop) : Prop :=
  ∀ l l', Change env l l' → K l → K l'

theorem tracked_frameLimit (env : Env E ω) (n : Nat) :
    Tracked env fun l : Ledger E => l.frameLimit = n := by
  intro l l' hchange hl
  cases hchange with
  | _ => exact hl

theorem tracked_bounded (env : Env E ω) : Tracked env fun l : Ledger E => l.generation ≤ u64Max := by
  intro l l' hchange hl
  cases hchange with
  | counted hmore hmax => exact hmax
  | exhausted hnode hmore hmax => exact hmax
  | created hc hfree hendpoint hfresh hmax hempty hlimit => exact hmax
  | serialCreated hendpoint hfresh hmax => exact hmax
  | _ => exact hl

theorem sink_bounded (env : Env E ω) (call : Call) {ctx : Context E ω}
    (h : ctx.generation ≤ u64Max) : (Context.sink env call ctx).2.generation ≤ u64Max :=
  tracked_bounded env _ _ (sink_change env ctx call h) h

theorem Basic.change {env : Env E ω} {s : Session} {l l' : Ledger E} (h : Basic s l)
    (hchange : Change env l l') : Basic s l' where
  sound := h.sound
  limit := (tracked_frameLimit env s.limit _ _ hchange h.limit.symm).symm
  bounded := tracked_bounded env _ _ hchange h.bounded

/-- An invariant of the ledger, besides what always holds. -/
def Recorded (K : Ledger E → Prop) (s : Session) (l : Ledger E) : Prop := Basic s l ∧ K l

section Tracked

variable {env : Env E ω} {K : Ledger E → Prop} (h : Tracked env K)

include h

/-- What an operation of the session leaves of the ledger. -/
theorem Tracked.step {s : Session} {ctx : Context E ω} (op : Session.Operation)
    (hbasic : Basic s ctx.ledger) (hK : K ctx.ledger) :
    K (afterStep env s ctx op).2 := by
  have hcall : ∀ call (ctx : Context E ω), ctx.ledger.generation ≤ u64Max ∧ K ctx.ledger →
      (Context.sink env call ctx).2.ledger.generation ≤ u64Max ∧
        K (Context.sink env call ctx).2.ledger := by
    rintro call ctx ⟨hmax, hK⟩
    exact ⟨sink_bounded env call hmax, h _ _ (sink_change env ctx call hmax) hK⟩
  have hst : (s, ctx).1.Sound := hbasic.sound
  exact h _ _ (.opened _) (Session.step_calls hcall hst op ⟨hbasic.bounded, hK⟩).2

omit h in
theorem Basic.step {s : Session} {ctx : Context E ω} {op : Session.Operation}
    (hbasic : Basic s ctx.ledger) (hop : ∀ escalationAfter, op ≠ .enableRecovery escalationAfter) :
    Basic (afterStep env s ctx op).1 (afterStep env s ctx op).2 where
  sound := Session.step_sound _ hbasic.sound op
  limit := by
    have hst : (s, ctx).1.Sound := hbasic.sound
    have hfixed : Session.Fixed s (Session.step (Context.sink env) (s, ctx) op).1 :=
      Session.step_fixed hst hop
    have hlimit : (afterStep env s ctx op).2.frameLimit = ctx.frameLimit :=
      (tracked_frameLimit env ctx.frameLimit).step op hbasic rfl
    exact hfixed.limit.trans (hbasic.limit.trans hlimit.symm)
  bounded := (tracked_bounded env).step op hbasic hbasic.bounded

theorem Tracked.change {s : Session} {l l' : Ledger E} (hchange : Change env l l')
    (hl : Recorded K s l) : Recorded K s l' :=
  ⟨hl.1.change hchange, h _ _ hchange hl.2⟩

theorem Tracked.sessionDo {α : Type} {p : Session.Op (Context E ω) α} (op : Session.Operation)
    (hop : ∀ escalationAfter, op ≠ .enableRecovery escalationAfter)
    (hp : ∀ st, Session.step (Context.sink env) st op = endState (p st)) :
    Keeps (Turn.Within (both (Recorded K))) (Turn.Within (both (Recorded K))) (sessionDo p) := by
  refine keeps_sessionDo ?_ id hp
  intro s ctx hst
  exact ⟨hst.1.step hop, h.step op hst.1 hst.2⟩

theorem Tracked.setLocalPause (c : Dlci) (paused : Bool) :
    Keeps (Turn.Within (both (Recorded K))) (Turn.Within (both (Recorded K)))
      (Runtime.sessionDo (Session.setLocalPause (Context.sink env) (number c) paused)) :=
  h.sessionDo (.setLocalPause (number c) paused) (by simp) fun _ => rfl

theorem Tracked.recreate (c : Dlci) :
    Keeps (Turn.Within (both (Recorded K))) (Turn.Within (both (Recorded K)))
      (recreate env c) :=
  h.sessionDo (.recreateEndpoint (number c)) (by simp) fun _ => rfl

theorem Tracked.data {t : Turn E ω} {c : Dlci} {payload : List UInt8}
    (ht : Turn.Within (both (Recorded K)) t) (hands : t.runtime.session.HandsOver c payload) :
    Ends (data env c payload) t (fun _ => Turn.Within (both (Recorded K)))
      fun _ => Turn.Within (both (Recorded K)) := by
  have hbasic : Basic t.runtime.session t.runtime.context.ledger := ht.1
  have hlength : payload.length ≤ t.runtime.context.frameLimit :=
    Nat.le_trans hands.length (Nat.le_of_eq hbasic.limit)
  unfold Runtime.data
  rw [ends_bind, ends_onContext]
  refine (deliver_spec env c t.budget hlength).mono ?_ fun _ s hs => h.change hs ht
  rintro delivery s ⟨hs, -⟩
  have ht' : Turn.Within (both (Recorded K)) (t.put s) := h.change hs ht
  cases delivery with
  | buffered => exact h.setLocalPause c true _ ht'
  | recreate => exact h.recreate c _ ht'
  | done => exact (ends_pure _).mpr ht'

theorem Tracked.drainChannel (c : Dlci) :
    Keeps (Turn.Within (both (Recorded K))) (Turn.Within (both (Recorded K)))
      (drainChannel env c) := by
  intro t ht
  unfold Runtime.drainChannel
  rw [ends_bind, ends_onContext]
  refine (drainPending_spec env c t.runtime.context t.budget).mono ?_ fun _ _ hs => hs.elim
  rintro stop s (⟨rfl, rfl⟩ | ⟨slot, pending, reason, -, rfl, hs, -⟩)
  · exact (ends_pure _).mpr ht
  · have ht' : Turn.Within (both (Recorded K)) (t.put s) := h.change hs ht
    cases reason with
    | complete =>
        dsimp only
        rw [ends_bind, ends_look, ends_ite]
        split
        · exact h.setLocalPause c false _ ht'
        · exact (ends_pure _).mpr ht'
    | yielded => exact (ends_pure _).mpr ht'
    | blocked => exact (ends_pure _).mpr ht'
    | _ => exact h.recreate c _ ht'

/-- **What every change of the ledger keeps is an invariant of the runtime.** -/
theorem Tracked.steady : Steady env (Recorded K) (Recorded K) where
  weaken := id
  step := fun {s ctx op} hop hst => by
    refine ⟨hst.1.step ?_, h.step op hst.1 hst.2⟩
    rintro escalationAfter rfl
    cases hop
  data := h.data
  drainChannel := h.drainChannel
  outside := fun hchange _ => h.change hchange
  bounded := fun hst => hst.1.bounded
  closeAll := fun {s l} hst => by
    obtain ⟨hbasic, hK⟩ := h.change .emptied hst
    exact ⟨⟨Session.resetAfterTransportClose_sound s, hbasic.limit, hbasic.bounded⟩, hK⟩

end Tracked

/-! ### Reachable runtimes -/

/-- A runtime reached from `new` through `drive` and `stop`. The owner decides about
recovery before the first turn. -/
inductive Reachable (env : Env E ω) : Runtime E ω → Prop
  | new {serial channels config now w generation nextWrite r}
      (h : (Runtime.new env serial channels config now w generation nextWrite).1 = .ok r) :
      Reachable env r
  | recovering {serial channels config now w generation nextWrite r} (escalationAfter : Nat)
      (h : (Runtime.new env serial channels config now w generation nextWrite).1 = .ok r) :
      Reachable env (r.enableRecovery escalationAfter)
  | next {r} (h : Reachable env r) (input : Input) : Reachable env (next env r input)

theorem Reachable.run {env : Env E ω} {r : Runtime E ω} (h : Reachable env r)
    (inputs : List Input) : Reachable env (run env r inputs) := by
  induction inputs generalizing r with
  | nil => exact h
  | cons input rest ih => exact ih (h.next input)

/-- The view of a runtime with an unused session: no endpoints, and a token for the serial
line. -/
def freshView (s : Session) (token : PollToken) : View E where
  session := s
  ledger :=
    { slots := fun _ => none
      epochs := ⟨Function.update (fun _ => none) 0 (some token)⟩
      generation := token.generation
      frameLimit := s.limit
      history := [] }
  serialToken := some token
  state := .startup
  localCloseAt := none

/-- What a new runtime looks like. -/
theorem new_view {env : Env E ω} {serial : E} {channels : List ChannelConfig}
    {config : Chat.Config} {now : Nat} {w : ω} {generation nextWrite : Nat} {r : Runtime E ω}
    (h : (Runtime.new env serial channels config now w generation nextWrite).1 = .ok r) :
    ∃ layout token, token.endpoint = .serial ∧ token.generation ≤ u64Max ∧
      r.view = freshView (Session.initial layout config.frameLimit) token ∧
      r.heldTail = [] ∧ Decoder.new config.frameLimit = .ok r.decoder := by
  have hnode : EndpointId.serial.slot = .ok 0 := rfl
  unfold Runtime.new at h
  split at h
  · cases h
  rename_i session chat hparts
  obtain ⟨layout, rfl⟩ := newParts_session hparts
  split at h
  · -- the serial line could not be prepared
    cases h
  rename_i w' _
  split at h
  · cases h
  rename_i tx _
  dsimp only at h
  rcases replaceEpoch_spec env
    { tx, slots := fun _ => none, epochs := PollEpochs.default, generation,
      frameLimit := config.frameLimit, discarded := 0, world := w', history := [] }
    hnode (env.descriptor serial) with
    ⟨_, context, -, -, hreplace, -⟩ | ⟨token, context, hendpoint, -, hmax, hreplace, hledger⟩
  · rw [hreplace] at h
    cases h
  · rw [hreplace] at h
    dsimp only at h
    split at h
    · cases h
    · rename_i decoder hdecoder
      cases h
      exact ⟨layout, token, hendpoint, hmax, by rw [view, hledger]; rfl, rfl, hdecoder⟩

/-- A session as it is before the first turn. -/
def Unused (s : Session) : Prop :=
  ∃ layout limit, s = Session.initial layout limit ∨
    ∃ escalationAfter, s = (Session.initial layout limit).enableRecovery escalationAfter

theorem Unused.channels {s : Session} (h : Unused s) (c : Dlci) : s.channels c = {} := by
  obtain ⟨layout, limit, rfl | ⟨escalationAfter, rfl⟩⟩ := h
  · rfl
  · rfl

theorem Unused.basic {s : Session} (h : Unused s) {token : PollToken}
    (hmax : token.generation ≤ u64Max) : Basic s (freshView s token : View E).ledger := by
  refine ⟨?_, rfl, hmax⟩
  obtain ⟨layout, limit, rfl | ⟨escalationAfter, rfl⟩⟩ := h
  · exact Session.initial_sound layout limit
  · exact fun c => .clear _ _ c false fun _ => rfl

/-- **What the rules keep holds of every reachable runtime**, if it holds of the fresh
ones. -/
theorem Reachable.invariant {env : Env E ω} {I J : View E → Prop} (h : Rules env I J)
    (hfresh : ∀ {s token}, Unused s → token.endpoint = .serial → token.generation ≤ u64Max →
      I (freshView s token)) {r : Runtime E ω} (hr : Reachable env r) : I r.view := by
  induction hr with
  | new hnew =>
      obtain ⟨layout, token, hendpoint, hmax, hview, -⟩ := new_view hnew
      rw [hview]
      exact hfresh ⟨layout, _, Or.inl rfl⟩ hendpoint hmax
  | @recovering _ _ _ _ _ _ _ r escalationAfter hnew =>
      obtain ⟨layout, token, hendpoint, hmax, hview, -⟩ := new_view hnew
      have hsession : r.session = _ := congrArg View.session hview
      have henabled : (r.enableRecovery escalationAfter).view =
          freshView (r.session.enableRecovery escalationAfter) token := by
        have hledger := congrArg View.ledger hview
        have hserial := congrArg View.serialToken hview
        have hstate := congrArg View.state hview
        have hclose := congrArg View.localCloseAt hview
        rw [hsession]
        show View.mk (r.session.enableRecovery escalationAfter) r.view.ledger r.view.serialToken
          r.view.state r.view.localCloseAt = _
        rw [hsession, hledger, hserial, hstate, hclose]
        rfl
      rw [henabled, hsession]
      exact hfresh ⟨layout, _, Or.inr ⟨escalationAfter, rfl⟩⟩ hendpoint hmax
  | next _ input ih => exact h.next ih input

theorem closeAll_world (r : Runtime E ω) : r.closeAll.context.world = r.context.world := by
  have hdrop : ∀ (c : Dlci) (ctx : Context E ω), (ctx.dropSlot c).world = ctx.world := by
    intro c ctx
    unfold Context.dropSlot
    split
    · rfl
    · rfl
  have hfold : ∀ (cs : List Dlci) (ctx : Context E ω),
      (cs.foldl (fun ctx c => Context.dropSlot c ctx) ctx).world = ctx.world := by
    intro cs
    induction cs with
    | nil => exact fun _ => rfl
    | cons c rest ih => exact fun ctx => (ih _).trans (hdrop c ctx)
  exact hfold _ _

/-! ### A scripted world

A small world in which runs can be evaluated: the serial line is endpoint `0`, reads the
pieces it is given and takes every byte; a terminal answers a write with the next count
of its script, and blocks when there is none. -/

structure Script where
  serial : List (List UInt8)
  counts : List Nat
  deriving DecidableEq

def scripted : Env Nat Script where
  prepare _ w := (true, w)
  descriptor endpoint := endpoint
  read endpoint _ w :=
    match endpoint, w.serial with
    | 0, bytes :: rest => ((.transferred bytes.length, bytes), { w with serial := rest })
    | _, _ => ((.fault .wouldBlock, []), w)
  write endpoint input w :=
    if endpoint = 0 then (.transferred input.length, w)
    else
      match w.counts with
      | [] => (.fault .wouldBlock, w)
      | count :: rest => (.transferred (min count input.length), { w with counts := rest })
  openEndpoint c w := (some c.val, w)
  apply _ w := (true, w)
  epochsTaken w := (0, w)

theorem scripted_honest : scripted.Honest := by
  intro endpoint input w n w' h
  simp only [scripted] at h
  split at h
  · cases h
    exact Nat.le_refl _
  · split at h
    · cases h
    · cases h
      exact Nat.min_le_right _ _

def scriptedConfig : Chat.Config := ⟨64, 0, false, none⟩

/-- The answers of a modem that goes into multiplexer mode, with `tail` behind them. -/
def scriptedAnswers (tail : List UInt8) : List (List UInt8) :=
  let ok := Chat.okText ++ [0x0d]
  [ok, ok, ok, Chat.cmuxReadyText ++ [0x0d] ++ ok ++ tail]

/-- A runtime with channel `1` in the scripted world. -/
def scriptedStart (w : Script) : Option (Runtime Nat Script) :=
  (Runtime.new scripted 0 [⟨1, false⟩] scriptedConfig 0 w 0 0).1.toOption

/-- Bytes of the serial line have arrived. -/
def serialEvent (generation : Nat) : Ready := ⟨⟨.serial, 0, generation⟩, true, false, false⟩

def scriptedLimits : Limits := ⟨64, 65536⟩

/-- The turns of the dialogue. -/
def dialogue : List Input :=
  .drive 20000 [] scriptedLimits ::
    List.replicate 4 (.drive 20000 [serialEvent 1] scriptedLimits)

theorem scriptedStart_reachable {w : Script} {r : Runtime Nat Script}
    (h : scriptedStart w = some r) : Reachable scripted r := by
  unfold scriptedStart at h
  cases hnew : (Runtime.new scripted 0 [⟨1, false⟩] scriptedConfig 0 w 0 0).1 with
  | error e =>
      rw [hnew] at h
      cases h
  | ok r' =>
      rw [hnew] at h
      cases h
      exact .new hnew

end Mindone.Mux.Runtime
