import Mindone.Mux.RuntimeLedger

/-!
# Mindone.Mux.RuntimeEndpoints

**Who owns an endpoint.** Three records say which channels have an endpoint: the flags of
the session, the slots of the context and the tokens of the poll epochs. They agree in
every state a runtime can reach (`Linked`, `Agreed`). A token that was taken back is never
current again, so that an event which still carries it does nothing but be counted as
stale (`drive_insert_retired`).
-/

namespace Mindone.Mux.Runtime

open Mindone.Lib Transport Ledger

variable {E ω : Type}

/-! ### Sessions and slots -/

/-- What the slots say of each endpoint: whether it is there, and whether bytes wait. -/
def Ledger.endpointsOf (l : Ledger E) : Dlci → Bool × Bool := fun c =>
  ((l.slots c).isSome, !(l.pendingOf c).isEmpty)

/-- What a session says of endpoints, and the endpoints there are. -/
structure Follow (layout : Layout) (f : Dlci → Bool × Bool) (ctx : Context E ω) : Prop where
  bounded : ctx.generation ≤ u64Max
  endpoints : f = ctx.ledger.endpointsOf
  configured : ∀ c, (f c).1 = true → c ∈ layout.order

theorem endpointsOf_congr {l l' : Ledger E} (h : l'.slots = l.slots) :
    l'.endpointsOf = l.endpointsOf := by
  unfold Ledger.endpointsOf pendingOf
  rw [h]

theorem endpointsOf_update {l l' : Ledger E} {c : Dlci} {slot : Slot E}
    (h : l'.slots = Function.update l.slots c (some slot)) :
    l'.endpointsOf = Function.update l.endpointsOf c (true, !slot.pending.pending.isEmpty) := by
  funext d
  unfold Ledger.endpointsOf pendingOf
  rw [h]
  by_cases hd : d = c
  · subst hd
    simp
  · simp [hd]

theorem endpointsOf_drop {l l' : Ledger E} {c : Dlci}
    (h : l'.slots = Function.update l.slots c none) :
    l'.endpointsOf = Function.update l.endpointsOf c (false, false) := by
  funext d
  unfold Ledger.endpointsOf pendingOf
  rw [h]
  by_cases hd : d = c
  · subst hd
    simp
  · simp [hd]

theorem configured_update {layout : Layout} {f : Dlci → Bool × Bool} {c : Dlci} {b : Bool × Bool}
    (h : ∀ d, (f d).1 = true → d ∈ layout.order) (hc : b.1 = true → c ∈ layout.order) :
    ∀ d, (Function.update f c b d).1 = true → d ∈ layout.order := by
  intro d hd
  by_cases hdc : d = c
  · subst hdc
    rw [Function.update_self] at hd
    exact hc hd
  · rw [Function.update_of_ne hdc] at hd
    exact h d hd

/-- **The slots follow the session's calls.** -/
theorem follow_sink (env : Env E ω) (layout : Layout) :
    Session.Follows (Context.sink env) layout (Follow layout) where
  -- calls about no endpoint leave the slots alone
  other := by
    rintro f ctx action hclose ⟨hmax, hf, hconf⟩
    have hslots : (Context.sink env (.apply action) ctx).2.ledger.slots = ctx.ledger.slots := by
      cases action with
      | transmit frame =>
          show (ctx.transmit frame).2.ledger.slots = _
          rcases transmit_spec ctx frame with ⟨-, hledger⟩ | ⟨-, hledger⟩
          · rw [hledger]
            rfl
          · rw [hledger]
      | closeEndpoint c => exact absurd rfl (hclose c)
      | ready refusedChannels => rfl
      | atciUnavailable => rfl
    refine ⟨sink_bounded env _ hmax, ?_, hconf⟩
    rw [endpointsOf_congr hslots]
    exact hf
  -- a slot is filled, with an empty queue
  opened := by
    rintro f ctx c hc ⟨hmax, hf, hconf⟩ hopen
    rcases openEndpoint_spec env ctx c hmax with ⟨hrefused, -⟩ |
      ⟨-, -, -, slot, -, -, -, hempty, -, hledger⟩
    · rw [show (ctx.openEndpoint env c).1 = true from hopen] at hrefused
      cases hrefused
    · have hslots : (ctx.openEndpoint env c).2.ledger.slots =
          Function.update ctx.ledger.slots c (some slot) := congrArg Ledger.slots hledger
      refine ⟨sink_bounded env _ hmax, ?_, configured_update hconf fun _ => hc⟩
      show _ = (ctx.openEndpoint env c).2.ledger.endpointsOf
      rw [endpointsOf_update hslots, hempty, hf]
      rfl
  -- an endpoint that cannot be opened leaves the slot free
  notOpened := by
    rintro f ctx c ⟨hmax, hf, hconf⟩ hrefused
    rcases openEndpoint_spec env ctx c hmax with ⟨-, hslots, -⟩ | ⟨hopen, -⟩
    · refine ⟨sink_bounded env _ hmax, ?_, hconf⟩
      have hsame : (ctx.openEndpoint env c).2.ledger.slots = ctx.ledger.slots := hslots
      show _ = (ctx.openEndpoint env c).2.ledger.endpointsOf
      rw [endpointsOf_congr hsame]
      exact hf
    · rw [show (ctx.openEndpoint env c).1 = false from hrefused] at hopen
      cases hopen
  -- a close that succeeds drops the slot, one that fails changes nothing
  closed := by
    rintro f ctx c ⟨hmax, hf, hconf⟩ hclose
    rcases closeEndpoint_spec env ctx c with ⟨-, hsame⟩ | ⟨-, -, hledger⟩
    · rw [hsame] at hclose
      cases hclose
    · refine ⟨sink_bounded env _ hmax, ?_, configured_update hconf fun h => by cases h⟩
      rw [hledger, hf]
      exact (endpointsOf_drop rfl).symm
  notClosed := by
    rintro f ctx c hfollow hclose
    rcases closeEndpoint_spec env ctx c with ⟨-, hsame⟩ | ⟨-, hdone, -⟩
    · rw [hsame]
      exact hfollow
    · rw [hclose] at hdone
      cases hdone
  -- a pause gives the queue up, and the slot stays
  paused := by
    rintro f ctx c ⟨hmax, hf, hconf⟩
    refine ⟨sink_bounded env _ hmax, ?_, configured_update hconf (hconf c)⟩
    show _ = (ctx.pauseEndpoint c).2.ledger.endpointsOf
    rcases pauseEndpoint_spec ctx c with ⟨hslot, hsame⟩ | ⟨slot, hslot, hledger⟩
    · rw [hsame]
      have hc : f c = (false, false) := by
        rw [hf]
        show ((ctx.slots c).isSome, _) = _
        simp [hslot, pendingOf, Context.ledger]
      rw [← hf, hc, ← hc]
      exact Function.update_eq_self c f
    · rw [hledger, hf]
      have hc : (ctx.ledger.endpointsOf c).1 = true := by
        show (ctx.slots c).isSome = true
        rw [hslot]
        rfl
      rw [hc]
      refine Eq.symm ?_
      rw [endpointsOf_update rfl]
      simp

/-- **The session and the slots say the same**, and they speak of configured channels
only. -/
structure Linked (s : Session) (l : Ledger E) : Prop where
  endpoints : s.endpoints = l.endpointsOf
  configured : ∀ c, (s.channels c).endpointPresent = true → c ∈ s.layout.order

/-- What `set_local_pause` does to the flags of an endpoint. -/
theorem setLocalPause_endpoints (env : Env E ω) (s : Session) (ctx : Context E ω) (c : Dlci)
    (paused : Bool) :
    Ends (Session.setLocalPause (Context.sink env) (number c) paused) (s, ctx)
      (fun _ st => st.1.endpoints = Function.update s.endpoints c (true, paused) ∧
        st.1.layout = s.layout ∧ (s.channels c).endpointPresent = true ∧ st.2.slots = ctx.slots)
      fun _ _ => True := by
  refine Session.setLocalPause_spec.mono ?_ fun _ _ _ => trivial
  rintro _ st ⟨-, -, d, hfind, hpresent, hcases⟩
  obtain rfl := find_number hfind
  rcases hcases with ⟨hsame, rfl⟩ | ⟨-, hst, hsink⟩
  · refine ⟨?_, rfl, hpresent, rfl⟩
    have hflags : s.endpoints d = (true, paused) := by
      rw [Session.endpoints, hpresent, hsame]
    rw [← hflags]
    exact (Function.update_eq_self d s.endpoints).symm
  · rw [hst]
    refine ⟨?_, rfl, hpresent, ?_⟩
    · rw [Session.pausedAt, Session.endpoints_modify, hpresent]
    · have hctx : (ctx.transmit (Session.signalsFrame d paused)).2 = st.2 := congrArg Prod.snd hsink
      rw [← hctx]
      rcases transmit_spec ctx (Session.signalsFrame d paused) with ⟨-, hledger⟩ | ⟨-, hledger⟩
      · exact congrArg Ledger.slots hledger
      · exact congrArg Ledger.slots hledger

/-- A session linked to its slots. -/
def Owned (s : Session) (l : Ledger E) : Prop := Basic s l ∧ Linked s l

section Owned

variable {env : Env E ω}

/-- **Every ordinary operation keeps session and slots together.** -/
theorem Owned.step {s : Session} {ctx : Context E ω} {op : Session.Operation}
    (hop : ordinary op = true) (h : Owned s ctx.ledger) :
    Owned (afterStep env s ctx op).1 (afterStep env s ctx op).2 := by
  obtain ⟨hbasic, hlinked⟩ := h
  have hne : (∀ escalationAfter, op ≠ .enableRecovery escalationAfter) ∧
      (∀ channel paused, op ≠ .setLocalPause channel paused) ∧ op ≠ .resetAfterTransportClose := by
    refine ⟨?_, ?_, ?_⟩
    · rintro escalationAfter rfl
      cases hop
    · rintro channel paused rfl
      cases hop
    · rintro rfl
      cases hop
  have hst : (s, ctx).1.Sound := hbasic.sound
  obtain ⟨hlayout, -, hf, hconf⟩ := (follow_sink env s.layout).step hst hne.2.1 hne.2.2
    ⟨rfl, hbasic.bounded, hlinked.endpoints, hlinked.configured⟩
  refine ⟨hbasic.step hne.1, hf.trans (endpointsOf_congr rfl), ?_⟩
  rw [show (afterStep env s ctx op).1.layout = s.layout from hlayout]
  exact hconf

/-- A pause that makes the session say what the slots say. -/
theorem pause_links {t : Turn E ω} {c : Dlci} {paused : Bool} (ht : Turn.Within (both Basic) t)
    (hlink : Function.update t.runtime.session.endpoints c (true, paused) =
      t.runtime.context.ledger.endpointsOf)
    (hconf : ∀ d, (t.runtime.session.channels d).endpointPresent = true →
      d ∈ t.runtime.session.layout.order) :
    Ends (sessionDo (Session.setLocalPause (Context.sink env) (number c) paused)) t
      (fun _ => Turn.Within (both Owned)) fun _ => Turn.Within (both Basic) := by
  have hbasic : Keeps (Turn.Within (both Basic)) (Turn.Within (both Basic))
      (sessionDo (Session.setLocalPause (Context.sink env) (number c) paused)) :=
    keeps_sessionDo (fun hst => hst.step (by simp)) id fun st =>
      (rfl : Session.step (Context.sink env) st (.setLocalPause (number c) paused) = _)
  have hflags : Ends (sessionDo (Session.setLocalPause (Context.sink env) (number c) paused)) t
      (fun _ t' => Linked t'.runtime.session t'.runtime.context.ledger) fun _ _ => True := by
    refine ends_sessionDo.mpr ((setLocalPause_endpoints env _ _ c paused).mono ?_
      fun _ _ _ => trivial)
    rintro _ st ⟨hendpoints, hlayout, hpresent, hslots⟩
    refine ⟨?_, ?_⟩
    · have hsame : (t.perform st).runtime.context.ledger.endpointsOf =
          t.runtime.context.ledger.endpointsOf := endpointsOf_congr hslots
      rw [hsame, ← hlink]
      exact hendpoints
    · intro d hd
      have hlayout' : (t.perform st).runtime.session.layout = t.runtime.session.layout := hlayout
      rw [hlayout']
      have hd' : (Function.update t.runtime.session.endpoints c (true, paused) d).1 = true := by
        rw [← hendpoints]
        exact hd
      exact configured_update hconf (fun _ => hconf c hpresent) d hd'
  exact ((hbasic t ht).and hflags).mono (fun _ _ h => h) fun _ _ h => h.1

theorem Owned.recreate (c : Dlci) :
    Keeps (Turn.Within (both Owned)) (Turn.Within (both Basic)) (recreate env c) :=
  keeps_sessionDo (fun hst => hst.step rfl) (fun hst => hst.1) fun st =>
    (rfl : Session.step (Context.sink env) st (.recreateEndpoint (number c)) = _)

/-- A payload that is buffered pauses the peer. -/
theorem Owned.data {t : Turn E ω} {c : Dlci} {payload : List UInt8}
    (ht : Turn.Within (both Owned) t) (hands : t.runtime.session.HandsOver c payload) :
    Ends (data env c payload) t (fun _ => Turn.Within (both Owned))
      fun _ => Turn.Within (both Basic) := by
  have hbasic : Basic t.runtime.session t.runtime.context.ledger := ht.1
  have hlinked : Linked t.runtime.session t.runtime.context.ledger := ht.2
  have hlength : payload.length ≤ t.runtime.context.frameLimit :=
    Nat.le_trans hands.length (Nat.le_of_eq hbasic.limit)
  unfold Runtime.data
  rw [ends_bind, ends_onContext]
  refine (deliver_spec env c t.budget hlength).mono ?_ fun _ s hs => hbasic.change hs
  rintro delivery s ⟨hs, ⟨rfl, slot, pending, hslot, hsome, hslots⟩ | ⟨hother, hslots⟩⟩
  · refine pause_links (hbasic.change hs) ?_ hlinked.configured
    have hslots' : (t.put s).runtime.context.ledger.slots =
        Function.update t.runtime.context.ledger.slots c (some { slot with pending }) := hslots
    rw [endpointsOf_update hslots', ← hlinked.endpoints, List.isEmpty_eq_false_iff.mpr hsome]
    rfl
  · have ht' : Turn.Within (both Owned) (t.put s) :=
      ⟨hbasic.change hs, hlinked.endpoints.trans (endpointsOf_congr hslots).symm,
        hlinked.configured⟩
    cases delivery with
    | buffered => exact absurd rfl hother
    | recreate => exact Owned.recreate c _ ht'
    | done => exact (ends_pure _).mpr ht'

/-- A queue that is empty again releases the peer. -/
theorem Owned.drainChannel (c : Dlci) :
    Keeps (Turn.Within (both Owned)) (Turn.Within (both Basic)) (drainChannel env c) := by
  intro t ht
  have hbasic : Basic t.runtime.session t.runtime.context.ledger := ht.1
  have hlinked : Linked t.runtime.session t.runtime.context.ledger := ht.2
  unfold Runtime.drainChannel
  rw [ends_bind, ends_onContext]
  refine (drainPending_spec env c t.runtime.context t.budget).mono ?_ fun _ _ hs => hs.elim
  rintro stop s (⟨rfl, rfl⟩ | ⟨slot, pending, reason, hslot, rfl, hs, hslots, hcomplete, hother⟩)
  · exact (ends_pure _).mpr ht
  have hslots' : (t.put s).runtime.context.ledger.slots =
      Function.update t.runtime.context.ledger.slots c (some { slot with pending }) := hslots
  have hnow := endpointsOf_update hslots'
  rw [← hlinked.endpoints] at hnow
  have hflags : t.runtime.session.endpoints c = (true, !slot.pending.pending.isEmpty) := by
    rw [hlinked.endpoints]
    simp [Ledger.endpointsOf, pendingOf, Context.ledger, hslot]
  -- as long as bytes wait, nothing changes for the session
  have hstays : reason ≠ .complete → Turn.Within (both Owned) (t.put s) := by
    intro hreason
    obtain ⟨hbefore, hafter⟩ := hother hreason
    refine ⟨hbasic.change hs, ?_, hlinked.configured⟩
    show t.runtime.session.endpoints = (t.put s).runtime.context.ledger.endpointsOf
    rw [hnow]
    rw [List.isEmpty_eq_false_iff.mpr hbefore] at hflags
    rw [List.isEmpty_eq_false_iff.mpr hafter, ← hflags]
    exact (Function.update_eq_self c _).symm
  cases reason with
  | complete =>
      rw [hcomplete rfl] at hnow
      dsimp only
      rw [ends_bind, ends_look, ends_ite]
      split
      · exact pause_links (hbasic.change hs) hnow.symm hlinked.configured
      · rename_i hpaused
        have hpresent : (t.runtime.session.channels c).endpointPresent = true :=
          congrArg Prod.fst hflags
        have hfind := find_of_mem (hlinked.configured c hpresent)
        have hfree : (t.runtime.session.channels c).localPaused = false := by
          have hany : ¬ (t.runtime.session.channel (number c)).any (·.localPaused) = true := hpaused
          rw [Session.channel, hfind] at hany
          simpa using hany
        refine (ends_pure _).mpr ⟨hbasic.change hs, ?_, hlinked.configured⟩
        have hself : t.runtime.session.endpoints c = (true, !([] : List UInt8).isEmpty) := by
          rw [Session.endpoints, hpresent, hfree]
          rfl
        show t.runtime.session.endpoints = (t.put s).runtime.context.ledger.endpointsOf
        rw [hnow, ← hself]
        exact (Function.update_eq_self c _).symm
  | yielded => exact (ends_pure _).mpr (hstays (by simp))
  | blocked => exact (ends_pure _).mpr (hstays (by simp))
  | _ => exact Owned.recreate c _ (hstays (by simp))

/-- **Session and slots say the same in every state.** -/
theorem owned_steady : Steady env (Owned (E := E)) Basic where
  weaken := fun h => h.1
  step := fun hop h => h.step hop
  data := Owned.data
  drainChannel := Owned.drainChannel
  outside := fun hchange hslots h =>
    ⟨h.1.change hchange, h.2.endpoints.trans (endpointsOf_congr hslots).symm, h.2.configured⟩
  bounded := fun h => h.1.bounded
  closeAll := fun {s l} h => by
    have hflags : s.resetAfterTransportClose.endpoints = fun _ => (false, false) := by
      funext c
      by_cases hc : c = 0
      · subst hc
        simp [Session.endpoints, Session.resetAfterTransportClose]
      · simp [Session.endpoints, Session.resetAfterTransportClose, hc]
    refine ⟨⟨Session.resetAfterTransportClose_sound s, h.limit, h.bounded⟩, hflags, ?_⟩
    intro c hpresent
    have hfalse := congrArg Prod.fst (congrFun hflags c)
    rw [show (s.resetAfterTransportClose.endpoints c).1 = true from hpresent] at hfalse
    cases hfalse

theorem Reachable.owned {r : Runtime E ω} (h : Reachable env r) :
    Owned r.session r.context.ledger := by
  have howned : both Owned r.view := h.invariant owned_steady.rules fun {s token} hs _ hmax => by
    refine ⟨hs.basic hmax, ?_, fun c hpresent => ?_⟩
    · funext c
      show ((s.channels c).endpointPresent, (s.channels c).localPaused) = _
      rw [hs.channels c]
      rfl
    · have hc : (s.channels c).endpointPresent = true := hpresent
      rw [hs.channels c] at hc
      cases hc
  exact howned

end Owned

end Mindone.Mux.Runtime
