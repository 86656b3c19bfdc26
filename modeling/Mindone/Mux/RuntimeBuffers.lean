import Mindone.Mux.ChatSteps
import Mindone.Mux.Receiver
import Mindone.Mux.RuntimeLedger

/-!
# Mindone.Mux.RuntimeBuffers

**The buffers of the runtime are large enough.** What is read is never more than the room
measured before the read, a payload is never larger than the queue that keeps its rest,
and the bytes held back during the AT dialogue go into an empty decoder (`Stocked`). So
`Error::Capacity` is left for one case: the frame that ends a local close.

The invariant also carries a statement `I` about the world and the budget, for the
account of what a turn costs.
-/

namespace Mindone.Mux.Transport

open Mindone.Lib

/-! ### The reservation for a terminal's input -/

theorem wireLength_le (n : Nat) : wireLength n ≤ n + maxOverhead := by
  unfold wireLength maxOverhead
  split
  · omega
  · omega

/-- The frames of a text: one for each full piece, and one for the rest. -/
theorem chunks_wireLength_le {size : Nat} (hsize : 1 ≤ size) (l : List UInt8) :
    ((chunks size l).map fun chunk => wireLength chunk.length).sum ≤
      l.length + (l.length / size + 1) * maxOverhead := by
  fun_induction chunks size l with
  | case1 l h => exact Nat.zero_le _
  | case2 l h ih =>
      rw [List.map_cons, List.sum_cons]
      have hchunk := wireLength_le (l.take size).length
      rw [List.length_drop] at ih
      rw [List.length_take] at hchunk ⊢
      by_cases hshort : l.length < size
      · -- the last piece is the whole text
        have hrest : chunks size (l.drop size) = [] := by
          unfold chunks
          rw [dif_pos (Or.inl (List.drop_eq_nil_of_le (Nat.le_of_lt hshort)))]
        rw [hrest, Nat.min_eq_right (Nat.le_of_lt hshort), Nat.div_eq_of_lt hshort]
        rw [Nat.min_eq_right (Nat.le_of_lt hshort)] at hchunk
        simp only [List.map_nil, List.sum_nil]
        omega
      · have hle : size ≤ l.length := Nat.le_of_not_lt hshort
        have hdiv : l.length / size = (l.length - size) / size + 1 :=
          Nat.div_eq_sub_div hsize hle
        rw [Nat.min_eq_left hle] at hchunk ⊢
        rw [hdiv, Nat.add_mul]
        rw [Nat.one_mul]
        omega

/-- **What `can_accept_pty_read` reserves is enough** for a read of any size. -/
theorem TransmitQueue.admitPtyInput_isOk {q : TransmitQueue} {channel : UInt8}
    {input : List UInt8} (hcan : q.canAcceptPtyRead = true) (hzero : channel ≠ 0)
    (hchannel : channel < 64) (hinput : input.length ≤ ptyReadBytes) :
    ∃ q', admitPtyInput channel input q = .ok () q' := by
  have hspec := admitPtyInput_spec channel input q
  cases hadmit : admitPtyInput channel input q with
  | ok u q' => exact ⟨q', rfl⟩
  | error e q' =>
      obtain ⟨-, hwhy⟩ := (ends_of_error hadmit).mp hspec
      have hwire := chunks_wireLength_le q.limit_valid.1 input
      have hroom : ptyReadBytes + (ptyReadBytes / q.frameLimit + 1) * maxOverhead ≤ q.available :=
        of_decide_eq_true hcan
      have hdiv : input.length / q.frameLimit ≤ ptyReadBytes / q.frameLimit :=
        Nat.div_le_div_right hinput
      have hframes : (input.length / q.frameLimit + 1) * maxOverhead ≤
          (ptyReadBytes / q.frameLimit + 1) * maxOverhead :=
        Nat.mul_le_mul_right _ (Nat.succ_le_succ hdiv)
      rcases hwhy with hnone | hlarge | hlong | hfull
      · exact absurd hnone hzero
      · exact absurd hchannel (UInt8.not_lt.mpr hlarge)
      · omega
      · omega

end Mindone.Mux.Transport

namespace Mindone.Mux.Session

open Mindone.Lib

/-- The decision about an application's input calls nobody. -/
theorem applicationInput_owner {σ : Type} (s : Session) (w : σ) (channel : UInt8) :
    Ends (applicationInput channel) (s, w) (fun _ st => st.2 = w) fun _ st => st.2 = w := by
  unfold applicationInput
  rw [ends_bind]
  refine ends_active (fun _ _ => ?_) (fun _ => rfl) fun _ => rfl
  rw [ends_bind, ends_read]
  dsimp only
  cases s.find channel with
  | none => exact (ends_throw _).mpr rfl
  | some c =>
      dsimp only
      rw [ends_ite]
      split
      · rw [ends_bind, ends_update, ends_pure]
      · exact (ends_pure _).mpr rfl

end Mindone.Mux.Session

namespace Mindone.Mux.Runtime

open Mindone.Lib Transport Ledger

variable {E ω : Type}

/-! ### The invariant -/

/-- Every queue has the size of the runtime's frames. -/
def Sized (l : Ledger E) : Prop :=
  ∀ c slot, l.slots c = some slot → slot.pending.frameLimit = l.frameLimit

theorem Sized.setSlot {l : Ledger E} (h : Sized l) {c : Dlci} {slot : Option (Slot E)}
    (hslot : ∀ after, slot = some after → after.pending.frameLimit = l.frameLimit) :
    Sized (l.setSlot c slot) := by
  intro d after hafter
  have hupdate : Function.update l.slots c slot d = some after := hafter
  by_cases hd : d = c
  · subst hd
    rw [Function.update_self] at hupdate
    exact hslot after hupdate
  · rw [Function.update_of_ne hd] at hupdate
    exact h d after hupdate

/-- A slot of which only the queue changes. -/
theorem Sized.setPending {l : Ledger E} (h : Sized l) {c : Dlci} {slot : Slot E}
    {pending : PendingQueue maxPending} (hslot : l.slots c = some slot)
    (hlimit : pending.frameLimit = slot.pending.frameLimit) :
    Sized (l.setSlot c (some { slot with pending })) :=
  h.setSlot fun _ hafter => Option.some.inj hafter ▸ hlimit.trans (h c slot hslot)

theorem tracked_sized (env : Env E ω) : Tracked env (Sized (E := E)) := by
  intro l l' hchange h
  cases hchange with
  | created hc hfree hendpoint hfresh hmax hempty hlimit =>
      exact h.setSlot fun _ hafter => Option.some.inj hafter ▸ hlimit
  | closed hc => exact h.setSlot fun _ hafter => by cases hafter
  | paused hslot => exact h.setPending hslot rfl
  | appended hslot hsome hpending =>
      exact h.setPending hslot (PendingQueue.bufferRemainder_spec hpending).2
  | buffered hslot hempty hpending =>
      exact h.setPending hslot (PendingQueue.bufferRemainder_spec hpending).2
  | drained hslot hpending hlimit => exact h.setPending hslot hlimit
  | emptied => exact fun _ _ hslot => by cases hslot
  | _ => exact h

/-- **What a turn can rely on.** -/
structure Stocked (I : ω → TurnBudget → Prop) (t : Turn E ω) : Prop where
  sized : Turn.Within (both (Recorded Sized)) t
  held : t.runtime.heldTail.length ≤ rxBytes
  fresh : t.runtime.state = .startup → t.runtime.decoder.buffered = []
  metered : I t.runtime.context.world t.budget

/-- The program keeps `J` and does not stop for want of room. -/
def Fits {S α : Type} (J : S → Prop) (p : EStateM Error S α) : Prop :=
  ∀ s, J s → Ends p s (fun _ => J) fun e s' => e ≠ .capacity ∧ J s'

section Programs

variable {S α β : Type} {J : S → Prop}

theorem fits_pure (a : α) : Fits J (pure a : EStateM Error S α) :=
  fun _ hs => (ends_pure a).mpr hs

theorem fits_throw {e : Error} (he : e ≠ .capacity) : Fits J (throw e : EStateM Error S α) :=
  fun _ hs => (ends_throw e).mpr ⟨he, hs⟩

theorem Fits.bind {p : EStateM Error S α} {f : α → EStateM Error S β} (hp : Fits J p)
    (hf : ∀ a, Fits J (f a)) : Fits J (p >>= f) :=
  fun s hs => ends_bind.mpr ((hp s hs).mono (fun a s' hs' => hf a s' hs') fun _ _ h => h)

theorem fits_ite {c : Prop} [Decidable c] {p q : EStateM Error S α} (hp : c → Fits J p)
    (hq : ¬ c → Fits J q) : Fits J (if c then p else q) := by
  split
  · rename_i hc
    exact hp hc
  · rename_i hc
    exact hq hc

theorem fits_onlyIf {c : Prop} [Decidable c] {p : EStateM Error S PUnit} (hp : c → Fits J p) :
    Fits J (onlyIf c p) := fits_ite hp fun _ => fits_pure _

theorem fits_forM {body : α → EStateM Error S PUnit} (hbody : ∀ x, Fits J (body x))
    (xs : List α) : Fits J (xs.forM body) := by
  induction xs with
  | nil => exact fits_pure _
  | cons x rest ih => exact (hbody x).bind fun _ => ih

end Programs

section Rules

variable {α : Type} {I : ω → TurnBudget → Prop}

theorem fits_look (f : Runtime E ω → α) : Fits (Stocked I) (look f) := fun _ ht => ends_look.mpr ht

/-- A change of what the invariant does not speak of. -/
theorem fits_change {f : Runtime E ω → Runtime E ω}
    (hf : ∀ r, (f r).view = r.view ∧ (f r).heldTail = r.heldTail ∧ (f r).decoder = r.decoder ∧
      (f r).context.world = r.context.world) : Fits (Stocked I) (change f) := by
  intro t ht
  obtain ⟨hview, hheld, hdecoder, hworld⟩ := hf t.runtime
  refine ends_change.mpr ⟨?_, ?_, ?_, ?_⟩
  · show both (Recorded Sized) (f t.runtime).view
    rw [hview]
    exact ht.sized
  · rw [hheld]
    exact ht.held
  · intro hstate
    have hsame : (f t.runtime).state = t.runtime.state := congrArg View.state hview
    rw [hdecoder]
    exact ht.fresh (hsame.symm.trans hstate)
  · rw [hworld]
    exact ht.metered

theorem fits_after (now duration : Nat) : Fits (Stocked I) (after now duration : Act E ω Nat) := by
  unfold after
  split
  · exact fits_throw (by simp)
  · exact fits_pure _

theorem ends_theSerial {t : Turn E ω} {Q : E → Turn E ω → Prop} {F : Error → Turn E ω → Prop}
    (hnone : F .io t) (hsome : ∀ serial, Q serial t) : Ends theSerial t Q F := by
  unfold theSerial
  rw [ends_bind, ends_look]
  split
  · exact (ends_throw _).mpr hnone
  · exact (ends_pure _).mpr (hsome _)

theorem fits_theSerial : Fits (Stocked I) (theSerial : Act E ω E) := by
  intro t ht
  exact ends_theSerial ⟨by simp, ht⟩ fun _ => ht

theorem Stocked.say {t : Turn E ω} (ht : Stocked I t) (chat : Chat.Controller) :
    Stocked I (t.say chat) := ⟨ht.sized, ht.held, ht.fresh, ht.metered⟩

theorem fits_chatDo {wrap : Chat.Error → Error} (hwrap : ∀ e, wrap e ≠ .capacity)
    (step : Chat.Step α) : Fits (Stocked I) (chatDo wrap step : Act E ω α) :=
  fun _ ht => ends_chatDo.mpr
    ((ends_true _ _).mono (fun _ _ _ => ht.say _) fun _ _ _ => ⟨hwrap _, ht.say _⟩)

/-- A part that works on the context: the view and the world are to be looked at. -/
theorem Stocked.put {t : Turn E ω} (ht : Stocked I t) {s : Context E ω × TurnBudget}
    (hsized : Turn.Within (both (Recorded Sized)) (t.put s)) (hI : I s.1.world s.2) :
    Stocked I (t.put s) := ⟨hsized, ht.held, ht.fresh, hI⟩

end Rules

/-! ### What touches the world -/

section World

variable {α : Type} {env : Env E ω} {I : ω → TurnBudget → Prop} (h : Metered env I)
include h

theorem Metered.replaceEpoch {budget : TurnBudget} {ctx : Context E ω} (hI : I ctx.world budget)
    (endpoint : EndpointId) (descriptor : Int) :
    I (ctx.replaceEpoch env endpoint descriptor).2.world budget := by
  unfold Context.replaceEpoch
  dsimp only
  split
  · exact h.epochsTaken hI
  · exact h.epochsTaken hI

/-- The calls of the sink cost nothing. -/
theorem Metered.sink {budget : TurnBudget} (call : Call) {ctx : Context E ω}
    (hI : I ctx.world budget) : I (Context.sink env call ctx).2.world budget := by
  cases call with
  | openEndpoint c =>
      show I (Context.openEndpoint env c ctx).2.world budget
      unfold Context.openEndpoint
      split
      · exact hI
      -- `open_endpoint` calls the environment up to three times; each call is in the bill.
      · have hopened := h.openEndpoint (c := c) hI
        split
        · rename_i w hopen
          rw [hopen] at hopened
          exact hopened
        · rename_i endpoint w hopen
          rw [hopen] at hopened
          have hprepared : I (env.prepare endpoint w).2 budget := h.prepare hopened
          split
          · rename_i w' hprepare
            rw [hprepare] at hprepared
            exact hprepared
          · rename_i w' hprepare
            rw [hprepare] at hprepared
            split
            · exact hprepared
            · have hepoch : I ({ ctx with world := w' }.replaceEpoch env (.channel (number c))
                  (env.descriptor endpoint)).2.world budget := h.replaceEpoch hprepared _ _
              split
              · rename_i ctx' hreplace
                rw [hreplace] at hepoch
                exact hepoch
              · rename_i token ctx' hreplace
                rw [hreplace] at hepoch
                exact hepoch
  -- Neither pausing nor transmitting leaves the program.
  | pauseEndpoint c =>
      show I (Context.pauseEndpoint c ctx).2.world budget
      unfold Context.pauseEndpoint
      split
      · exact hI
      · exact hI
  | apply action =>
      cases action with
      | transmit frame =>
          show I (Context.transmit frame ctx).2.world budget
          unfold Context.transmit
          split
          · exact hI
          · exact hI
      | closeEndpoint c =>
          show I (Context.sink env (.apply (.closeEndpoint c)) ctx).2.world budget
          unfold Context.sink
          dsimp only
          split
          · exact hI
          · unfold Context.dropSlot
            split
            · exact hI
            · exact hI
      | ready refusedChannels => exact h.apply hI
      | atciUnavailable => exact h.apply hI

/-- **An operation of the session** needs no buffer of the runtime. -/
theorem Metered.sessionDo {p : Session.Op (Context E ω) α} (op : Session.Operation)
    (hop : ∀ escalationAfter, op ≠ .enableRecovery escalationAfter)
    (hp : ∀ st, Session.step (Context.sink env) st op = endState (p st)) :
    Fits (Stocked I) (Runtime.sessionDo p) := by
  intro t ht
  have hsized := (tracked_sized env).sessionDo op hop hp t ht.sized
  have hst : (t.runtime.session, t.runtime.context).1.Sound := ht.sized.1.sound
  have hworld : I (Session.step (Context.sink env) (t.runtime.session, t.runtime.context) op).2.world
      t.budget :=
    Session.step_calls (K := fun ctx : Context E ω => I ctx.world t.budget)
      (fun call _ hI => h.sink call hI) hst op ht.metered
  rw [hp] at hworld
  have hmetered := (ends_endState (p := p) (P := fun st : Session × Context E ω =>
    I st.2.world t.budget)).mpr hworld
  refine ends_sessionDo.mpr (((ends_sessionDo.mp hsized).and hmetered).mono ?_ ?_)
  · rintro _ st ⟨hsized', hI⟩
    exact ⟨hsized', ht.held, ht.fresh, hI⟩
  · rintro e st ⟨hsized', hI⟩
    exact ⟨by simp, hsized', ht.held, ht.fresh, hI⟩

/-- **A read** changes the world only, and gives no more bytes than were asked for. -/
theorem Metered.readTurn {t : Turn E ω} (ht : Stocked I t) (endpoint : E)
    (size requested : Nat) :
    Ends (Runtime.readTurn env endpoint size requested) t
      (fun result t' => Stocked I t' ∧ t'.runtime.state = t.runtime.state ∧
        t'.runtime.heldTail = t.runtime.heldTail ∧
        t'.runtime.context.tx = t.runtime.context.tx ∧
        ∀ n input, result = some (.transferred n, input) → input.length ≤ requested)
      fun e t' => e ≠ .capacity ∧ Stocked I t' := by
  generalize hop : (fun offered (w : ω × List UInt8) =>
    ((env.read endpoint offered w.1).1.1, (env.read endpoint offered w.1).2,
      blit (List.replicate size 0) 0 ((env.read endpoint offered w.1).1.2.take offered))) =
    operation
  -- the read is one turn of the budget, whose buffer is its record
  have hspec := ioTurn_spec requested operation (t.runtime.context.world, []) t.budget
  have hkept : Ends (ioTurn requested operation) ((t.runtime.context.world, []), t.budget)
      (fun _ s => I s.1.1 s.2) fun _ s => I s.1.1 s.2 := by
    refine ioTurn_keeps (I := fun (w : ω × List UInt8) budget => I w.1 budget) ?_ ht.metered
    intro offered budget' _ hcharged
    subst hop
    exact h.read ht.metered hcharged
  have hstocked : ∀ w budget, I w budget →
      Stocked I (t.put ({ t.runtime.context with world := w }, budget)) :=
    fun _ _ hI => ht.put ht.sized hI
  -- the turn breaks off, is not made, fails, or gives bytes
  cases hturn : ioTurn requested operation ((t.runtime.context.world, []), t.budget) with
  | error e s =>
      obtain ⟨⟨w, buffer⟩, budget⟩ := s
      have hresult : Runtime.readTurn env endpoint size requested t =
          .error e (t.put ({ t.runtime.context with world := w }, budget)) := by
        simp only [Runtime.readTurn, onContext, hop, hturn]
        rfl
      obtain ⟨rfl, -⟩ := (ends_of_error hturn).mp hspec
      exact (ends_of_error hresult).mpr ⟨by simp, hstocked _ _ ((ends_of_error hturn).mp hkept)⟩
  | ok result s =>
      obtain ⟨⟨w, buffer⟩, budget⟩ := s
      have hI : I w budget := (ends_of_ok hturn).mp hkept
      cases result with
      | none =>
          have hresult : Runtime.readTurn env endpoint size requested t =
              .ok none (t.put ({ t.runtime.context with world := w }, budget)) := by
            simp only [Runtime.readTurn, onContext, hop, hturn]
            rfl
          exact (ends_of_ok hresult).mpr ⟨hstocked _ _ hI, rfl, rfl, rfl, fun _ _ h => by cases h⟩
      | some answer =>
          cases answer with
          | fault fault =>
              have hresult : Runtime.readTurn env endpoint size requested t = .ok
                  (some (.fault fault, [])) (t.put ({ t.runtime.context with world := w }, budget)) := by
                simp only [Runtime.readTurn, onContext, hop, hturn]
                rfl
              exact (ends_of_ok hresult).mpr ⟨hstocked _ _ hI, rfl, rfl, rfl, fun _ _ h => by cases h⟩
          | transferred n =>
              have hresult : Runtime.readTurn env endpoint size requested t = .ok
                  (some (.transferred n, buffer.take n))
                  (t.put ({ t.runtime.context with world := w }, budget)) := by
                simp only [Runtime.readTurn, onContext, hop, hturn]
                rfl
              refine (ends_of_ok hresult).mpr ⟨hstocked _ _ hI, rfl, rfl, rfl, ?_⟩
              intro n' input hinput
              cases hinput
              rcases (ends_of_ok hturn).mp hspec with
                ⟨hnone, -⟩ | ⟨offered, answer, hle, hanswer, -, -, hbound⟩
              · cases hnone
              · cases hanswer
                exact Nat.le_trans (List.length_take_le _ _) (Nat.le_trans (hbound n rfl) hle)

/-- A write makes the calls it counts. -/
theorem Metered.writeTurn (endpoint : E) (bytes : List UInt8) :
    Fits (Stocked I) (Runtime.writeTurn env endpoint bytes) := by
  intro t ht
  have hspec := ioTurn_spec bytes.length (fun offered => env.write endpoint (bytes.take offered))
    t.runtime.context.world t.budget
  have hkept : Ends (ioTurn bytes.length fun offered => env.write endpoint (bytes.take offered))
      (t.runtime.context.world, t.budget) (fun _ s => I s.1 s.2) fun _ s => I s.1 s.2 := by
    refine ioTurn_keeps ?_ ht.metered
    intro offered budget' hle hcharged
    have hlength : (bytes.take offered).length = offered := by
      rw [List.length_take]
      exact Nat.min_eq_left hle
    exact h.write ht.metered (by rw [hlength]; exact hcharged)
  cases hturn : ioTurn bytes.length (fun offered => env.write endpoint (bytes.take offered))
      (t.runtime.context.world, t.budget) with
  | error e s =>
      have hresult : Runtime.writeTurn env endpoint bytes t =
          .error e (t.put ({ t.runtime.context with world := s.1 }, s.2)) := by
        simp only [Runtime.writeTurn, onContext, hturn]
        rfl
      obtain ⟨rfl, -⟩ := (ends_of_error hturn).mp hspec
      exact (ends_of_error hresult).mpr
        ⟨by simp, ht.put ht.sized ((ends_of_error hturn).mp hkept)⟩
  | ok result s =>
      have hresult : Runtime.writeTurn env endpoint bytes t =
          .ok result (t.put ({ t.runtime.context with world := s.1 }, s.2)) := by
        simp only [Runtime.writeTurn, onContext, hturn]
        rfl
      exact (ends_of_ok hresult).mpr (ht.put ht.sized ((ends_of_ok hturn).mp hkept))

/-- **A delivery never lacks room**: what the endpoint did not take goes into an empty
queue of the size of a frame. -/
theorem Metered.deliverOn {c : Dlci} {input : List UInt8} {ctx : Context E ω}
    {budget : TurnBudget} (hI : I ctx.world budget)
    (hsized : ∀ slot, ctx.slots c = some slot → input.length ≤ slot.pending.frameLimit) :
    Ends (Runtime.deliver env c input) (ctx, budget) (fun _ s => I s.1.world s.2)
      fun e s => e ≠ .capacity ∧ I s.1.world s.2 := by
  cases hslot : ctx.slots c with
  -- without an endpoint the payload is given up
  | none =>
      have hresult : Runtime.deliver env c input (ctx, budget) =
          .ok .done ((ctx.note (.delivered c input)).discard c input, budget) := by
        simp only [Runtime.deliver, Context.note, hslot]
      exact (ends_of_ok hresult).mpr hI
  | some slot =>
      -- with an empty queue the endpoint is written to first
      by_cases hempty : slot.pending.pending = []
      · obtain ⟨taken, hspec⟩ :=
          writeLoop_spec (env.write slot.endpoint) input (ctx.world, []) budget
        have hkept : I (writeLoop (recording (env.write slot.endpoint)) input
              (ctx.world, []) budget).world.1
            (writeLoop (recording (env.write slot.endpoint)) input (ctx.world, []) budget).budget :=
          writeLoop_keeps (I := fun (w : ω × List UInt8) budget => I w.1 budget)
            (fun hI hcharged => h.write hI hcharged) input (ctx.world, []) budget hI
        -- the loop of writes stops for a wrong count only
        have hstop : ∀ e, (writeLoop (recording (env.write slot.endpoint)) input
            (ctx.world, []) budget).outcome = .error e → e = .invalidProgress :=
          fun _ herror => writeLoop_error herror
        generalize hwritten : writeLoop (recording (env.write slot.endpoint)) input
          (ctx.world, []) budget = written at hspec hkept hstop
        cases houtcome : written.outcome with
        | error e =>
            have hresult : Runtime.deliver env c input (ctx, budget) = .error e
                ({ ctx.note (.delivered c input) with world := written.world.1 }.note
                  (.accepted c written.world.2), written.budget) := by
              simp only [Runtime.deliver, Context.note, hslot, hempty, ne_eq, not_true_eq_false,
                if_false, hwritten, houtcome]
            obtain rfl := hstop e houtcome
            exact (ends_of_error hresult).mpr ⟨by simp, hkept⟩
        | ok fault =>
            cases fault with
            | some fault =>
                have hresult : Runtime.deliver env c input (ctx, budget) = .ok .recreate
                    (({ ctx.note (.delivered c input) with world := written.world.1 }.note
                      (.accepted c written.world.2)).discard c written.rest, written.budget) := by
                  simp only [Runtime.deliver, Context.note, hslot, hempty, ne_eq,
                    not_true_eq_false, if_false, hwritten, houtcome]
                exact (ends_of_ok hresult).mpr hkept
            | none =>
                by_cases hrest : written.rest = []
                · have hresult : Runtime.deliver env c input (ctx, budget) = .ok .done
                      ({ ctx.note (.delivered c input) with world := written.world.1 }.note
                        (.accepted c written.world.2), written.budget) := by
                    simp only [Runtime.deliver, Context.note, hslot, hempty, ne_eq,
                      not_true_eq_false, if_false, hwritten, houtcome, hrest, if_true]
                  exact (ends_of_ok hresult).mpr hkept
                -- the rest is no longer than the payload, and fits
                · have hfits : written.rest.length ≤ slot.pending.frameLimit := by
                    have hinput := congrArg List.length hspec.input_eq
                    rw [List.length_append] at hinput
                    exact Nat.le_trans (by omega) (hsized slot hslot)
                  obtain ⟨pending, hpending⟩ := PendingQueue.bufferRemainder_isOk hempty hfits
                  have hresult : Runtime.deliver env c input (ctx, budget) = .ok .buffered
                      (({ ctx.note (.delivered c input) with world := written.world.1 }.note
                        (.accepted c written.world.2)).setSlot c (some { slot with pending }),
                        written.budget) := by
                    simp only [Runtime.deliver, Context.note, hslot, hempty, ne_eq,
                      not_true_eq_false, if_false, hwritten, houtcome, hrest, hpending]
                  exact (ends_of_ok hresult).mpr hkept
      -- with others waiting the payload goes behind them, or is given up
      · rcases deliver_waiting env c input budget hslot hempty with ⟨pending, -, -, hresult⟩ | hresult
        · exact (ends_of_ok hresult).mpr hI
        · exact (ends_of_ok hresult).mpr hI

theorem Metered.deliver {t : Turn E ω} (ht : Stocked I t) {c : Dlci} {payload : List UInt8}
    (hlength : payload.length ≤ t.runtime.session.limit) :
    Ends (onContext (Runtime.deliver env c payload)) t (fun _ => Stocked I)
      fun e t' => e ≠ .capacity ∧ Stocked I t' := by
  have hbasic : Basic t.runtime.session t.runtime.context.ledger := ht.sized.1
  have hlimit : payload.length ≤ t.runtime.context.frameLimit :=
    Nat.le_trans hlength (Nat.le_of_eq hbasic.limit)
  have hroom : ∀ slot, t.runtime.context.slots c = some slot →
      payload.length ≤ slot.pending.frameLimit := by
    intro slot hslot
    have hsame : slot.pending.frameLimit = t.runtime.context.frameLimit := ht.sized.2 c slot hslot
    rw [hsame]
    exact hlimit
  refine ends_onContext.mpr (((deliver_spec env c t.budget hlimit).and
    (h.deliverOn ht.metered hroom)).mono ?_ ?_)
  · rintro delivery s ⟨⟨hchange, -⟩, hI⟩
    exact ht.put ((tracked_sized env).change hchange ht.sized) hI
  · rintro e s ⟨hchange, he, hI⟩
    exact ⟨he, ht.put ((tracked_sized env).change hchange ht.sized) hI⟩

/-- Draining makes the calls it counts. -/
theorem Metered.drainPending (c : Dlci) : Fits (Stocked I) (onContext (Runtime.drainPending env c)) := by
  intro t ht
  have hworld : Ends (Runtime.drainPending env c) (t.runtime.context, t.budget)
      (fun _ s => I s.1.world s.2) fun _ s => I s.1.world s.2 := by
    cases hslot : t.runtime.context.slots c with
    | none =>
        have hresult : Runtime.drainPending env c (t.runtime.context, t.budget) =
            .ok none (t.runtime.context, t.budget) := by
          simp only [Runtime.drainPending, hslot]
        exact (ends_of_ok hresult).mpr ht.metered
    | some slot =>
        have hkept : I (drainLoop (recording (Runtime.endpointWriter env slot.endpoint true))
              slot.pending.bytes (t.runtime.context.world, []) t.budget).world.1
            (drainLoop (recording (Runtime.endpointWriter env slot.endpoint true))
              slot.pending.bytes (t.runtime.context.world, []) t.budget).budget :=
          drainLoop_keeps (I := fun (w : ω × List UInt8) budget => I w.1 budget)
            (fun hI hcharged => h.endpointWriter hI hcharged) _ _ _ ht.metered
        cases hdrain : slot.pending.drain (Runtime.endpointWriter env slot.endpoint true)
            t.runtime.context.world t.budget with
        | mk report rest =>
            obtain ⟨pending, ⟨w, accepted⟩, budget⟩ := rest
            have hresult : Runtime.drainPending env c (t.runtime.context, t.budget) =
                .ok (some report.stop)
                  (({ t.runtime.context with world := w }.setSlot c
                    (some { slot with pending })).note (.accepted c accepted), budget) := by
              simp only [Runtime.drainPending, hslot, hdrain]
            simp only [PendingQueue.drain, Transport.drain, Prod.mk.injEq] at hdrain
            obtain ⟨-, -, hw, rfl⟩ := hdrain
            rw [hw] at hkept
            exact (ends_of_ok hresult).mpr hkept
  refine ends_onContext.mpr (((drainPending_spec env c t.runtime.context t.budget).and hworld).mono
    ?_ fun _ _ hend => hend.1.elim)
  rintro stop s ⟨⟨-, hsame⟩ | ⟨slot, pending, reason, -, -, hchange, -⟩, hI⟩
  · rw [hsame]
    exact ht
  · exact ht.put ((tracked_sized env).change hchange ht.sized) hI

/-- What `flush_tx` does with the transmit queue. -/
theorem Metered.drainTx (serial : E) : Fits (Stocked I) (onContext fun (ctx, budget) =>
    let (report, tx, w, budget) :=
      ctx.tx.drain (Runtime.endpointWriter env serial false) ctx.world budget
    .ok report ({ ctx with tx, world := w, discarded := ctx.discarded + report.discarded }, budget) :
    Act E ω TurnReport) := by
  intro t ht
  have hkept : I
      (drainLoop (Runtime.endpointWriter env serial false) t.runtime.context.tx.bytes
        t.runtime.context.world t.budget).world
      (drainLoop (Runtime.endpointWriter env serial false) t.runtime.context.tx.bytes
        t.runtime.context.world t.budget).budget :=
    drainLoop_keeps (fun hI hcharged => h.endpointWriter hI hcharged) _ _ _ ht.metered
  exact ends_onContext.mpr (Iff.mpr (ends_of_ok rfl) (ht.put ht.sized hkept))

theorem Metered.publish (event : Event) : Fits (Stocked I) (onContext fun (ctx, budget) =>
    let (answer, ctx) := ctx.publish env event
    .ok answer (ctx, budget) : Act E ω Bool) := by
  intro t ht
  exact ends_onContext.mpr (Iff.mpr (ends_of_ok rfl) (ht.put ht.sized (h.apply ht.metered)))

omit h in
theorem fits_backOff (now : Nat) : Fits (Stocked I) (backOff now : Act E ω Unit) :=
  (fits_after now retryMs).bind fun _ =>
    fits_change fun _ => ⟨rfl, rfl, rfl, rfl⟩

theorem Metered.flushTx (now : Nat) : Fits (Stocked I) (Runtime.flushTx env now) := by
  refine (fits_look _).bind fun r => fits_ite (fun _ => fits_pure _) fun _ => ?_
  refine fits_theSerial.bind fun serial => (h.drainTx serial).bind fun report => ?_
  cases report.stop with
  | complete => exact fits_pure _
  | yielded => exact fits_pure _
  | blocked => exact fits_backOff now
  | deviceReset =>
      exact (h.publish .modemException).bind fun _ => fits_ite (fun _ => fits_pure _) fun _ =>
        fits_throw (by simp)
  | _ => exact fits_throw (by simp)

theorem Metered.startupLoop (now n : Nat) : Fits (Stocked I) (Runtime.startupLoop env now n) := by
  induction n with
  | zero => exact fits_pure _
  | succ n ih =>
      refine (fits_look _).bind fun chat => ?_
      cases chat.pendingWrite with
      | none => exact fits_pure _
      | some request =>
          refine fits_theSerial.bind fun serial => ?_
          refine (h.writeTurn serial request.bytes).bind fun result => ?_
          match result with
          | none => exact fits_pure _
          | some (.transferred bytes) => exact (fits_chatDo (by simp) _).bind fun _ => ih
          | some (.fault fault) =>
              exact (fits_chatDo (by simp) _).bind fun _ => fits_ite (fun _ => fits_backOff now)
                fun _ => ih

theorem Metered.writeSerial (now : Nat) : Fits (Stocked I) (Runtime.writeSerial env now) := by
  refine (fits_look _).bind fun state => ?_
  cases state with
  | startup =>
      exact (fits_look _).bind fun _ => fits_ite (fun _ => fits_pure _) fun _ =>
        h.startupLoop now 8
  | multiplexing => exact h.flushTx now
  | peerClosing => exact h.flushTx now
  | closed => exact fits_pure _
  | failed => exact fits_pure _

/-- **The switch to the multiplexer** leaves the decoder and the held bytes alone. -/
theorem Metered.enterMux {t : Turn E ω} (ht : Stocked I t) (now : Nat) :
    Ends (Runtime.enterMux env now) t
      (fun _ t' => Stocked I t' ∧ t'.runtime.state = .multiplexing ∧
        t'.runtime.decoder = t.runtime.decoder ∧ t'.runtime.heldTail = t.runtime.heldTail)
      fun e t' => e ≠ .capacity ∧ Stocked I t' := by
  have hrest : Ends (Runtime.enterMux env now) t
      (fun _ t' => t'.runtime.state = .multiplexing ∧ I t'.runtime.context.world t'.budget ∧
        t'.runtime.decoder = t.runtime.decoder ∧ t'.runtime.heldTail = t.runtime.heldTail)
      fun e t' => e ≠ .capacity ∧ t'.runtime.state = t.runtime.state ∧
        I t'.runtime.context.world t'.budget ∧ t'.runtime.decoder = t.runtime.decoder ∧
        t'.runtime.heldTail = t.runtime.heldTail := by
    -- the session begins, which leaves state and decoder alone
    have hbegin : Fits (Stocked I) (Runtime.sessionDo (Session.begin (Context.sink env) now)) :=
      h.sessionDo (.begin now) (by simp) fun _ => rfl
    have hsame : Leaves (fun r : Runtime E ω => (r.state, r.decoder, r.heldTail))
        (Runtime.sessionDo (Session.begin (Context.sink env) now)) :=
      leaves_sessionDo fun _ _ _ => rfl
    unfold Runtime.enterMux
    rw [ends_bind]
    refine ((hbegin t ht).and (hsame t)).mono ?_ ?_
    · rintro _ t₁ ⟨ht₁, hsame₁⟩
      obtain ⟨hstate, hdecoder, hheld⟩ : t₁.runtime.state = t.runtime.state ∧
          t₁.runtime.decoder = t.runtime.decoder ∧ t₁.runtime.heldTail = t.runtime.heldTail := by
        simpa using hsame₁
      rw [ends_bind]
      refine ends_theSerial ⟨by simp, hstate, ht₁.metered, hdecoder, hheld⟩ ?_
      intro serial
      rw [ends_bind, ends_look]
      -- the line's epoch goes, and a new one is entered in its place
      have hinvalidate : t₁.runtime.context.epochs.invalidate .serial =
          .ok ⟨Function.update t₁.runtime.context.epochs.entries 0 none⟩ := rfl
      rw [hinvalidate]
      dsimp only
      rw [ends_bind, ends_change, ends_bind, ends_look]
      have hrenewed : I (({ t₁.runtime.context with
            epochs := ⟨Function.update t₁.runtime.context.epochs.entries 0 none⟩ }.note
          (.closed 0)).replaceEpoch env .serial (env.descriptor serial)).2.world t₁.budget := by
        refine h.replaceEpoch ?_ _ _
        exact ht₁.metered
      dsimp only at hrenewed ⊢
      split
      -- without a new epoch the switch fails, but not for want of room
      · rename_i context hreplace
        rw [hreplace] at hrenewed
        rw [ends_bind, ends_change]
        exact (ends_throw _).mpr ⟨by simp, hstate, hrenewed, hdecoder, hheld⟩
      · rename_i token context hreplace
        rw [hreplace] at hrenewed
        exact ends_change.mpr ⟨rfl, hrenewed, hdecoder, hheld⟩
    · rintro e t₁ ⟨⟨he, ht₁⟩, hsame₁⟩
      obtain ⟨hstate, hdecoder, hheld⟩ : t₁.runtime.state = t.runtime.state ∧
          t₁.runtime.decoder = t.runtime.decoder ∧ t₁.runtime.heldTail = t.runtime.heldTail := by
        simpa using hsame₁
      exact ⟨he, hstate, ht₁.metered, hdecoder, hheld⟩
  -- the slots are sized in any case
  refine (((tracked_sized env).steady.enterMux now t ht.sized).and hrest).mono ?_ ?_
  · rintro _ t' ⟨hview, hstate, hI, hdecoder, hheld⟩
    refine ⟨⟨hview, ?_, ?_, hI⟩, hstate, hdecoder, hheld⟩
    · rw [hheld]
      exact ht.held
    · intro hstartup
      rw [hstate] at hstartup
      cases hstartup
  · rintro e t' ⟨hview, he, hstate, hI, hdecoder, hheld⟩
    refine ⟨he, hview, ?_, ?_, hI⟩
    · rw [hheld]
      exact ht.held
    · rw [hstate, hdecoder]
      exact ht.fresh

end World

/-! ### Frames -/

section Frames

variable {env : Env E ω} {I : ω → TurnBudget → Prop} (h : Metered env I)
include h

theorem Metered.peerClose (now : Nat) :
    Fits (Stocked I) (Runtime.peerClose now : Act E ω Unit) := by
  have hclose : Fits (Stocked I) (Runtime.sessionDo Session.peerClose : Act E ω Unit) :=
    h.sessionDo .peerClose (by simp) fun _ => rfl
  refine hclose.bind fun _ => (fits_after now closeFlushMs).bind fun due => ?_
  intro t ht
  exact ends_change.mpr ⟨ht.sized, ht.held, (fun hstate => by cases hstate), ht.metered⟩

theorem Metered.closeLocally (now : Nat) : Fits (Stocked I) (Runtime.closeLocally env now) := by
  have hall : Fits (Stocked I) (disconnectOpen env) := by
    refine fits_forM (fun c => (fits_look _).bind fun session => ?_) _
    refine fits_ite (fun _ => ?_) fun _ => fits_pure _
    exact h.sessionDo (.requestDisconnect (number c)) (by simp) fun _ => rfl
  refine hall.bind fun _ => (fits_after now 2000).bind fun due => ?_
  intro t ht
  exact ends_change.mpr ⟨ht.sized, ht.held, ht.fresh, ht.metered⟩

theorem Metered.recreate (c : Dlci) : Fits (Stocked I) (Runtime.recreate env c) :=
  h.sessionDo (.recreateEndpoint (number c)) (by simp) fun _ => rfl

theorem Metered.setLocalPause (c : Dlci) (paused : Bool) : Fits (Stocked I)
    (Runtime.sessionDo (Session.setLocalPause (Context.sink env) (number c) paused)) :=
  h.sessionDo (.setLocalPause (number c) paused) (by simp) fun _ => rfl

/-- Control messages never lack room. -/
theorem Metered.control (input : List UInt8) : Fits (Stocked I) (Runtime.control env input) := by
  refine (fits_look _).bind fun frameLimit => ?_
  cases Mcc.prepare input frameLimit (List.replicate maxPayload 0) with
  | error e => exact fits_throw (by simp)
  | ok prepared =>
      have heffect : Fits (Stocked I) (Runtime.takeEffect prepared.effect : Act E ω Bool) := by
        cases prepared.effect with
        | peerClosing => exact fits_pure _
        | none => exact fits_pure _
        | peerSignals channel signals =>
            have hsignals : Fits (Stocked I)
                (Runtime.sessionDo (Session.applyPeerSignals channel signals) : Act E ω Unit) :=
              h.sessionDo (.applyPeerSignals channel signals) (by simp) fun _ => rfl
            exact hsignals.bind fun _ => fits_pure _
      cases hreply : prepared.reply with
      | none =>
          simp only [hreply]
          exact heffect
      | some reply =>
          simp only [hreply]
          have hsend : Fits (Stocked I) (Runtime.sessionDo
              (Session.sendControl (Context.sink env) reply.control reply.payload)) :=
            h.sessionDo (.sendControl reply.control reply.payload) (by simp) fun _ => rfl
          exact hsend.bind fun _ => heffect

theorem Metered.data {t : Turn E ω} (ht : Stocked I t) {c : Dlci} {payload : List UInt8}
    (hlength : payload.length ≤ t.runtime.session.limit) :
    Ends (Runtime.data env c payload) t (fun _ => Stocked I)
      fun e t' => e ≠ .capacity ∧ Stocked I t' := by
  unfold Runtime.data
  rw [ends_bind]
  refine (h.deliver ht hlength).mono ?_ fun _ _ hend => hend
  intro delivery t' ht'
  cases delivery with
  | buffered => exact h.setLocalPause c true t' ht'
  | recreate => exact h.recreate c t' ht'
  | done => exact (ends_pure _).mpr ht'

/-- **A frame**: the session hands over no payload above its limit. -/
theorem Metered.dispatch (frame : Frame) : Fits (Stocked I) (Runtime.dispatch env frame) := by
  have hphase : ∀ closing : Bool, Fits (Stocked I) (Runtime.closes closing : Act E ω Bool) := by
    intro closing
    refine fits_ite (fun _ => fits_pure _) fun _ => (fits_look _).bind fun session => ?_
    cases session.phase with
    | closing => exact fits_ite (fun _ => fits_pure _) fun _ => fits_throw (by simp)
    | _ => exact fits_pure _
  have hreceive : Fits (Stocked I) (Runtime.sessionDo (Session.receive (Context.sink env) frame)) :=
    h.sessionDo (.receive frame) (by simp) fun st => Session.step_receive st frame
  intro t ht
  have hdata : Ends (Runtime.sessionDo (Session.receive (Context.sink env) frame)) t
      (fun handoff t' => ∀ c payload, handoff = .data c payload →
        payload.length ≤ t'.runtime.session.limit) fun _ _ => True := by
    refine ends_sessionDo.mpr ((Session.receive_data _ _ frame).mono ?_ fun _ _ _ => trivial)
    intro handoff st hst c payload heq
    obtain ⟨hands, echo, rfl⟩ := hst c payload heq
    exact hands.length
  unfold Runtime.dispatch
  rw [ends_bind]
  refine ((hreceive t ht).and hdata).mono ?_ fun _ _ hend => hend.1
  rintro handoff t' ⟨ht', hlength⟩
  rw [ends_bind]
  cases handoff with
  | none => exact (ends_pure _).mpr (hphase false t' ht')
  | control input => exact (h.control input t' ht').mono (hphase ·) fun _ _ hend => hend
  | endpointMissing c bytes =>
      simp only [handOver, ends_bind, ends_change, ends_pure]
      exact hphase false _ ⟨ht'.sized, ht'.held, ht'.fresh, ht'.metered⟩
  | data c payload =>
      simp only [handOver, ends_bind, ends_pure]
      exact (h.data ht' (hlength c payload rfl)).mono (fun _ => hphase false) fun _ _ hend => hend

omit h in
/-- A decoder that is in use. -/
theorem Stocked.decode {t : Turn E ω} (ht : Stocked I t) (hstate : t.runtime.state ≠ .startup)
    (decoder : Decoder rxBytes) :
    Stocked I { t with runtime := { t.runtime with decoder } } :=
  ⟨ht.sized, ht.held, fun hstartup => absurd hstartup hstate, ht.metered⟩

/-- The loop over the frames, behind the AT dialogue. -/
theorem Metered.framesLoop (now : Nat) (d : Decoder rxBytes) {t : Turn E ω} (ht : Stocked I t)
    (hstate : t.runtime.state ≠ .startup) :
    Ends (Runtime.framesLoop env now d) t (fun _ => Stocked I)
      fun e t' => e ≠ .capacity ∧ Stocked I t' := by
  induction hn : d.length - d.consumed using Nat.strong_induction_on generalizing d t with
  | _ n ih =>
      unfold Runtime.framesLoop
      split
      · exact ends_change.mpr (ht.decode hstate _)
      · rename_i frame d' hnext
        have hlt := Decoder.nextFrame_lt hnext
        have hagain : ∀ t : Turn E ω, Stocked I t → t.runtime.state ≠ .startup →
            Ends (Runtime.framesLoop env now d') t (fun _ => Stocked I)
              fun e t' => e ≠ .capacity ∧ Stocked I t' :=
          fun t ht hstate => ih _ (hn ▸ hlt) d' ht hstate rfl
        simp only [ends_bind, ends_change, ends_countFrame, ends_look, ends_ite]
        have hready : ∀ frames, Stocked I
            { t with runtime := { t.runtime with decoder := d' }, frames } :=
          fun _ => ⟨ht.sized, ht.held, fun hstartup => absurd hstartup hstate, ht.metered⟩
        split
        · exact hagain _ (hready _) hstate
        · have hsame : Leaves (·.state) (Runtime.dispatch env frame) :=
            leaves_dispatch (fun _ _ _ => rfl) env frame
          refine ((h.dispatch frame _ (hready _)).and (hsame _)).mono ?_ fun _ _ hend => hend.1
          rintro closing t' ⟨ht', hstate'⟩
          split
          · exact h.peerClose now t' ht'
          · split
            · exact h.closeLocally now t' ht'
            · exact hagain t' ht' fun hstartup => hstate (hstate'.symm.trans hstartup)

end Frames

/-! ### The serial line -/

section Serial

variable {env : Env E ω} {I : ω → TurnBudget → Prop} (h : Metered env I)
include h

/-- **The held bytes fit the decoder**: at the switch it is empty. -/
theorem Metered.beginMux (now : Nat) {t : Turn E ω} (ht : Stocked I t)
    (hstate : t.runtime.state = .startup) :
    Ends (Runtime.beginMux env now) t (fun _ => Stocked I)
      fun e t' => e ≠ .capacity ∧ Stocked I t' := by
  unfold Runtime.beginMux
  rw [ends_bind]
  refine (h.enterMux ht now).mono ?_ fun _ _ hend => hend
  rintro _ t' ⟨ht', hstate', hdecoder, hheld⟩
  rw [ends_bind, ends_look]
  have hmux : t'.runtime.state ≠ .startup := by
    rw [hstate']
    simp
  have hroom : t'.runtime.heldTail.length ≤ t'.runtime.decoder.availableCapacity := by
    rw [hheld, hdecoder, Decoder.availableCapacity, ht.fresh hstate]
    exact ht.held
  obtain ⟨decoder, hpush⟩ := Decoder.push_isOk hroom
  rw [id, hpush]
  dsimp only
  rw [ends_bind, ends_change]
  unfold frames
  rw [ends_bind, ends_look]
  refine h.framesLoop now _ ?_ hmux
  exact ⟨ht'.sized, Nat.zero_le _, fun hstartup => absurd hstartup hmux, ht'.metered⟩

/-- Once the dialogue is over, the multiplexer begins. -/
theorem Metered.whenReady (now : Nat) {t : Turn E ω} (ht : Stocked I t)
    (hstate : t.runtime.state = .startup) :
    Ends (do if (← look (·.chat.phase)) = .ready then Runtime.beginMux env now else pure ()) t
      (fun _ => Stocked I) fun e t' => e ≠ .capacity ∧ Stocked I t' := by
  rw [ends_bind, ends_look, ends_ite]
  split
  · exact h.beginMux now ht hstate
  · exact (ends_pure _).mpr ht

/-- **The tail of the dialogue fits**: it is part of what was read. -/
theorem Metered.feedChat (now : Nat) {t : Turn E ω} (ht : Stocked I t)
    (hstate : t.runtime.state = .startup) {input : List UInt8}
    (hinput : input.length ≤ rxBytes - t.runtime.heldTail.length) :
    Ends (Runtime.feedChat env now input) t (fun _ => Stocked I)
      fun e t' => e ≠ .capacity ∧ Stocked I t' := by
  unfold Runtime.feedChat
  rw [ends_bind]
  refine ends_chatDo.mpr ((Chat.feed_tailWithin now input t.runtime.chat).mono ?_ ?_)
  · intro fed chat hfed
    cases htail : fed.muxTail with
    | none =>
        dsimp only
        exact h.whenReady now (ht.say chat) hstate
    | some tail =>
        dsimp only
        have hle : tail.length ≤ rxBytes - (t.say chat).runtime.heldTail.length :=
          Nat.le_trans (hfed tail htail) hinput
        rw [ends_bind, ends_look, ends_ite, if_neg (Nat.not_lt.mpr hle), ends_bind, ends_change]
        refine h.whenReady now ?_ hstate
        refine ⟨ht.sized, ?_, ht.fresh, ht.metered⟩
        have hheld : (t.say chat).runtime.heldTail.length ≤ rxBytes := ht.held
        show ((t.say chat).runtime.heldTail ++ tail).length ≤ rxBytes
        rw [List.length_append]
        omega
  · intro e chat _
    exact ⟨by simp, ht.say chat⟩

/-- **A read of the serial line** asks for no more than there is room for. -/
theorem Metered.readSerial (now : Nat) : Fits (Stocked I) (Runtime.readSerial env now) := by
  intro t ht
  unfold Runtime.readSerial
  rw [ends_bind, ends_look, ends_ite]
  split
  · exact (ends_pure _).mpr ht
  · dsimp only
    rw [ends_bind]
    refine ends_theSerial ⟨by simp, ht⟩ fun serial => ?_
    rw [ends_bind]
    refine (h.readTurn ht serial readBytes _).mono ?_ fun _ _ hend => hend
    rintro result t' ⟨ht', hstate, hheld, -, hlength⟩
    -- A fault ends in the chat or in an input error, neither of them for want of room.
    have hfault : ∀ fault, Ends (if t.runtime.state = .startup then
          chatDo (if fault = .deviceReset then .chatRead else .chat)
            (Chat.readFault now (if fault = .busy then .failure else fault))
        else throw .io : Act E ω Unit) t' (fun _ => Stocked I)
        fun e t'' => e ≠ .capacity ∧ Stocked I t'' := by
      intro fault
      refine fits_ite (fun _ => fits_chatDo ?_ _) (fun _ => fits_throw (by simp)) t' ht'
      intro e
      split
      · simp
      · simp
    -- The turn's budget may have been used up, the read may have brought bytes or a fault.
    match result with
    | none => exact (ends_pure _).mpr ht'
    | some (.transferred n, input) =>
        have hroom := hlength n input rfl
        dsimp only
        rw [ends_ite]
        split
        · exact (ends_throw _).mpr ⟨by simp, ht'⟩
        · rw [ends_ite]
          split
          · rename_i hstartup
            have hstartup' : t.runtime.state = .startup := hstartup
            -- Before the multiplexer runs, the bytes go to the chat, which has asked for what it
            -- can hold.
            refine h.feedChat now ht' (hstate.trans hstartup) ?_
            rw [if_pos hstartup] at hroom
            rw [hheld]
            exact Nat.le_trans hroom (Nat.min_le_left _ _)
          · rename_i hmux
            rw [if_neg hmux] at hroom
            -- Afterwards they go to the decoder, whose free room bounded the read.
            obtain ⟨decoder, hpush⟩ :=
              Decoder.push_isOk (Nat.le_trans hroom (Nat.min_le_left _ _))
            have hmux' : t'.runtime.state ≠ .startup := fun hstartup =>
              hmux (hstate.symm.trans hstartup)
            rw [hpush]
            dsimp only
            rw [ends_bind, ends_change]
            unfold frames
            rw [ends_bind, ends_look]
            exact h.framesLoop now _ (ht'.decode hmux' decoder) hmux'
    | some (.fault .interrupted, _) => exact (ends_pure _).mpr ht'
    | some (.fault .wouldBlock, _) => exact (ends_pure _).mpr ht'
    | some (.fault .busy, _) => exact hfault _
    | some (.fault .endOfStream, _) => exact hfault _
    | some (.fault .deviceReset, _) => exact hfault _
    | some (.fault .failure, _) => exact hfault _

theorem Metered.tickChat (now : Nat) (serialReadable : Bool) :
    Fits (Stocked I) (Runtime.tickChat env now serialReadable) := by
  intro t ht
  unfold Runtime.tickChat
  rw [ends_bind, ends_look, ends_ite]
  split
  · rename_i hstate
    rw [ends_bind, ends_look]
    dsimp only
    rw [ends_ite]
    split
    · exact h.whenReady now ht hstate
    · rw [ends_bind]
      refine ends_chatDo.mpr ((ends_true _ _).mono ?_ fun _ chat _ => ⟨by simp, ht.say chat⟩)
      intro _ chat _
      exact h.whenReady now (ht.say chat) hstate
  · exact (ends_pure _).mpr ht

theorem Metered.tickSession (now : Nat) : Fits (Stocked I) (Runtime.tickSession env now) := by
  have htick : Fits (Stocked I) (do
      let r ← look id
      if r.state = .multiplexing ∧ r.localCloseAt = none then
        if ← Runtime.sessionDo (Session.recoveryTick (Context.sink env) now) then
          Runtime.closeLocally env now
        else pure ()
      else pure ()) := by
    refine (fits_look _).bind fun r => fits_ite (fun _ => ?_) fun _ => fits_pure _
    have hrecovery : Fits (Stocked I)
        (Runtime.sessionDo (Session.recoveryTick (Context.sink env) now)) :=
      h.sessionDo (.recoveryTick now) (by simp) fun st => Session.step_recoveryTick st now
    exact hrecovery.bind fun _ => fits_ite (fun _ => h.closeLocally now) fun _ => fits_pure _
  refine (fits_look _).bind fun state => fits_ite (fun _ => ?_) fun _ => htick
  refine (fits_look _).bind fun pending => Fits.bind ?_ fun _ => htick
  exact h.sessionDo (.pollTimeout now pending) (by simp) fun st =>
    Session.step_pollTimeout st now pending

/-- The end of a local close. Its frame is the one that may find no room. -/
theorem Metered.finishLocalClose (now : Nat) {t : Turn E ω} (ht : Stocked I t) :
    Ends (Runtime.finishLocalClose now) t (fun _ => Stocked I) fun _ => Stocked I := by
  unfold Runtime.finishLocalClose
  rw [ends_bind, ends_look, ends_ite]
  split
  · cases Frame.command 0 uih [0xc3, 1] with
    | error e => exact (ends_throw _).mpr ht
    | ok frame =>
        dsimp only
        rw [ends_bind]
        refine Ends.mono (Q := fun _ => Stocked I) (E := fun _ => Stocked I)
          (ends_onContext.mpr (ends_endState.mpr ?_)) ?_ fun _ _ hend => hend
        · dsimp only
          split
          · exact ht.put ht.sized ht.metered
          · exact ht.put ht.sized ht.metered
        · intro _ t' ht'
          rw [ends_bind, ends_change]
          refine (h.peerClose now _ ?_).mono (fun _ _ hend => hend) fun _ _ hend => hend.2
          exact ⟨ht'.sized, ht'.held, ht'.fresh, ht'.metered⟩
  · exact (ends_pure _).mpr ht

end Serial

/-! ### Channels -/

section Channels

variable {env : Env E ω} {I : ω → TurnBudget → Prop} (h : Metered env I)
include h

theorem Metered.drainChannel (c : Dlci) : Fits (Stocked I) (Runtime.drainChannel env c) := by
  refine (h.drainPending c).bind fun stop => ?_
  match stop with
  | none => exact fits_pure _
  | some .complete =>
      refine (fits_look _).bind fun session => ?_
      exact fits_ite (fun _ => h.setLocalPause c false) fun _ => fits_pure _
  | some .yielded => exact fits_pure _
  | some .blocked => exact fits_pure _
  | some .deviceReset | some .endOfStream | some .failure | some .noProgress
  | some .invalidProgress | some .rejected | some .invalidBuffer => exact h.recreate c

omit h in
/-- **What a terminal wrote fits the transmit queue** that `can_accept_pty_read` looked at. -/
theorem forward_stocked {c : Dlci} (hc : c ≠ 0) {input : List UInt8}
    (hinput : input.length ≤ ptyReadBytes) {t : Turn E ω} (ht : Stocked I t)
    (hcan : t.runtime.context.tx.canAcceptPtyRead = true) :
    Ends (forward c input) t (fun _ => Stocked I) fun e t' => e ≠ .capacity ∧ Stocked I t' := by
  have hnumber := number_toNat c
  have hzero : number c ≠ 0 := by
    intro hnone
    rw [hnone] at hnumber
    exact hc (Fin.ext hnumber.symm)
  have hbound : number c < 64 := by
    rw [UInt8.lt_iff_toNat_lt, hnumber]
    exact c.isLt
  obtain ⟨tx, hadmit⟩ := TransmitQueue.admitPtyInput_isOk hcan hzero hbound hinput
  have hresult : forward c input t =
      .ok () (t.put ({ t.runtime.context with tx }, t.budget)) := by
    simp only [forward, onContext, hadmit]
    rfl
  exact (ends_of_ok hresult).mpr (ht.put ht.sized ht.metered)

/-- **`read_channel` never lacks room.** -/
theorem Metered.readChannel {c : Dlci} (hc : c ≠ 0) :
    Fits (Stocked I) (Runtime.readChannel env c) := by
  intro t ht
  unfold Runtime.readChannel
  rw [ends_bind, ends_look, ends_ite]
  split
  · exact (ends_pure _).mpr ht
  · rename_i hread
    -- The session reads an endpoint only when the queue has room for a whole read.
    have hcan : t.runtime.context.tx.canAcceptPtyRead = true := by
      have hcanRead : t.runtime.session.canReadEndpoint (number c)
          t.runtime.context.tx.canAcceptPtyRead = true := by simpa using hread
      simp only [Session.canReadEndpoint, Bool.and_eq_true, Option.any_eq_true] at hcanRead
      obtain ⟨-, _, -, -, hcan⟩ := hcanRead
      exact hcan
    dsimp only [id]
    cases hslot : t.runtime.context.slots c with
    | none => exact (ends_throw _).mpr ⟨by simp, ht⟩
    | some slot =>
        dsimp only
        rw [ends_bind]
        refine (h.readTurn ht slot.endpoint ptyReadBytes ptyReadBytes).mono ?_ fun _ _ hend => hend
        rintro result t' ⟨ht', -, -, htx, hlength⟩
        match result with
        | none => exact (ends_pure _).mpr ht'
        | some (.transferred n, input) =>
            dsimp only
            rw [ends_ite]
            split
            · exact h.recreate c t' ht'
            · have happlication : Fits (Stocked I)
                  (Runtime.sessionDo (Session.applicationInput (number c)) :
                    Act E ω ApplicationInput) :=
                h.sessionDo (.applicationInput (number c)) (by simp) fun st =>
                  Session.step_applicationInput st (number c)
              -- Asking the session what to do with the bytes takes none of that room.
              have htx' : Ends (Runtime.sessionDo (Session.applicationInput (number c))) t'
                  (fun _ t'' => t''.runtime.context.tx = t'.runtime.context.tx)
                  fun _ t'' => t''.runtime.context.tx = t'.runtime.context.tx :=
                ends_sessionDo.mpr ((Session.applicationInput_owner _ _ (number c)).mono
                  (fun _ st hst => (congrArg Context.tx hst : st.2.tx = _))
                  fun _ st hst => (congrArg Context.tx hst : st.2.tx = _))
              rw [ends_bind]
              refine ((happlication t' ht').and htx').mono ?_ fun _ _ hend => hend.1
              rintro answer t'' ⟨ht'', hsame⟩
              -- Of the three answers only forwarding puts a frame in the queue.
              cases answer with
              | forward =>
                  refine forward_stocked hc (hlength n input rfl) ht'' ?_
                  rw [hsame, htx]
                  exact hcan
              | reportRefusal =>
                  exact ends_change.mpr ⟨ht''.sized, ht''.held, ht''.fresh, ht''.metered⟩
              | discard =>
                  exact ends_change.mpr ⟨ht''.sized, ht''.held, ht''.fresh, ht''.metered⟩
        | some (.fault .interrupted, _) => exact (ends_pure _).mpr ht'
        | some (.fault .wouldBlock, _) => exact (ends_pure _).mpr ht'
        | some (.fault .busy, _) | some (.fault .endOfStream, _) | some (.fault .deviceReset, _)
        | some (.fault .failure, _) => exact h.recreate c t' ht'

end Channels

/-! ### Whole turns -/

section Turns

variable {α : Type} {env : Env E ω} {I : ω → TurnBudget → Prop}

/-- The invariant in the part of a turn that counts stale events. -/
def Supplied (I : ω → TurnBudget → Prop) (s : Turn E ω × Nat) : Prop := Stocked I s.1

theorem fits_act {p : Act E ω α} (hp : Fits (Stocked I) p) : Fits (Supplied I) (act p) :=
  fun s hs => ends_act.mpr (hp s.1 hs)

theorem fits_addStale (n : Nat) : Fits (Supplied I) (addStale n : Service E ω Unit) :=
  fun s hs => (ends_of_ok (rfl : addStale n s = .ok () (s.1, s.2 + n))).mpr hs

theorem fits_spent (callLimit : Nat) : Fits (Stocked I) (spent callLimit : Act E ω Bool) := by
  intro t ht
  have hresult : (spent callLimit : Act E ω Bool) t =
      .ok (t.budget.calls == callLimit || t.budget.availableBytes == 0) t := rfl
  exact (ends_of_ok hresult).mpr ht

/-- Everything is closed: the decoder and the held bytes are dropped. -/
theorem Stocked.closeAll (env : Env E ω) {t : Turn E ω} (ht : Stocked I t) {state : State}
    (hstate : state ≠ .startup) :
    Stocked I { t with runtime := { t.runtime.closeAll with state } } where
  sized := (tracked_sized env).steady.rules.closeAll t.runtime state ht.sized
  held := Nat.zero_le _
  fresh := fun hstartup => absurd hstartup hstate
  metered := by
    show I t.runtime.closeAll.context.world t.budget
    rw [closeAll_world]
    exact ht.metered

variable (h : Metered env I)
include h

theorem Metered.serveSerial (now : Nat) (event : Ready) :
    Fits (Supplied I) (Runtime.serveSerial env now event) := by
  have hwrite : Fits (Supplied I) (act (Runtime.writeSerial env now)) := fits_act (h.writeSerial now)
  refine Fits.bind (fits_onlyIf fun _ => fits_act (fits_change ?_)) fun _ => ?_
  · exact fun _ => ⟨rfl, rfl, rfl, rfl⟩
  refine (fits_act (fits_look _)).bind fun earlyWrite => ?_
  refine Fits.bind (fits_onlyIf fun _ => fits_act (fits_change ?_)) fun _ => ?_
  · exact fun _ => ⟨rfl, rfl, rfl, rfl⟩
  refine (fits_onlyIf fun _ => hwrite).bind fun _ => ?_
  refine (fits_act (fits_look _)).bind fun state => ?_
  refine (fits_act (fits_look _)).bind fun current => ?_
  refine (fits_onlyIf fun _ => fits_act (h.readSerial now)).bind fun _ => ?_
  refine (fits_act (fits_look _)).bind fun still => ?_
  refine fits_ite (fun _ => ?_) fun _ => (fits_addStale 1).bind fun _ => fits_pure _
  refine (fits_onlyIf fun _ => hwrite).bind fun _ => ?_
  exact fits_ite (fun _ => fits_throw (by simp)) fun _ => fits_pure _

theorem Metered.serveChannel {c : Dlci} (hc : c ≠ 0) (event : Ready) :
    Fits (Supplied I) (Runtime.serveChannel env c event) := by
  refine (fits_act (fits_look _)).bind fun r => ?_
  refine fits_ite (fun _ => ?_) fun _ => fits_pure _
  refine fits_ite (fun _ => fits_pure _) fun _ => ?_
  refine (fits_onlyIf fun _ => fits_act (h.drainChannel c)).bind fun _ => ?_
  refine (fits_act (fits_look _)).bind fun still => ?_
  refine fits_ite (fun _ => ?_) fun _ => (fits_addStale 1).bind fun _ => fits_pure _
  refine fits_ite (fun _ => ?_) fun _ => ?_
  · exact (fits_act (h.readChannel hc)).bind fun _ => fits_pure _
  · exact (fits_onlyIf fun _ => fits_act (h.recreate c)).bind fun _ => fits_pure _

theorem Metered.serveLoop (now callLimit : Nat) (ready : Dlci → Option Ready)
    (offsets : List Nat) :
    Fits (Supplied I) (Runtime.serveLoop env now callLimit ready offsets) := by
  induction offsets with
  | nil => exact fits_pure _
  | cons offset rest ih =>
      refine (fits_act (fits_look _)).bind fun cursor => ?_
      cases hnode : ready (Fin.ofNat 64 (cursor + offset)) with
      | none =>
          simp only [hnode]
          exact ih
      | some event =>
          simp only [hnode]
          refine (fits_act (fits_look _)).bind fun current => ?_
          refine fits_ite (fun _ => ?_) fun _ => (fits_addStale 1).bind fun _ => ih
          refine Fits.bind ?_ fun served => (fits_act (fits_spent callLimit)).bind fun finished => ?_
          · exact fits_ite (fun _ => h.serveSerial now event) fun hne => h.serveChannel hne event
          · refine fits_ite (fun _ => fits_act (fits_change ?_)) fun _ => ih
            exact fun _ => ⟨rfl, rfl, rfl, rfl⟩

theorem Metered.closeTurn (now : Nat) : Fits (Stocked I) (Runtime.closeTurn env now) := by
  refine (h.writeSerial now).bind fun _ => (fits_look _).bind fun r => ?_
  refine fits_ite (fun _ => ?_) fun _ => fits_pure _
  intro t ht
  exact ends_change.mpr (ht.closeAll env (by simp))

theorem Metered.serveEvents (now : Nat) (events : List Ready) (callLimit : Nat) :
    Fits (Supplied I) (Runtime.serveEvents env now events callLimit) := by
  refine (fits_act (fits_look _)).bind fun collected => ?_
  refine (fits_addStale _).bind fun _ => (h.serveLoop now callLimit _ _).bind fun _ => ?_
  exact fits_act (h.closeTurn now)

omit h in
/-- The turn as `run_turn` starts it. -/
def Turn.started (t : Turn E ω) (now : Nat) : Turn E ω :=
  { t with runtime := { t.runtime with lastNow := now, polloutTurn := false } }

omit h in
/-- A turn that stopped because the frame of a local close found no room: everything
before it in the turn went well. -/
def CloseDownRejected (env : Env E ω) (now : Nat) (events : List Ready) (t t' : Turn E ω) : Prop :=
  ∃ t₁, (do
      Runtime.tickChat env now ((t.started now).runtime.serialReadable events)
      Runtime.tickSession env now) (t.started now) = .ok () t₁ ∧
    Runtime.finishLocalClose now t₁ = .error .capacity t'

/-- The first part of a turn. -/
theorem Metered.openTurn {now : Nat} {events : List Ready} {t : Turn E ω}
    (ht : Stocked I (t.started now)) :
    Ends (Runtime.openTurn env now ((t.started now).runtime.serialReadable events)) (t.started now)
      (fun _ => Stocked I) fun e t' => Stocked I t' ∧
        (e = .capacity → CloseDownRejected env now events t t') := by
  unfold Runtime.openTurn
  rw [ends_bind, ends_look, ends_ite]
  split
  · rw [ends_bind, ends_change, ends_pure]
    exact ht.closeAll env (by simp)
  · -- the clocks are followed together, so that their result can be named
    have hclocks := ((h.tickChat now ((t.started now).runtime.serialReadable events)).bind
      fun _ => h.tickSession now) (t.started now) ht
    have hsplit : Ends (do
        Runtime.tickChat env now ((t.started now).runtime.serialReadable events)
        Runtime.tickSession env now) (t.started now)
        (fun _ s => Ends (do Runtime.finishLocalClose now; pure false : Act E ω Bool) s
          (fun _ => Stocked I) fun e t' => Stocked I t' ∧
            (e = .capacity → CloseDownRejected env now events t t'))
        fun e t' => Stocked I t' ∧
          (e = .capacity → CloseDownRejected env now events t t') := by
      refine hclocks.traced.mono ?_ ?_
      · rintro _ t₁ ⟨hrun, ht₁⟩
        rw [ends_bind]
        refine (h.finishLocalClose now ht₁).traced.mono ?_ ?_
        · rintro _ t₂ ⟨-, ht₂⟩
          exact (ends_pure _).mpr ht₂
        · rintro e t₂ ⟨hend, ht₂⟩
          refine ⟨ht₂, ?_⟩
          rintro rfl
          exact ⟨t₁, hrun, hend⟩
      · rintro e t' ⟨-, he, ht'⟩
        exact ⟨ht', fun hcapacity => absurd hcapacity he⟩
    rw [ends_bind] at hsplit ⊢
    refine hsplit.mono ?_ fun _ _ hend => hend
    intro _ t₁ ht₁
    rw [ends_bind]
    exact ht₁

/-- **A turn lacks room for the frame of a local close only.** -/
theorem Metered.runTurn (now : Nat) (events : List Ready) (callLimit : Nat) {t : Turn E ω}
    (ht : Stocked I t) (stale : Nat) :
    Ends (Runtime.runTurn env now events callLimit) (t, stale) (fun _ s => Stocked I s.1)
      fun e s => Stocked I s.1 ∧ (e = .capacity → CloseDownRejected env now events t s.1) := by
  have hthrow : ∀ e : Error, e ≠ .capacity →
      Ends (throw e : Service E ω Unit) (t, stale) (fun _ s => Stocked I s.1)
        fun e s => Stocked I s.1 ∧ (e = .capacity → CloseDownRejected env now events t s.1) :=
    fun e he => (ends_throw _).mpr ⟨ht, fun hcapacity => absurd hcapacity he⟩
  unfold Runtime.runTurn
  rw [ends_bind, ends_act, ends_look, ends_ite]
  split
  · exact hthrow _ (by simp)
  · rw [ends_ite]
    split
    · exact hthrow _ (by simp)
    · rw [ends_bind, ends_act, ends_change, ends_bind, ends_act, ends_look, ends_bind, ends_act]
      have hstarted : Stocked I (t.started now) := ⟨ht.sized, ht.held, ht.fresh, ht.metered⟩
      refine Ends.mono (h.openTurn hstarted) ?_ fun _ _ hend => hend
      intro finished t' ht'
      rw [ends_ite]
      split
      · exact (ends_pure _).mpr ht'
      · refine (h.serveEvents now events callLimit (t', stale) ht').mono (fun _ _ hend => hend) ?_
        rintro e s ⟨he, hs⟩
        exact ⟨hs, fun hcapacity => absurd hcapacity he⟩

end Turns

/-! ### Reachable runtimes -/

/-- What a runtime can rely on between two turns. -/
structure Provisioned (r : Runtime E ω) : Prop where
  sized : both (Recorded Sized) r.view
  held : r.heldTail.length ≤ rxBytes
  fresh : r.state = .startup → r.decoder.buffered = []

/-- The turn that `drive` runs. -/
def driven (r : Runtime E ω) (budget : TurnBudget) : Turn E ω :=
  ⟨{ r with context := { r.context with discarded := 0 } }, budget, 0⟩

theorem Provisioned.stocked {r : Runtime E ω} (h : Provisioned r) {I : ω → TurnBudget → Prop}
    (budget : TurnBudget) (hI : I r.context.world budget) : Stocked I (driven r budget) :=
  ⟨h.sized, h.held, h.fresh, hI⟩

theorem Stocked.provisioned {I : ω → TurnBudget → Prop} {t : Turn E ω} (h : Stocked I t) :
    Provisioned t.runtime := ⟨h.sized, h.held, h.fresh⟩

theorem Provisioned.closeAll (env : Env E ω) {r : Runtime E ω} (h : Provisioned r) {state : State}
    (hstate : state ≠ .startup) : Provisioned { r.closeAll with state } where
  sized := (tracked_sized env).steady.rules.closeAll r state h.sized
  held := Nat.zero_le _
  fresh := fun hstartup => absurd hstartup hstate

/-- **A turn keeps what the runtime relies on.** -/
theorem Provisioned.next {env : Env E ω} {r : Runtime E ω} (h : Provisioned r) (input : Input) :
    Provisioned (next env r input) := by
  cases input with
  | stop => exact h.closeAll env (by simp)
  | drive now events limits =>
      show Provisioned (drive env r now events limits).2
      unfold drive
      split
      · exact h
      · dsimp only
        split
        · exact Provisioned.closeAll env
            (r := { r with context := { r.context with discarded := 0 }
                           error := some .configuration })
            ⟨h.sized, h.held, h.fresh⟩ (by simp)
        · rename_i budget hbudget
          have hturn := (metered_true env).runTurn now events limits.calls
            (h.stocked (I := fun _ _ => True) budget trivial) 0
          show Provisioned (conclude (runTurn env now events limits.calls (driven r budget, 0))).2
          cases hresult : runTurn env now events limits.calls (driven r budget, 0) with
          | ok a s => exact ((ends_of_ok hresult).mp hturn).provisioned
          | error e s =>
              have hs := ((ends_of_error hresult).mp hturn).1.provisioned
              exact Provisioned.closeAll env (r := { s.1.runtime with error := some e })
                ⟨hs.sized, hs.held, hs.fresh⟩ (by simp)

theorem Reachable.provisioned {env : Env E ω} {r : Runtime E ω} (h : Reachable env r) :
    Provisioned r := by
  have hsized : ∀ {r : Runtime E ω}, Reachable env r → both (Recorded Sized) r.view :=
    fun hr => hr.invariant (tracked_sized env).steady.rules fun hs _ hmax =>
      ⟨hs.basic hmax, fun _ _ hslot => by cases hslot⟩
  induction h with
  | new hnew =>
      obtain ⟨-, -, -, -, -, hheld, hdecoder⟩ := new_view hnew
      exact ⟨hsized (.new hnew), by rw [hheld]; exact Nat.zero_le _, fun _ =>
        Decoder.new_buffered hdecoder⟩
  | recovering escalationAfter hnew =>
      obtain ⟨-, -, -, -, -, hheld, hdecoder⟩ := new_view hnew
      refine ⟨hsized (.recovering escalationAfter hnew), ?_, fun _ =>
        Decoder.new_buffered hdecoder⟩
      show _ ≤ _
      rw [enableRecovery, hheld]
      exact Nat.zero_le _
  | next _ input ih => exact ih.next input

/-! ### Reservations -/

/-- **Reservations make the capacity errors unreachable.** A transmit queue that can
accept a read takes any input of a terminal; a decoder without a complete frame has room,
so that a receiver never stops for want of it; an empty queue takes the rest of any
payload. A turn of a reachable runtime stops with `Capacity` only where the frame of a
local close is queued: no read, no delivery and no held byte is ever without room. -/
theorem reservations_suffice (env : Env E ω) {r : Runtime E ω} (hr : Reachable env r) :
    (∀ (q : TransmitQueue) (channel : UInt8) (input : List UInt8), q.canAcceptPtyRead = true →
      1 ≤ channel → channel ≤ 63 → input.length ≤ ptyReadBytes →
      ∃ q', TransmitQueue.admitPtyInput channel input q = .ok () q') ∧
    (∀ d d' : Decoder rxBytes, d.nextFrame = (none, d') →
      d'.buffered.length ≤ d'.limit + 6 ∧ 1 ≤ d'.availableCapacity) ∧
    (∀ {ω' : Type} (receiver : Receiver) (reader : ByteReader ω') (sink : FrameSink ω')
      (scratch : List UInt8) (w : ω') (budget : TurnBudget), receiver.Reachable →
      scratch ≠ [] → scratch.length ≤ rxBytes →
      (receiver.readTurn reader sink scratch w budget).1.stop ≠ .invalidBuffer) ∧
    (∀ (c : Dlci) (slot : Slot E) (rest : List UInt8), r.context.slots c = some slot →
      slot.pending.pending = [] → rest.length ≤ r.context.frameLimit →
      ∃ pending, slot.pending.bufferRemainder rest = .ok pending) ∧
    ∀ (now : Nat) (events : List Ready) (callLimit : Nat) (budget : TurnBudget)
      (s : Turn E ω × Nat),
      runTurn env now events callLimit (driven r budget, 0) = .error .capacity s →
      CloseDownRejected env now events (driven r budget) s.1 := by
  have hprovisioned := hr.provisioned
  refine ⟨?_, ?_, ?_, ?_, ?_⟩
  · intro q channel input hcan hpos hle hinput
    -- Room for a whole read is more than the frame needs.
    refine TransmitQueue.admitPtyInput_isOk hcan ?_ ?_ hinput
    · rintro rfl
      exact absurd hpos (by decide)
    · rw [UInt8.lt_iff_toNat_lt]
      exact Nat.lt_succ_of_le (UInt8.le_iff_toNat_le.mp hle)
  · intro d d' hnext
    -- A decoder without a frame holds less than one.
    have hsettled := Decoder.nextFrame_settled hnext
    exact ⟨hsettled, hsettled.available⟩
  · intro ω' receiver reader sink scratch w budget hreachable hsome hbytes
    exact hreachable.readTurn_stop reader sink w budget hsome hbytes
  · intro c slot rest hslot hempty hrest
    -- The queue of a slot has the limit of the context.
    have hlimit : slot.pending.frameLimit = r.context.frameLimit :=
      hprovisioned.sized.2 c slot hslot
    refine PendingQueue.bufferRemainder_isOk hempty ?_
    rw [hlimit]
    exact hrest
  · intro now events callLimit budget s hstop
    -- The turn, with nothing to be counted.
    have hturn := (metered_true env).runTurn now events callLimit
      (hprovisioned.stocked (I := fun _ _ => True) budget trivial) 0
    exact ((ends_of_error hstop).mp hturn).2 rfl

theorem reservations_suffice_scripted :
    ∃ r, (scriptedStart ⟨scriptedAnswers [], []⟩).map (run scripted · dialogue) = some r ∧
      r.state = .multiplexing ∧ r.context.tx.canAcceptPtyRead = true ∧
      ∃ tx, TransmitQueue.admitPtyInput 1 [1, 2, 3] r.context.tx = .ok () tx := by
  have hruns : (scriptedStart ⟨scriptedAnswers [], []⟩).any (fun r =>
      decide ((run scripted r dialogue).state = .multiplexing ∧
        (run scripted r dialogue).context.tx.canAcceptPtyRead = true)) = true := by
    decide +kernel
  obtain ⟨r, hstart, hr⟩ := (Option.any_eq_true _ _).mp hruns
  obtain ⟨hstate, hcan⟩ := of_decide_eq_true hr
  refine ⟨run scripted r dialogue, by rw [hstart]; rfl, hstate, hcan, ?_⟩
  exact (reservations_suffice scripted ((scriptedStart_reachable hstart).run dialogue)).1 _ 1
    [1, 2, 3] hcan (by decide) (by decide) (by decide)

end Mindone.Mux.Runtime
