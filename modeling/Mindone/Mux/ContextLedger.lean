import Mindone.Mux.TransportBudget

/-!
# Mindone.Mux.ContextLedger

**What can happen to endpoints, tokens and bytes.** The `Ledger` is the part of a
context that says where they are, with the history of what happened to them. Every call
of the sink, every delivery and every draining of a queue is one of the changes listed
in `Ledger.Change`; invariants of the ledger are proved change by change.
-/

namespace Mindone.Mux.Runtime

open Mindone.Lib Transport

variable {E ω : Type}

/-- What a context says of endpoints, tokens and bytes. -/
structure Ledger (E : Type) where
  slots : Dlci → Option (Slot E)
  epochs : PollEpochs
  generation : Nat
  frameLimit : Nat
  history : List Mark

def Context.ledger (ctx : Context E ω) : Ledger E :=
  ⟨ctx.slots, ctx.epochs, ctx.generation, ctx.frameLimit, ctx.history⟩

/-- An endpoint never claims to have taken more than it was offered. -/
def Env.Honest (env : Env E ω) : Prop :=
  ∀ endpoint input w n w', env.write endpoint input w = (.transferred n, w') → n ≤ input.length

namespace Ledger

def note (l : Ledger E) (marks : List Mark) : Ledger E :=
  { l with history := l.history ++ marks }

def setSlot (l : Ledger E) (c : Dlci) (slot : Option (Slot E)) : Ledger E :=
  { l with slots := Function.update l.slots c slot }

/-- The token of a node; the serial line has number `0`. -/
def setToken (l : Ledger E) (node : Dlci) (token : Option PollToken) : Ledger E :=
  { l with epochs := ⟨Function.update l.epochs.entries node token⟩ }

def setGeneration (l : Ledger E) (generation : Nat) : Ledger E :=
  { l with generation }

/-- The bytes that wait for the endpoint of channel `c`. -/
def pendingOf (l : Ledger E) (c : Dlci) : List UInt8 :=
  ((l.slots c).map fun slot => slot.pending.pending).getD []

/-- What is noted when the slot of channel `c` is emptied. -/
def dropMarks (slots : Dlci → Option (Slot E)) (c : Dlci) : List Mark :=
  match slots c with
  | none => []
  | some slot => [.closed c, .discarded c slot.pending.pending]

/-- The ledger behind `close_all`. -/
def emptied (l : Ledger E) : Ledger E where
  slots := fun _ => none
  epochs := l.epochs.reset
  generation := l.generation
  frameLimit := l.frameLimit
  history := l.history ++ .closed 0 :: (List.finRange 64).flatMap (dropMarks l.slots)

/-- One change of the ledger. -/
inductive Change (env : Env E ω) : Ledger E → Ledger E → Prop
  | same {l} : Change env l l
  | queued {l} (frame : Frame) : Change env l (l.note [.queued frame])
  | opened {l} (cs : List Dlci) : Change env l (l.note (cs.map .opened))
  /-- Others took generations from the process-wide counter. -/
  | counted {l generation} (hmore : l.generation ≤ generation) (hmax : generation ≤ u64Max) :
      Change env l (l.setGeneration generation)
  /-- A new token was asked for when the counter was exhausted. -/
  | exhausted {l node generation} (hnode : node = 0 ∨ l.slots node = none)
      (hmore : l.generation ≤ generation) (hmax : generation ≤ u64Max) :
      Change env l ((l.setGeneration generation).setToken node none)
  | created {l c} {slot : Slot E} (hc : c ≠ 0) (hfree : l.slots c = none)
      (hendpoint : slot.token.endpoint = .channel (number c))
      (hfresh : l.generation < slot.token.generation) (hmax : slot.token.generation ≤ u64Max)
      (hempty : slot.pending.pending = []) (hlimit : slot.pending.frameLimit = l.frameLimit) :
      Change env l ((((l.setGeneration slot.token.generation).setToken c (some slot.token)).setSlot
        c (some slot)).note [.created c])
  | closed {l c} (hc : c ≠ 0) :
      Change env l (((l.setToken c none).setSlot c none).note (dropMarks l.slots c))
  | paused {l c slot} (hslot : l.slots c = some slot) :
      Change env l ((l.setSlot c (some { slot with pending := slot.pending.clear.2 })).note
        [.discarded c slot.pending.pending])
  | serialClosed {l} : Change env l ((l.setToken 0 none).note [.closed 0])
  | serialCreated {l} {token : PollToken} (hendpoint : token.endpoint = .serial)
      (hfresh : l.generation < token.generation) (hmax : token.generation ≤ u64Max) :
      Change env l ((l.setGeneration token.generation).setToken 0 (some token))
  /-- A payload for a channel without an endpoint, or one for which the queue has no room. -/
  | refused {l c input}
      (hslot : ∀ slot, l.slots c = some slot → slot.pending.pending ≠ []) :
      Change env l (l.note [.delivered c input, .discarded c input])
  | appended {l c slot pending input} (hslot : l.slots c = some slot)
      (hsome : slot.pending.pending ≠ [])
      (hpending : slot.pending.bufferRemainder input = .ok pending) :
      Change env l ((l.setSlot c (some { slot with pending })).note [.delivered c input])
  | written {l c slot accepted} (hslot : l.slots c = some slot) (hempty : slot.pending.pending = []) :
      Change env l (l.note [.delivered c accepted, .accepted c accepted])
  /-- The endpoint failed behind the accepted bytes. -/
  | broken {l c slot accepted rest} (hslot : l.slots c = some slot)
      (hempty : slot.pending.pending = []) :
      Change env l (l.note
        [.delivered c (accepted ++ rest), .accepted c accepted, .discarded c rest])
  | buffered {l c slot pending accepted rest} (hslot : l.slots c = some slot)
      (hempty : slot.pending.pending = [])
      (hpending : slot.pending.bufferRemainder rest = .ok pending) :
      Change env l ((l.setSlot c (some { slot with pending })).note
        [.delivered c (accepted ++ rest), .accepted c accepted])
  /-- A delivery that stopped with an error. -/
  | lost {l c slot accepted input} (hslot : l.slots c = some slot)
      (hlost : env.Honest → slot.pending.frameLimit ≠ l.frameLimit) :
      Change env l (l.note [.delivered c input, .accepted c accepted])
  | drained {l c slot} {pending : PendingQueue maxPending} {accepted} (hslot : l.slots c = some slot)
      (hpending : slot.pending.pending = accepted ++ pending.pending)
      (hlimit : pending.frameLimit = slot.pending.frameLimit) :
      Change env l ((l.setSlot c (some { slot with pending })).note [.accepted c accepted])
  | emptied {l} : Change env l l.emptied

end Ledger

open Ledger

/-! ### Calls of the sink -/

theorem number_toNat (c : Dlci) : (number c).toNat = c.val := by
  have hlt : c.val < 256 := Nat.lt_trans c.isLt (by decide)
  simp [number, Nat.mod_eq_of_lt hlt]

theorem dlci_number (c : Dlci) : dlci? (number c) = some c := by
  have hlt : (number c).toNat < 64 := by
    rw [number_toNat]
    exact c.isLt
  rw [dlci?, dif_pos hlt]
  exact congrArg some (Fin.ext (number_toNat c))

/-- Only the channel itself is found under its number. -/
theorem find_number {s : Session} {c d : Dlci} (h : s.find (number c) = some d) : d = c := by
  have hdlci := (Option.filter_eq_some_iff.mp h).1
  rw [dlci_number] at hdlci
  cases hdlci
  rfl

theorem find_of_mem {s : Session} {c : Dlci} (h : c ∈ s.layout.order) :
    s.find (number c) = some c := by
  rw [Session.find, dlci_number]
  refine Option.filter_eq_some_iff.mpr ⟨rfl, ?_⟩
  simp [Session.configured, h]

/-- The node of a channel's token is the channel. -/
theorem slot_number {c : Dlci} (hc : c ≠ 0) : (EndpointId.channel (number c)).slot = .ok c := by
  have hnumber := number_toNat c
  have hpos : 0 < c.val := Nat.pos_of_ne_zero fun hzero => hc (Fin.ext hzero)
  have hvalid : 0 < (number c).toNat ∧ (number c).toNat < 64 := by
    rw [hnumber]
    exact ⟨hpos, c.isLt⟩
  have hslot : (EndpointId.channel (number c)).slot = .ok ⟨(number c).toNat, hvalid.2⟩ :=
    dif_pos hvalid
  rw [hslot]
  exact congrArg Except.ok (Fin.ext hnumber)

theorem dropSlot_ledger (c : Dlci) (ctx : Context E ω) :
    (ctx.dropSlot c).ledger =
      (ctx.ledger.setSlot c none).note (dropMarks ctx.slots c) := by
  unfold Context.dropSlot dropMarks
  cases hslot : ctx.slots c with
  | none =>
      have hsame : Function.update ctx.slots c none = ctx.slots := by
        rw [← hslot]
        exact Function.update_eq_self ..
      simp [Context.ledger, Ledger.setSlot, Ledger.note, hsame]
  | some slot =>
      simp [Context.ledger, Context.setSlot, Context.note, Context.discard, Ledger.setSlot,
        Ledger.note]

/-- Slots are emptied one after the other, each once. -/
theorem foldl_dropSlot (cs : List Dlci) (hcs : cs.Nodup) (ctx : Context E ω) :
    (cs.foldl (fun ctx c => Context.dropSlot c ctx) ctx).ledger =
      { ctx.ledger with
        slots := fun c => if c ∈ cs then none else ctx.slots c
        history := ctx.history ++ cs.flatMap (dropMarks ctx.slots) } := by
  induction cs generalizing ctx with
  | nil => simp [Context.ledger]
  | cons c rest ih =>
      obtain ⟨hc, hrest⟩ := List.nodup_cons.mp hcs
      have hdrop := dropSlot_ledger c ctx
      simp only [Context.ledger, Ledger.setSlot, Ledger.note, Ledger.mk.injEq] at hdrop
      obtain ⟨hslots, hepochs, hgeneration, hlimit, hhistory⟩ := hdrop
      have hmarks : rest.flatMap (dropMarks (Function.update ctx.slots c none)) =
          rest.flatMap (dropMarks ctx.slots) := by
        refine List.flatMap_congr fun d hd => ?_
        have hne : d ≠ c := fun heq => hc (heq ▸ hd)
        simp only [dropMarks, Function.update_of_ne hne]
      rw [List.foldl_cons, ih hrest]
      simp only [Context.ledger, hslots, hepochs, hgeneration, hlimit, hhistory, hmarks,
        List.flatMap_cons, List.append_assoc, Ledger.mk.injEq, and_self, and_true]
      funext d
      by_cases hd : d = c
      · subst hd
        simp
      · simp [hd]

section Calls

variable (env : Env E ω) (ctx : Context E ω)

/-- **A token is new**: its generation is above all that were given out before. -/
theorem replaceEpoch_spec {endpoint : EndpointId} {node : Dlci} (hnode : endpoint.slot = .ok node)
    (descriptor : Int) :
    (∃ generation ctx', (ctx.generation ≤ u64Max → ctx.generation ≤ generation) ∧
      generation ≤ u64Max ∧ ctx.replaceEpoch env endpoint descriptor = (none, ctx') ∧
      (ctx'.ledger = ctx.ledger.setGeneration generation ∨
        ctx'.ledger = (ctx.ledger.setGeneration generation).setToken node none)) ∨
    (∃ token ctx', token.endpoint = endpoint ∧
      (ctx.generation ≤ u64Max → ctx.generation < token.generation) ∧
      token.generation ≤ u64Max ∧ ctx.replaceEpoch env endpoint descriptor = (some token, ctx') ∧
      ctx'.ledger = (ctx.ledger.setGeneration token.generation).setToken node (some token)) := by
  cases htaken : env.epochsTaken ctx.world with
  | mk taken w =>
      have hmore : ctx.generation ≤ u64Max → ctx.generation ≤ min (ctx.generation + taken) u64Max :=
        fun hmax => Nat.le_min.mpr ⟨Nat.le_add_right _ _, hmax⟩
      simp only [Context.replaceEpoch, PollEpochs.replace, PollEpochs.nextEpoch, checkedAdd, htaken,
        hnode]
      by_cases hdescriptor : descriptor < 0
      · rw [if_pos hdescriptor]
        exact Or.inl ⟨_, _, hmore, Nat.min_le_right _ _, rfl, Or.inl rfl⟩
      · rw [if_neg hdescriptor]
        by_cases hroom : min (ctx.generation + taken) u64Max + 1 ≤ u64Max
        · rw [if_pos hroom]
          refine Or.inr ⟨_, _, rfl, fun hmax => Nat.lt_succ_of_le (hmore hmax), hroom, rfl, ?_⟩
          simp [Context.ledger, setToken, setGeneration]
        · rw [if_neg hroom]
          exact Or.inl ⟨_, _, hmore, Nat.min_le_right _ _, rfl, Or.inr rfl⟩

/-- `open_endpoint` puts an endpoint into a free slot, or changes no slot. -/
theorem openEndpoint_spec (c : Dlci) (hmax : ctx.generation ≤ u64Max) :
    ((ctx.openEndpoint env c).1 = false ∧ (ctx.openEndpoint env c).2.slots = ctx.slots ∧
      Change env ctx.ledger (ctx.openEndpoint env c).2.ledger) ∨
    ((ctx.openEndpoint env c).1 = true ∧ c ≠ 0 ∧ ctx.slots c = none ∧ ∃ slot : Slot E,
      slot.token.endpoint = .channel (number c) ∧ ctx.generation < slot.token.generation ∧
      slot.token.generation ≤ u64Max ∧ slot.pending.pending = [] ∧
      slot.pending.frameLimit = ctx.frameLimit ∧
      (ctx.openEndpoint env c).2.ledger =
        (((ctx.ledger.setGeneration slot.token.generation).setToken c (some slot.token)).setSlot
          c (some slot)).note [.created c]) := by
  unfold Context.openEndpoint
  split
  -- The slot is taken, or the channel is the control one.
  · exact Or.inl ⟨rfl, rfl, .same⟩
  · rename_i hfree
    obtain ⟨hc, hnone⟩ := not_or.mp hfree
    have hslot : ctx.slots c = none := by simpa using hnone
    split
    · exact Or.inl ⟨rfl, rfl, .same⟩
    · split
      · exact Or.inl ⟨rfl, rfl, .same⟩
      · rename_i endpoint _ _ _ w' _
        split
        · exact Or.inl ⟨rfl, rfl, .same⟩
        -- The endpoint is open and prepared; what may still fail is its token.
        · rename_i pending hpending
          obtain ⟨hempty, hlimit⟩ := PendingQueue.new_spec hpending
          rcases replaceEpoch_spec env { ctx with world := w' } (slot_number hc)
            (env.descriptor endpoint) with
            ⟨generation, ctx', hmore, hmax', hreplace, hledger⟩ |
            ⟨token, ctx', hendpoint, hfresh, hmax', hreplace, hledger⟩
          · rw [hreplace]
            refine Or.inl ⟨rfl, ?_⟩
            rcases hledger with hledger | hledger
            · refine ⟨congrArg Ledger.slots hledger, ?_⟩
              dsimp only
              rw [hledger]
              exact .counted (hmore hmax) hmax'
            · refine ⟨congrArg Ledger.slots hledger, ?_⟩
              dsimp only
              rw [hledger]
              exact .exhausted (Or.inr hslot) (hmore hmax) hmax'
          · rw [hreplace]
            -- The token is fresh, and the slot begins with an empty queue.
            refine Or.inr ⟨rfl, hc, hslot, ⟨endpoint, token, pending⟩, hendpoint, hfresh hmax, hmax',
              hempty, hlimit, ?_⟩
            show ((ctx'.ledger.setSlot c _).note _) = _
            rw [hledger]
            rfl

theorem closeEndpoint_spec (c : Dlci) :
    (c = 0 ∧ Context.sink env (.apply (.closeEndpoint c)) ctx = (false, ctx)) ∨
    (c ≠ 0 ∧ (Context.sink env (.apply (.closeEndpoint c)) ctx).1 = true ∧
      (Context.sink env (.apply (.closeEndpoint c)) ctx).2.ledger =
        ((ctx.ledger.setToken c none).setSlot c none).note (dropMarks ctx.slots c)) := by
  by_cases hc : c = 0
  · subst hc
    exact Or.inl ⟨rfl, rfl⟩
  · refine Or.inr ⟨hc, ?_⟩
    have hinvalidate : ctx.epochs.invalidate (.channel (number c)) =
        .ok ⟨Function.update ctx.epochs.entries c none⟩ := by
      rw [PollEpochs.invalidate, slot_number hc]
    simp only [Context.sink, hinvalidate]
    exact ⟨trivial, dropSlot_ledger c _⟩

theorem pauseEndpoint_spec (c : Dlci) :
    (ctx.slots c = none ∧ ctx.pauseEndpoint c = (true, ctx)) ∨
    (∃ slot, ctx.slots c = some slot ∧ (ctx.pauseEndpoint c).2.ledger =
      (ctx.ledger.setSlot c (some { slot with pending := slot.pending.clear.2 })).note
        [.discarded c slot.pending.pending]) := by
  unfold Context.pauseEndpoint
  cases hslot : ctx.slots c with
  | none => exact Or.inl ⟨rfl, rfl⟩
  | some slot => exact Or.inr ⟨slot, rfl, rfl⟩

theorem transmit_spec (frame : Frame) :
    ((ctx.transmit frame).1 = true ∧ (ctx.transmit frame).2.ledger =
      ctx.ledger.note [.queued frame]) ∨
    ((ctx.transmit frame).1 = false ∧ (ctx.transmit frame).2.ledger = ctx.ledger) := by
  unfold Context.transmit
  split
  · exact Or.inl ⟨rfl, rfl⟩
  · exact Or.inr ⟨rfl, rfl⟩

/-- **Every call of the sink is one change.** -/
theorem sink_change (call : Call) (hmax : ctx.generation ≤ u64Max) :
    Change env ctx.ledger (Context.sink env call ctx).2.ledger := by
  cases call with
  | openEndpoint c =>
      rcases openEndpoint_spec env ctx c hmax with ⟨-, -, hchange⟩ |
        ⟨-, hc, hslot, slot, hendpoint, hfresh, hmax', hempty, hlimit, hledger⟩
      · exact hchange
      · show Change env ctx.ledger (ctx.openEndpoint env c).2.ledger
        rw [hledger]
        exact .created hc hslot hendpoint hfresh hmax' hempty hlimit
  | pauseEndpoint c =>
      show Change env ctx.ledger (ctx.pauseEndpoint c).2.ledger
      rcases pauseEndpoint_spec ctx c with ⟨-, hsame⟩ | ⟨slot, hslot, hledger⟩
      · rw [hsame]
        exact .same
      · rw [hledger]
        exact .paused hslot
  | apply action =>
      cases action with
      | transmit frame =>
          show Change env ctx.ledger (ctx.transmit frame).2.ledger
          rcases transmit_spec ctx frame with ⟨-, hledger⟩ | ⟨-, hledger⟩
          · rw [hledger]
            exact .queued frame
          · rw [hledger]
            exact .same
      | closeEndpoint c =>
          rcases closeEndpoint_spec env ctx c with ⟨-, hsame⟩ | ⟨hc, -, hledger⟩
          · rw [hsame]
            exact .same
          · rw [hledger]
            exact .closed hc
      | ready refusedChannels => exact .same
      | atciUnavailable => exact .same

end Calls

/-! ### Deliveries -/

/-- What the write loop of `deliver` did with `input`: the bytes `taken` went to the
endpoint, and the rest is still there. -/
structure Written.Spec (d : Written (ω × List UInt8)) (writer : ByteWriter ω)
    (accepted input taken : List UInt8) : Prop where
  accepted_eq : d.world.2 = accepted ++ taken
  input_eq : input = taken ++ d.rest
  error : ∀ e, d.outcome = .error e → ∃ bytes w n w', writer bytes w = (.transferred n, w') ∧
    bytes.length < n

theorem Written.Spec.stopped {writer : ByteWriter ω} {outcome : Option Fault} {rest : List UInt8}
    {w : ω × List UInt8} {budget : TurnBudget} {accepted : List UInt8} (hw : w.2 = accepted) :
    Spec ⟨.ok outcome, rest, w, budget⟩ writer accepted rest [] where
  accepted_eq := by rw [hw, List.append_nil]
  input_eq := rfl
  error := fun _ h => by cases h

/-- **The loop writes a front of the payload and keeps the rest.** -/
theorem writeLoop_spec (writer : ByteWriter ω) (input : List UInt8) (w : ω × List UInt8)
    (budget : TurnBudget) :
    ∃ taken, (writeLoop (recording writer) input w budget).Spec writer w.2 input taken := by
  -- what a call that returned did
  have hcall : ∀ {input : List UInt8} {w w' : ω × List UInt8} {budget budget' : TurnBudget}
      {answer : IoResult},
      ioTurn input.length (fun offered => recording writer (input.take offered)) (w, budget) =
        .ok (some answer) (w', budget') →
      ∃ offered, offered ≤ input.length ∧
        recording writer (input.take offered) w = (answer, w') ∧
        ∀ n, answer = .transferred n → n ≤ offered := by
    intro input w w' budget budget' answer hturn
    have hspec := (ends_of_ok hturn).mp (ioTurn_spec _ _ _ _)
    rcases hspec with ⟨hnone, -⟩ | ⟨offered, answer', hoffered, heq, hanswer, -, hle⟩
    · cases hnone
    · cases heq
      exact ⟨offered, hoffered, hanswer, hle⟩
  fun_induction writeLoop (recording writer) input w budget with
  | case1 w budget => exact ⟨[], .stopped rfl⟩
  | case2 input w budget hsome e w' budget' hturn =>
      obtain ⟨-, offered, n, hoffered, hexcess, hanswer, -⟩ :=
        (ends_of_error hturn).mp (ioTurn_spec _ _ _ _)
      have hlength : (input.take offered).length < n := by
        rw [List.length_take, Nat.min_eq_left hoffered]
        exact hexcess
      have hw := recording_transferred hanswer
      rw [if_neg (Nat.not_le.mpr hlength)] at hw
      have hfirst : (writer (input.take offered) w.1).1 = .transferred n :=
        congrArg (fun r => r.1) hanswer
      have hsecond : (writer (input.take offered) w.1).2 = w'.1 :=
        congrArg (fun r => r.2.1) hanswer
      exact ⟨[], hw, rfl, fun _ _ => ⟨_, w.1, n, w'.1, Prod.ext hfirst hsecond, hlength⟩⟩
  | case3 input w budget hsome w' budget' hturn =>
      have hspec := (ends_of_ok hturn).mp (ioTurn_spec _ _ _ _)
      rcases hspec with ⟨-, hsame⟩ | ⟨offered, answer, -, hnone, -⟩
      · exact ⟨[], .stopped (congrArg (fun s => s.1.2) hsame)⟩
      · cases hnone
  | case4 input w budget hsome w' budget' hturn =>
      obtain ⟨offered, hoffered, hanswer, -⟩ := hcall hturn
      have hw := recording_transferred hanswer
      rw [if_pos (Nat.zero_le _), List.take_zero, List.append_nil] at hw
      exact ⟨[], .stopped hw⟩
  | case5 input w budget hsome bytes w' budget' hturn hzero ih =>
      obtain ⟨offered, hoffered, hanswer, hle⟩ := hcall hturn
      have hbytes := hle bytes rfl
      have hw := recording_transferred hanswer
      have hfits : bytes ≤ (input.take offered).length := by
        rw [List.length_take, Nat.min_eq_left hoffered]
        exact hbytes
      rw [if_pos hfits, List.take_take, Nat.min_eq_left hbytes] at hw
      obtain ⟨taken, hspec⟩ := ih
      refine ⟨input.take bytes ++ taken, ?_, ?_, hspec.error⟩
      · rw [hspec.accepted_eq, hw, List.append_assoc]
      · rw [List.append_assoc, ← hspec.input_eq, List.take_append_drop]
  | case6 input w budget hsome w' budget' hturn =>
      obtain ⟨offered, -, hanswer, -⟩ := hcall hturn
      exact ⟨[], .stopped (recording_fault hanswer)⟩
  | case7 input w budget hsome w' budget' hturn ih =>
      obtain ⟨offered, -, hanswer, -⟩ := hcall hturn
      obtain ⟨taken, hspec⟩ := ih
      rw [recording_fault hanswer] at hspec
      exact ⟨taken, hspec⟩
  | case8 input w budget hsome fault hblock hinterrupted w' budget' hturn =>
      obtain ⟨offered, -, hanswer, -⟩ := hcall hturn
      exact ⟨[], .stopped (recording_fault hanswer)⟩

/-- A payload for an endpoint whose queue is empty is written, and the rest of it is
queued or given up. -/
theorem deliver_empty (env : Env E ω) (c : Dlci) {input : List UInt8} {ctx : Context E ω}
    {slot : Slot E} (budget : TurnBudget) (hlength : input.length ≤ ctx.frameLimit)
    (hslot : ctx.slots c = some slot) (hempty : slot.pending.pending = []) :
    Ends (deliver env c input) (ctx, budget)
      (fun delivery s => Change env ctx.ledger s.1.ledger ∧
        ((delivery = .buffered ∧ ∃ pending, pending.pending ≠ [] ∧
            s.1.slots = Function.update ctx.slots c (some { slot with pending })) ∨
          (delivery ≠ .buffered ∧ s.1.slots = ctx.slots)))
      fun _ s => Change env ctx.ledger s.1.ledger := by
  -- what the loop of writes took, from its record
  obtain ⟨taken, hspec⟩ := writeLoop_spec (env.write slot.endpoint) input (ctx.world, []) budget
  have hwrite : ∃ written, written =
      writeLoop (recording (env.write slot.endpoint)) input (ctx.world, []) budget := ⟨_, rfl⟩
  obtain ⟨written, hwritten⟩ := hwrite
  rw [← hwritten] at hspec
  have haccepted : written.world.2 = taken := hspec.accepted_eq
  have hinput := hspec.input_eq
  have hslotLedger : ctx.ledger.slots c = some slot := hslot
  cases houtcome : written.outcome with
  -- the endpoint said that it took more than it was given
  | error e =>
      have hresult : deliver env c input (ctx, budget) = .error e
          ({ ctx.note (.delivered c input) with world := written.world.1 }.note
            (.accepted c written.world.2), written.budget) := by
        simp only [deliver, Context.note, hslot, hempty, ne_eq, not_true_eq_false, if_false,
          ← hwritten, houtcome]
      refine (ends_of_error hresult).mpr ?_
      obtain ⟨bytes, w, n, w', hanswer, hexcess⟩ := hspec.error e houtcome
      have hchange : Change env ctx.ledger
          (ctx.ledger.note [.delivered c input, .accepted c taken]) :=
        .lost hslotLedger fun honest => absurd (honest _ _ _ _ _ hanswer) (Nat.not_le.mpr hexcess)
      simpa [Context.ledger, Context.note, Ledger.note, haccepted] using hchange
  | ok fault =>
      cases fault with
      | some fault =>
          have hresult : deliver env c input (ctx, budget) = .ok .recreate
              (({ ctx.note (.delivered c input) with world := written.world.1 }.note
                (.accepted c written.world.2)).discard c written.rest, written.budget) := by
            simp only [deliver, Context.note, hslot, hempty, ne_eq, not_true_eq_false, if_false,
              ← hwritten, houtcome]
          refine (ends_of_ok hresult).mpr ⟨?_, Or.inr ⟨by simp, rfl⟩⟩
          have hchange : Change env ctx.ledger (ctx.ledger.note
              [.delivered c (taken ++ written.rest), .accepted c taken, .discarded c written.rest]) :=
            .broken hslotLedger hempty
          rw [← hinput] at hchange
          simpa [Context.ledger, Context.note, Context.discard, Ledger.note, haccepted] using hchange
      | none =>
          -- everything was written, or the rest must be queued
          by_cases hrest : written.rest = []
          · have hresult : deliver env c input (ctx, budget) = .ok .done
                ({ ctx.note (.delivered c input) with world := written.world.1 }.note
                  (.accepted c written.world.2), written.budget) := by
              simp only [deliver, Context.note, hslot, hempty, ne_eq, not_true_eq_false, if_false,
                ← hwritten, houtcome, hrest, if_true]
            refine (ends_of_ok hresult).mpr ⟨?_, Or.inr ⟨by simp, rfl⟩⟩
            rw [hrest, List.append_nil] at hinput
            have hchange : Change env ctx.ledger
                (ctx.ledger.note [.delivered c taken, .accepted c taken]) :=
              .written hslotLedger hempty
            simpa [Context.ledger, Context.note, Ledger.note, haccepted, hinput] using hchange
          · cases hbuffer : slot.pending.bufferRemainder written.rest with
            | error e =>
                have hresult : deliver env c input (ctx, budget) = .error .capacity
                    ({ ctx.note (.delivered c input) with world := written.world.1 }.note
                      (.accepted c written.world.2), written.budget) := by
                  simp only [deliver, Context.note, hslot, hempty, ne_eq, not_true_eq_false, if_false,
                    ← hwritten, houtcome, hrest, hbuffer]
                refine (ends_of_error hresult).mpr ?_
                have hchange : Change env ctx.ledger
                    (ctx.ledger.note [.delivered c input, .accepted c taken]) := by
                  -- the rest is no longer than a frame, so that it fits
                  refine .lost hslotLedger fun _ hlimit => ?_
                  have hfits : written.rest.length ≤ slot.pending.frameLimit := by
                    have hsum := congrArg List.length hinput
                    rw [List.length_append] at hsum
                    rw [hlimit]
                    exact Nat.le_trans (by omega) hlength
                  obtain ⟨pending, hok⟩ := PendingQueue.bufferRemainder_isOk hempty hfits
                  rw [hok] at hbuffer
                  cases hbuffer
                simpa [Context.ledger, Context.note, Ledger.note, haccepted] using hchange
            | ok pending =>
                have hpending := (PendingQueue.bufferRemainder_spec hbuffer).1
                rw [hempty, List.nil_append] at hpending
                have hresult : deliver env c input (ctx, budget) = .ok .buffered
                    (({ ctx.note (.delivered c input) with world := written.world.1 }.note
                      (.accepted c written.world.2)).setSlot c (some { slot with pending }),
                      written.budget) := by
                  simp only [deliver, Context.note, hslot, hempty, ne_eq, not_true_eq_false, if_false,
                    ← hwritten, houtcome, hrest, hbuffer]
                refine (ends_of_ok hresult).mpr
                  ⟨?_, Or.inl ⟨rfl, pending, by rw [hpending]; exact hrest, rfl⟩⟩
                have hchange : Change env ctx.ledger
                    ((ctx.ledger.setSlot c (some { slot with pending })).note
                      [.delivered c (taken ++ written.rest), .accepted c taken]) :=
                  .buffered hslotLedger hempty hbuffer
                rw [← hinput] at hchange
                simpa [Context.ledger, Context.note, Context.setSlot, Ledger.note, Ledger.setSlot,
                  haccepted] using hchange

/-- **A payload that meets a queue with bytes in it is appended whole or discarded
whole.** -/
theorem deliver_waiting (env : Env E ω) (c : Dlci) (input : List UInt8) {ctx : Context E ω}
    {slot : Slot E} (budget : TurnBudget) (hslot : ctx.slots c = some slot)
    (hsome : slot.pending.pending ≠ []) :
    (∃ pending, pending.pending = slot.pending.pending ++ input ∧
      slot.pending.bufferRemainder input = .ok pending ∧
      deliver env c input (ctx, budget) = .ok .buffered
        ((ctx.note (.delivered c input)).setSlot c (some { slot with pending }), budget)) ∨
    (deliver env c input (ctx, budget) = .ok .buffered
      ((ctx.note (.delivered c input)).discard c input, budget)) := by
  cases hbuffer : slot.pending.bufferRemainder input with
  | error e =>
      refine Or.inr ?_
      simp only [deliver, Context.note, hslot, hsome, ne_eq, not_false_eq_true, if_true, hbuffer]
  | ok pending =>
      refine Or.inl ⟨pending, (PendingQueue.bufferRemainder_spec hbuffer).1, rfl, ?_⟩
      simp only [deliver, Context.note, hslot, hsome, ne_eq, not_false_eq_true, if_true, hbuffer]

/-- **A delivery is one change**, and when it says `buffered`, bytes wait in the queue. -/
theorem deliver_spec (env : Env E ω) (c : Dlci) {input : List UInt8} {ctx : Context E ω}
    (budget : TurnBudget) (hlength : input.length ≤ ctx.frameLimit) :
    Ends (deliver env c input) (ctx, budget)
      (fun delivery s => Change env ctx.ledger s.1.ledger ∧
        ((delivery = .buffered ∧ ∃ slot pending, ctx.slots c = some slot ∧ pending.pending ≠ [] ∧
            s.1.slots = Function.update ctx.slots c (some { slot with pending })) ∨
          (delivery ≠ .buffered ∧ s.1.slots = ctx.slots)))
      fun _ s => Change env ctx.ledger s.1.ledger := by
  -- Without a slot there is nobody to deliver to, and the bytes are discarded.
  cases hslot : ctx.slots c with
  | none =>
      have hresult : deliver env c input (ctx, budget) =
          .ok .done ((ctx.note (.delivered c input)).discard c input, budget) := by
        simp only [deliver, Context.note, hslot]
      refine (ends_of_ok hresult).mpr ⟨?_, Or.inr ⟨by simp, rfl⟩⟩
      have hchange : Change env ctx.ledger
          (ctx.ledger.note [.delivered c input, .discarded c input]) := by
        refine .refused fun slot hsome => ?_
        have hnone : ctx.ledger.slots c = none := hslot
        rw [hnone] at hsome
        cases hsome
      simpa [Context.ledger, Context.note, Context.discard, Ledger.note] using hchange
  | some slot =>
      have hslotLedger : ctx.ledger.slots c = some slot := hslot
      -- Bytes that wait must go first, so only an empty queue lets a write be tried.
      by_cases hempty : slot.pending.pending = []
      · refine (deliver_empty env c budget hlength hslot hempty).mono ?_ fun _ _ h => h
        rintro delivery s ⟨hchange, ⟨hbuffered, pending, hsome, hslots⟩ | hother⟩
        · exact ⟨hchange, Or.inl ⟨hbuffered, slot, pending, rfl, hsome, hslots⟩⟩
        · exact ⟨hchange, Or.inr hother⟩
      -- Behind others the bytes are queued whole or discarded whole.
      · rcases deliver_waiting env c input budget hslot hempty with
          ⟨pending, hpending, hbuffer, hresult⟩ | hresult
        · have hsome : pending.pending ≠ [] := by
            rw [hpending]
            exact List.append_ne_nil_of_left_ne_nil hempty _
          refine (ends_of_ok hresult).mpr
            ⟨?_, Or.inl ⟨rfl, slot, pending, rfl, hsome, rfl⟩⟩
          exact .appended hslotLedger hempty hbuffer
        · have hsame : Function.update ctx.slots c (some slot) = ctx.slots := by
            rw [← hslot]
            exact Function.update_eq_self ..
          refine (ends_of_ok hresult).mpr
            ⟨?_, Or.inl ⟨rfl, slot, slot.pending, rfl, hempty, hsame.symm⟩⟩
          have hchange : Change env ctx.ledger
              (ctx.ledger.note [.delivered c input, .discarded c input]) := by
            refine .refused fun slot' hslot' => ?_
            rw [hslotLedger] at hslot'
            cases hslot'
            exact hempty
          simpa [Context.ledger, Context.note, Context.discard, Ledger.note] using hchange

end Mindone.Mux.Runtime
