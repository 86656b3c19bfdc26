import Mindone.Mux.RuntimeLedger

/-!
# Mindone.Mux.RuntimeDownlink

**Where the bytes of a channel go.** The history of a run says which bytes were handed
to `deliver`, which of them an endpoint accepted and which were discarded. What is
neither waits in the channel's queue, and nothing overtakes (`Conserved`).

The account is kept per change of the ledger: a change takes the waiting bytes followed
by the delivered ones and splits them into accepted, waiting and discarded ones
(`Splits`).
-/

namespace Mindone.Mux.Runtime

open Mindone.Lib Transport Ledger

variable {E ω : Type}

/-! ### The streams of a channel -/

@[simp] def Mark.deliveredOn (c : Dlci) : Mark → List UInt8
  | .delivered d bytes => if d = c then bytes else []
  | _ => []

@[simp] def Mark.acceptedOn (c : Dlci) : Mark → List UInt8
  | .accepted d bytes => if d = c then bytes else []
  | _ => []

@[simp] def Mark.discardedOn (c : Dlci) : Mark → List UInt8
  | .discarded d bytes => if d = c then bytes else []
  | _ => []

/-- The payload bytes handed to `deliver` for channel `c`. -/
def delivered (c : Dlci) (history : List Mark) : List UInt8 :=
  history.flatMap (Mark.deliveredOn c)

/-- The bytes the endpoints of channel `c` accepted. -/
def accepted (c : Dlci) (history : List Mark) : List UInt8 :=
  history.flatMap (Mark.acceptedOn c)

/-- The bytes of channel `c` that were added to `discarded`. -/
def discarded (c : Dlci) (history : List Mark) : List UInt8 :=
  history.flatMap (Mark.discardedOn c)

/-- The streams of marks that speak of channel `d` only. -/
structure Streams (d : Dlci) (marks : List Mark) (input taken dropped : List UInt8) : Prop where
  delivered : ∀ c, delivered c marks = if d = c then input else []
  accepted : ∀ c, accepted c marks = if d = c then taken else []
  discarded : ∀ c, discarded c marks = if d = c then dropped else []

/-- The bytes on hand are split into accepted, waiting and discarded ones, and no waiting
byte passes another. -/
structure Splits (onHand taken waiting dropped : List UInt8) : Prop where
  kept : (taken ++ waiting).Sublist onHand
  counted : onHand.Perm (taken ++ waiting ++ dropped)

theorem Splits.whole (taken waiting : List UInt8) : Splits (taken ++ waiting) taken waiting [] :=
  ⟨.refl _, by rw [List.append_nil]⟩

theorem Splits.dropping (taken waiting dropped : List UInt8) :
    Splits (taken ++ waiting ++ dropped) taken waiting dropped :=
  ⟨List.sublist_append_left _ _, .refl _⟩

/-- **The account of channel `c`.** The queues have the size of the runtime's frames, so
that the rest of a payload always fits an empty one. -/
structure Conserved (c : Dlci) (l : Ledger E) : Prop where
  sized : ∀ d slot, l.slots d = some slot → slot.pending.frameLimit = l.frameLimit
  account : Splits (delivered c l.history) (accepted c l.history) (l.pendingOf c)
    (discarded c l.history)

/-- What a change of the ledger must show for the account to be kept. -/
theorem Conserved.change {c : Dlci} {l l' : Ledger E} (h : Conserved c l) (marks : List Mark)
    (hhistory : l'.history = l.history ++ marks)
    (hsized : ∀ d slot, l'.slots d = some slot → slot.pending.frameLimit = l'.frameLimit)
    (hsplits : Splits (l.pendingOf c ++ delivered c marks) (accepted c marks) (l'.pendingOf c)
      (discarded c marks)) : Conserved c l' := by
  have happend : ∀ f : Mark → List UInt8,
      l'.history.flatMap f = l.history.flatMap f ++ marks.flatMap f := by
    intro f
    rw [hhistory, List.flatMap_append]
  refine ⟨hsized, ?_, ?_⟩
  · calc (accepted c l'.history ++ l'.pendingOf c)
        = accepted c l.history ++ (accepted c marks ++ l'.pendingOf c) := by
          rw [accepted, happend, List.append_assoc]
          rfl
      _ |>.Sublist (accepted c l.history ++ (l.pendingOf c ++ delivered c marks)) :=
          hsplits.kept.append_left _
      _ = accepted c l.history ++ l.pendingOf c ++ delivered c marks :=
          (List.append_assoc _ _ _).symm
      _ |>.Sublist (delivered c l.history ++ delivered c marks) :=
          h.account.kept.append_right _
      _ = delivered c l'.history := (happend _).symm
  · -- as a multiset the order does not matter: count each byte
    refine List.perm_iff_count.mpr fun byte => ?_
    have hbefore := List.perm_iff_count.mp h.account.counted byte
    have hstep := List.perm_iff_count.mp hsplits.counted byte
    have hdelivered := congrArg (List.count byte) (happend (Mark.deliveredOn c))
    have haccepted := congrArg (List.count byte) (happend (Mark.acceptedOn c))
    have hdiscarded := congrArg (List.count byte) (happend (Mark.discardedOn c))
    simp only [delivered, accepted, discarded, List.count_append] at *
    omega

/-! ### Changes of one slot -/

/-- The bytes of a slot, as `pendingOf` counts them. -/
def waitingIn (slot : Option (Slot E)) : List UInt8 :=
  (slot.map fun slot => slot.pending.pending).getD []

theorem pendingOf_update (l : Ledger E) (c d : Dlci) (slot : Option (Slot E)) :
    (l.setSlot d slot).pendingOf c = if d = c then waitingIn slot else l.pendingOf c := by
  show waitingIn (Function.update l.slots d slot c) = if d = c then _ else waitingIn (l.slots c)
  by_cases hd : d = c
  · subst hd
    rw [Function.update_self, if_pos rfl]
  · rw [Function.update_of_ne (Ne.symm hd), if_neg hd]

section Step

variable {c : Dlci} {l : Ledger E} (h : Conserved c l)
include h

/-- Marks of something else move nothing. -/
theorem Conserved.note (marks : List Mark)
    (hmarks : ∀ mark ∈ marks,
      mark.deliveredOn c = [] ∧ mark.acceptedOn c = [] ∧ mark.discardedOn c = []) :
    Conserved c (l.note marks) := by
  refine h.change marks rfl h.sized ?_
  have hd : delivered c marks = [] :=
    List.flatMap_eq_nil_iff.mpr fun mark hmark => (hmarks mark hmark).1
  have ha : accepted c marks = [] :=
    List.flatMap_eq_nil_iff.mpr fun mark hmark => (hmarks mark hmark).2.1
  have hx : discarded c marks = [] :=
    List.flatMap_eq_nil_iff.mpr fun mark hmark => (hmarks mark hmark).2.2
  rw [hd, ha, hx, List.append_nil]
  exact Splits.whole [] (l.pendingOf c)

/-- **A change of one slot**, with what the marks say of its channel. -/
theorem Conserved.move {d : Dlci} {slot : Option (Slot E)} {marks : List Mark}
    {input taken dropped : List UInt8} (hmarks : Streams d marks input taken dropped)
    (hlimit : ∀ after, slot = some after → after.pending.frameLimit = l.frameLimit)
    (hsplits : Splits (l.pendingOf d ++ input) taken (waitingIn slot) dropped) :
    Conserved c ((l.setSlot d slot).note marks) := by
  refine h.change marks rfl ?_ ?_
  · intro e after hafter
    have hupdate : Function.update l.slots d slot e = some after := hafter
    by_cases he : e = d
    · subst he
      rw [Function.update_self] at hupdate
      exact hlimit after hupdate
    · rw [Function.update_of_ne he] at hupdate
      exact h.sized e after hupdate
  · rw [hmarks.delivered c, hmarks.accepted c, hmarks.discarded c]
    show Splits _ _ ((l.setSlot d slot).pendingOf c) _
    rw [pendingOf_update]
    by_cases hd : d = c
    · subst hd
      simp only [if_true]
      exact hsplits
    · simp only [hd, if_false, List.append_nil]
      exact Splits.whole [] (l.pendingOf c)

/-- A slot of which only the queue changes. -/
theorem Conserved.setPending {d : Dlci} {slot : Slot E} {pending : PendingQueue maxPending}
    {marks : List Mark} {input taken dropped : List UInt8}
    (hmarks : Streams d marks input taken dropped) (hslot : l.slots d = some slot)
    (hlimit : pending.frameLimit = slot.pending.frameLimit)
    (hsplits : Splits (slot.pending.pending ++ input) taken pending.pending dropped) :
    Conserved c ((l.setSlot d (some { slot with pending })).note marks) := by
  refine h.move hmarks ?_ ?_
  · intro after hafter
    cases hafter
    exact hlimit.trans (h.sized d slot hslot)
  · rw [pendingOf, hslot]
    exact hsplits

/-- A payload that leaves the queue as it is. -/
theorem Conserved.passing {d : Dlci} {marks : List Mark} {input taken dropped : List UInt8}
    (hmarks : Streams d marks input taken dropped)
    (hsplits : Splits (l.pendingOf d ++ input) taken (l.pendingOf d) dropped) :
    Conserved c (l.note marks) := by
  have hsame : l.setSlot d (l.slots d) = l := by
    rw [Ledger.setSlot, Function.update_eq_self]
  rw [← hsame]
  exact h.move hmarks (h.sized d) hsplits

end Step

/-! ### Emptied slots -/

/-- What an emptied slot leaves in the streams: its queue is discarded. -/
theorem dropMarks_streams (slots : Dlci → Option (Slot E)) (d : Dlci) :
    Streams d (dropMarks slots d) [] [] (waitingIn (slots d)) := by
  unfold dropMarks
  cases slots d with
  | none =>
      exact ⟨by simp [delivered], by simp [accepted], by simp [discarded, waitingIn]⟩
  | some slot =>
      exact ⟨by simp [delivered], by simp [accepted], by simp [discarded, waitingIn]⟩

/-- A function that is empty but for one argument. -/
theorem flatMap_finRange_single {α : Type} {n : Nat} (f : Fin n → List α) (c : Fin n)
    (hother : ∀ d, d ≠ c → f d = []) : (List.finRange n).flatMap f = f c := by
  obtain ⟨front, back, hsplit⟩ := List.append_of_mem (List.mem_finRange c)
  have hnodup : (front ++ c :: back).Nodup := hsplit ▸ List.nodup_finRange n
  have hnot : c ∉ front ++ back := by
    rw [List.perm_middle.nodup_iff] at hnodup
    exact (List.nodup_cons.mp hnodup).1
  have hempty : ∀ ds : List (Fin n), (∀ d ∈ ds, d ∈ front ++ back) → ds.flatMap f = [] := by
    intro ds hds
    refine List.flatMap_eq_nil_iff.mpr fun d hd => hother d ?_
    rintro rfl
    exact hnot (hds d hd)
  rw [hsplit, List.flatMap_append, List.flatMap_cons,
    hempty front fun _ => List.mem_append_left _, hempty back fun _ => List.mem_append_right _]
  simp

/-- With all slots emptied, channel `c` loses what waited for it. -/
theorem emptied_streams (slots : Dlci → Option (Slot E)) (c : Dlci) :
    let marks := Mark.closed 0 :: (List.finRange 64).flatMap (dropMarks slots)
    delivered c marks = [] ∧ accepted c marks = [] ∧ discarded c marks = waitingIn (slots c) := by
  intro marks
  -- of the emptied slots only its own speaks of the channel
  have hown : ∀ f : Mark → List UInt8, f (.closed 0) = [] →
      (∀ d, d ≠ c → (dropMarks slots d).flatMap f = []) →
        marks.flatMap f = (dropMarks slots c).flatMap f := by
    intro f hserial hother
    rw [List.flatMap_cons, hserial, List.nil_append, List.flatMap_assoc]
    exact flatMap_finRange_single (fun d => (dropMarks slots d).flatMap f) c hother
  refine ⟨?_, ?_, ?_⟩
  · refine (hown _ rfl fun d hd => ?_).trans ?_
    · exact ((dropMarks_streams slots d).delivered c).trans (ite_self _)
    · exact ((dropMarks_streams slots c).delivered c).trans (ite_self _)
  · refine (hown _ rfl fun d hd => ?_).trans ?_
    · exact ((dropMarks_streams slots d).accepted c).trans (ite_self _)
    · exact ((dropMarks_streams slots c).accepted c).trans (ite_self _)
  · refine (hown _ rfl fun d hd => ?_).trans ?_
    · exact ((dropMarks_streams slots d).discarded c).trans (if_neg hd)
    · exact ((dropMarks_streams slots c).discarded c).trans (if_pos rfl)

/-- **The account is kept by every change of the ledger**, as long as endpoints are
honest. -/
theorem tracked_conserved {env : Env E ω} (honest : env.Honest) (c : Dlci) :
    Tracked env (Conserved (E := E) c) := by
  intro l l' hchange h
  cases hchange with
  -- these touch no payload
  | same => exact h
  | queued frame => exact h.note _ (by simp)
  | opened cs => exact h.note _ (by simp)
  | counted hmore hmax => exact ⟨h.sized, h.account⟩
  | exhausted hnode hmore hmax => exact ⟨h.sized, h.account⟩
  | serialCreated hendpoint hfresh hmax => exact ⟨h.sized, h.account⟩
  | serialClosed =>
      have hnoted : Conserved c (l.note [.closed 0]) := h.note _ (by simp)
      exact ⟨hnoted.sized, hnoted.account⟩
  -- a new endpoint has an empty queue
  | @created d slot hd hfree hendpoint hfresh hmax hempty hlimit =>
      have hmarks : Streams d [.created d] [] [] [] :=
        ⟨by simp [delivered], by simp [accepted], by simp [discarded]⟩
      have hmoved : Conserved c ((l.setSlot d (some slot)).note [.created d]) := by
        refine h.move hmarks (fun after hafter => Option.some.inj hafter ▸ hlimit) ?_
        simp only [pendingOf, waitingIn, hfree, Option.map_some, Option.getD_some, hempty]
        exact Splits.whole [] []
      exact ⟨hmoved.sized, hmoved.account⟩
  -- what its queue held is given up
  | @closed d hd =>
      have hmoved : Conserved c ((l.setSlot d none).note (dropMarks l.slots d)) := by
        refine h.move (dropMarks_streams l.slots d) (fun _ hafter => (by cases hafter)) ?_
        rw [List.append_nil]
        exact Splits.dropping [] [] (l.pendingOf d)
      exact ⟨hmoved.sized, hmoved.account⟩
  | @paused d slot hslot =>
      have hmarks : Streams d [.discarded d slot.pending.pending] [] [] slot.pending.pending :=
        ⟨by simp [delivered], by simp [accepted], by simp [discarded]⟩
      refine h.setPending hmarks hslot rfl ?_
      rw [List.append_nil]
      exact Splits.dropping [] [] slot.pending.pending
  -- a payload that is not taken is given up as a whole
  | @refused d input hslot =>
      have hmarks : Streams d [.delivered d input, .discarded d input] input [] input :=
        ⟨by simp [delivered], by simp [accepted], by simp [discarded]⟩
      exact h.passing hmarks (Splits.dropping [] (l.pendingOf d) input)
  -- a payload behind others waits as a whole
  | @appended d slot pending input hslot hsome hpending =>
      obtain ⟨hbytes, hlimit⟩ := PendingQueue.bufferRemainder_spec hpending
      have hmarks : Streams d [.delivered d input] input [] [] :=
        ⟨by simp [delivered], by simp [accepted], by simp [discarded]⟩
      refine h.setPending hmarks hslot hlimit ?_
      rw [← hbytes]
      exact Splits.whole [] pending.pending
  -- a payload is taken as a whole, in part, or in part with the rest queued
  | @written d slot taken hslot hempty =>
      have hmarks : Streams d [.delivered d taken, .accepted d taken] taken taken [] :=
        ⟨by simp [delivered], by simp [accepted], by simp [discarded]⟩
      refine h.passing hmarks ?_
      rw [pendingOf, hslot, Option.map_some, Option.getD_some, hempty, List.nil_append]
      have hsplits := Splits.whole taken []
      rwa [List.append_nil] at hsplits
  | @broken d slot taken rest hslot hempty =>
      have hmarks : Streams d
          [.delivered d (taken ++ rest), .accepted d taken, .discarded d rest]
          (taken ++ rest) taken rest :=
        ⟨by simp [delivered], by simp [accepted], by simp [discarded]⟩
      refine h.passing hmarks ?_
      rw [pendingOf, hslot, Option.map_some, Option.getD_some, hempty, List.nil_append]
      have hsplits := Splits.dropping taken [] rest
      rwa [List.append_nil] at hsplits
  | @buffered d slot pending taken rest hslot hempty hpending =>
      obtain ⟨hbytes, hlimit⟩ := PendingQueue.bufferRemainder_spec hpending
      have hmarks : Streams d [.delivered d (taken ++ rest), .accepted d taken]
          (taken ++ rest) taken [] :=
        ⟨by simp [delivered], by simp [accepted], by simp [discarded]⟩
      refine h.setPending hmarks hslot hlimit ?_
      rw [hbytes, hempty]
      exact Splits.whole taken rest
  -- an honest endpoint loses none
  | lost hslot hlost => exact absurd (h.sized _ _ hslot) (hlost honest)
  -- the front of the queue is taken
  | @drained d slot pending taken hslot hpending hlimit =>
      have hmarks : Streams d [.accepted d taken] [] taken [] :=
        ⟨by simp [delivered], by simp [accepted], by simp [discarded]⟩
      refine h.setPending hmarks hslot hlimit ?_
      rw [hpending, List.append_nil]
      exact Splits.whole taken pending.pending
  | emptied =>
      obtain ⟨hdelivered, haccepted, hdiscarded⟩ := emptied_streams l.slots c
      refine h.change _ rfl (fun _ _ hslot => (by cases hslot)) ?_
      rw [hdelivered, haccepted, hdiscarded, List.append_nil]
      exact Splits.dropping [] [] (l.pendingOf c)

/-! ### Conservation -/

/-- **Downlink conservation and order.** If endpoints are honest, in every reachable
state the bytes delivered to a channel are those its endpoints accepted, those in its
queue and those discarded; accepted and waiting bytes are in reception order, none
repeated. A payload that meets a queue with bytes in it is appended whole or discarded
whole. -/
theorem downlink_conservation (env : Env E ω) (honest : env.Honest) {r : Runtime E ω}
    (h : Reachable env r) (c : Dlci) :
    (delivered c r.context.history).Perm
        (accepted c r.context.history ++ r.context.ledger.pendingOf c ++
          discarded c r.context.history) ∧
      (accepted c r.context.history ++ r.context.ledger.pendingOf c).Sublist
        (delivered c r.context.history) ∧
      ∀ (ctx : Context E ω) (slot : Slot E) (input : List UInt8) (budget : TurnBudget),
        ctx.slots c = some slot → slot.pending.pending ≠ [] →
        (∃ pending, pending.pending = slot.pending.pending ++ input ∧
          deliver env c input (ctx, budget) = .ok .buffered
            ((ctx.note (.delivered c input)).setSlot c (some { slot with pending }), budget)) ∨
        deliver env c input (ctx, budget) = .ok .buffered
          ((ctx.note (.delivered c input)).discard c input, budget) := by
  have hconserved : both (Recorded (Conserved c)) r.view :=
    h.invariant (tracked_conserved honest c).steady.rules fun hs _ hmax =>
      ⟨hs.basic hmax, fun _ _ hslot => (by cases hslot), Splits.whole [] []⟩
  refine ⟨hconserved.2.account.counted, hconserved.2.account.kept, ?_⟩
  intro ctx slot input budget hslot hsome
  rcases deliver_waiting env c input budget hslot hsome with ⟨pending, hpending, -, hresult⟩ | hresult
  · exact Or.inl ⟨pending, hpending, hresult⟩
  · exact Or.inr hresult

/-- Three bytes for channel `1`, of which its terminal takes two. -/
def shortWrite : Script :=
  ⟨scriptedAnswers ((⟨7, 0x73, []⟩ : Frame).wire ++ (⟨7, 0xef, [1, 2, 3]⟩ : Frame).wire), [2]⟩

theorem downlink_conservation_short_write :
    ∃ r, (scriptedStart shortWrite).map (run scripted · dialogue) = some r ∧
      delivered 1 r.context.history = [1, 2, 3] ∧ r.context.ledger.pendingOf 1 = [3] ∧
      (accepted 1 r.context.history ++ r.context.ledger.pendingOf 1).Sublist
        (delivered 1 r.context.history) := by
  have hruns : (scriptedStart shortWrite).any (fun r =>
      decide (delivered 1 (run scripted r dialogue).context.history = [1, 2, 3] ∧
        (run scripted r dialogue).context.ledger.pendingOf 1 = [3])) = true := by
    decide +kernel
  obtain ⟨r, hstart, hr⟩ := (Option.any_eq_true _ _).mp hruns
  obtain ⟨hdelivered, hpending⟩ := of_decide_eq_true hr
  refine ⟨run scripted r dialogue, by rw [hstart]; rfl, hdelivered, hpending, ?_⟩
  exact (downlink_conservation scripted scripted_honest
    ((scriptedStart_reachable hstart).run dialogue) 1).2.1

end Mindone.Mux.Runtime
