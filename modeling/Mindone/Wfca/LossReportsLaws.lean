import Mindone.Wfca.LossReports

/-!
# Mindone.Wfca.LossReportsLaws

**What becomes of a report.** Every report is fresh in its slot, or was given as fresh, replaced or
aged, unless an RDS request came late: its second section found a fresh report that its first
section had not read, and marked it stale. No report is given as fresh twice, and the deadline of
the ageing thread moves in steps of 50 seconds, to at most 50 seconds from now.
-/

namespace Mindone.Wfca.Rds

open Lib

variable {s s' : State} {event : Event} {id : Nat}

/-! ### Time -/

theorem expired_iff (now deadline : Timespec) : expired now deadline = true ↔ deadline.ns ≤ now.ns := by
  have := now.nonneg
  have := now.lt
  have := deadline.nonneg
  have := deadline.lt
  simp only [expired, Timespec.ns, Bool.or_eq_true, Bool.and_eq_true, decide_eq_true_eq, beq_iff_eq]
  omega

/-- **The next deadline** is later than now by at most 50 seconds, and a multiple of 50 seconds after
the one that expired. -/
theorem nextDeadline_ns {now deadline : Timespec} (h : deadline.ns ≤ now.ns) :
    now.ns < (nextDeadline now deadline).ns ∧ (nextDeadline now deadline).ns ≤ now.ns + 50000000000 ∧
      ∃ k : Nat, 0 < k ∧ (nextDeadline now deadline).ns = deadline.ns + k * 50000000000 := by
  have := now.nonneg
  have := now.lt
  have := deadline.nonneg
  have := deadline.lt
  obtain ⟨elapsed, helapsed⟩ : ∃ elapsed : Int, (if now.tvNsec < deadline.tvNsec then
      now.tvSec - deadline.tvSec - 1 else now.tvSec - deadline.tvSec) = elapsed := ⟨_, rfl⟩
  -- the whole seconds since the deadline
  have hfloor : 0 ≤ elapsed ∧ elapsed * 1000000000 ≤ now.ns - deadline.ns ∧
      now.ns - deadline.ns < (elapsed + 1) * 1000000000 := by
    simp only [Timespec.ns] at h ⊢
    split at helapsed <;> omega
  have hnext : nextDeadline now deadline = deadline.addSec ((elapsed / 50 + 1) * 50) := by
    simp only [nextDeadline, helapsed, Int.tdiv_eq_ediv_of_nonneg hfloor.1]
  have hns : (nextDeadline now deadline).ns = deadline.ns + (elapsed / 50 + 1) * 50000000000 := by
    rw [hnext]
    simp only [Timespec.addSec, Timespec.ns]
    omega
  rw [hns]
  refine ⟨by omega, by omega, (elapsed / 50 + 1).toNat, by omega, ?_⟩
  omega

/-- The deadline is ahead of the clock, by at most 50 seconds. -/
def Ahead (s : State) : Prop :=
  s.clock.ns < s.deadline.ns ∧ s.deadline.ns ≤ s.clock.ns + 50000000000

theorem advance_ahead (h : Ahead s) {now : Timespec} (hnow : s.clock.ns ≤ now.ns) :
    Ahead (pdnGcAdvanceLocked s now) ∧ (pdnGcAdvanceLocked s now).clock = now ∧
      ∃ k : Nat, (pdnGcAdvanceLocked s now).deadline.ns = s.deadline.ns + k * 50000000000 ∧
        (s.deadline.ns ≤ now.ns → 0 < k) := by
  unfold Ahead at h ⊢
  unfold pdnGcAdvanceLocked
  by_cases hexpired : s.deadline.ns ≤ now.ns
  · rw [if_pos ((expired_iff _ _).2 hexpired)]
    obtain ⟨hlater, hsoon, k, hpos, hk⟩ := nextDeadline_ns hexpired
    exact ⟨⟨hlater, hsoon⟩, rfl, k, hk, fun _ => hpos⟩
  · rw [if_neg (by rw [expired_iff]; exact hexpired)]
    refine ⟨⟨?_, ?_⟩, rfl, 0, ?_, fun h => absurd h hexpired⟩
    · show now.ns < s.deadline.ns
      omega
    · show s.deadline.ns ≤ now.ns + 50000000000
      omega
    · show s.deadline.ns = _
      omega

/-! ### Replies -/

/-- A reply says of its report what the slot says, and holds the rest of its first 20 bytes. -/
theorem queryReply_reports (slot : Slot) (version : Nat) :
    saysFresh ((queryReply slot (version == 1)).take (replyLen version)) = decide (slot.status = .fresh) ∧
      sliceAt ((queryReply slot (version == 1)).take (replyLen version)) 0 4 = sliceAt slot.body 0 4 ∧
      sliceAt ((queryReply slot (version == 1)).take (replyLen version)) 8 12 = sliceAt slot.body 8 12 := by
  have hsize := slot.size
  obtain ⟨len, hlen⟩ : ∃ len, replyLen version = 20 + len := by
    unfold replyLen
    split
    · exact ⟨0, rfl⟩
    · exact ⟨512, rfl⟩
  have hfront : (sliceAt slot.body 0 4).length = 4 := length_sliceAt (by rw [hsize]; decide)
  have hrest : (sliceAt slot.body 8 12).length = 12 := length_sliceAt (by rw [hsize]; decide)
  -- what follows these 20 bytes does not matter
  obtain ⟨tail, htail⟩ : ∃ tail, (queryReply slot (version == 1)).take (replyLen version) =
      sliceAt slot.body 0 4 ++ (toLe 4 slot.status.code ++ (sliceAt slot.body 8 12 ++ tail)) := by
    have hbase : (sliceAt slot.body 0 4 ++ toLe 4 slot.status.code ++ sliceAt slot.body 8 12).length = 20 := by
      simp [hfront, hrest]
    rw [queryReply, hlen, ← hbase, List.take_length_add_append]
    exact ⟨_, by rw [List.append_assoc, List.append_assoc]⟩
  rw [htail]
  refine ⟨?_, ?_, ?_⟩
  · rw [saysFresh, leAt_append_toLe hfront (by cases slot.status <;> decide)]
    cases slot.status <;> decide
  · rw [sliceAt, List.drop_zero, List.take_left' hfront]
  · rw [← List.append_assoc, sliceAt, List.drop_left' (by simp [hfront]), List.take_left' hrest]

/-! ### The ledger -/

/-- A fresh slot holds a report, the reports that slots hold are those that have not left, each in
one slot, and what a reply gave as fresh is counted. -/
structure Ledger (s : State) : Prop where
  fresh : ∀ p, (s.slots p).status = .fresh → (s.slots p).report ≠ none
  held : ∀ id, (∃ p, (s.slots p).held = some id) ↔ id < s.next ∧ (s.fates id).left = none
  alone : ∀ p q id, (s.slots p).held = some id → (s.slots q).held = some id → p = q
  seen : ∀ pending id, s.pending = some pending → pending.seen = some id →
    id < s.next ∧ (s.fates id).returned = 1 ∧ ∀ p, (s.slots p).held = some id → p = pending.pdn
  unread : ∀ id, (s.fates id).left = none → (∀ pending, s.pending = some pending → pending.seen ≠ some id) →
    (s.fates id).returned = 0
  once : ∀ id, (s.fates id).returned ≤ 1
  read : ∀ id, (s.fates id).left = some .read → (s.fates id).returned = 1
  lost : ∀ id, (s.fates id).left = some .lost → (s.fates id).returned = 0
  later : ∀ id, s.next ≤ id → s.fates id = ⟨0, none⟩

theorem init_ledger (now : Timespec) : Ledger (State.init now) := by
  have hstatus : Slot.init.status = .empty := rfl
  have hheld : Slot.init.held = none := rfl
  constructor <;> simp [State.init, hstatus, hheld]

/-- The fates after some reports have left. -/
theorem leave_eq (s : State) (gone : Fin maxPdn → Bool) (left : Left) (id : Nat) :
    ((∃ p, gone p = true ∧ (s.slots p).held = some id) ∧
        s.leave gone left id = { s.fates id with left := some left }) ∨
      ((∀ p, gone p = true → (s.slots p).held ≠ some id) ∧ s.leave gone left id = s.fates id) := by
  unfold State.leave
  by_cases h : ∃ p, gone p = true ∧ (s.slots p).held = some id
  · exact .inl ⟨h, if_pos h⟩
  · refine .inr ⟨fun p hgone hheld => h ⟨p, hgone, hheld⟩, if_neg h⟩

@[simp] theorem leave_returned (s : State) (gone : Fin maxPdn → Bool) (left : Left) (id : Nat) :
    (s.leave gone left id).returned = (s.fates id).returned := by
  unfold State.leave
  split <;> rfl

/-- **Reports leave**: slots that stop being fresh, and the fates of their reports. -/
theorem Ledger.leave (h : Ledger s) {gone : Fin maxPdn → Bool} {left : Left}
    (hslots : ∀ p, (s'.slots p).held = if gone p then none else (s.slots p).held)
    (hfresh : ∀ p, (s'.slots p).status = .fresh → (s'.slots p).report ≠ none)
    (hnext : s'.next = s.next) (hfates : s'.fates = s.leave gone left)
    (hpending : s'.pending = s.pending ∨ s'.pending = none ∧
      ∀ pending id p, s.pending = some pending → pending.seen = some id →
        (s.slots p).held = some id → gone p = true)
    (hread : left = .read → ∀ p id, gone p = true → (s.slots p).held = some id →
      (s.fates id).returned = 1)
    (hlost : left = .lost → ∀ p id, gone p = true → (s.slots p).held = some id →
      (s.fates id).returned = 0) : Ledger s' := by
  have hwas : ∀ p id, (s'.slots p).held = some id → (s.slots p).held = some id ∧ gone p = false := by
    intro p id hheld
    rw [hslots] at hheld
    cases hgone : gone p with
    | true => simp [hgone] at hheld
    | false => exact ⟨by simpa [hgone] using hheld, rfl⟩
  constructor
  · exact hfresh
  · intro id
    rw [hnext, hfates]
    obtain ⟨⟨p, hgone, hp⟩, hleft⟩ | ⟨hnot, hleft⟩ := leave_eq s gone left id
    · rw [hleft]
      refine ⟨?_, by simp⟩
      rintro ⟨q, hq⟩
      obtain ⟨hq, hstays⟩ := hwas q id hq
      rw [h.alone p q id hp hq, hstays] at hgone
      cases hgone
    · rw [hleft, ← h.held id]
      constructor
      · rintro ⟨p, hp⟩
        exact ⟨p, (hwas p id hp).1⟩
      · rintro ⟨p, hp⟩
        refine ⟨p, ?_⟩
        rw [hslots, if_neg (fun hgone => hnot p hgone hp), hp]
  · intro p q id hp hq
    exact h.alone p q id (hwas p id hp).1 (hwas q id hq).1
  · intro pending id hsome hseen
    obtain hsame | ⟨hnone, -⟩ := hpending
    · rw [hsame] at hsome
      obtain ⟨hlt, hreturned, hpdn⟩ := h.seen pending id hsome hseen
      rw [hnext, hfates, leave_returned]
      exact ⟨hlt, hreturned, fun p hp => hpdn p (hwas p id hp).1⟩
    · rw [hnone] at hsome
      cases hsome
  · intro id hleft hunseen
    rw [hfates] at hleft ⊢
    rw [leave_returned]
    obtain ⟨-, hgone⟩ | ⟨hnot, hsame⟩ := leave_eq s gone left id
    · rw [hgone] at hleft
      cases hleft
    · rw [hsame] at hleft
      refine h.unread id hleft (fun pending hsome hseen => ?_)
      obtain hkept | ⟨-, hread⟩ := hpending
      · exact hunseen pending (by rw [hkept]; exact hsome) hseen
      · -- what the pending request has seen is still in its slot, and leaves
        obtain ⟨p, hp⟩ := (h.held id).2 ⟨(h.seen pending id hsome hseen).1, hleft⟩
        exact hnot p (hread pending id p hsome hseen hp) hp
  · intro id
    rw [hfates, leave_returned]
    exact h.once id
  · intro id hleft
    rw [hfates] at hleft ⊢
    rw [leave_returned]
    obtain ⟨⟨p, hgone, hp⟩, heq⟩ | ⟨-, heq⟩ := leave_eq s gone left id
    · rw [heq] at hleft
      exact hread (by simpa using hleft) p id hgone hp
    · rw [heq] at hleft
      exact h.read id hleft
  · intro id hleft
    rw [hfates] at hleft ⊢
    rw [leave_returned]
    obtain ⟨⟨p, hgone, hp⟩, heq⟩ | ⟨-, heq⟩ := leave_eq s gone left id
    · rw [heq] at hleft
      exact hlost (by simpa using hleft) p id hgone hp
    · rw [heq] at hleft
      exact h.lost id hleft
  · intro id hlater
    rw [hnext] at hlater
    rw [hfates]
    obtain ⟨⟨p, -, hp⟩, -⟩ | ⟨-, heq⟩ := leave_eq s gone left id
    · have := ((h.held id).1 ⟨p, hp⟩).1
      omega
    · rw [heq]
      exact h.later id hlater

theorem held_eq_none {slot : Slot} (h : slot.status ≠ .fresh) : slot.held = none := by
  simp [Slot.held, h]

theorem age_status (slot : Slot) : slot.age.status ≠ .fresh := by
  unfold Slot.age
  split
  · simp
  · assumption

theorem advance_ledger (h : Ledger s) (now : Timespec) : Ledger (pdnGcAdvanceLocked s now) := by
  unfold pdnGcAdvanceLocked
  split
  · refine @Ledger.leave s _ h (fun _ => true) .aged ?_ ?_ rfl rfl (.inl rfl) ?_ ?_
    · intro p
      simp [held_eq_none (age_status (s.slots p))]
    · intro p hp
      exact absurd hp (age_status (s.slots p))
    · simp
    · simp
  · exact ⟨h.fresh, h.held, h.alone, h.seen, h.unread, h.once, h.read, h.lost, h.later⟩

/-- The state when the report of one slot has left, if it was fresh. -/
def State.retire (s : State) (p : Fin maxPdn) (left : Left) : State :=
  { s.setSlot p { s.slots p with status := .stale } with fates := s.leave (· == p) left }

theorem retire_slots (s : State) (p q : Fin maxPdn) (left : Left) :
    ((s.retire p left).slots q).held = (if (q == p) = true then none else (s.slots q).held) ∧
      (((s.retire p left).slots q).status = .fresh →
        (s.slots q).status = .fresh ∧ (s.retire p left).slots q = s.slots q) := by
  unfold State.retire State.setSlot
  by_cases hq : q = p
  · simp [hq, Slot.held]
  · simp [hq]

/-- The second section of a request. -/
theorem finishRequest_cases (s : State) (pending : Pending) :
    ((s.slots pending.pdn).status = .empty ∧ finishRequest s pending = { s with pending := none }) ∨
      ((s.slots pending.pdn).status ≠ .empty ∧ finishRequest s pending =
        { s.retire pending.pdn (if (s.slots pending.pdn).report = pending.seen then .read else .lost) with
          pending := none }) := by
  by_cases hstatus : (s.slots pending.pdn).status = .empty
  · exact .inl ⟨hstatus, if_neg (not_not.2 hstatus)⟩
  · exact .inr ⟨hstatus, if_pos hstatus⟩

theorem replaced_ledger (h : Ledger s) (p : Fin maxPdn) (newer : Nat) :
    Ledger (s.retire p (.replaced newer)) := by
  refine @Ledger.leave s _ h (· == p) (.replaced newer) (fun q => (retire_slots s p q _).1) ?_ rfl rfl
    (.inl rfl) (by simp) (by simp)
  intro q hq
  obtain ⟨hfresh, hsame⟩ := (retire_slots s p q _).2 hq
  rw [hsame]
  exact h.fresh q hfresh

/-- **A report is stored** in a slot with no fresh one. -/
theorem store_ledger (h : Ledger s) {p : Fin maxPdn} {slot : Slot} (hfree : (s.slots p).held = none)
    (hstatus : slot.status = .fresh) (hreport : slot.report = some s.next) :
    Ledger { s.setSlot p slot with next := s.next + 1 } := by
  have hslot : slot.held = some s.next := by simp [Slot.held, hstatus, hreport]
  have hnew : ∀ q, (s.slots q).held ≠ some s.next := fun q hq => by
    have := ((h.held s.next).1 ⟨q, hq⟩).1
    omega
  -- Held afterwards: what was held, and the new report in its slot.
  have hheld : ∀ q id, ((s.setSlot p slot).slots q).held = some id ↔
      q = p ∧ id = s.next ∨ (s.slots q).held = some id := by
    intro q id
    by_cases hq : q = p
    · subst hq
      simp [State.setSlot, hslot, hfree, eq_comm]
    · simp [State.setSlot, hq]
  constructor
  · intro q hq
    by_cases hqp : q = p
    · simp [State.setSlot, hqp, hreport]
    · simp only [State.setSlot, if_neg hqp] at hq ⊢
      exact h.fresh q hq
  · intro id
    simp only [hheld]
    constructor
    · rintro ⟨q, ⟨-, rfl⟩ | hq⟩
      · exact ⟨Nat.lt_succ_self _, by rw [show (s.setSlot p slot).fates = s.fates from rfl, h.later _ (Nat.le_refl _)]⟩
      · obtain ⟨hlt, hleft⟩ := (h.held id).1 ⟨q, hq⟩
        exact ⟨Nat.lt_succ_of_lt hlt, hleft⟩
    · rintro ⟨hlt, hleft⟩
      -- A report with no fate is the new one or was in a slot before.
      obtain rfl | hlt := Nat.eq_or_lt_of_le (Nat.le_of_lt_succ hlt)
      · exact ⟨p, .inl ⟨rfl, rfl⟩⟩
      · obtain ⟨q, hq⟩ := (h.held id).2 ⟨hlt, hleft⟩
        exact ⟨q, .inr hq⟩
  -- The new identity is in no other slot, since all held ones are smaller.
  · intro q q' id hq hq'
    rw [hheld] at hq hq'
    obtain ⟨rfl, rfl⟩ | hq := hq
    · obtain ⟨rfl, -⟩ | hq' := hq'
      · rfl
      · exact absurd hq' (hnew q')
    · obtain ⟨rfl, rfl⟩ | hq' := hq'
      · exact absurd hq (hnew q)
      · exact h.alone q q' id hq hq'
  · intro pending id hsome hseen
    obtain ⟨hlt, hreturned, hpdn⟩ := h.seen pending id hsome hseen
    refine ⟨Nat.lt_succ_of_lt hlt, hreturned, fun q hq => ?_⟩
    obtain ⟨-, rfl⟩ | hq := (hheld q id).1 hq
    · exact absurd hlt (Nat.lt_irrefl _)
    · exact hpdn q hq
  · exact h.unread
  · exact h.once
  · exact h.read
  · exact h.lost
  · intro id hlater
    exact h.later id (Nat.le_of_succ_le hlater)

/-- A report, as what it replaces leaves and it is stored. -/
theorem handleImsaPktLossRpt_eq (s : State) (body : List UInt8) (now : Timespec) :
    ∃ aged, aged = pdnGcAdvanceLocked s now ∧ handleImsaPktLossRpt s body now =
      { (aged.retire (reportPdn body) (.replaced aged.next)).setSlot (reportPdn body)
          ((aged.slots (reportPdn body)).store aged.next (reportPdn body) body) with
        next := aged.next + 1 } := by
  refine ⟨_, rfl, ?_⟩
  simp only [handleImsaPktLossRpt, State.retire, State.setSlot]
  congr
  funext q
  by_cases hq : q = reportPdn body <;> simp [hq]

theorem report_ledger (h : Ledger s) (body : List UInt8) (now : Timespec) :
    Ledger (handleImsaPktLossRpt s body now) := by
  obtain ⟨aged, haged, heq⟩ := handleImsaPktLossRpt_eq s body now
  rw [heq]
  refine store_ledger (replaced_ledger (by rw [haged]; exact advance_ledger h now) _ _) ?_ rfl rfl
  rw [(retire_slots _ _ _ _).1]
  simp

/-- A configuration leaves the report in its slot. -/
theorem config_ledger (h : Ledger s) (hnone : s.pending = none) (request : Request) (p : Fin maxPdn) :
    Ledger (config s request p) := by
  have hslots : ∀ q, ((config s request p).slots q).held = (s.slots q).held ∧
      ((config s request p).slots q).status = (s.slots q).status ∧
      ((config s request p).slots q).report = (s.slots q).report := by
    intro q
    by_cases hq : q = p <;> simp [config, State.setSlot, Slot.held, hq]
  constructor
  · intro q
    rw [(hslots q).2.1, (hslots q).2.2]
    exact h.fresh q
  · intro id
    simp only [(hslots _).1]
    exact h.held id
  · intro q q' id
    rw [(hslots q).1, (hslots q').1]
    exact h.alone q q' id
  · intro pending id hsome hseen
    obtain rfl : _ = pending := by simpa [config] using hsome
    cases hseen
  · intro id hleft _
    exact h.unread id hleft (by simp [hnone])
  · exact h.once
  · exact h.read
  · exact h.lost
  · exact h.later

/-- What a query sees is the fresh report of its slot. -/
theorem query_eq (s : State) (request : Request) (p : Fin maxPdn) : ∃ reply,
    reply = (queryReply (s.slots p) (request.version == 1)).take (replyLen request.version) ∧
      query s request p =
        { s with
          pending := some ⟨p, (s.slots p).held, reply⟩
          fates := fun id => if (s.slots p).held = some id then
            { s.fates id with returned := (s.fates id).returned + 1 } else s.fates id } := by
  have hseen : (if saysFresh ((queryReply (s.slots p) (request.version == 1)).take
      (replyLen request.version)) = true then (s.slots p).report else none) = (s.slots p).held := by
    simp [(queryReply_reports (s.slots p) request.version).1, Slot.held]
  refine ⟨_, rfl, ?_⟩
  simp only [query, hseen]

theorem query_left (s : State) (request : Request) (p : Fin maxPdn) (id : Nat) :
    ((query s request p).fates id).left = (s.fates id).left := by
  obtain ⟨reply, -, heq⟩ := query_eq s request p
  rw [heq]
  simp only
  split <;> rfl

/-- A query notes what it has seen in its slot. -/
theorem query_ledger (h : Ledger s) (hnone : s.pending = none) (request : Request) (p : Fin maxPdn) :
    Ledger (query s request p) := by
  obtain ⟨reply, -, heq⟩ := query_eq s request p
  have hunread : ∀ id, (s.fates id).left = none → (s.fates id).returned = 0 := fun id hleft =>
    h.unread id hleft (by simp [hnone])
  have hleft := query_left s request p
  have hreturned : ∀ id, (s.slots p).held ≠ some id →
      ((query s request p).fates id).returned = (s.fates id).returned := by
    intro id hid
    rw [heq]
    simp [hid]
  have hseen : ∀ id, (s.slots p).held = some id → ((query s request p).fates id).returned = 1 := by
    intro id hid
    rw [heq]
    simp [hid, hunread id ((h.held id).1 ⟨p, hid⟩).2]
  have hslots : (query s request p).slots = s.slots := by rw [heq]
  have hnext : (query s request p).next = s.next := by rw [heq]
  have hpending : (query s request p).pending = some ⟨p, (s.slots p).held, reply⟩ := by rw [heq]
  -- a report that has left is not the one in the slot
  have hgone : ∀ id left, (s.fates id).left = some left → (s.slots p).held ≠ some id := by
    intro id left hid hheld
    rw [((h.held id).1 ⟨p, hheld⟩).2] at hid
    cases hid
  constructor
  · rw [hslots]
    exact h.fresh
  · intro id
    rw [hslots, hnext, hleft]
    exact h.held id
  · rw [hslots]
    exact h.alone
  · intro pending id hsome hid
    obtain rfl : _ = pending := by simpa [hpending] using hsome
    rw [hslots, hnext]
    exact ⟨((h.held id).1 ⟨p, hid⟩).1, hseen id hid, fun q hq => h.alone q p id hq hid⟩
  · intro id hid hunseen
    rw [hreturned id (hunseen _ hpending)]
    rw [hleft] at hid
    exact hunread id hid
  · intro id
    by_cases hid : (s.slots p).held = some id
    · rw [hseen id hid]
    · rw [hreturned id hid]
      exact h.once id
  · intro id hid
    rw [hleft] at hid
    rw [hreturned id (hgone id _ hid)]
    exact h.read id hid
  · intro id hid
    rw [hleft] at hid
    rw [hreturned id (hgone id _ hid)]
    exact h.lost id hid
  · intro id hlater
    rw [hnext] at hlater
    have hid : (s.slots p).held ≠ some id := fun hid => by
      have := ((h.held id).1 ⟨p, hid⟩).1
      omega
    rw [heq]
    simp only [if_neg hid]
    exact h.later id hlater

/-- The end of a query keeps the ledger. -/
theorem finish_ledger (h : Ledger s) {pending : Pending} (hsome : s.pending = some pending) :
    Ledger (finishRequest s pending) := by
  -- what the request has seen is in its slot, or gone
  have hpdn : ∀ pending' id p, s.pending = some pending' → pending'.seen = some id →
      (s.slots p).held = some id → p = pending.pdn := by
    intro pending' id p hsome' hseen hp
    obtain rfl : pending = pending' := by simpa [hsome] using hsome'
    exact (h.seen pending id hsome hseen).2.2 p hp
  obtain ⟨hempty, heq⟩ | ⟨-, heq⟩ := finishRequest_cases s pending
  · rw [heq]
    refine ⟨h.fresh, h.held, h.alone, by simp, fun id hleft _ => ?_, h.once, h.read, h.lost, h.later⟩
    refine h.unread id hleft (fun pending' hsome' hseen => ?_)
    have hlt := (h.seen pending' id hsome' hseen).1
    obtain ⟨p, hp⟩ := (h.held id).2 ⟨hlt, hleft⟩
    rw [hpdn pending' id p hsome' hseen hp, held_eq_none (by simp [hempty])] at hp
    cases hp
  · obtain ⟨left, hleft⟩ : ∃ left,
        (if (s.slots pending.pdn).report = pending.seen then Left.read else .lost) = left := ⟨_, rfl⟩
    rw [heq, hleft]
    have hmine : ∀ p id, (p == pending.pdn) = true → (s.slots p).held = some id →
        (s.slots pending.pdn).report = some id := by
      intro p id hp hid
      rw [beq_iff_eq.1 hp, Slot.held] at hid
      split at hid
      · exact hid
      · cases hid
    refine @Ledger.leave s _ h (· == pending.pdn) left (fun q => (retire_slots s pending.pdn q left).1) ?_
      rfl rfl (.inr ⟨rfl, fun pending' id p hsome' hseen hp =>
        beq_iff_eq.2 (hpdn pending' id p hsome' hseen hp)⟩) ?_ ?_
    · intro q hq
      obtain ⟨hfresh, hsame⟩ := (retire_slots s pending.pdn q left).2 hq
      show ((s.retire pending.pdn left).slots q).report ≠ none
      rw [hsame]
      exact h.fresh q hfresh
    · intro hread p id hp hid
      have hseen : (s.slots pending.pdn).report = pending.seen := by
        by_contra hne
        rw [hread, if_neg hne] at hleft
        cases hleft
      rw [hmine p id hp hid] at hseen
      exact (h.seen pending id hsome hseen.symm).2.1
    · intro hlost p id hp hid
      refine h.unread id ((h.held id).1 ⟨p, hid⟩).2 (fun pending' hsome' hseen => ?_)
      obtain rfl : pending = pending' := by simpa [hsome] using hsome'
      rw [hmine p id hp hid, hseen, if_pos rfl, hlost] at hleft
      cases hleft

/-- **Every step keeps the ledger.** -/
theorem step_ledger (h : Ledger s) (hstep : s.step event = some s') : Ledger s' := by
  cases event with
  | report body now =>
      simp only [State.step] at hstep
      split at hstep
      · cases hstep
        exact report_ledger h body now
      · cases hstep
  | age now =>
      simp only [State.step] at hstep
      split at hstep
      · cases hstep
        exact advance_ledger h now
      · cases hstep
  | request request =>
      simp only [State.step, beginRequest] at hstep
      cases hpending : s.pending with
      | some pending => simp [hpending] at hstep
      | none =>
          simp only [hpending, Option.isSome_none, Bool.false_eq_true, if_false] at hstep
          split at hstep
          · split at hstep <;> cases hstep
            · exact config_ledger h hpending request _
            · exact query_ledger h hpending request _
            · exact h
          · cases hstep
            exact h
  | finish =>
      simp only [State.step, Option.map_eq_some_iff] at hstep
      obtain ⟨pending, hsome, rfl⟩ := hstep
      exact finish_ledger h hsome

/-! ### Late requests -/

/-- The second section of a request finds a fresh report that the request has not read. -/
def late (s : State) : Event → Bool
  | .finish =>
      match s.pending with
      | none => false
      | some pending =>
          (s.slots pending.pdn).status = .fresh && (s.slots pending.pdn).report != pending.seen
  | _ => false

/-- A late step in a run. -/
def lateIn (s : State) : List Event → Bool
  | [] => false
  | event :: events =>
      late s event || match s.step event with
        | none => false
        | some s => lateIn s events

/-- A report was marked stale unread. -/
def Lost (s : State) : Prop := ∃ id, (s.fates id).left = some .lost

/-- Who is lost after reports have left their slots. -/
theorem lost_leave {gone : Fin maxPdn → Bool} {left : Left} (h : Ledger s) :
    (∃ id, (s.leave gone left id).left = some .lost) ↔
      Lost s ∨ left = .lost ∧ ∃ p id, gone p = true ∧ (s.slots p).held = some id := by
  constructor
  · rintro ⟨id, hid⟩
    obtain ⟨⟨p, hgone, hp⟩, heq⟩ | ⟨-, heq⟩ := leave_eq s gone left id
    · rw [heq] at hid
      exact .inr ⟨by simpa using hid, p, id, hgone, hp⟩
    · rw [heq] at hid
      exact .inl ⟨id, hid⟩
  · rintro (⟨id, hid⟩ | ⟨rfl, p, id, hgone, hp⟩)
    · refine ⟨id, ?_⟩
      obtain ⟨⟨p, -, hp⟩, -⟩ | ⟨-, heq⟩ := leave_eq s gone left id
      · -- a report that is still in its slot has not left
        rw [((h.held id).1 ⟨p, hp⟩).2] at hid
        cases hid
      · rw [heq, hid]
    · refine ⟨id, ?_⟩
      obtain ⟨-, heq⟩ | ⟨hnot, -⟩ := leave_eq s gone .lost id
      · rw [heq]
      · exact absurd hp (hnot p hgone)

theorem advance_lost (h : Ledger s) (now : Timespec) : Lost (pdnGcAdvanceLocked s now) ↔ Lost s := by
  unfold pdnGcAdvanceLocked
  split
  · exact (lost_leave h).trans (by simp)
  · rfl

theorem finish_lost (h : Ledger s) {pending : Pending} (hsome : s.pending = some pending) :
    Lost (finishRequest s pending) ↔ Lost s ∨ late s .finish = true := by
  simp only [late, hsome, Bool.and_eq_true, decide_eq_true_eq, bne_iff_ne]
  obtain ⟨hempty, heq⟩ | ⟨-, heq⟩ := finishRequest_cases s pending
  · rw [heq]
    simp [Lost, hempty]
  · rw [heq]
    refine (lost_leave h).trans (or_congr_right ?_)
    constructor
    · rintro ⟨hleft, p, id, hp, hid⟩
      rw [beq_iff_eq.1 hp] at hid
      refine ⟨?_, fun heq => by simp [heq] at hleft⟩
      by_contra hnot
      rw [held_eq_none hnot] at hid
      cases hid
    · rintro ⟨hfresh, hne⟩
      obtain ⟨id, hid⟩ := Option.ne_none_iff_exists'.1 (h.fresh _ hfresh)
      exact ⟨if_neg hne, pending.pdn, id, by simp, by simp [Slot.held, hfresh, hid]⟩

/-- **A report is lost in a step exactly when the step is late.** -/
theorem step_lost (h : Ledger s) (hstep : s.step event = some s') :
    Lost s' ↔ Lost s ∨ late s event = true := by
  cases event with
  | report body now =>
      simp only [State.step] at hstep
      split at hstep
      · cases hstep
        have haged := advance_ledger h now
        refine ((lost_leave haged).trans ?_).trans (or_congr_left (advance_lost h now))
        simp [late]
      · cases hstep
  | age now =>
      simp only [State.step] at hstep
      split at hstep
      · cases hstep
        simp [advance_lost h now, late]
      · cases hstep
  | request request =>
      have hsame : (∀ id, (s'.fates id).left = (s.fates id).left) := by
        simp only [State.step, beginRequest] at hstep
        split at hstep
        · cases hstep
        · split at hstep
          · split at hstep <;> cases hstep
            · exact fun _ => rfl
            · exact query_left s request _
            · exact fun _ => rfl
          · cases hstep
            exact fun _ => rfl
      simp [Lost, hsame, late]
  | finish =>
      simp only [State.step, Option.map_eq_some_iff] at hstep
      obtain ⟨pending, hsome, rfl⟩ := hstep
      exact finish_lost h hsome

theorem run_ledger (h : Ledger s) : ∀ {events : List Event}, s.run events = some s' →
    Ledger s' ∧ (Lost s' ↔ Lost s ∨ lateIn s events = true) := by
  intro events
  induction events generalizing s with
  | nil =>
      intro hrun
      cases hrun
      exact ⟨h, by simp [lateIn]⟩
  | cons event events ih =>
      intro hrun
      simp only [State.run, List.foldlM_cons, Option.bind_eq_bind, Option.bind_eq_some_iff] at hrun
      obtain ⟨mid, hstep, hrest⟩ := hrun
      obtain ⟨hledger, hlost⟩ := ih (step_ledger h hstep) hrest
      refine ⟨hledger, ?_⟩
      rw [hlost, step_lost h hstep]
      simp [lateIn, hstep, or_assoc]

/-! ### What becomes of a report -/

/-- A report is fresh in its slot, or was given as fresh, replaced by a newer one, or aged. -/
def Accounted (s : State) (id : Nat) : Prop :=
  (∃ p, (s.slots p).held = some id) ∨ (s.fates id).returned = 1 ∨
    (∃ newer, (s.fates id).left = some (.replaced newer)) ∨ (s.fates id).left = some .aged

/-- **All reports are accounted for exactly if none was lost.** -/
theorem Ledger.accounted (h : Ledger s) : (∀ id < s.next, Accounted s id) ↔ ¬ Lost s := by
  constructor
  · rintro hall ⟨id, hid⟩
    have hlt : id < s.next := by
      by_contra hlater
      rw [h.later id (by omega)] at hid
      cases hid
    obtain ⟨p, hp⟩ | hreturned | ⟨newer, hleft⟩ | hleft := hall id hlt
    · rw [((h.held id).1 ⟨p, hp⟩).2] at hid
      cases hid
    · rw [h.lost id hid] at hreturned
      cases hreturned
    · rw [hleft] at hid
      cases hid
    · rw [hleft] at hid
      cases hid
  · intro hnot id hlt
    cases hleft : (s.fates id).left with
    | none => exact .inl ((h.held id).2 ⟨hlt, hleft⟩)
    | some left =>
        cases left with
        | replaced newer => exact .inr (.inr (.inl ⟨newer, hleft⟩))
        | aged => exact .inr (.inr (.inr hleft))
        | read => exact .inr (.inl (h.read id hleft))
        | lost => exact absurd ⟨id, hleft⟩ hnot

/-! ### How a slot goes stale -/

/-- An ageing tick that has reached the deadline, or a request on the slot that read its report. -/
def MayGoStale (s : State) (event : Event) (p : Fin maxPdn) : Prop :=
  (∃ now, (event = .age now ∨ ∃ body, event = .report body now) ∧ s.deadline.ns ≤ now.ns) ∨
    event = .finish ∧ ∃ pending id, s.pending = some pending ∧ pending.pdn = p ∧
      pending.seen = some id ∧ (s.slots p).report = some id

theorem advance_stale {p : Fin maxPdn} {now : Timespec} (hfresh : (s.slots p).status = .fresh)
    (hstale : ((pdnGcAdvanceLocked s now).slots p).status = .stale) : s.deadline.ns ≤ now.ns := by
  rw [← expired_iff]
  by_contra hnot
  simp only [pdnGcAdvanceLocked, if_neg hnot, hfresh] at hstale
  cases hstale

/-- **A slot goes from fresh to stale** by an ageing tick or by a request that has read its report,
exactly when the step is not late. -/
theorem step_stale (h : Ledger s) (hstep : s.step event = some s') :
    (∀ p, (s.slots p).status = .fresh → (s'.slots p).status = .stale → MayGoStale s event p) ↔
      late s event = false := by
  cases event with
  | report body now =>
      refine iff_of_true (fun p hfresh hstale => .inl ⟨now, .inr ⟨body, rfl⟩, ?_⟩) rfl
      simp only [State.step] at hstep
      split at hstep
      · cases hstep
        simp only [handleImsaPktLossRpt] at hstale
        split at hstale
        · simp [Slot.store] at hstale
        · exact advance_stale hfresh hstale
      · cases hstep
  | age now =>
      refine iff_of_true (fun p hfresh hstale => .inl ⟨now, .inl rfl, ?_⟩) rfl
      simp only [State.step] at hstep
      split at hstep
      · cases hstep
        exact advance_stale hfresh hstale
      · cases hstep
  | request request =>
      refine iff_of_true (fun p hfresh hstale => ?_) rfl
      have hsame : (s'.slots p).status = (s.slots p).status := by
        simp only [State.step, beginRequest] at hstep
        split at hstep
        · cases hstep
        · split at hstep
          · split at hstep <;> cases hstep
            · simp only [config, State.setSlot]
              split <;> simp_all
            · rfl
            · rfl
          · cases hstep
            rfl
      rw [hsame, hfresh] at hstale
      cases hstale
  | finish =>
      simp only [State.step, Option.map_eq_some_iff] at hstep
      obtain ⟨pending, hsome, rfl⟩ := hstep
      -- the slot of the request goes stale, and no other
      have hslot : ∀ p, (s.slots p).status = .fresh →
          (((finishRequest s pending).slots p).status = .stale ↔ p = pending.pdn) := by
        intro p hfresh
        obtain ⟨hempty, heq⟩ | ⟨-, heq⟩ := finishRequest_cases s pending
        · rw [heq]
          refine iff_of_false (by simp [hfresh]) (fun hp => ?_)
          rw [← hp, hfresh] at hempty
          cases hempty
        · rw [heq]
          by_cases hp : p = pending.pdn <;> simp [State.retire, State.setSlot, hp, hfresh]
      simp only [late, hsome, Bool.and_eq_false_imp, decide_eq_true_eq, bne_eq_false_iff_eq]
      constructor
      · intro hall hfresh
        obtain ⟨now, (hno | ⟨_, hno⟩), -⟩ | ⟨-, pending', id, hsome', -, hseen, hreport⟩ :=
          hall pending.pdn hfresh ((hslot _ hfresh).2 rfl)
        · cases hno
        · cases hno
        · obtain rfl : pending = pending' := by simpa [hsome] using hsome'
          rw [hreport, hseen]
      · intro hread p hfresh hstale
        obtain rfl := (hslot p hfresh).1 hstale
        obtain ⟨id, hid⟩ := Option.ne_none_iff_exists'.1 (h.fresh _ hfresh)
        exact .inr ⟨rfl, pending, id, hsome, rfl, by rw [← hread hfresh, hid], hid⟩

/-! ### Deadlines -/

/-- Only an ageing step, at `now`, moves the deadline. -/
structure Ages (s s' : State) (now : Timespec) : Prop where
  later : now.ns < s'.deadline.ns
  soon : s'.deadline.ns ≤ now.ns + 50000000000
  multiple : ∃ k : Nat, s'.deadline.ns = s.deadline.ns + k * 50000000000 ∧ (s.deadline.ns ≤ now.ns → 0 < k)

/-- **The deadline stays ahead of the clock.** -/
theorem step_ahead (h : Ahead s) (hstep : s.step event = some s') : Ahead s' ∧
    ∀ now, (event = .age now ∨ ∃ body, event = .report body now) → Ages s s' now := by
  -- A report and an ageing both advance the collector and differ only in what follows.
  have hadvance : ∀ now : Timespec, s.clock.ns ≤ now.ns → ∀ s', s'.deadline = (pdnGcAdvanceLocked s now).deadline →
      s'.clock = (pdnGcAdvanceLocked s now).clock → Ahead s' ∧ Ages s s' now := by
    intro now hnow s' hdeadline hclock
    obtain ⟨⟨hlater, hsoon⟩, hreads, hmultiple⟩ := advance_ahead h hnow
    rw [hreads] at hlater hsoon hclock
    unfold Ahead
    rw [hdeadline, hclock]
    exact ⟨⟨hlater, hsoon⟩, by rw [hdeadline]; exact hlater, by rw [hdeadline]; exact hsoon,
      by rw [hdeadline]; exact hmultiple⟩
  cases event with
  | report body now =>
      simp only [State.step] at hstep
      split at hstep
      · rename_i hnow
        cases hstep
        obtain ⟨hahead, hages⟩ := hadvance now hnow (handleImsaPktLossRpt s body now) rfl rfl
        refine ⟨hahead, ?_⟩
        rintro _ (hno | ⟨_, hsame⟩)
        · cases hno
        · cases hsame
          exact hages
      · cases hstep
  | age now =>
      simp only [State.step] at hstep
      split at hstep
      · rename_i hnow
        cases hstep
        obtain ⟨hahead, hages⟩ := hadvance now hnow _ rfl rfl
        refine ⟨hahead, ?_⟩
        rintro _ (hsame | ⟨_, hno⟩)
        · cases hsame
          exact hages
        · cases hno
      · cases hstep
  -- Requests read the state and set neither the deadline nor the clock.
  | request request =>
      refine ⟨?_, by simp⟩
      simp only [State.step, beginRequest] at hstep
      split at hstep
      · cases hstep
      · split at hstep
        · split at hstep <;> cases hstep
          · exact h
          · exact h
          · exact h
        · cases hstep
          exact h
  | finish =>
      refine ⟨?_, by simp⟩
      simp only [State.step, Option.map_eq_some_iff] at hstep
      obtain ⟨pending, -, rfl⟩ := hstep
      obtain ⟨-, heq⟩ | ⟨-, heq⟩ := finishRequest_cases s pending
      · rw [heq]
        exact h
      · rw [heq]
        exact h

theorem run_ahead (h : Ahead s) : ∀ {events : List Event}, s.run events = some s' → Ahead s' := by
  intro events
  induction events generalizing s with
  | nil =>
      intro hrun
      cases hrun
      exact h
  | cons event events ih =>
      intro hrun
      simp only [State.run, List.foldlM_cons, Option.bind_eq_bind, Option.bind_eq_some_iff] at hrun
      obtain ⟨mid, hstep, hrest⟩ := hrun
      exact ih (step_ahead h hstep).1 hrest

/-- **Loss reports are not lost**, and slots go stale only as they should, in the runs in which no
request comes late; no report is given as fresh twice, and the deadline keeps its distance, in all. -/
theorem loss_reports_accounted (start : Timespec) (events : List Event) (s : State)
    (h : (State.init start).run events = some s) :
    ((∀ id < s.next, Accounted s id) ↔ lateIn (State.init start) events = false) ∧
      (∀ id, (s.fates id).returned ≤ 1) ∧
      ∀ event s', s.step event = some s' →
        ((∀ p, (s.slots p).status = .fresh → (s'.slots p).status = .stale → MayGoStale s event p) ↔
          late s event = false) ∧
        ∀ now, (event = .age now ∨ ∃ body, event = .report body now) → Ages s s' now := by
  obtain ⟨hledger, hlost⟩ := run_ledger (init_ledger start) h
  have hahead : Ahead s := by
    refine run_ahead ?_ h
    simp only [Ahead, State.init, Timespec.addSec, Timespec.ns]
    omega
  have hnone : ¬ Lost (State.init start) := by
    rintro ⟨id, hid⟩
    cases hid
  refine ⟨?_, hledger.once, fun event s' hstep =>
    ⟨step_stale hledger hstep, (step_ahead hahead hstep).2⟩⟩
  rw [hledger.accounted, hlost, or_iff_right hnone, Bool.not_eq_true]

/-- Two reports for PDN 0, with a query of it around the second one. -/
def lateQuery : List Event :=
  let start : Timespec := ⟨0, 0, by decide, by decide⟩
  [.report (List.replicate 20 0) start, .request ⟨2, 0, 0, 0, 0⟩, .report (List.replicate 20 0) start]

/-- A query that finds the report it has read accounts for it. -/
theorem loss_reports_accounted_query : ∃ s,
    (State.init ⟨0, 0, by decide, by decide⟩).run (lateQuery.take 2 ++ [.finish]) = some s ∧
      ∀ id < s.next, Accounted s id := by
  obtain ⟨s, hs⟩ := Option.isSome_iff_exists.1
    (show ((State.init ⟨0, 0, by decide, by decide⟩).run (lateQuery.take 2 ++ [.finish])).isSome = true by
      decide +kernel)
  exact ⟨s, hs, (loss_reports_accounted _ _ s hs).1.2 (by decide +kernel)⟩

/-- The second report comes between the sections of the query, which marks it stale: nobody has
read it, and it is neither replaced nor aged. -/
theorem lateQuery_loses : ∃ s s', (State.init ⟨0, 0, by decide, by decide⟩).run lateQuery = some s ∧
    s.step .finish = some s' ∧ (s.slots ⟨0, by decide⟩).status = .fresh ∧
      (s'.slots ⟨0, by decide⟩).status = .stale ∧ ¬ MayGoStale s .finish ⟨0, by decide⟩ ∧
      1 < s'.next ∧ ¬ Accounted s' 1 := by
  have hfinish : (((State.init ⟨0, 0, by decide, by decide⟩).run lateQuery).any fun s =>
      (s.step .finish).any fun s' =>
        (s.slots ⟨0, by decide⟩).status = .fresh ∧ (s'.slots ⟨0, by decide⟩).status = .stale ∧
          (s.slots ⟨0, by decide⟩).report = some 1 ∧ s.pending.map (·.seen) = some (some 0) ∧
          1 < s'.next ∧ s'.fates 1 = ⟨0, some .lost⟩ ∧ ∀ p, (s'.slots p).held ≠ some 1) = true := by
    decide +kernel
  simp only [Option.any_eq_true, decide_eq_true_eq] at hfinish
  obtain ⟨s, hrun, s', hstep, hfresh, hstale, hreport, hseen, hnext, hfate, hnot⟩ := hfinish
  refine ⟨s, s', hrun, hstep, hfresh, hstale, ?_, hnext, ?_⟩
  · rintro (⟨now, hno | ⟨_, hno⟩, -⟩ | ⟨-, pending, id, hsome, -, hid, hheld⟩)
    · cases hno
    · cases hno
    · -- the query has seen the first report
      rw [hsome, Option.map_some, hid] at hseen
      rw [hreport] at hheld
      simp_all
  · rintro (⟨p, hp⟩ | hreturned | ⟨newer, hleft⟩ | hleft)
    · exact hnot p hp
    · simp [hfate] at hreturned
    · simp [hfate] at hleft
    · simp [hfate] at hleft

end Mindone.Wfca.Rds
