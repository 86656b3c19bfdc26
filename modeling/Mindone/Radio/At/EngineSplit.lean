import Mindone.Radio.At.EngineMoves

/-!
# Mindone.Radio.At.EngineSplit

Where the input of the AT engine is cut does not matter: `feed` of `a ++ b` is `feed` of `a` and then
of `b` at the same instant, from every state. Each call looks at the clock and at the deadlines first;
after the first call nothing is due any more (`Settled`), **and no byte makes anything due**
(`absorb_narrows`), so that the second look changes nothing.
-/

namespace Mindone.Radio.At

open Mindone.Lib

namespace Engine

/-- What the bytes leave of the deadlines: no command is added, the probe's deadline stays, and no
probe is under way that was not before. -/
structure Narrows (e e' : Engine) : Prop where
  lastNow : e'.lastNow = e.lastNow
  queue : e'.queue = e.queue
  resyncDeadline : e'.resyncDeadline = e.resyncDeadline
  active : ∀ p ∈ e'.active, ∃ q ∈ e.active, p.command = q.command
  phase : e'.phase = e.phase ∨ e'.phase = .idle ∨ e'.phase = .quarantine .silence

theorem Narrows.refl (e : Engine) : Narrows e e :=
  ⟨rfl, rfl, rfl, fun p hp => ⟨p, hp, rfl⟩, .inl rfl⟩

theorem Narrows.trans {e e' e'' : Engine} (h : Narrows e e') (h' : Narrows e' e'') :
    Narrows e e'' where
  lastNow := h'.lastNow.trans h.lastNow
  queue := h'.queue.trans h.queue
  resyncDeadline := h'.resyncDeadline.trans h.resyncDeadline
  active := by
    intro p hp
    obtain ⟨q, hq, hpq⟩ := h'.active p hp
    obtain ⟨r, hr, hqr⟩ := h.active q hq
    exact ⟨r, hr, hpq.trans hqr⟩
  phase := by
    rcases h'.phase with hsame | hleft
    · rw [hsame]
      exact h.phase
    · exact .inr hleft

variable {e : Engine} {now : Nat}

theorem enter_narrows (error : Error) : Narrows e (e.enter now error) where
  lastNow := enter_lastNow ..
  queue := enter_queue ..
  resyncDeadline := by
    unfold enter
    cases hactive : e.active <;> simp [note, emit, clearWrite, hactive]
  active := by simp
  phase := .inr (.inr (by simp))

theorem recordQuarantined_narrows (line : List UInt8) :
    Narrows e (e.recordQuarantined now line) := by
  unfold recordQuarantined
  dsimp only
  split
  · split
    · exact ⟨rfl, rfl, rfl, fun p hp => ⟨p, hp, rfl⟩, .inr (.inl rfl)⟩
    · exact ⟨rfl, rfl, rfl, fun p hp => ⟨p, hp, rfl⟩, .inr (.inr rfl)⟩
  split
  · exact ⟨rfl, rfl, rfl, fun p hp => ⟨p, hp, rfl⟩, .inl rfl⟩
  split
  · exact ⟨rfl, rfl, rfl, fun p hp => ⟨p, hp, rfl⟩, .inl rfl⟩
  · exact ⟨rfl, rfl, rfl, fun p hp => ⟨p, hp, rfl⟩, .inl rfl⟩

theorem recordStray_narrows (line : List UInt8) : Narrows e (e.recordStray now line) := by
  unfold recordStray
  split
  · exact enter_narrows _
  · exact ⟨rfl, rfl, rfl, fun p hp => ⟨p, hp, rfl⟩, .inl rfl⟩

theorem recordActive_narrows {pending : Pending} (hactive : e.active = some pending)
    (line : List UInt8) : Narrows e (e.recordActive now pending line) := by
  unfold recordActive
  dsimp only
  split
  · exact .refl e
  split
  · split
    · split
      · exact enter_narrows _
      · exact ⟨rfl, rfl, rfl, fun p hp => ⟨p, hp, rfl⟩, .inl rfl⟩
    split
    · exact ⟨rfl, rfl, rfl, nofun, .inr (.inl rfl)⟩
    split
    · exact enter_narrows _
    · refine ⟨rfl, rfl, rfl, fun p hp => ⟨pending, hactive, ?_⟩, .inl rfl⟩
      obtain rfl := Option.some.inj hp
      rfl
  · exact recordStray_narrows line

theorem record_narrows (line : List UInt8) : Narrows e (e.record now line) := by
  unfold record
  split
  · exact recordQuarantined_narrows line
  · cases hactive : e.active with
    | some pending => exact recordActive_narrows hactive line
    | none => exact recordStray_narrows line

theorem hear_narrows (byte : UInt8) : Narrows e (e.hear now byte) := by
  refine ⟨rfl, rfl, rfl, fun p hp => ?_, .inl rfl⟩
  obtain ⟨q, hq, rfl⟩ := Option.map_eq_some_iff.mp hp
  exact ⟨q, hq, rfl⟩

/-- The framer is another one. -/
theorem framer_narrows (framer : Framer) : Narrows e { e with framer := framer } :=
  ⟨rfl, rfl, rfl, fun p hp => ⟨p, hp, rfl⟩, .inl rfl⟩

theorem pushed_narrows (byte : UInt8) : Narrows e (e.pushed now byte) := by
  unfold pushed
  split
  · exact (framer_narrows _).trans (record_narrows _)
  · refine (framer_narrows (e.framer.push byte).1).trans (Narrows.trans ?_ (enter_narrows _))
    exact ⟨rfl, rfl, rfl, fun p hp => ⟨p, hp, rfl⟩, .inl rfl⟩
  · exact framer_narrows _

/-- **A byte makes nothing due.** -/
theorem absorb_narrows (byte : UInt8) : Narrows e (absorb now e byte) := by
  rw [absorb_eq]
  refine Narrows.trans ?_ (pushed_narrows byte)
  split
  · exact (hear_narrows byte).trans (enter_narrows _)
  · exact hear_narrows byte

theorem absorbAll_narrows (input : List UInt8) : Narrows e (input.foldl (absorb now) e) := by
  induction input generalizing e with
  | nil => exact .refl e
  | cons byte rest ih => exact (absorb_narrows byte).trans ih

/-- The clock has been read, and nothing is due. -/
structure Settled (now : Nat) (e : Engine) : Prop where
  alive : Alive now e
  active : e.overdue now = false
  probe : ¬ ((e.phase = .quarantine .writing ∨ e.phase = .quarantine .reading) ∧
    e.resyncDeadline ≤ now)
  queue : ∀ p ∈ e.queue, now < p.command.deadline

theorem Settled.narrows {e' : Engine} (h : Settled now e) (hnarrows : Narrows e e') :
    Settled now e' where
  alive := by
    refine ⟨?_, hnarrows.lastNow.trans h.alive.2⟩
    rcases hnarrows.phase with hsame | hidle | hsilence
    · rw [hsame]
      exact h.alive.1
    · simp [hidle]
    · simp [hsilence]
  active := by
    have hactive := h.active
    simp only [overdue, Option.any_eq_false, decide_eq_false_iff_not] at hactive ⊢
    intro p hp
    obtain ⟨q, hq, hcommand⟩ := hnarrows.active p hp
    rw [hcommand]
    exact hactive q hq
  probe := by
    rw [hnarrows.resyncDeadline]
    rcases hnarrows.phase with hsame | hidle | hsilence
    · rw [hsame]
      exact h.probe
    · simp [hidle]
    · simp [hsilence]
  queue := by
    rw [hnarrows.queue]
    exact h.queue

end Engine

/-! ### The second call -/

variable {e e' : Engine} {now : Nat}

open Engine

theorem timed_overdue : (e.timed now).overdue now = false := by
  unfold timed
  split
  · simp [overdue]
  · rename_i hactive
    simpa using hactive

/-- The first look leaves nothing due. -/
theorem settle_settled : Ends (settle now) e (fun _ e' => Settled now e') fun _ _ => True := by
  unfold settle expire
  rw [ends_bind]
  refine (clock_spec now e).mono ?_ fun _ _ _ => trivial
  rintro _ e₀ ⟨halive, -, rfl⟩
  rw [ends_bind, ends_modify]
  change Ends _ (Engine.timed { e with lastNow := now } now) _ _
  have halive₀ : Alive now { e with lastNow := now } := ⟨halive, rfl⟩
  have htimed := (timed_moves true halive₀).2
  have hoverdue : (Engine.timed { e with lastNow := now } now).overdue now = false := timed_overdue
  generalize Engine.timed { e with lastNow := now } now = e₁ at htimed hoverdue ⊢
  rw [ends_bind, ends_get, ends_ite]
  split
  · exact ends_fail.mpr trivial
  · rename_i hprobe
    refine ends_set.mpr ⟨htimed, hoverdue, hprobe, fun p hp => ?_⟩
    simpa using (List.mem_filter.mp hp).2

/-- **A second look changes nothing.** -/
theorem Engine.Settled.settle (h : Settled now e) : settle now e = .ok () e := by
  have hclock : clock now e = .ok () e := by
    obtain ⟨halive, rfl⟩ := h.alive
    show (if e.phase = .failed then throw .failed else _ : Step Unit) e = _
    rw [if_neg halive, if_neg (Nat.lt_irrefl _)]
    rfl
  have hqueue : e.expireQueue now = e := by
    have hlate : e.queue.filter (fun p => p.command.deadline ≤ now) = [] := by
      simpa using h.queue
    have hkept : e.queue.filter (fun p => now < p.command.deadline) = e.queue := by
      simpa using h.queue
    simp only [expireQueue, hlate, hkept, List.map_nil, List.append_nil]
  have hexpire : expire now e = .ok () e := by
    have htimed : (modify fun e => if e.overdue now then e.enter now .timeout else e : Step Unit) e =
        .ok () e := by
      show EStateM.Result.ok () (if e.overdue now then e.enter now .timeout else e) = _
      rw [h.active]
      rfl
    unfold expire
    rw [run_bind_ok htimed, run_get_bind, if_neg h.probe, hqueue]
    rfl
  show (clock now >>= fun _ => expire now) e = _
  rw [run_bind_ok hclock, hexpire]

/-! ### The split -/

theorem feed_ok (now : Nat) (input : List UInt8) (h : settle now e = .ok () e') :
    feed now input e = .ok () (input.foldl (absorb now) e') := by
  rw [feed_eq, run_bind_ok h]
  rfl

theorem feed_error (now : Nat) (input : List UInt8) {error : Error}
    (h : settle now e = .error error e') : feed now input e = .error error e' := by
  rw [feed_eq, run_bind_error h]

/-- An error of the first look is final. -/
theorem settle_failed : Ends (settle now) e (fun _ _ => True) fun _ e' => e'.phase = .failed := by
  unfold settle expire
  rw [ends_bind]
  refine (clock_spec now e).mono ?_ ?_
  · rintro _ e₀ -
    rw [ends_bind, ends_modify]
    change Ends _ (e₀.timed now) _ _
    rw [ends_bind, ends_get, ends_ite]
    split
    · rw [ends_fail]
      rfl
    · rw [ends_set]
      trivial
  · rintro _ _ (⟨hfailed, -, rfl⟩ | ⟨-, rfl⟩)
    · exact hfailed
    · rfl

theorem feed_of_failed (now : Nat) (input : List UInt8) (h : e.phase = .failed) :
    feed now input e = .error .failed e := by
  have hclock : clock now e = .error .failed e := by
    show (if e.phase = .failed then throw .failed else _ : Step Unit) e = _
    rw [if_pos h]
    rfl
  unfold feed
  rw [run_bind_error hclock]

/-- A call returned an error. -/
def IsError : EStateM.Result Error Engine Unit → Prop
  | .ok _ _ => False
  | .error _ _ => True

/-- **The input is split-invariant.** From every state, one call with `a ++ b` and two calls with `a`
and `b` reach the same state with the same events in the same order; the one returns an error if and
only if the two do, and it is the error at which the two stop. -/
theorem feed_append (e : Engine) (now : Nat) (a b : List UInt8) :
    let whole := feed now (a ++ b) e
    let first := feed now a e
    let second := feed now b (endState first)
    endState whole = endState second ∧
      (endState whole).emitted = (endState second).emitted ∧
      (IsError whole ↔ IsError first ∨ IsError second) ∧
      whole = (feed now a >>= fun _ => feed now b) e := by
  cases hsettle : settle now e with
  | ok u e' =>
      have hsettled : Settled now e' := (ends_of_ok hsettle).mp settle_settled
      have hnarrows : Narrows e' (a.foldl (absorb now) e') := absorbAll_narrows a
      have hagain := (hsettled.narrows hnarrows).settle
      have hfirst := feed_ok now a hsettle
      have hsecond := feed_ok now b hagain
      have hwhole := feed_ok now (a ++ b) hsettle
      rw [List.foldl_append] at hwhole
      simp only [hfirst, endState, hsecond, hwhole, IsError, run_bind_ok hfirst, or_self, and_self]
  | error error e' =>
      have hfailed : e'.phase = .failed := (ends_of_error hsettle).mp settle_failed
      have hfirst := feed_error now a hsettle
      have hsecond := feed_of_failed now b hfailed
      have hwhole := feed_error now (a ++ b) hsettle
      simp only [hfirst, endState, hsecond, hwhole, IsError, run_bind_error hfirst, or_self, and_self]

end Mindone.Radio.At
