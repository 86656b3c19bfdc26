import Mindone.Radio.At.EngineQuarantine

/-!
# Mindone.Radio.At.EngineAttempts

**How often the engine probes.** A stay in quarantine has at most three probes, and the
fourth attempt fails, in every run in which no line is too long once a probe of the stay has
been offered (`Tame`). A line that is too long calls `Engine::quarantine` again and sets the
count of the attempts back to zero, so without that condition a modem can keep the engine
probing (`resync_unbounded`).
-/

namespace Mindone.Radio.At

open Mindone.Lib Engine
open Mindone.Mux (checkedAdd u64Max)

/-- The probes of the current stay. -/
def stayProbes (history : List Note) : Nat :=
  history.foldl (fun count mark =>
    match mark with
    | .probe _ => count + 1
    | .resynchronized => 0
    | _ => count) 0

/-- Every stay of the history has at most three probes. -/
def StaysBounded (history : List Note) : Prop :=
  ∀ before during after, history = before ++ during ++ after → .resynchronized ∉ during →
    (probeTimes during).length ≤ resyncAttempts

theorem StaysBounded.whole {history : List Note} (h : StaysBounded history)
    (hstay : .resynchronized ∉ history) : (probeTimes history).length ≤ resyncAttempts :=
  h [] history [] (by simp) hstay

@[simp] theorem stayProbes_snoc (history : List Note) (mark : Note) :
    stayProbes (history ++ [mark]) =
      match mark with
      | .probe _ => stayProbes history + 1
      | .resynchronized => 0
      | _ => stayProbes history := by
  simp only [stayProbes, List.foldl_append, List.foldl_cons, List.foldl_nil]

/-- Without a resynchronisation the probes add up. -/
theorem stayProbes_append (before during : List Note) (h : .resynchronized ∉ during) :
    stayProbes (before ++ during) = stayProbes before + (probeTimes during).length := by
  induction during using List.reverseRecOn with
  | nil => simp [probeTimes]
  | append_singleton during mark ih =>
      obtain ⟨hduring, hmark⟩ : .resynchronized ∉ during ∧ .resynchronized ≠ mark := by
        simpa using h
      rw [← List.append_assoc, stayProbes_snoc, probeTimes_append, List.length_append]
      cases mark with
      | probe now =>
          rw [ih hduring]
          rfl
      | resynchronized => exact absurd rfl hmark
      | _ => exact ih hduring

/-- **The count of the attempts is the number of the stay's probes.** -/
structure Counted (e : Engine) : Prop where
  attempts : e.phase ≠ .failed → e.attempts ≤ resyncAttempts
  inside : e.isQuarantined = true → stayProbes e.history = e.attempts
  outside : e.phase ≠ .failed → e.isQuarantined = false → stayProbes e.history = 0
  bounded : Each (fun before mark _ => stayProbes (before ++ [mark]) ≤ resyncAttempts) e.history

theorem Counted.of_same {e e' : Engine} (h : Counted e) (hin : e'.isQuarantined = e.isQuarantined)
    (halive : e'.phase ≠ .failed → e.phase ≠ .failed) (hattempts : e'.attempts = e.attempts)
    (hhistory : e'.history = e.history) : Counted e' := by
  refine ⟨?_, ?_, ?_, ?_⟩
  · rw [hattempts]
    exact fun hphase => h.attempts (halive hphase)
  · rw [hin, hattempts, hhistory]
    exact h.inside
  · rw [hin, hhistory]
    exact fun hphase => h.outside (halive hphase)
  · rw [hhistory]
    exact h.bounded

theorem Counted.stay_le {e : Engine} (h : Counted e) (halive : e.phase ≠ .failed) :
    stayProbes e.history ≤ resyncAttempts := by
  cases hin : e.isQuarantined with
  | true =>
      rw [h.inside hin]
      exact h.attempts halive
  | false =>
      rw [h.outside halive hin]
      exact Nat.zero_le _

/-- A note that is no probe and no resynchronisation leaves the count. -/
theorem Counted.of_noted {e e' : Engine} (h : Counted e) (mark : Note)
    (halive : e.phase ≠ .failed) (hin : e'.isQuarantined = e.isQuarantined)
    (hattempts : e'.attempts = e.attempts) (hhistory : e'.history = e.history ++ [mark])
    (hstay : stayProbes (e.history ++ [mark]) = stayProbes e.history) : Counted e' := by
  refine ⟨?_, ?_, ?_, ?_⟩
  · rw [hattempts]
    exact fun _ => h.attempts halive
  · rw [hin, hattempts, hhistory, hstay]
    exact h.inside
  · rw [hin, hhistory, hstay]
    exact fun _ => h.outside halive
  · rw [hhistory]
    exact h.bounded.snoc (fun _ _ hold => hold) (hstay ▸ h.stay_le halive)

/-- Quarantine is entered with no probe in the stay. -/
theorem counted_enter {e : Engine} (now : Nat) (error : Error)
    (hstay : stayProbes e.history = 0)
    (hbounded : Each (fun before mark _ => stayProbes (before ++ [mark]) ≤ resyncAttempts)
      e.history) : Counted (e.enter now error) := by
  refine ⟨?_, ?_, ?_, ?_⟩
  · exact fun _ => Nat.zero_le _
  · simp [hstay]
  · simp [isQuarantined]
  · rw [enter_history]
    refine hbounded.snoc (fun _ _ hold => hold) ?_
    simp [hstay]

theorem Aborted.counted {e e' : Engine} {error : Error} {all : List Pending}
    (h : Aborted e e' error all) (hc : Counted e) : Counted e' := by
  refine ⟨?_, ?_, ?_, ?_⟩
  · exact fun halive => absurd h.phase halive
  · simp [isQuarantined, h.phase]
  · exact fun halive => absurd h.phase halive
  · rw [h.history]
    exact hc.bounded

/-- **Every move keeps the count of the attempts.** -/
theorem Move.counted {e e' : Engine} (hmove : Move true e e') (hb : Balanced e)
    (h : Counted e) : Counted e' := by
  cases hmove with
  | clocked now _ _ => exact h.of_same rfl id rfl rfl
  | entered now error halive _ hout =>
      have hout : e.isQuarantined = false := by
        rcases hout with hout | hsome
        · simpa using hout
        · refine Bool.eq_false_iff.mpr fun hin => ?_
          simp [not_active_of_quarantined hb hin] at hsome
      exact counted_enter now error (h.outside halive hout) h.bounded
  | oversized now halive _ hstrict =>
      -- the stay has no probe yet, so the count may begin again
      have hzero : stayProbes e.history = 0 := by
        cases hin : e.isQuarantined with
        | true =>
            rw [h.inside hin]
            exact hstrict rfl hin
        | false => exact h.outside halive hin
      refine counted_enter now .lineTooLarge ?_ ?_
      · simpa [note] using hzero
      · refine h.bounded.snoc (fun _ _ hold => hold) ?_
        simp [hzero]
  | expired now => exact h.of_same rfl id rfl rfl
  | aborted error _ haborted => exact haborted.counted h
  | exhausted pending queue _ _ haborted => exact haborted.counted h
  | tokensTaken count => exact h.of_same rfl id rfl rfl
  | part bytes _ _ => exact h.of_same rfl id rfl rfl
  | whole hphase => exact h.of_same (by simp [isQuarantined, hphase]) (by simp [hphase]) rfl rfl
  | probeWhole hphase =>
      exact h.of_noted .probeWritten (by simp [hphase])
        (by simp [isQuarantined, note, hphase]) rfl rfl (by simp)
  | heard now byte halive _ =>
      exact h.of_noted (.fed now) halive rfl rfl rfl (by simp)
  | framed framer => exact h.of_same rfl id rfl rfl
  | urc line _ => exact h.of_same rfl id rfl rfl
  | passed line hin _ _ =>
      exact h.of_noted (.line e.phase line false) (alive_of_quarantined hin) rfl rfl rfl
        (by simp)
  | answered line hphase _ _ =>
      exact h.of_noted (.line e.phase line false) (by simp [hphase]) rfl rfl rfl (by simp)
  | silenced now line hin _ _ _ =>
      refine h.of_noted (.line e.phase line true) (alive_of_quarantined hin) ?_ rfl rfl
        (by simp)
      simpa [isQuarantined, note] using hin.symm
  | resynchronized hphase _ =>
      have halive : e.phase ≠ .failed := by simp [hphase]
      have hstay := h.stay_le halive
      refine ⟨fun _ => h.attempts halive, ?_, ?_, ?_⟩
      · simp [isQuarantined, note, emit]
      · intro _ _
        simp only [note, emit, stayProbes_snoc]
      · refine Each.snoc (h.bounded.snoc (fun _ _ hold => hold) ?_) (fun _ _ hold => hold) ?_
        · simpa using hstay
        · simp only [stayProbes_snoc]
          exact Nat.zero_le _
  | completed pending line hphase _ =>
      exact h.of_same (by simp [isQuarantined, emit, hphase]) (by simp [hphase]) rfl rfl
  | intermediate pending line _ _ => exact h.of_same rfl id rfl rfl

theorem Offer.counted {now : Nat} {e e' : Engine} (hoffer : Offer now e e') (h : Counted e) :
    Counted e' := by
  cases hoffer with
  | probing hphase _ _ hattempts =>
      have halive : e.phase ≠ .failed := by simp [hphase]
      have hin : e.isQuarantined = true := by simp [isQuarantined, hphase]
      have hless : e.attempts + 1 ≤ resyncAttempts :=
        Nat.lt_of_le_of_ne (h.attempts halive) hattempts
      have hstay : stayProbes (e.history ++ [Note.probe now]) = e.attempts + 1 := by
        rw [stayProbes_snoc, h.inside hin]
      refine ⟨fun _ => hless, fun _ => hstay, ?_, ?_⟩
      · simp [isQuarantined, Engine.probing]
      · exact h.bounded.snoc (fun _ _ hold => hold) (hstay ▸ hless)
  | starting pending queue hphase _ _ =>
      exact h.of_noted (.started pending.id) (by simp [hphase])
        (by simp [isQuarantined, Engine.starting, hphase]) rfl rfl (by simp)

theorem RunWith.counted {issued : List Nat} {e : Engine} (h : RunWith Tame issued e) :
    Balanced e ∧ Counted e := by
  refine h.invariant (I := fun e => Balanced e ∧ Counted e) true (fun _ _ _ hok => hok) ?_ ?_ ?_ ?_
  · intro now prefixes nextWrite e hnew
    have hnewRun : RunWith Tame [] e := .new hnew
    refine ⟨hnewRun.balanced, ?_⟩
    unfold Engine.new at hnew
    split at hnew
    · cases hnew
    cases hnew
    exact ⟨fun _ => Nat.zero_le _, by simp [isQuarantined], fun _ _ => rfl, each_nil⟩
  · exact fun _ _ hmove h => ⟨hmove.balanced h.1, hmove.counted h.1 h.2⟩
  · exact fun _ _ _ hoffer h => ⟨hoffer.balanced h.1, hoffer.counted h.2⟩
  · exact fun e command halive h =>
      ⟨balanced_enqueued h.1 command halive, h.2.of_same rfl id rfl rfl⟩

/-- The bound on every stay, from the bound at every note. -/
theorem Counted.stays {e : Engine} (h : Counted e) : StaysBounded e.history := by
  intro before during after heq hstay
  rcases List.eq_nil_or_concat during with rfl | ⟨during, last, rfl⟩
  · exact Nat.zero_le _
  rw [List.concat_eq_append] at heq hstay ⊢
  have hbound : stayProbes (before ++ during ++ [last]) ≤ resyncAttempts :=
    h.bounded (before ++ during) last after (by rw [heq]; simp)
  rw [List.append_assoc, stayProbes_append _ _ hstay] at hbound
  exact Nat.le_trans (Nat.le_add_left _ _) hbound

/-! ### The last attempt -/

/-- In the silence `settle` only reads the clock and drops what waited too long. -/
theorem settle_silence {e : Engine} {now : Nat} (hb : Balanced e)
    (hphase : e.phase = .quarantine .silence) (hclock : e.lastNow ≤ now) :
    settle now e = .ok () (({ e with lastNow := now } : Engine).expireQueue now) := by
  have hnone : e.active = none := hb.inactive (by simp [hphase]) (by simp [hphase])
  have hclocked : clock now e = .ok () { e with lastNow := now } := by
    unfold clock
    rw [run_get_bind, if_neg (by simp [hphase]), if_neg (by omega)]
    rfl
  unfold settle
  rw [run_bind_ok hclocked]
  have htimed : ({ e with lastNow := now } : Engine).timed now = { e with lastNow := now } := by
    simp [timed, overdue, hnone]
  cases hexpire : expire now { e with lastNow := now } with
  | ok _ e' =>
      have heq := (expire_spec now { e with lastNow := now }).of_ok hexpire
      rw [htimed] at heq
      rw [heq]
  | error error e' =>
      obtain ⟨-, -, hother⟩ := (expire_spec now { e with lastNow := now }).of_error hexpire
      rw [htimed] at hother
      exact absurd hphase hother

/-- The attempt after the last one fails. -/
theorem tick_exhausted {e : Engine} {now : Nat} (hb : Balanced e)
    (hphase : e.phase = .quarantine .silence) (hclock : e.lastNow ≤ now)
    (hquiet : silenceMs ≤ now - e.quietSince) (hattempts : e.attempts = resyncAttempts) :
    ∃ e', tick now e = .error .resyncFailed e' ∧ e'.phase = .failed := by
  obtain ⟨e₁, heq, hsettle⟩ : ∃ e₁, e₁ = ({ e with lastNow := now } : Engine).expireQueue now ∧
      settle now e = .ok () e₁ := ⟨_, rfl, settle_silence hb hphase hclock⟩
  have hdue : e₁.phase = .quarantine .silence ∧ silenceMs ≤ now - e₁.quietSince := by
    rw [heq]
    exact ⟨hphase, hquiet⟩
  have hlast : e₁.attempts = resyncAttempts := by
    rw [heq]
    exact hattempts
  unfold settle at hsettle
  unfold tick
  rw [← bind_assoc, run_bind_ok hsettle, run_get_bind, if_pos hdue, if_pos hlast]
  exact ⟨_, rfl, rfl⟩

/-- **Resynchronisation is bounded**: at most three probes in every stay, and the attempt
after them fails. -/
theorem resync_bounded {issued : List Nat} {e : Engine} (h : RunWith Tame issued e) :
    StaysBounded e.history ∧
    ∀ now, e.phase = .quarantine .silence → e.lastNow ≤ now → silenceMs ≤ now - e.quietSince →
      stayProbes e.history = resyncAttempts →
        ∃ e', tick now e = .error .resyncFailed e' ∧ e'.phase = .failed := by
  obtain ⟨hbalanced, hcounted⟩ := h.counted
  refine ⟨hcounted.stays, ?_⟩
  intro now hphase hclock hquiet hstay
  have hin : e.isQuarantined = true := by simp [isQuarantined, hphase]
  exact tick_exhausted hbalanced hphase hclock hquiet (hcounted.inside hin ▸ hstay)

/-- A command that is not answered, and a modem that answers each probe with `ERROR`. -/
def retryScript : List Call :=
  let refusal := ascii ['E', 'R', 'R', 'O', 'R'] ++ [0x0d]
  [.enqueue (sampleCommand 10), .tick 0, .acceptWritten 0 1 9, .tick 10,
    .tick 310, .acceptWritten 310 2 9, .feed 310 refusal,
    .tick 610, .acceptWritten 610 3 9, .feed 610 refusal,
    .tick 910, .acceptWritten 910 4 9, .feed 910 refusal]

theorem resync_bounded_scripted :
    ∃ issued e, RunWith Tame issued e ∧ probeTimes e.history = [310, 610, 910] ∧
      ∃ e', tick 1210 e = .error .resyncFailed e' ∧ e'.phase = .failed := by
  obtain ⟨issued, e, hrun, htimes, hphase, hclock, hquiet, hstay⟩ :=
    RunWith.of_script Tame retryScript
      (fun _ e => probeTimes e.history = [310, 610, 910] ∧ e.phase = .quarantine .silence ∧
        e.lastNow ≤ 1210 ∧ silenceMs ≤ 1210 - e.quietSince ∧
        stayProbes e.history = resyncAttempts)
      (by decide +kernel)
  exact ⟨issued, e, hrun, htimes, (resync_bounded hrun).2 1210 hphase hclock hquiet hstay⟩

/-! ### A line that is too long -/

/-- The engine after `count` letters that are part of no line yet. -/
def Engine.filled (e : Engine) (now count : Nat) : Engine :=
  { e with
    framer := ⟨List.replicate count 0x41, false⟩
    history := e.history ++ List.replicate count (.fed now) }

theorem hear_filled {e : Engine} {now : Nat} (count : Nat) (hin : e.isQuarantined = true)
    (hnone : e.active = none) (hquiet : e.quietSince = now) :
    (e.filled now count).hear now 0x41 =
      { e.filled now count with
        history := e.history ++ List.replicate (count + 1) (.fed now) } := by
  have hin' : (e.filled now count).isQuarantined = true := hin
  unfold hear note
  rw [if_pos hin']
  simp [filled, hnone, hquiet, List.replicate_succ']

theorem filled_calm {e : Engine} {now : Nat} (count : Nat) (hin : e.isQuarantined = true)
    (hnone : e.active = none) (hquiet : e.quietSince = now) :
    ((e.filled now count).hear now 0x41).flooded = false := by
  rw [hear_filled count hin hnone hquiet]
  simp [flooded, filled, hnone]

theorem absorb_filled {e : Engine} {now count : Nat} (hin : e.isQuarantined = true)
    (hnone : e.active = none) (hquiet : e.quietSince = now) (hroom : count < lineBytes) :
    absorb now (e.filled now count) 0x41 = e.filled now (count + 1) := by
  have hpush : (e.filled now count).framer.push 0x41 =
      (⟨List.replicate (count + 1) 0x41, false⟩, none) := by
    unfold Framer.push filled
    simp [isPrintable, List.replicate_succ', Nat.ne_of_lt hroom]
  rw [absorb_eq, filled_calm count hin hnone hquiet, hear_filled count hin hnone hquiet]
  simp only [Bool.false_eq_true, if_false]
  unfold pushed
  rw [show ({ e.filled now count with
    history := e.history ++ List.replicate (count + 1) (.fed now) } : Engine).framer =
      (e.filled now count).framer from rfl, hpush]
  rfl

theorem absorb_filled_all {e : Engine} {now : Nat} (hin : e.isQuarantined = true)
    (hnone : e.active = none) (hquiet : e.quietSince = now) (hframer : e.framer = .new)
    (count : Nat) (hroom : count ≤ lineBytes) :
    (List.replicate count 0x41).foldl (absorb now) e = e.filled now count := by
  induction count with
  | zero =>
      show e = e.filled now 0
      unfold filled
      simp only [List.replicate_zero, List.append_nil]
      rw [← show e.framer = ⟨[], false⟩ from hframer]
  | succ count ih =>
      rw [List.replicate_succ', List.foldl_append, ih (Nat.le_of_succ_le hroom)]
      exact absorb_filled hin hnone hquiet hroom

/-- The letter that is one too many leads into quarantine again. -/
theorem absorb_overlong {e : Engine} {now : Nat} (hin : e.isQuarantined = true)
    (hnone : e.active = none) (hquiet : e.quietSince = now) :
    ∃ e₁ : Engine, absorb now (e.filled now lineBytes) 0x41 = e₁.enter now .lineTooLarge ∧
      e₁.history = e.history ++ List.replicate (lineBytes + 1) (.fed now) ++ [Note.oversized] ∧
      e₁.nextWrite = e.nextWrite ∧ e₁.lastNow = e.lastNow := by
  have hpush : (e.filled now lineBytes).framer.push 0x41 = (⟨[], true⟩, some .tooLarge) := by
    unfold Framer.push filled
    simp [isPrintable]
  rw [absorb_eq, filled_calm lineBytes hin hnone hquiet, hear_filled lineBytes hin hnone hquiet]
  simp only [Bool.false_eq_true, if_false]
  unfold pushed
  rw [show ({ e.filled now lineBytes with
    history := e.history ++ List.replicate (lineBytes + 1) (.fed now) } : Engine).framer =
      (e.filled now lineBytes).framer from rfl, hpush]
  exact ⟨_, rfl, rfl, rfl, rfl⟩

theorem after_feed {e e₁ : Engine} {now : Nat} (input : List UInt8)
    (h : settle now e = .ok () e₁) : e.after (.feed now input) = input.foldl (absorb now) e₁ := by
  show endState (feed now input e) = _
  rw [feed_eq, run_bind_ok h]
  rfl

theorem after_feed_overlong {e : Engine} {now : Nat} (hb : Balanced e)
    (hphase : e.phase = .quarantine .silence) (hclock : e.lastNow ≤ now)
    (hquiet : e.quietSince = now) (hframer : e.framer = .new) :
    ∃ e₁ : Engine, e.after (.feed now (List.replicate (lineBytes + 1) 0x41)) =
        e₁.enter now .lineTooLarge ∧
      e₁.history = e.history ++ List.replicate (lineBytes + 1) (.fed now) ++ [Note.oversized] ∧
      e₁.nextWrite = e.nextWrite ∧ e₁.lastNow = now := by
  have hsettle := settle_silence hb hphase hclock
  have hin : (({ e with lastNow := now } : Engine).expireQueue now).isQuarantined = true := by
    simp [isQuarantined, expireQueue, hphase]
  have hnone : (({ e with lastNow := now } : Engine).expireQueue now).active = none :=
    hb.inactive (by simp [hphase]) (by simp [hphase])
  obtain ⟨e₁, hover, hhistory, hnext, hlast⟩ := absorb_overlong hin hnone hquiet
  refine ⟨e₁, ?_, hhistory, hnext, hlast⟩
  rw [after_feed _ hsettle, List.replicate_succ', List.foldl_append,
    absorb_filled_all hin hnone hquiet hframer lineBytes (Nat.le_refl _)]
  exact hover

/-- In the silence, a probe that is due is offered. -/
theorem after_tick_due {e : Engine} {now : Nat} (hb : Balanced e)
    (hphase : e.phase = .quarantine .silence) (hclock : e.lastNow ≤ now)
    (hquiet : silenceMs ≤ now - e.quietSince) (hattempts : e.attempts ≠ resyncAttempts)
    (hdeadline : now + resyncTimeoutMs ≤ u64Max) (htoken : e.nextWrite + 1 ≤ u64Max) :
    (e.after (.tick now)).history = e.history ++ [Note.probe now] := by
  obtain ⟨e₁, heq, hsettle⟩ : ∃ e₁, e₁ = ({ e with lastNow := now } : Engine).expireQueue now ∧
      settle now e = .ok () e₁ := ⟨_, rfl, settle_silence hb hphase hclock⟩
  have hdue : e₁.phase = .quarantine .silence ∧ silenceMs ≤ now - e₁.quietSince := by
    rw [heq]
    exact ⟨hphase, hquiet⟩
  have hnotLast : e₁.attempts ≠ resyncAttempts := by
    rw [heq]
    exact hattempts
  have hadd : checkedAdd now resyncTimeoutMs = some (now + resyncTimeoutMs) := if_pos hdeadline
  have htake : checkedAdd e₁.nextWrite 1 = some (e₁.nextWrite + 1) := by
    rw [heq]
    exact if_pos htoken
  have hhistory : e₁.history = e.history := by
    rw [heq]
    rfl
  have hend : endState (tick now e) = e₁.probing now := by
    unfold settle at hsettle
    unfold tick
    rw [← bind_assoc, run_bind_ok hsettle, run_get_bind, if_pos hdue, if_neg hnotLast, hadd]
    dsimp only
    rw [run_set_bind]
    unfold write
    rw [bind_assoc, run_get_bind]
    dsimp only
    rw [htake]
    rfl
  show (endState (tick now e)).history = _
  rw [hend]
  show e₁.history ++ [Note.probe now] = _
  rw [hhistory]

/-- **A line that is too long lets the engine probe again.** After three probes the modem
sends 4097 letters without an end of line, and a fourth probe is offered in the same stay. -/
theorem resync_unbounded : ¬ ∀ issued e, Run issued e → StaysBounded e.history := by
  intro hall
  obtain ⟨issued, e, hrun, htimes, hphase, hquiet, hclock, hframer, hnext, hstay⟩ :=
    RunWith.of_script (fun _ _ => True) retryScript
      (fun _ e => probeTimes e.history = [310, 610, 910] ∧ e.phase = .quarantine .silence ∧
        e.quietSince = 910 ∧ e.lastNow = 910 ∧ e.framer = .new ∧ e.nextWrite = 4 ∧
        .resynchronized ∉ e.history)
      (by decide +kernel)
  -- the letters, one too many of them
  obtain ⟨e₁, hover, hhistory, hnext₁, hclock₁⟩ :=
    after_feed_overlong hrun.balanced hphase (Nat.le_of_eq hclock) hquiet hframer
  have hfeed := hrun.call (.feed 910 (List.replicate (lineBytes + 1) 0x41)) trivial
  rw [hover] at hfeed
  -- a silence later the fourth probe
  have hprobe : (Engine.after _ (.tick 1210)).history = _ := after_tick_due hfeed.balanced rfl
    (by rw [enter_lastNow, hclock₁]; decide) (by rw [enter_quietSince]; decide)
    (by rw [enter_attempts]; decide) (by decide)
    (by rw [enter_nextWrite, hnext₁, hnext]; decide)
  have hbounded := hall _ _ (hfeed.call (.tick 1210) trivial)
  rw [hprobe, enter_history, hhistory] at hbounded
  have hcount := hbounded.whole (by simpa using hstay)
  simp only [probeTimes_append, htimes] at hcount
  simp [probeTimes, resyncAttempts, List.filterMap_replicate_of_none] at hcount

end Mindone.Radio.At
