import Mathlib.Algebra.Ring.Nat
import Mindone.Mux.RuntimeBuffers

/-!
# Mindone.Mux.RuntimeBudget

**What a turn costs.** The devices of a runtime are put behind a log of the calls made on
them (`Env.logged`); the log of a turn and its budget are then in step, whichever way a
call is charged and whatever a device answers.
-/

namespace Mindone.Mux.Runtime

open Mindone.Lib Transport

variable {E ω : Type}

/-- A call on a device: the size of the buffer it was offered, and its answer. -/
structure IoCall where
  offered : Nat
  result : IoResult
  deriving DecidableEq

/-- The same world outside, with a log of the calls on devices. -/
def Env.logged (env : Env E ω) : Env E (ω × List IoCall) where
  prepare endpoint w := ((env.prepare endpoint w.1).1, (env.prepare endpoint w.1).2, w.2)
  descriptor := env.descriptor
  read endpoint offered w :=
    let r := env.read endpoint offered w.1
    (r.1, r.2, w.2 ++ [⟨offered, r.1.1⟩])
  write endpoint input w :=
    let r := env.write endpoint input w.1
    (r.1, r.2, w.2 ++ [⟨input.length, r.1⟩])
  openEndpoint c w := ((env.openEndpoint c w.1).1, (env.openEndpoint c w.1).2, w.2)
  apply event w := ((env.apply event w.1).1, (env.apply event w.1).2, w.2)
  epochsTaken w := ((env.epochsTaken w.1).1, (env.epochsTaken w.1).2, w.2)

/-- The bytes that the calls moved. -/
def movedBytes (calls : List IoCall) : Nat :=
  (calls.map fun call => moved call.offered call.result).sum

theorem movedBytes_concat (calls : List IoCall) (call : IoCall) :
    movedBytes (calls ++ [call]) = movedBytes calls + moved call.offered call.result := by
  rw [movedBytes, movedBytes, List.map_append, List.sum_append]
  simp

/-- No call was offered more than the bytes that were left for it. -/
def Frugal (byteLimit : Nat) (calls : List IoCall) : Prop :=
  ∀ before call after, calls = before ++ call :: after →
    call.offered ≤ byteLimit - movedBytes before

theorem Frugal.concat {byteLimit : Nat} {calls : List IoCall} {call : IoCall}
    (h : Frugal byteLimit calls) (hcall : call.offered ≤ byteLimit - movedBytes calls) :
    Frugal byteLimit (calls ++ [call]) := by
  intro before other after heq
  rcases List.eq_nil_or_concat after with rfl | ⟨front, last, rfl⟩
  · obtain ⟨rfl, hlast⟩ := List.append_inj' heq rfl
    cases hlast
    exact hcall
  · have hfront : calls ++ [call] = (before ++ other :: front) ++ [last] := by
      rw [heq]
      simp
    exact h before other front (List.append_inj' hfront rfl).1

/-- **The log of a turn and its budget**, with `log` the calls before the turn. -/
structure InStep (limits : Limits) (log : List IoCall) (w : ω × List IoCall)
    (budget : TurnBudget) : Prop where
  callLimit : budget.callLimit = limits.calls
  byteLimit : budget.byteLimit = limits.bytes
  logged : ∃ calls, w.2 = log ++ calls ∧ calls.length = budget.calls ∧
    movedBytes calls ≤ budget.bytes ∧ Frugal limits.bytes calls

/-- A charged call is logged. -/
theorem InStep.call {limits : Limits} {log : List IoCall} {w : ω × List IoCall}
    {budget budget' : TurnBudget} (h : InStep limits log w budget) {offered : Nat}
    {result : IoResult} (hcharged : Charged budget offered result budget') (w' : ω) :
    InStep limits log (w', w.2 ++ [⟨offered, result⟩]) budget' := by
  obtain ⟨calls, hlog, hlength, hmoved, hfrugal⟩ := h.logged
  have hbytes := hcharged.bytes
  refine ⟨hcharged.callLimit.trans h.callLimit, hcharged.byteLimit.trans h.byteLimit,
    calls ++ [⟨offered, result⟩], ?_, ?_, ?_, ?_⟩
  · rw [hlog, List.append_assoc]
  · rw [List.length_append, hlength, hcharged.calls]
    rfl
  · rw [movedBytes_concat]
    show movedBytes calls + moved offered result ≤ budget'.bytes
    omega
  · refine hfrugal.concat ?_
    have hwithin := hcharged.within
    rw [TurnBudget.availableBytes, h.byteLimit] at hwithin
    show offered ≤ limits.bytes - movedBytes calls
    omega

theorem metered_inStep (env : Env E ω) (limits : Limits) (log : List IoCall) :
    Metered env.logged (InStep (ω := ω) limits log) where
  prepare h := ⟨h.callLimit, h.byteLimit, h.logged⟩
  openEndpoint h := ⟨h.callLimit, h.byteLimit, h.logged⟩
  apply h := ⟨h.callLimit, h.byteLimit, h.logged⟩
  epochsTaken h := ⟨h.callLimit, h.byteLimit, h.logged⟩
  read h hcharged := h.call hcharged _
  write h hcharged := h.call hcharged _

/-- A new budget is in step with a log to which nothing was added. -/
theorem inStep_new {limits : Limits} {budget : TurnBudget}
    (h : TurnBudget.new limits.calls limits.bytes = .ok budget) (w : ω × List IoCall) :
    InStep limits w.2 w budget := by
  unfold TurnBudget.new at h
  split at h
  · cases h
  · cases h
    refine ⟨rfl, rfl, [], (List.append_nil _).symm, rfl, Nat.le_refl _, ?_⟩
    intro before call after heq
    cases before with
    | nil => cases heq
    | cons first rest => cases heq

/-- A receiver has only been charged for. -/
theorem readLoop_budget (reader : ByteReader ω) (sink : FrameSink ω) (d : Decoder rxBytes)
    (scratch : List UInt8) (w : ω) (budget : TurnBudget) (frames : Nat) :
    budget.calls ≤ (readLoop reader sink d scratch w budget frames).budget.calls ∧
      budget.bytes ≤ (readLoop reader sink d scratch w budget frames).budget.bytes := by
  have hcall : ∀ {before after : TurnBudget}, before.takeCall = some after →
      before.calls ≤ after.calls ∧ before.bytes ≤ after.bytes := by
    intro before after htake
    obtain ⟨-, -, hcalls, hbytes, -⟩ := TurnBudget.takeCall_spec htake
    exact ⟨by omega, by omega⟩
  fun_induction readLoop reader sink d scratch w budget frames with
  | case1 => exact ⟨Nat.le_refl _, Nat.le_refl _⟩
  | case7 d scratch w budget frames budget' htake offered hsome data w' scratch' bytes hzero hle
      spent pushed hpush d' w'' frames' hframes hread ih =>
      obtain ⟨hcalls, hbytes⟩ := hcall htake
      have hspent : spent.calls = budget'.calls ∧ spent.bytes = budget'.bytes + bytes := ⟨rfl, rfl⟩
      exact ⟨by omega, by omega⟩
  | case9 d scratch w budget frames budget' htake offered hsome data w' scratch' hread ih =>
      obtain ⟨hcalls, hbytes⟩ := hcall htake
      exact ⟨by omega, by omega⟩
  | case5 d scratch w budget frames budget' htake offered hsome data w' scratch' bytes hzero hle
      spent e hpush hread =>
      obtain ⟨hcalls, hbytes⟩ := hcall htake
      exact ⟨hcalls, Nat.le_trans hbytes (Nat.le_add_right _ _)⟩
  | case6 d scratch w budget frames budget' htake offered hsome data w' scratch' bytes hzero hle
      spent pushed hpush d' w'' frames' hframes hread =>
      obtain ⟨hcalls, hbytes⟩ := hcall htake
      exact ⟨hcalls, Nat.le_trans hbytes (Nat.le_add_right _ _)⟩
  | case2 | case3 | case4 | case8 | case10 | case11 | case12 | case13 =>
      exact hcall (by assumption)

/-- What one `drive` did to the log. -/
theorem drive_inStep (env : Env E ω) {r : Runtime E (ω × List IoCall)}
    (hr : Reachable env.logged r) (now : Nat) (events : List Ready) {limits : Limits}
    {budget : TurnBudget} (hlimits : TurnBudget.new limits.calls limits.bytes = .ok budget)
    (hlive : ¬ (r.state = .closed ∨ r.state = .failed)) :
    ∃ after : TurnBudget, (drive env.logged r now events limits).1.calls = after.calls ∧
      (drive env.logged r now events limits).1.bytes = after.bytes ∧
      InStep limits r.context.world.2 (drive env.logged r now events limits).2.context.world
        after := by
  have hdrive : drive env.logged r now events limits =
      conclude (runTurn env.logged now events limits.calls (driven r budget, 0)) := by
    unfold drive
    rw [if_neg hlive]
    simp only [hlimits]
    rfl
  have hturn := (metered_inStep env limits r.context.world.2).runTurn now events limits.calls
    (hr.provisioned.stocked budget (inStep_new hlimits r.context.world)) 0
  rw [hdrive]
  cases hresult : runTurn env.logged now events limits.calls (driven r budget, 0) with
  | ok a s => exact ⟨s.1.budget, rfl, rfl, ((ends_of_ok hresult).mp hturn).metered⟩
  | error e s =>
      refine ⟨s.1.budget, rfl, rfl, ?_⟩
      have hworld : (conclude (.error e s)).2.context.world = s.1.runtime.context.world :=
        closeAll_world { s.1.runtime with error := some e, state := .failed }
      rw [hworld]
      exact ((ends_of_error hresult).mp hturn).1.metered

/-- **The turn budget.** With limits that are accepted, one `drive` of a reachable runtime
makes exactly the calls it reports, within both limits, and offers no call more bytes than
are left; a runtime that is over makes no call. No subtraction of the budget goes below
zero. -/
theorem turn_budget (env : Env E ω) {r : Runtime E (ω × List IoCall)}
    (hr : Reachable env.logged r) (now : Nat) (events : List Ready) (limits : Limits) :
    (∀ budget, TurnBudget.new limits.calls limits.bytes = .ok budget →
      ∃ calls, (drive env.logged r now events limits).2.context.world.2 =
          r.context.world.2 ++ calls ∧
        calls.length = (drive env.logged r now events limits).1.calls ∧
        (drive env.logged r now events limits).1.calls ≤ limits.calls ∧
        movedBytes calls ≤ (drive env.logged r now events limits).1.bytes ∧
        (drive env.logged r now events limits).1.bytes ≤ limits.bytes ∧
        Frugal limits.bytes calls) ∧
    (r.state = .closed ∨ r.state = .failed →
      (drive env.logged r now events limits).2 = r ∧
        (drive env.logged r now events limits).1.calls = 0) ∧
    (∀ budget : TurnBudget, budget.bytes ≤ budget.byteLimit) ∧
    (∀ (budget reserved : TurnBudget) (maxBytes accepted : Nat),
      budget.permit = some (maxBytes, reserved) → accepted ≤ maxBytes →
      maxBytes - accepted ≤ reserved.bytes) ∧
    (∀ {capacity : Nat} {ω' : Type} (writer : ByteWriter ω') (queue : ByteQueue capacity) (w : ω')
      (budget : TurnBudget), budget.calls ≤ (drainLoop writer queue w budget).budget.calls ∧
        budget.bytes ≤ (drainLoop writer queue w budget).budget.bytes) ∧
    ∀ {ω' : Type} (reader : ByteReader ω') (sink : FrameSink ω') (d : Decoder rxBytes)
      (scratch : List UInt8) (w : ω') (budget : TurnBudget) (frames : Nat),
      budget.calls ≤ (readLoop reader sink d scratch w budget frames).budget.calls ∧
        budget.bytes ≤ (readLoop reader sink d scratch w budget frames).budget.bytes := by
  -- A runtime that is over gives its report at once.
  have hover : r.state = .closed ∨ r.state = .failed →
      drive env.logged r now events limits = (⟨r.state, r.error, 0, 0, 0, 0, 0⟩, r) :=
    fun hstate => if_pos hstate
  refine ⟨?_, ?_, fun budget => budget.bytes_le, ?_, drainLoop_budget, readLoop_budget⟩
  · intro budget hlimits
    by_cases hstate : r.state = .closed ∨ r.state = .failed
    · obtain ⟨calls, hlog, hlength, hmoved, hfrugal⟩ := (inStep_new hlimits r.context.world).logged
      rw [hover hstate]
      have hnone : calls = [] := by simpa using hlog
      subst hnone
      exact ⟨[], hlog, rfl, Nat.zero_le _, Nat.le_refl _, Nat.zero_le _, hfrugal⟩
    -- Otherwise the turn is a step of the log, counted by the budget it has used.
    · obtain ⟨after, hcalls, hbytes, hstep⟩ := drive_inStep env hr now events hlimits hstate
      obtain ⟨calls, hlog, hlength, hmoved, hfrugal⟩ := hstep.logged
      refine ⟨calls, hlog, hlength.trans hcalls.symm, ?_, ?_, ?_, hfrugal⟩
      · rw [hcalls, ← hstep.callLimit]
        exact after.calls_le
      · rw [hbytes]
        exact hmoved
      · rw [hbytes, ← hstep.byteLimit]
        exact after.bytes_le
  · intro hstate
    rw [hover hstate]
    exact ⟨rfl, rfl⟩
  · intro budget reserved maxBytes accepted hpermit haccepted
    exact (TurnBudget.complete_spec hpermit haccepted).1

/-- A runtime with a log, before its first turn. -/
def loggedStart : Option (Runtime Nat (Script × List IoCall)) :=
  (Runtime.new scripted.logged 0 [⟨1, false⟩] scriptedConfig 0 (⟨scriptedAnswers [], []⟩, [])
    0 0).1.toOption

theorem turn_budget_first_command :
    ∃ r, loggedStart = some r ∧
      (drive scripted.logged r 20000 [] scriptedLimits).1.calls = 1 ∧
      ∃ calls : List IoCall, calls.length = 1 ∧
        (drive scripted.logged r 20000 [] scriptedLimits).2.context.world.2 =
          r.context.world.2 ++ calls ∧
        movedBytes calls ≤ scriptedLimits.bytes := by
  have hruns : loggedStart.any (fun r =>
      decide ((drive scripted.logged r 20000 [] scriptedLimits).1.calls = 1)) = true := by
    decide +kernel
  obtain ⟨r, hstart, hr⟩ := (Option.any_eq_true _ _).mp hruns
  have hcalls := of_decide_eq_true hr
  have hreachable : Reachable scripted.logged r := by
    unfold loggedStart at hstart
    cases hnew : (Runtime.new scripted.logged 0 [⟨1, false⟩] scriptedConfig 0
        (⟨scriptedAnswers [], []⟩, []) 0 0).1 with
    | error e =>
        rw [hnew] at hstart
        cases hstart
    | ok r' =>
        rw [hnew] at hstart
        cases hstart
        exact .new hnew
  obtain ⟨calls, hlog, hlength, -, hmoved, hbytes, -⟩ :=
    (turn_budget scripted hreachable 20000 [] scriptedLimits).1
      ⟨64, 65536, 0, 0, Nat.zero_le _, Nat.zero_le _⟩ rfl
  exact ⟨r, hstart, hcalls, calls, hlength.trans hcalls, hlog, Nat.le_trans hmoved hbytes⟩

end Mindone.Mux.Runtime
