import Mathlib.Data.List.Chain
import Mathlib.Algebra.Ring.Nat
import Mindone.Fingerprint.LockoutRecord

/-!
# Mindone.Fingerprint.LockoutTracker

The lockout tracker (`bridges/fingerprint/LockoutTracker.h`). It counts failed attempts and blocks
after each fifth for 30 s, after the twentieth for good. What a call reads and what it cannot know
are its arguments: the clocks, how a save ends, whether the session is still there. The tracker's
lock makes every call a step; a history also has restarts, which load what was saved.

The part that the policy is about is `Lock`. **Each call changes it by few moves**
(`Call.run_moves`), and everything that is said about runs is proved of the moves: here that the
counters fit together, so that the store accepts what it is given (`run_accepted`).
-/

namespace Mindone.Fingerprint

/-! ### Clocks and saves -/

/-- A reading of both clocks in milliseconds. `realtimeMs() + 30000` is an `int64_t`. -/
structure Moment where
  steady : Nat
  real : Nat
  defined : real + 30000 < 2 ^ 63
  deriving DecidableEq

/-- How a `save` ends; when it fails, the clocks are read next. -/
inductive Saving
  | ok
  | failed (seen : Moment)
  deriving DecidableEq

/-- What the policy sees of a history. -/
inductive Event
  /-- `store_.save`; a failed one with the moment at which `failClosed` reads the clocks. -/
  | saved (state : State) (saving : Saving)
  /-- `++failed_` -/
  | counted (now : Moment)
  /-- The timed lockout has ended. -/
  | expired
  /-- A `reset` has succeeded. -/
  | reset
  deriving DecidableEq

/-- The calls of the session's callbacks. -/
inductive Notice
  | lockoutPermanent (cb : Nat)
  | lockoutTimed (cb remaining : Nat)
  | lockoutCleared (cb : Nat)
  | unableToProcess (cb : Nat)
  deriving DecidableEq

/-! ### The lock -/

/-- The tracker without its session. The log, newest first, is not the source's. -/
structure Lock where
  failed : Nat
  failedTimed : Nat
  timed : Bool
  deadlineMs : Nat
  deadline : Nat
  log : List Event

namespace Lock

def note (l : Lock) (event : Event) : Lock := { l with log := event :: l.log }

/-- `{uint32_t(failed_), uint32_t(failedTimed_), deadlineMs_}` -/
def state (l : Lock) : State :=
  ⟨BitVec.ofNat 32 l.failed, BitVec.ofNat 32 l.failedTimed, BitVec.ofNat 64 l.deadlineMs⟩

def persist (l : Lock) (saving : Saving) : Lock := l.note (.saved l.state saving)

/-- `failClosed` -/
def failClosed (l : Lock) (now : Moment) : Lock :=
  if l.failed ≥ 20 then
    { l with failedTimed := 0, timed := false, deadlineMs := 0 }
  else
    { l with
      failed := max l.failed 19
      failedTimed := 5
      timed := true
      deadlineMs := now.real + 30000
      deadline := now.steady + 30000 }

/-- `timed_ = false; failedTimed_ = 0; deadlineMs_ = 0` -/
def unblock (l : Lock) : Lock := { l with timed := false, failedTimed := 0, deadlineMs := 0 }

/-- The counting of `addFailedAttempt`, without the save. -/
def count (l : Lock) (now : Moment) : Lock :=
  let l := { l with failed := l.failed + 1, failedTimed := l.failedTimed + 1 }.note (.counted now)
  let l := if l.failedTimed ≥ 5 ∧ l.failed < 20 then
      { l with timed := true, deadline := now.steady + 30000, deadlineMs := now.real + 30000 }
    else l
  if l.failed ≥ 20 then { l with failedTimed := 0 } else l

/-- What `reset` writes. -/
def zero (l : Lock) : Lock := { l.unblock with failed := 0 }

end Lock

/-! ### The tracker -/

/-- `cb` is what the weak pointer points to. -/
structure Tracker extends Lock where
  clearPending : Bool
  cb : Option Nat
  notices : List Notice

/-- What `expire` reads: the clock, how its save ends, and whether the session still exists. -/
structure Check where
  now : Moment
  saving : Saving
  alive : Bool

namespace Tracker

variable (t : Tracker)

def notice (n : Notice) : Tracker := { t with notices := n :: t.notices }

def persist (saving : Saving) : Tracker := { t with toLock := t.toLock.persist saving }

/-- `failClosed` -/
def failClosed (now : Moment) : Tracker :=
  { t with toLock := t.toLock.failClosed now, clearPending := false }

/-- The end of `expire`. -/
def announce (alive : Bool) : Tracker :=
  if t.clearPending then
    match t.cb with
    | some cb => if alive then { t with clearPending := false }.notice (.lockoutCleared cb) else t
    | none => t
  else t

/-- `expire` -/
def expire (check : Check) : Tracker :=
  if t.timed ∧ t.deadline ≤ check.now.steady then
    let t := { t with toLock := t.toLock.unblock }.persist check.saving
    match check.saving with
    | .failed seen => t.failClosed seen
    | .ok => { t with clearPending := true, toLock := t.toLock.note .expired }.announce check.alive
  else t.announce check.alive

/-- `attach` -/
def attach (cb : Option Nat) (check : Check) : Tracker := { t with cb := cb }.expire check

/-- `detach` -/
def detach (cb : Option Nat) (alive : Bool) : Tracker :=
  let locked := if alive then t.cb else none
  if locked = cb then { t with cb := none } else t

/-- `notifyLockout`; `now` is what is read for the rest of the time. -/
def notifyLockout (cb : Nat) (check : Check) (now : Moment) : Bool × Tracker :=
  let t := t.expire check
  if t.failed ≥ 20 then (true, t.notice (.lockoutPermanent cb))
  else if t.timed then (true, t.notice (.lockoutTimed cb (max (t.deadline - now.steady) 1)))
  else (false, t)

/-- `addFailedAttempt` -/
def addFailedAttempt (check : Check) (now : Moment) (saving : Saving) : Bool × Tracker :=
  let t := t.expire check
  if t.failed ≥ 20 ∨ t.timed then (true, t)
  else
    let t := { t with toLock := t.toLock.count now }.persist saving
    let t := match saving with
      | .ok => t
      | .failed seen => t.failClosed seen
    (t.timed || decide (t.failed ≥ 20), t)

/-- `reset` -/
def reset (cb : Option Nat) (saving : Saving) : Tracker :=
  let previousFailed := t.failed
  let t := { t with toLock := t.toLock.zero, clearPending := false }.persist saving
  match saving with
  | .failed seen =>
      let t := { t with failed := previousFailed }.failClosed seen
      match cb with
      | some cb => t.notice (.unableToProcess cb)
      | none => t
  | .ok =>
      let t := { t with toLock := t.toLock.note .reset }
      match cb with
      | some cb => t.notice (.lockoutCleared cb)
      | none => t

/-- The member initializers; the log of earlier trackers goes on. -/
def initial (log : List Event) : Tracker where
  failed := 0
  failedTimed := 0
  timed := false
  deadlineMs := 0
  deadline := 0
  log := log
  clearPending := false
  cb := none
  notices := []

/-- How the save of the constructor stands in the log: `failClosed` has read the clocks before. -/
def Saving.closedAt (now : Moment) : Saving → Saving
  | .ok => .ok
  | .failed _ => .failed now

/-- The constructor. `loaded` is the state when `load` returns `true`; `written` says how the save
ends, which is not looked at. -/
def construct (loaded : Option State) (now : Moment) (written : Saving) (log : List Event) :
    Tracker :=
  match loaded with
  | some state =>
      let t := { initial log with
        failed := state.failed.toNat
        failedTimed := state.failedTimed.toNat }
      if state.deadlineMs ≠ 0 then
        { t with
          timed := true
          deadlineMs := state.deadlineMs.toNat
          -- `std::clamp(deadlineMs_ - realtimeMs(), 0, 30000)`
          deadline := now.steady + min (state.deadlineMs.toNat - now.real) 30000 }
      else t
  | none => ((initial log).failClosed now).persist (Saving.closedAt now written)

/-! ### Calls and histories -/

/-- The calls of a tracker, with what they read. The worker's is the `expire` that it makes whenever
it has waited. -/
inductive Call
  | attach (cb : Option Nat) (check : Check)
  | detach (cb : Option Nat) (alive : Bool)
  | notifyLockout (cb : Nat) (check : Check) (now : Moment)
  | addFailedAttempt (check : Check) (now : Moment) (saving : Saving)
  | reset (cb : Option Nat) (saving : Saving)
  | worker (check : Check)

def Call.run (t : Tracker) : Call → Tracker
  | .attach cb check => t.attach cb check
  | .detach cb alive => t.detach cb alive
  | .notifyLockout cb check now => (t.notifyLockout cb check now).2
  | .addFailedAttempt check now saving => (t.addFailedAttempt check now saving).2
  | .reset cb saving => t.reset cb saving
  | .worker check => t.expire check

def runCalls (calls : List Call) : Tracker := calls.foldl Call.run t

/-- A step of a history: a call, or a restart. -/
inductive Turn
  | call (call : Call)
  | restart (loaded : Option State) (now : Moment) (written : Saving)

def Turn.run (t : Tracker) : Turn → Tracker
  | .call c => c.run t
  | .restart loaded now written => .construct loaded now written t.log

def runTurns (turns : List Turn) : Tracker := turns.foldl Turn.run t

end Tracker

/-! ### The readings of a call -/

def Saving.readings : Saving → List Moment
  | .ok => []
  | .failed seen => [seen]

def Check.readings (check : Check) : List Moment := check.now :: check.saving.readings

/-- What a call reads of the clocks, in this order; some of it only when it needs it. -/
def Tracker.Call.readings : Tracker.Call → List Moment
  | .attach _ check => check.readings
  | .detach _ _ => []
  | .notifyLockout _ check now => check.readings ++ [now]
  | .addFailedAttempt check now saving => check.readings ++ now :: saving.readings
  | .reset _ saving => saving.readings
  | .worker check => check.readings

/-! ### The moves of the lock -/

/-- What a call does to the lock while it reads the clocks. -/
inductive Move (l : Lock) : List Moment → Lock → Prop
  | skip (readings : List Moment) : Move l readings l
  | expire (now : Moment) (timed : l.timed = true) (due : l.deadline ≤ now.steady) :
      Move l [now] ((l.unblock.persist .ok).note .expired)
  | expireFails (now seen : Moment) (timed : l.timed = true) (due : l.deadline ≤ now.steady) :
      Move l [now, seen] ((l.unblock.persist (.failed seen)).failClosed seen)
  | count (now : Moment) (failed : l.failed < 20) (untimed : l.timed = false) :
      Move l [now] ((l.count now).persist .ok)
  | countFails (now seen : Moment) (failed : l.failed < 20) (untimed : l.timed = false) :
      Move l [now, seen] (((l.count now).persist (.failed seen)).failClosed seen)
  | reset : Move l [] ((l.zero.persist .ok).note .reset)
  | resetFails (seen : Moment) :
      Move l [seen] ({ l.zero.persist (.failed seen) with failed := l.failed }.failClosed seen)

namespace Tracker

@[simp] theorem notice_lock (t : Tracker) (n : Notice) : (t.notice n).toLock = t.toLock := rfl

@[simp] theorem announce_lock (t : Tracker) (alive : Bool) :
    (t.announce alive).toLock = t.toLock := by
  unfold announce
  split
  · split
    · split <;> rfl
    · rfl
  · rfl

theorem expire_move (t : Tracker) (check : Check) :
    Move t.toLock check.readings (t.expire check).toLock := by
  obtain ⟨now, saving, alive⟩ := check
  unfold expire
  split
  · rename_i hdue
    cases saving with
    | ok =>
        dsimp only
        rw [announce_lock]
        exact .expire now hdue.1 hdue.2
    | failed seen => exact .expireFails now seen hdue.1 hdue.2
  · rw [announce_lock]
    exact .skip _

/-- An `expire` before the deadline changes nothing. -/
theorem expire_lock_of_lt {t : Tracker} {check : Check}
    (h : t.timed = true → check.now.steady < t.deadline) : (t.expire check).toLock = t.toLock := by
  unfold expire
  rw [if_neg (fun hdue => absurd (h hdue.1) (Nat.not_lt.mpr hdue.2)), announce_lock]

theorem reset_move (t : Tracker) (cb : Option Nat) (saving : Saving) :
    Move t.toLock saving.readings (t.reset cb saving).toLock := by
  cases saving with
  | ok => cases cb <;> exact .reset
  | failed seen => cases cb <;> exact .resetFails seen

/-- **A call is an `expire` and one more move.** -/
theorem Call.run_moves (t : Tracker) (call : Call) :
    ∃ first middle second, call.readings = first ++ second ∧ Move t.toLock first middle ∧
      Move middle second (call.run t).toLock := by
  cases call with
  | attach cb check =>
      exact ⟨check.readings, _, [], (List.append_nil _).symm,
        expire_move { t with cb := cb } check, .skip []⟩
  | detach cb alive =>
      refine ⟨[], t.toLock, [], rfl, .skip [], ?_⟩
      show Move t.toLock [] (t.detach cb alive).toLock
      have hlock : (t.detach cb alive).toLock = t.toLock := by
        unfold Tracker.detach
        exact (apply_ite Tracker.toLock _ _ _).trans (ite_self _)
      rw [hlock]
      exact .skip []
  | notifyLockout cb check now =>
      refine ⟨check.readings, _, [now], rfl, expire_move t check, ?_⟩
      show Move _ [now] (t.notifyLockout cb check now).2.toLock
      unfold Tracker.notifyLockout
      dsimp only
      split
      · exact .skip [now]
      · split <;> exact .skip [now]
  | addFailedAttempt check now saving =>
      refine ⟨check.readings, _, now :: saving.readings, rfl, expire_move t check, ?_⟩
      show Move _ _ (t.addFailedAttempt check now saving).2.toLock
      unfold Tracker.addFailedAttempt
      dsimp only
      split
      · exact .skip _
      · rename_i hfree
        obtain ⟨hfailed, htimed⟩ := not_or.mp hfree
        cases saving with
        | ok => exact .count now (Nat.not_le.mp hfailed) (Bool.eq_false_iff.mpr htimed)
        | failed seen =>
            exact .countFails now seen (Nat.not_le.mp hfailed) (Bool.eq_false_iff.mpr htimed)
  | reset cb saving => exact ⟨[], _, saving.readings, rfl, .skip [], reset_move t cb saving⟩
  | worker check =>
      exact ⟨check.readings, _, [], (List.append_nil _).symm, expire_move t check, .skip []⟩

end Tracker

/-! ### Invariants of the lock -/

/-- What has to be shown of an invariant of the lock and the last reading, where each reading of the
clocks is related to the one before. -/
structure Kept (after : Moment → Moment → Prop) (holds : Lock → Moment → Prop) : Prop where
  read : ∀ {l n m}, holds l n → after n m → holds l m
  expire : ∀ {l now}, holds l now → l.timed = true → l.deadline ≤ now.steady →
    holds ((l.unblock.persist .ok).note .expired) now
  expireFails : ∀ {l now seen}, holds l now → l.timed = true → l.deadline ≤ now.steady →
    after now seen → holds ((l.unblock.persist (.failed seen)).failClosed seen) seen
  count : ∀ {l now}, holds l now → l.failed < 20 → l.timed = false →
    holds ((l.count now).persist .ok) now
  countFails : ∀ {l now seen}, holds l now → l.failed < 20 → l.timed = false → after now seen →
    holds (((l.count now).persist (.failed seen)).failClosed seen) seen
  reset : ∀ {l now}, holds l now → holds ((l.zero.persist .ok).note .reset) now
  resetFails : ∀ {l seen}, holds l seen →
    holds ({ l.zero.persist (.failed seen) with failed := l.failed }.failClosed seen) seen

/-- A chain through two lists goes through both. -/
theorem chain_append {α : Type} {R : α → α → Prop} {a : α} {xs ys : List α}
    (h : List.IsChain R (a :: (xs ++ ys))) :
    List.IsChain R (a :: xs) ∧ List.IsChain R (xs.getLastD a :: ys) := by
  induction xs generalizing a with
  | nil => exact ⟨.singleton a, h⟩
  | cons x xs ih =>
      obtain ⟨hax, h⟩ := List.isChain_cons_cons.mp h
      obtain ⟨hxs, hys⟩ := ih h
      rw [List.getLastD_cons]
      exact ⟨List.isChain_cons_cons.mpr ⟨hax, hxs⟩, hys⟩

theorem getLastD_append {α : Type} (a : α) (xs ys : List α) :
    (xs ++ ys).getLastD a = ys.getLastD (xs.getLastD a) := by
  induction xs generalizing a with
  | nil => rfl
  | cons x xs ih => rw [List.cons_append, List.getLastD_cons, List.getLastD_cons, ih]

namespace Kept

variable {after : Moment → Moment → Prop} {holds : Lock → Moment → Prop} {l l' : Lock}
  {now : Moment} {readings : List Moment}

/-- Readings alone change nothing. -/
theorem reads (h : Kept after holds) (hl : holds l now)
    (hchain : List.IsChain after (now :: readings)) : holds l (readings.getLastD now) := by
  induction readings generalizing now with
  | nil => exact hl
  | cons m readings ih =>
      obtain ⟨hread, hchain⟩ := List.isChain_cons_cons.mp hchain
      rw [List.getLastD_cons]
      exact ih (h.read hl hread) hchain

theorem move (h : Kept after holds) (hmove : Move l readings l') (hl : holds l now)
    (hchain : List.IsChain after (now :: readings)) : holds l' (readings.getLastD now) := by
  cases hmove with
  | skip => exact h.reads hl hchain
  | expire m htimed hdue =>
      exact h.expire (h.read hl (List.isChain_pair.mp hchain)) htimed hdue
  | expireFails m seen htimed hdue =>
      obtain ⟨hread, hchain⟩ := List.isChain_cons_cons.mp hchain
      exact h.expireFails (h.read hl hread) htimed hdue (List.isChain_pair.mp hchain)
  | count m hfailed huntimed =>
      exact h.count (h.read hl (List.isChain_pair.mp hchain)) hfailed huntimed
  | countFails m seen hfailed huntimed =>
      obtain ⟨hread, hchain⟩ := List.isChain_cons_cons.mp hchain
      exact h.countFails (h.read hl hread) hfailed huntimed (List.isChain_pair.mp hchain)
  | reset => exact h.reset hl
  | resetFails seen => exact h.resetFails (h.read hl (List.isChain_pair.mp hchain))

/-- A call keeps the invariant. -/
theorem call (h : Kept after holds) {t : Tracker} {call : Tracker.Call}
    (ht : holds t.toLock now) (hchain : List.IsChain after (now :: call.readings)) :
    holds (call.run t).toLock (call.readings.getLastD now) := by
  obtain ⟨first, middle, second, hreadings, hfirst, hsecond⟩ := call.run_moves t
  rw [hreadings] at hchain ⊢
  obtain ⟨hfirst', hsecond'⟩ := chain_append hchain
  rw [getLastD_append]
  exact h.move hsecond (h.move hfirst ht hfirst') hsecond'

/-- And so do all the calls of a tracker. -/
theorem calls (h : Kept after holds) {t : Tracker} {calls : List Tracker.Call}
    (ht : holds t.toLock now)
    (hchain : List.IsChain after (now :: calls.flatMap Tracker.Call.readings)) :
    holds (t.runCalls calls).toLock ((calls.flatMap Tracker.Call.readings).getLastD now) := by
  induction calls generalizing t now with
  | nil => exact ht
  | cons c calls ih =>
      rw [List.flatMap_cons] at hchain ⊢
      obtain ⟨hcall, hcalls⟩ := chain_append hchain
      rw [getLastD_append]
      exact ih (h.call ht hcall) hcalls

end Kept

/-! ### The counters fit together -/

/-- The invariant of the counters. -/
structure Lock.Sound (l : Lock) : Prop where
  failedTimed_le : l.failedTimed ≤ 5
  order : l.failedTimed ≤ l.failed
  failed_le : l.failed ≤ 20
  deadline_iff : l.timed = true ↔ l.deadlineMs ≠ 0
  burst_iff : l.timed = true ↔ l.failedTimed = 5
  permanent : l.failed = 20 → l.timed = false
  deadline_lt : l.deadlineMs < 2 ^ 63

namespace Lock

variable {l : Lock}

/-- What a lock has done does not matter. -/
theorem Sound.relog (h : l.Sound) (log : List Event) : { l with log := log }.Sound :=
  ⟨h.failedTimed_le, h.order, h.failed_le, h.deadline_iff, h.burst_iff, h.permanent, h.deadline_lt⟩

theorem Sound.unblock (h : l.Sound) : l.unblock.Sound where
  failedTimed_le := Nat.zero_le 5
  order := Nat.zero_le _
  failed_le := h.failed_le
  deadline_iff := by simp [Lock.unblock]
  burst_iff := by simp [Lock.unblock]
  permanent := fun _ => rfl
  deadline_lt := Nat.two_pow_pos 63

theorem Sound.zero (h : l.Sound) : l.zero.Sound :=
  { h.unblock with order := Nat.le_refl 0, failed_le := Nat.zero_le 20, permanent := fun _ => rfl }

/-- `failClosed` leaves a sound lock, whatever the others fields were. -/
theorem sound_failClosed (hfailed : l.failed ≤ 20) (now : Moment) : (l.failClosed now).Sound := by
  have := now.defined
  unfold failClosed
  split
  · exact ⟨Nat.zero_le 5, Nat.zero_le _, hfailed, by simp, by simp, fun _ => rfl,
      Nat.two_pow_pos 63⟩
  · refine ⟨Nat.le_refl 5, ?_, ?_, by simp, by simp, fun h => ?_, now.defined⟩
    · exact Nat.le_trans (by decide : 5 ≤ 19) (Nat.le_max_right _ _)
    · exact Nat.max_le.mpr ⟨hfailed, by decide⟩
    · dsimp only at h
      omega

/-- A count keeps the counters together. -/
theorem Sound.count (h : l.Sound) (hfailed : l.failed < 20) (huntimed : l.timed = false)
    (now : Moment) : (l.count now).Sound := by
  have hdefined := now.defined
  have hburst : l.failedTimed ≠ 5 := fun heq => by
    rw [h.burst_iff.mpr heq] at huntimed
    cases huntimed
  have hzero : l.deadlineMs = 0 := by
    by_contra hne
    rw [h.deadline_iff.mpr hne] at huntimed
    cases huntimed
  obtain ⟨hle, horder, -, -, -, -, -⟩ := h
  unfold Lock.count Lock.note
  dsimp only
  split
  · rename_i hfifth
    rw [if_neg (by dsimp only; omega)]
    exact ⟨by dsimp only; omega, by dsimp only; omega, by dsimp only; omega, by simp,
      ⟨fun _ => by dsimp only at hfifth ⊢; omega, fun _ => rfl⟩, fun heq => by
        dsimp only at heq hfifth
        omega, hdefined⟩
  · rename_i hfew
    split
    · exact ⟨Nat.zero_le 5, Nat.zero_le _, hfailed, by simp [huntimed, hzero],
        by simp [huntimed], fun _ => huntimed, by simp [hzero]⟩
    · rename_i hnot
      dsimp only at hfew hnot
      refine ⟨by dsimp only; omega, by dsimp only; omega, by dsimp only; omega,
        by simp [huntimed, hzero], ?_, fun _ => huntimed, by simp [hzero]⟩
      dsimp only
      rw [huntimed]
      exact ⟨nofun, fun heq => by omega⟩

/-- The counters of a sound lock fit into the record. -/
theorem Sound.state_toNat (h : l.Sound) :
    l.state.failed.toNat = l.failed ∧ l.state.failedTimed.toNat = l.failedTimed ∧
      l.state.deadlineMs.toNat = l.deadlineMs := by
  obtain ⟨hburst, -, hfailed, -, -, -, hlt⟩ := h
  exact ⟨Nat.mod_eq_of_lt (by omega), Nat.mod_eq_of_lt (by omega), Nat.mod_eq_of_lt (by omega)⟩

/-- **A sound lock is a record that the store accepts.** -/
theorem Sound.allowed (h : l.Sound) : l.state.Allowed := by
  obtain ⟨hfailed', hburst', hdeadline'⟩ := h.state_toNat
  obtain ⟨hburst, horder, hfailed, hdeadline, htimed, hpermanent, hlt⟩ := h
  have hzero : l.state.deadlineMs = 0 ↔ l.deadlineMs = 0 := by
    rw [← BitVec.toNat_inj, hdeadline']
    rfl
  refine ⟨by omega, by omega, by omega, by omega, fun hne => ?_, fun heq => ?_⟩
  · have ht := hdeadline.mpr fun heq => hne (hzero.mpr heq)
    have hfive := htimed.mp ht
    refine ⟨?_, ?_⟩
    · rw [← BitVec.toNat_inj, hburst', hfive]
      rfl
    · by_contra hge
      rw [hpermanent (by omega)] at ht
      cases ht
  · rw [hburst']
    have hne : l.failedTimed ≠ 5 := fun hfive => hdeadline.mp (htimed.mpr hfive) (hzero.mp heq)
    omega

end Lock

/-- A lock that is sound and has saved nothing that the store would reject. -/
def Lock.Accepted (l : Lock) : Prop :=
  l.Sound ∧ ∀ state saving, Event.saved state saving ∈ l.log → state.Allowed

namespace Lock

variable {l : Lock}

theorem Accepted.persist (h : l.Accepted) (saving : Saving) : (l.persist saving).Accepted := by
  refine ⟨h.1.relog _, fun state saving' hmem => ?_⟩
  rcases List.mem_cons.mp hmem with heq | hmem
  · obtain ⟨rfl, -⟩ := Event.saved.inj heq
    exact h.1.allowed
  · exact h.2 state saving' hmem

theorem Accepted.note (h : l.Accepted) {event : Event}
    (hevent : ∀ state saving, event ≠ .saved state saving) : (l.note event).Accepted := by
  refine ⟨h.1.relog _, fun state saving hmem => ?_⟩
  rcases List.mem_cons.mp hmem with heq | hmem
  · exact absurd heq.symm (hevent state saving)
  · exact h.2 state saving hmem

theorem failClosed_log (l : Lock) (now : Moment) : (l.failClosed now).log = l.log := by
  unfold failClosed
  split <;> rfl

theorem count_log (l : Lock) (now : Moment) : (l.count now).log = .counted now :: l.log := by
  unfold count
  dsimp only
  split <;> split <;> rfl

theorem Accepted.failClosed (h : l.Accepted) (now : Moment) : (l.failClosed now).Accepted := by
  refine ⟨sound_failClosed h.1.failed_le now, ?_⟩
  rw [failClosed_log]
  exact h.2

theorem Accepted.count (h : l.Accepted) (hfailed : l.failed < 20) (huntimed : l.timed = false)
    (now : Moment) : (l.count now).Accepted := by
  refine ⟨h.1.count hfailed huntimed now, ?_⟩
  rw [count_log]
  intro state saving hmem
  rcases List.mem_cons.mp hmem with heq | hmem
  · cases heq
  · exact h.2 state saving hmem

theorem kept_accepted : Kept (fun _ _ => True) fun l _ => l.Accepted where
  read := fun h _ => h
  expire := fun h _ _ => (Accepted.persist ⟨h.1.unblock, h.2⟩ .ok).note nofun
  expireFails := fun h _ _ _ => (Accepted.persist ⟨h.1.unblock, h.2⟩ _).failClosed _
  count := fun h hfailed huntimed => (h.count hfailed huntimed _).persist .ok
  countFails := fun h hfailed huntimed _ => ((h.count hfailed huntimed _).persist _).failClosed _
  reset := fun h => (Accepted.persist ⟨h.1.zero, h.2⟩ .ok).note nofun
  resetFails := fun {l seen} h => by
    have hfailed : l.failed ≤ 20 := h.1.failed_le
    have hsaved := (Accepted.persist ⟨h.1.zero, h.2⟩ (.failed seen)).2
    refine ⟨sound_failClosed (by exact hfailed) seen, ?_⟩
    rw [failClosed_log]
    exact hsaved

end Lock

/-- `load` returns only states that `decode` allows. -/
def Loads (loaded : Option State) : Prop := ∀ state ∈ loaded, state.Allowed

namespace Tracker

/-- The lock behind a record that was loaded. -/
theorem construct_some (s : State) (now : Moment) (written : Saving) (log : List Event) :
    (construct (some s) now written log).toLock =
      { failed := s.failed.toNat, failedTimed := s.failedTimed.toNat
        timed := decide (s.deadlineMs ≠ 0), deadlineMs := s.deadlineMs.toNat
        deadline := if s.deadlineMs ≠ 0 then
          now.steady + min (s.deadlineMs.toNat - now.real) 30000 else 0
        log := log } := by
  unfold construct
  dsimp only
  by_cases hzero : s.deadlineMs = 0
  · rw [if_neg (not_not.mpr hzero), if_neg (not_not.mpr hzero), hzero]
    rfl
  · rw [if_pos hzero, if_pos hzero, decide_eq_true hzero]
    rfl

theorem construct_sound {loaded : Option State} (hloaded : Loads loaded) (now : Moment)
    (written : Saving) (log : List Event) : (construct loaded now written log).Sound := by
  cases loaded with
  | none => exact (Lock.sound_failClosed (Nat.zero_le 20) now).relog _
  | some s =>
      obtain ⟨hfailed, hburst, horder, hdeadline, htimed, huntimed⟩ := hloaded s rfl
      rw [construct_some]
      refine ⟨hburst, horder, hfailed, ?_, ?_, fun heq => ?_, Nat.lt_succ_of_le hdeadline⟩
      · show decide _ = true ↔ s.deadlineMs.toNat ≠ 0
        rw [decide_eq_true_iff, ne_eq, ne_eq, ← BitVec.toNat_inj]
        rfl
      · show decide _ = true ↔ s.failedTimed.toNat = 5
        rw [decide_eq_true_iff]
        refine ⟨fun hne => congrArg BitVec.toNat (htimed hne).1, fun hfive hzero => ?_⟩
        exact absurd (huntimed hzero) (Nat.not_lt.mpr (Nat.le_of_eq hfive.symm))
      · refine decide_eq_false fun hne => ?_
        exact absurd (htimed hne).2 (Nat.not_lt.mpr (Nat.le_of_eq heq.symm))

theorem construct_log (loaded : Option State) (now : Moment) (written : Saving) (log : List Event) :
    (construct loaded now written log).log = log ∨ ∃ l : Lock, ∃ saving, l.Sound ∧
      (construct loaded now written log).log = .saved l.state saving :: log := by
  cases loaded with
  | none => exact .inr ⟨_, _, Lock.sound_failClosed (Nat.zero_le 20) now, rfl⟩
  | some s => exact .inl (congrArg Lock.log (construct_some s now written log))

theorem construct_accepted {loaded : Option State} (hloaded : Loads loaded) (now : Moment)
    (written : Saving) {log : List Event}
    (hlog : ∀ state saving, .saved state saving ∈ log → state.Allowed) :
    (construct loaded now written log).toLock.Accepted := by
  refine ⟨construct_sound hloaded now written log, fun state saving hmem => ?_⟩
  rcases construct_log loaded now written log with hsame | ⟨l, saving', hl, hsaved⟩
  · exact hlog state saving (hsame ▸ hmem)
  · rw [hsaved] at hmem
    rcases List.mem_cons.mp hmem with heq | hmem
    · obtain ⟨rfl, -⟩ := Event.saved.inj heq
      exact hl.allowed
    · exact hlog state saving hmem

theorem chain_true (now : Moment) (readings : List Moment) :
    List.IsChain (fun _ _ : Moment => True) (now :: readings) := by
  induction readings generalizing now with
  | nil => exact .singleton now
  | cons m readings ih => exact List.isChain_cons_cons.mpr ⟨trivial, ih m⟩

/-- **In every run the counters fit together** and the store accepts what it is given. -/
theorem run_accepted {loaded : Option State} (hloaded : Loads loaded) (now : Moment)
    (written : Saving) (calls : List Call) :
    ((construct loaded now written []).runCalls calls).toLock.Accepted :=
  Lock.kept_accepted.calls (construct_accepted hloaded now written fun _ _ hmem => by cases hmem)
    (chain_true now _)

end Tracker

end Mindone.Fingerprint
