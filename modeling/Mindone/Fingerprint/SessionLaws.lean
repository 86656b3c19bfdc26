import Mindone.Fingerprint.Session

/-!
# Mindone.Fingerprint.SessionLaws

**No success while locked out**, as a law of the log (`Lawful`): a success belongs to the last
`authenticate`, which began with the tracker unlocked and which nothing has ended, and the tracker is
unlocked; every failure belongs to an `addFailedAttempt`; and the attempt that locks out is followed
by no acquisition, failure or success until a call begins anew.

The session's own flags are written under its lock, so the order of attempts holds in every run
(`Ordered`). The tracker is not the session's: it can be locked out by a save that fails, and the
session is not told. **The law holds in every run that is spared three steps** (`no_success_while_locked_out`): a
reset that fails while an authentication is running, a match whose reset fails, and an answer of the
HAL that ends an `authenticate` with an error, which leaves `authenticating_` set. Each of them
leads to a success that the law forbids (`success_while_locked_out`).
-/

namespace Mindone.Fingerprint

open Mindone.Lib

/-! ### The tracker's lockout -/

namespace Tracker

variable (t : Tracker) (check : Check) (now : Moment)

theorem notifyLockout_fst (cb : Nat) :
    (t.notifyLockout cb check now).1 = (t.notifyLockout cb check now).2.lockedOut := by
  simp only [notifyLockout]
  split
  · simp [Lock.lockedOut, *]
  · split <;> simp_all [Lock.lockedOut]

theorem addFailedAttempt_fst (saving : Saving) :
    (t.addFailedAttempt check now saving).1 =
      (t.addFailedAttempt check now saving).2.lockedOut := by
  simp only [addFailedAttempt]
  split
  · rename_i hlocked
    rcases hlocked with hfailed | htimed
    · simp [Lock.lockedOut, hfailed]
    · simp [Lock.lockedOut, htimed]
  · rfl

theorem detach_lock (cb : Option Nat) (alive : Bool) : (t.detach cb alive).toLock = t.toLock := by
  unfold detach
  exact (apply_ite toLock _ _ _).trans (ite_self _)

variable {t}

/-- The worker and `notifyLockout` do not lock out. -/
theorem expire_unlocked (h : t.lockedOut = false) : (t.expire check).lockedOut = false := by
  simp only [Lock.lockedOut, Bool.or_eq_false_iff] at h
  have hsame : (t.expire check).toLock = t.toLock := by
    refine expire_lock_of_lt fun htimed => ?_
    rw [htimed] at h
    exact absurd h.1 (by simp)
  simp [hsame, Lock.lockedOut, h]

theorem notifyLockout_unlocked (cb : Nat) (h : t.lockedOut = false) :
    (t.notifyLockout cb check now).2.lockedOut = false := by
  have hexpired := expire_unlocked check h
  simp only [notifyLockout]
  split
  · exact hexpired
  · split <;> exact hexpired

theorem reset_unlocked (cb : Option Nat) : (t.reset cb .ok).lockedOut = false := by
  cases cb <;> rfl

end Tracker

namespace Session

/-! ### The law -/

/-- What ends the authentication that began with a call. -/
def Entry.Ends (call : Nat) : Entry → Prop
  | .authenticate _ _ => True
  | .addFailedAttempt locked => locked = true
  | .onAuthenticationSucceeded _ _ _ _ => True
  | .onError source _ _ => source = .hal ∨ source = .request (.authenticate call)
  | .onLockoutTimed _ => True
  | .onLockoutPermanent => True
  | _ => False

/-- The last `authenticate` is this call; it began unlocked, and nothing has ended it. -/
def Running (call : Nat) (log : List Entry) : Prop :=
  Since (fun _ entry => entry = .authenticate call false) (Entry.Ends call) log

/-- An attempt has locked out, and no later call has begun anew. -/
def Silenced (log : List Entry) : Prop :=
  Since (fun _ entry => entry = .onAuthenticationFailed true)
    (fun entry => entry = .enroll ∨ ∃ call, entry = .authenticate call false) log

/-- An `addFailedAttempt` has not been followed by its failure. -/
def Pending (locked : Bool) (log : List Entry) : Prop :=
  Since (fun _ entry => entry = .addFailedAttempt locked)
    (fun entry => ∃ locked, entry = .addFailedAttempt locked ∨ entry = .onAuthenticationFailed locked)
    log

/-- What an entry needs of the log before it. -/
def Allowed (before : List Entry) : Entry → Prop
  | .addFailedAttempt _ => ∀ locked, ¬Pending locked before
  | .onAuthenticationFailed locked => ¬Silenced before ∧ Pending locked before
  | .onAcquired _ _ => ¬Silenced before
  | .onAuthenticationSucceeded _ _ found now =>
      ¬Silenced before ∧ (∃ call, Running call before) ∧ found = false ∧ now = false
  | _ => True

/-- **The law.** -/
def Lawful (log : List Entry) : Prop := Each (fun before entry _ => Allowed before entry) log

variable {log : List Entry} {entry : Entry} {call : Nat} {locked : Bool}

@[simp] theorem running_snoc : Running call (log ++ [entry]) ↔
    entry = .authenticate call false ∨ ¬entry.Ends call ∧ Running call log :=
  since_snoc log entry

@[simp] theorem silenced_snoc : Silenced (log ++ [entry]) ↔
    entry = .onAuthenticationFailed true ∨
      ¬(entry = .enroll ∨ ∃ call, entry = .authenticate call false) ∧ Silenced log :=
  since_snoc log entry

@[simp] theorem pending_snoc : Pending locked (log ++ [entry]) ↔
    entry = .addFailedAttempt locked ∨
      ¬(∃ locked, entry = .addFailedAttempt locked ∨ entry = .onAuthenticationFailed locked) ∧
        Pending locked log :=
  since_snoc log entry

theorem Lawful.snoc (h : Lawful log) (hnew : Allowed log entry) : Lawful (log ++ [entry]) :=
  Each.snoc h (fun _ _ hallowed => hallowed) hnew

variable {s s' : Session} {act : Act}

@[simp] theorem note_log (s : Session) (entry : Entry) : (s.note entry).log = s.log ++ [entry] := rfl
@[simp] theorem note_holder (s : Session) (entry : Entry) : (s.note entry).holder = s.holder := rfl
@[simp] theorem note_lockedOut (s : Session) (entry : Entry) :
    (s.note entry).lockedOut = s.lockedOut := rfl
@[simp] theorem note_tracker (s : Session) (entry : Entry) : (s.note entry).tracker = s.tracker := rfl
@[simp] theorem note_calls (s : Session) (entry : Entry) : (s.note entry).calls = s.calls := rfl
@[simp] theorem note_authenticating (s : Session) (entry : Entry) :
    (s.note entry).authenticating = s.authenticating := rfl

/-! ### What holds in every run -/

/-- The holder of the lock is about to deliver a failure or a success. -/
def Place.delivers : Place → Bool
  | .attempted _ => true
  | .verified _ _ _ => true
  | _ => false

/-- The log, `lockedOut_` and the holder of the lock fit together. -/
structure Ordered (s : Session) : Prop where
  pending : ∀ locked, Pending locked s.log ↔ s.holder = some (.attempted locked)
  attempted : ∀ locked, s.holder = some (.attempted locked) → s.lockedOut = locked
  silenced : Silenced s.log → s.lockedOut = true
  delivers : ∀ place, s.holder = some place → place.delivers = true → ¬Silenced s.log

/-- The entries that the order of attempts does not see. -/
def Entry.Aside : Entry → Prop
  | .onAcquired _ _ => True
  | .onError _ _ _ => True
  | .onLockoutTimed _ => True
  | .onLockoutPermanent => True
  | .onSessionClosed => True
  | _ => False

theorem Ordered.aside (h : Ordered s) (haside : entry.Aside) : Ordered (s.note entry) where
  pending := by
    intro locked
    rw [note_log, note_holder, ← h.pending locked]
    cases entry <;> simp_all [Entry.Aside]
  attempted := h.attempted
  silenced := by
    intro hsilenced
    refine h.silenced ?_
    cases entry <;> simp_all [Entry.Aside]
  delivers := by
    intro place hplace hdelivers hsilenced
    refine h.delivers place hplace hdelivers ?_
    cases entry <;> simp_all [Entry.Aside]

theorem ordered_create (tracker : Tracker) (cb : Nat) (check : Check) (opening : Opening) :
    Ordered (create tracker cb check opening) where
  pending := by simp [create, Pending, not_since_nil]
  attempted := by simp [create]
  silenced := by
    intro h
    exact absurd h not_since_nil
  delivers := by simp [create]

theorem Ordered.proceed {place : Place} (h : Ordered s) (hplace : s.holder = some place)
    (check : Check) (now : Moment) : Ordered (s.proceed place check now) := by
  have hpending := h.pending
  have hattempted := h.attempted
  have hdelivers := h.delivers place hplace
  rw [hplace] at hpending hattempted
  cases place with
  | began locked =>
      constructor
      · simpa [Session.proceed] using hpending
      · simp [Session.proceed]
      · -- the silence ends, or the call begins locked out
        cases locked <;> simp [Session.proceed]
      · simp [Session.proceed]
  | attempted locked =>
      have hquiet : ¬Silenced s.log := hdelivers rfl
      have hlocked : s.lockedOut = locked := hattempted locked rfl
      cases locked with
      | false => constructor <;> simp [Session.proceed, hquiet]
      | true => constructor <;> simp [Session.proceed, hlocked, Place.delivers]
  | lockingOut =>
      constructor
      · simpa [Session.proceed] using hpending
      · simp [Session.proceed]
      · exact h.silenced
      · simp [Session.proceed]
  | verified fingerId hat found =>
      have hquiet : ¬Silenced s.log := hdelivers rfl
      constructor
      · simpa [Session.proceed] using hpending
      · simp [Session.proceed]
      · simp [Session.proceed, hquiet]
      · simp [Session.proceed]

/-- An answer of the sensor keeps the order. -/
theorem Ordered.onAuthenticated (h : Ordered s) (hfree : s.holder = none) (fingerId : BitVec 32)
    (token : List UInt8) (check : Check) (now : Moment) (saving : Saving) :
    Ordered (s.onAuthenticated fingerId token check now saving) := by
  have hpending := h.pending
  rw [hfree] at hpending
  simp only [Session.onAuthenticated]
  split
  · exact h
  split
  · exact h
  rename_i hlets
  have hlocked : s.lockedOut = false := by
    simp only [Bool.or_eq_true, not_or, Bool.not_eq_true] at hlets
    exact hlets.2
  have hquiet : ¬Silenced s.log := by
    intro hsilenced
    rw [h.silenced hsilenced] at hlocked
    cases hlocked
  split
  · obtain ⟨locked, tracker⟩ := s.tracker.addFailedAttempt check now saving
    constructor
    · intro locked'
      have hnone : ¬Pending locked' s.log := by simp [hpending]
      simp [hnone]
    · simp
    · simp [hquiet]
    · simp [hquiet]
  · split
    · exact Ordered.aside (s := { s with authenticating := false })
        ⟨h.pending, h.attempted, h.silenced, h.delivers⟩ trivial
    · constructor
      · simpa using hpending
      · simp
      · exact h.silenced
      · simpa using fun _ => hquiet

/-- What the order of attempts sees has not changed. -/
theorem Ordered.congr (h : Ordered s) (hlog : s'.log = s.log) (hlocked : s'.lockedOut = s.lockedOut)
    (hholder : s'.holder = s.holder) : Ordered s' := by
  constructor
  · rw [hlog, hholder]
    exact h.pending
  · rw [hlocked, hholder]
    exact h.attempted
  · rw [hlog, hlocked]
    exact h.silenced
  · rw [hlog, hholder]
    exact h.delivers

theorem Ordered.replied (h : Ordered s) (request : Request) (reply : Reply) :
    Ordered (s.replied request reply) := by
  have herased : Ordered { s with requests := s.requests.erase request } := h.congr rfl rfl rfl
  simp only [Session.replied]
  split
  · exact herased.aside trivial
  split
  · exact herased.aside trivial
  · exact herased

theorem Ordered.onError (h : Ordered s) (error vendorCode : Int) (removing : Bool) :
    Ordered (s.onError error vendorCode removing) := by
  have hover : Ordered { s with authenticating := false } := h.congr rfl rfl rfl
  simp only [Session.onError]
  split
  · exact h
  split
  · exact h
  split
  · exact hover.aside trivial
  split
  · exact hover.aside trivial
  split
  · exact hover.aside trivial
  · exact hover

/-- **The order is kept by every step.** -/
theorem Ordered.step (h : Ordered s) (hstep : s.step act = some s') : Ordered s' := by
  cases act with
  -- a session that is free delivers nothing else
  | authenticate check now =>
      simp only [Session.step, Option.isNone_iff_eq_none, Option.ite_none_right_eq_some,
        Option.some.injEq] at hstep
      obtain ⟨hfree, rfl⟩ := hstep
      have hpending := h.pending
      rw [hfree] at hpending
      exact ⟨by simpa [beginAuthentication] using hpending, by simp [beginAuthentication], h.silenced,
        by simp [beginAuthentication, Place.delivers]⟩
  -- the operation that is under way goes on
  | proceed check now =>
      simp only [Session.step, Option.map_eq_some_iff] at hstep
      obtain ⟨place, hplace, rfl⟩ := hstep
      exact h.proceed hplace check now
  | reply request reply =>
      simp only [Session.step, Option.ite_none_right_eq_some, Option.some.injEq] at hstep
      obtain ⟨-, rfl⟩ := hstep
      exact h.replied request reply
  -- the other calls of the framework
  | enroll =>
      simp only [Session.step] at hstep
      split at hstep
      · cases hstep
        exact h.aside trivial
      · simp only [Option.isNone_iff_eq_none, Option.ite_none_right_eq_some,
          Option.some.injEq] at hstep
        obtain ⟨hfree, rfl⟩ := hstep
        have hpending := h.pending
        rw [hfree] at hpending
        exact ⟨by simpa [beginEnrollment, hfree] using hpending, by simp [beginEnrollment, hfree],
          by simp [beginEnrollment], by simp [beginEnrollment, hfree]⟩
  | resetLockout hat nowMs saving =>
      cases hstep
      simp only [Session.resetLockout]
      split
      · exact h.congr rfl rfl rfl
      · exact h.aside trivial
  | close =>
      cases hstep
      exact Ordered.aside (h.congr rfl rfl rfl) trivial
  | worker check =>
      cases hstep
      exact h.congr rfl rfl rfl
  -- the calls of the sensor, which come only while nothing is delivered
  | onAcquired info vendorCode =>
      simp only [Session.step, Option.ite_none_right_eq_some, Option.some.injEq] at hstep
      obtain ⟨-, rfl⟩ := hstep
      simp only [Session.onAcquired]
      split
      · exact h
      split
      · exact h
      · exact h.aside trivial
  | onAuthenticated fingerId token check now saving =>
      simp only [Session.step, Option.isNone_iff_eq_none, Option.ite_none_right_eq_some,
        Option.some.injEq] at hstep
      obtain ⟨⟨-, hfree⟩, rfl⟩ := hstep
      exact h.onAuthenticated hfree fingerId token check now saving
  | onError error vendorCode removing =>
      simp only [Session.step, Option.ite_none_right_eq_some, Option.some.injEq] at hstep
      obtain ⟨-, rfl⟩ := hstep
      exact h.onError error vendorCode removing

/-! ### What the session is spared -/

/-- A match is let through. -/
def waits (s : Session) : Bool := s.notified && s.active && s.authenticating && !s.lockedOut

/-- An authentication is running: a match is let through, or its success is about to be delivered. -/
def running (s : Session) : Bool :=
  match s.holder with
  | some (.verified _ _ _) => true
  | some (.began _) => false
  | _ => s.waits

/-- An authentication is running or about to begin. -/
def exposed (s : Session) : Bool :=
  match s.holder with
  | some (.verified _ _ _) => true
  | some (.began locked) => s.notified && s.active && !locked
  | _ => s.waits

/-- **The act is none of the three.** -/
def Spared (s : Session) : Act → Prop
  | .resetLockout hat nowMs saving => s.exposed = true → recent hat nowMs = true → saving = .ok
  | .onAuthenticated fingerId token _ _ saving =>
      s.waits = true → fingerId ≠ 0 → (bytesToHat token).isSome = true → saving = .ok
  | .reply request reply =>
      s.running = true → s.dead = true ∨ reply ≠ .ok → request ≠ .authenticate s.calls
  | _ => True

instance (s : Session) (act : Act) : Decidable (s.Spared act) :=
  match act with
  | .resetLockout hat nowMs saving =>
      inferInstanceAs (Decidable (s.exposed = true → recent hat nowMs = true → saving = .ok))
  | .onAuthenticated fingerId token _ _ saving =>
      inferInstanceAs (Decidable
        (s.waits = true → fingerId ≠ 0 → (bytesToHat token).isSome = true → saving = .ok))
  | .reply request reply =>
      inferInstanceAs (Decidable
        (s.running = true → s.dead = true ∨ reply ≠ .ok → request ≠ .authenticate s.calls))
  | .authenticate _ _ => isTrue trivial
  | .proceed _ _ => isTrue trivial
  | .enroll => isTrue trivial
  | .close => isTrue trivial
  | .worker _ => isTrue trivial
  | .onAcquired _ _ => isTrue trivial
  | .onError _ _ _ => isTrue trivial

/-- The invariant of the runs that are spared. -/
structure Guarded (s : Session) : Prop extends Ordered s where
  unlocked : s.exposed = true → s.tracker.lockedOut = false
  running : s.running = true → Running s.calls s.log
  verified : ∀ fingerId hat found, s.holder = some (.verified fingerId hat found) →
    s.authenticating = false ∧ found = false
  lawful : Lawful s.log

theorem guarded_create (tracker : Tracker) (cb : Nat) (check : Check) (opening : Opening) :
    Guarded (create tracker cb check opening) where
  toOrdered := ordered_create tracker cb check opening
  unlocked := by simp [create, exposed, waits]
  running := by simp [create, Session.running, waits]
  verified := by simp [create]
  lawful := each_nil

theorem exposed_of_free (hfree : s.holder = none) : s.exposed = s.waits := by
  simp [exposed, hfree]

theorem running_of_free (hfree : s.holder = none) : s.running = s.waits := by
  simp [Session.running, hfree]

theorem waits_of_idle (h : s.authenticating = false) : s.waits = false := by
  simp [waits, h]

/-- No authentication is running once `authenticating_` is false and no success is on its way. -/
theorem Guarded.idle (h : Ordered s') (hheld : s'.holder = none ∨ s'.holder = some .lockingOut)
    (hidle : s'.authenticating = false) (hlawful : Lawful s'.log) : Guarded s' := by
  have hwaits := waits_of_idle hidle
  refine ⟨h, ?_, ?_, ?_, hlawful⟩
  · rcases hheld with hheld | hheld <;> simp [exposed, hheld, hwaits]
  · rcases hheld with hheld | hheld <;> simp [Session.running, hheld, hwaits]
  · rcases hheld with hheld | hheld <;> simp [hheld]

/-- An entry that ends no running authentication. -/
theorem Guarded.aside (h : Guarded s) (haside : entry.Aside) (hallowed : Allowed s.log entry)
    (hkept : s.running = true → ¬entry.Ends s.calls) : Guarded (s.note entry) where
  toOrdered := h.toOrdered.aside haside
  unlocked := h.unlocked
  running := by
    intro hrunning
    rw [note_log, running_snoc]
    exact .inr ⟨hkept hrunning, h.running hrunning⟩
  verified := h.verified
  lawful := h.lawful.snoc hallowed

/-- The holder of the session goes on to its next place. -/
theorem Guarded.proceed {place : Place} (h : Guarded s) (hplace : s.holder = some place)
    (check : Check) (now : Moment) : Guarded (s.proceed place check now) := by
  have hordered := h.toOrdered.proceed hplace check now
  have hunlocked := h.unlocked
  have hrunning := h.running
  simp only [exposed, Session.running, hplace] at hunlocked hrunning
  cases place with
  | began locked =>
      refine ⟨hordered, ?_, ?_, by simp [Session.proceed], h.lawful.snoc trivial⟩
      · intro hexposed
        refine hunlocked ?_
        simp_all [exposed, waits, Session.proceed, note]
      · intro hwaits
        have hbegan : locked = false := by
          simp_all [Session.running, waits, Session.proceed, note]
        simp [Session.proceed, hbegan]
  | attempted locked =>
      have hallowed : Allowed s.log (.onAuthenticationFailed locked) :=
        ⟨h.delivers _ hplace rfl, (h.pending locked).mpr hplace⟩
      cases locked with
      | true => exact .idle hordered (.inr rfl) rfl (h.lawful.snoc hallowed)
      | false =>
          refine ⟨hordered, hunlocked, ?_, by simp [Session.proceed], h.lawful.snoc hallowed⟩
          intro hwaits
          simpa [Session.proceed, Entry.Ends] using hrunning hwaits
  | lockingOut =>
      refine ⟨hordered, ?_, hrunning, by simp [Session.proceed], h.lawful⟩
      intro hwaits
      exact Tracker.notifyLockout_unlocked check now s.cb (hunlocked hwaits)
  | verified fingerId hat found =>
      obtain ⟨hidle, hfound⟩ := h.verified fingerId hat found hplace
      refine Guarded.idle hordered (.inl rfl) hidle (h.lawful.snoc ?_)
      exact ⟨h.delivers _ hplace rfl, ⟨s.calls, hrunning rfl⟩, hfound, hunlocked rfl⟩

/-- An answer of the sensor keeps the guard, unless the save behind a success fails. -/
theorem Guarded.onAuthenticated (h : Guarded s) (hfree : s.holder = none)
    (hnotified : s.notified = true) {fingerId : BitVec 32} {token : List UInt8} {check : Check}
    {now : Moment} {saving : Saving} (hspared : s.Spared (.onAuthenticated fingerId token check now saving)) :
    Guarded (s.onAuthenticated fingerId token check now saving) := by
  have hordered := h.toOrdered.onAuthenticated hfree fingerId token check now saving
  have hfst := s.tracker.addFailedAttempt_fst check now saving
  have hpending := h.pending
  rw [hfree] at hpending
  simp only [Session.onAuthenticated] at hordered ⊢
  split
  · exact h
  rename_i hactive
  split
  · exact h
  rename_i hlets
  -- From here an operation waits for the answer.
  have hwaits : s.waits = true := by simp_all [waits]
  rw [if_neg hactive, if_neg hlets] at hordered
  split
  -- No finger was recognised: the attempt is counted, and the lock says whether the wait ends.
  · rename_i hzero
    rw [if_pos hzero] at hordered
    generalize s.tracker.addFailedAttempt check now saving = attempt at hordered hfst
    obtain ⟨locked, tracker⟩ := attempt
    have hallowed : Allowed s.log (.addFailedAttempt locked) := by
      intro locked'
      simp [hpending]
    refine ⟨hordered, ?_, ?_, by simp, h.lawful.snoc hallowed⟩
    · intro hexposed
      have hopen : locked = false := by simp_all [exposed, waits, note]
      exact hfst.symm.trans hopen
    · intro hrunning
      have hopen : locked = false := by simp_all [Session.running, waits, note]
      have hlast := h.running ((running_of_free hfree).trans hwaits)
      simpa [hopen, Entry.Ends] using hlast
  -- A finger was recognised: the wait ends without a token or with the reset of the counter.
  · rename_i hmatch
    rw [if_neg hmatch] at hordered
    have hunlocked := h.unlocked ((exposed_of_free hfree).trans hwaits)
    cases hhat : bytesToHat token with
    | none =>
        rw [hhat] at hordered
        exact .idle hordered (.inl hfree) rfl (h.lawful.snoc trivial)
    | some hat =>
        rw [hhat] at hordered
        -- This is where the spared step is needed: the reset is saved.
        have hok : saving = .ok := hspared hwaits hmatch (by simp [hhat])
        refine ⟨hordered, ?_, ?_, ?_, h.lawful⟩
        · intro _
          show (s.tracker.reset none saving).lockedOut = false
          rw [hok]
          exact Tracker.reset_unlocked none
        · intro _
          exact h.running ((running_of_free hfree).trans hwaits)
        · intro fingerId' hat' found' hholder
          cases hholder
          exact ⟨rfl, hunlocked⟩

theorem Guarded.replied (h : Guarded s) {request : Request} {reply : Reply}
    (hspared : s.Spared (.reply request reply)) : Guarded (s.replied request reply) := by
  have herased : Guarded { s with requests := s.requests.erase request } :=
    { h.toOrdered.congr rfl rfl rfl with
      unlocked := h.unlocked, running := h.running, verified := h.verified, lawful := h.lawful }
  have hother (error : FpError) (hbad : s.dead = true ∨ reply ≠ .ok) :
      s.running = true → ¬(Entry.onError (.request request) error 0).Ends s.calls := by
    intro hrunning
    simpa [Entry.Ends] using hspared hrunning hbad
  simp only [Session.replied]
  split
  · rename_i hbroken
    refine herased.aside trivial trivial (hother _ ?_)
    exact hbroken.imp_right (by simp_all)
  split
  · rename_i hrefused
    exact herased.aside trivial trivial (hother _ (.inr (by simp [hrefused])))
  · exact herased

theorem Guarded.onError (h : Guarded s) (hfree : s.holder = none) (error vendorCode : Int)
    (removing : Bool) : Guarded (s.onError error vendorCode removing) := by
  have hordered := h.toOrdered.onError error vendorCode removing
  simp only [Session.onError] at hordered ⊢
  split
  · exact h
  rename_i hactive
  split
  · exact h
  rename_i hremoving
  rw [if_neg hactive, if_neg hremoving] at hordered
  refine .idle hordered (.inl ?_) ?_ ?_
  · split_ifs <;> exact hfree
  · split_ifs <;> rfl
  · split_ifs
    · exact h.lawful.snoc trivial
    · exact h.lawful.snoc trivial
    · exact h.lawful.snoc trivial
    · exact h.lawful

/-- **The invariant is kept by every step that is spared.** -/
theorem Guarded.step (h : Guarded s) (hspared : s.Spared act) (hstep : s.step act = some s') :
    Guarded s' := by
  have hordered := h.toOrdered.step hstep
  cases act with
  | authenticate check now =>
      simp only [Session.step, Option.isNone_iff_eq_none, Option.ite_none_right_eq_some,
        Option.some.injEq] at hstep
      obtain ⟨-, rfl⟩ := hstep
      refine ⟨hordered, ?_, ?_, ?_, h.lawful⟩
      · intro hexposed
        have hfst := s.tracker.notifyLockout_fst check now s.cb
        have hbegan : (s.tracker.notifyLockout s.cb check now).1 = false := by
          simp_all [exposed, beginAuthentication]
        exact hfst.symm.trans hbegan
      · simp [Session.running, beginAuthentication]
      · simp [beginAuthentication]
  | proceed check now =>
      simp only [Session.step, Option.map_eq_some_iff] at hstep
      obtain ⟨place, hplace, rfl⟩ := hstep
      exact h.proceed hplace check now
  | reply request reply =>
      simp only [Session.step, Option.ite_none_right_eq_some, Option.some.injEq] at hstep
      obtain ⟨-, rfl⟩ := hstep
      exact h.replied hspared
  | enroll =>
      simp only [Session.step] at hstep
      split at hstep
      · cases hstep
        exact h.aside trivial trivial (by simp [Entry.Ends])
      · simp only [Option.isNone_iff_eq_none, Option.ite_none_right_eq_some,
          Option.some.injEq] at hstep
        obtain ⟨hfree, rfl⟩ := hstep
        exact .idle hordered (.inl hfree) rfl (h.lawful.snoc trivial)
  | resetLockout hat nowMs saving =>
      cases hstep
      simp only [Session.resetLockout] at hordered ⊢
      split
      · rename_i hrecent
        rw [if_pos hrecent] at hordered
        refine ⟨hordered, ?_, h.running, h.verified, h.lawful⟩
        intro hexposed
        have hok : saving = .ok := hspared hexposed hrecent
        show (s.tracker.reset (some s.cb) saving).lockedOut = false
        rw [hok]
        exact Tracker.reset_unlocked (some s.cb)
      · exact h.aside trivial trivial (by simp [Entry.Ends])
  | close =>
      cases hstep
      -- what the session is exposed to can only have become less
      have hclosed : Guarded { s with
          active := false, tracker := s.tracker.detach (some s.cb) true } := by
        refine ⟨h.toOrdered.congr rfl rfl rfl, ?_, ?_, h.verified, h.lawful⟩
        · intro hexposed
          show (s.tracker.detach (some s.cb) true).toLock.lockedOut = false
          rw [Tracker.detach_lock]
          refine h.unlocked ?_
          revert hexposed
          simp only [exposed, waits]
          split <;> simp
        · intro hrunning
          refine h.running ?_
          revert hrunning
          simp only [Session.running, waits]
          split <;> simp
      exact hclosed.aside trivial trivial (by simp [Entry.Ends])
  | worker check =>
      cases hstep
      refine ⟨hordered, ?_, h.running, h.verified, h.lawful⟩
      intro hexposed
      exact Tracker.expire_unlocked check (h.unlocked hexposed)
  | onAcquired info vendorCode =>
      simp only [Session.step, Option.ite_none_right_eq_some, Option.some.injEq] at hstep
      obtain ⟨-, rfl⟩ := hstep
      simp only [Session.onAcquired]
      split
      · exact h
      split
      · exact h
      · rename_i hlocked
        have hquiet : ¬Silenced s.log := fun hsilenced => hlocked (h.silenced hsilenced)
        exact h.aside trivial hquiet (by simp [Entry.Ends])
  | onAuthenticated fingerId token check now saving =>
      simp only [Session.step, Option.isNone_iff_eq_none, Option.ite_none_right_eq_some,
        Option.some.injEq] at hstep
      obtain ⟨⟨hnotified, hfree⟩, rfl⟩ := hstep
      exact h.onAuthenticated hfree hnotified hspared
  | onError error vendorCode removing =>
      simp only [Session.step, Option.isNone_iff_eq_none, Option.ite_none_right_eq_some,
        Option.some.injEq] at hstep
      obtain ⟨⟨-, hfree⟩, rfl⟩ := hstep
      exact h.onError hfree error vendorCode removing

theorem guarded {s : Session} (h : ReachWith Spared s) : Guarded s := by
  induction h with
  | create tracker cb check opening => exact guarded_create tracker cb check opening
  | step _ hspared hstep ih => exact ih.step hspared hstep

/-- Between two successes an `authenticate` has begun. -/
theorem Lawful.success_once (h : Lawful log) {first middle last : List Entry}
    {fingerId fingerId' : Int} {hat hat' : HardwareAuthToken} {found now found' now' : Bool}
    (heq : log = first ++ .onAuthenticationSucceeded fingerId hat found now :: middle ++
      .onAuthenticationSucceeded fingerId' hat' found' now' :: last) :
    ∃ call, Entry.authenticate call false ∈ middle := by
  obtain ⟨-, ⟨call, before, mark, after, hsplit, rfl, hquiet⟩, -⟩ := h _ _ last heq
  refine ⟨call, ?_⟩
  rcases List.append_eq_append_iff.mp hsplit with ⟨rest, -, hrest⟩ | ⟨rest, -, hrest⟩
  · -- the call began after the first success
    cases rest with
    | nil => cases hrest
    | cons _ rest =>
        obtain ⟨-, rfl⟩ := List.cons.inj hrest
        simp
  · -- or before it, and the first success would have ended it
    refine absurd trivial (hquiet (.onAuthenticationSucceeded fingerId hat found now) ?_)
    cases rest with
    | nil => cases hrest
    | cons _ rest =>
        obtain ⟨-, rfl⟩ := List.cons.inj hrest
        simp

/-! ### Runs -/

/-- The state that a list of acts leads to, if each can be taken and is `ok`. -/
def runWith (ok : Session → Act → Prop) [∀ s act, Decidable (ok s act)] (s : Session) :
    List Act → Option Session
  | [] => some s
  | act :: acts => if ok s act then (s.step act).bind fun s' => runWith ok s' acts else none

theorem reachWith_run {ok : Session → Act → Prop} [∀ s act, Decidable (ok s act)] {acts : List Act}
    (h : ReachWith ok s) (hrun : runWith ok s acts = some s') : ReachWith ok s' := by
  induction acts generalizing s with
  | nil =>
      cases hrun
      exact h
  | cons act acts ih =>
      simp only [runWith, Option.ite_none_right_eq_some, Option.bind_eq_some_iff] at hrun
      obtain ⟨hok, middle, hstep, hrun⟩ := hrun
      exact ih (h.step hok hstep) hrun

def atStart : Moment := ⟨0, 0, by decide⟩
def saved : Check := ⟨atStart, .ok, true⟩

/-- A session of an unlocked tracker. -/
def fresh : Session := create (.initial []) 1 saved .opened

def zeroHat : HardwareAuthToken := ⟨0, 0, 0, 0, 0, List.replicate 32 0⟩

/-- **No success while locked out**, in every run whose steps are all spared; and each
`authenticate` brings at most one success. -/
theorem no_success_while_locked_out {s : Session} (h : ReachWith Spared s) :
    Lawful s.log ∧ ∀ {first middle last : List Entry} {fingerId fingerId' : Int}
      {hat hat' : HardwareAuthToken} {found now found' now' : Bool},
      s.log = first ++ .onAuthenticationSucceeded fingerId hat found now :: middle ++
        .onAuthenticationSucceeded fingerId' hat' found' now' :: last →
      ∃ call, Entry.authenticate call false ∈ middle :=
  ⟨(guarded h).lawful, (guarded h).lawful.success_once⟩

/-- A call that the HAL accepts, one failure and one success. -/
def failThenMatch : List Act :=
  [.authenticate saved atStart, .proceed saved atStart, .reply (.authenticate 1) .ok,
    .onAcquired 0 0, .onAuthenticated 0 [] saved atStart .ok, .proceed saved atStart,
    .onAuthenticated 7 (List.replicate 69 0) saved atStart .ok, .proceed saved atStart]

theorem no_success_while_locked_out_failThenMatch :
    ∃ s, runWith Spared fresh failThenMatch = some s ∧
      s.log = [.authenticate 1 false, .onAcquired (.value 1) 0, .addFailedAttempt false,
        .onAuthenticationFailed false, .onAuthenticationSucceeded 7 zeroHat false false] ∧
      Lawful s.log := by
  have hrun : (runWith Spared fresh failThenMatch).map log =
      some [.authenticate 1 false, .onAcquired (.value 1) 0, .addFailedAttempt false,
        .onAuthenticationFailed false, .onAuthenticationSucceeded 7 zeroHat false false] := by
    decide +kernel
  obtain ⟨s, hs, hlog⟩ := Option.map_eq_some_iff.mp hrun
  exact ⟨s, hs, hlog, (no_success_while_locked_out (reachWith_run (.create _ _ _ _) hs)).1⟩

/-- `resetLockout` fails to save while the call runs, and so does the reset of the match. -/
def failedReset : List Act :=
  [.authenticate saved atStart, .proceed saved atStart, .reply (.authenticate 1) .ok,
    .resetLockout zeroHat 0 (.failed atStart),
    .onAuthenticated 7 (List.replicate 69 0) saved atStart (.failed atStart), .proceed saved atStart]

/-- The HAL refuses the call, which is reported, and a match comes. -/
def refusedCall : List Act :=
  [.authenticate saved atStart, .proceed saved atStart, .reply (.authenticate 1) .refused,
    .onAuthenticated 7 (List.replicate 69 0) saved atStart .ok, .proceed saved atStart]

/-- **A success while the tracker is locked out, and one for a call that has ended.** -/
theorem success_while_locked_out :
    (∃ s, ReachWith (fun _ _ => True) s ∧
      Entry.onAuthenticationSucceeded 7 zeroHat true true ∈ s.log ∧ ¬Lawful s.log) ∧
    ∃ s, ReachWith (fun _ _ => True) s ∧
      s.log = [.authenticate 1 false,
        .onError (.request (.authenticate 1)) .UNABLE_TO_PROCESS 0,
        .onAuthenticationSucceeded 7 zeroHat false false] ∧ ¬Lawful s.log := by
  have hfailed : (runWith (fun _ _ => True) fresh failedReset).map log =
      some [.authenticate 1 false, .onAuthenticationSucceeded 7 zeroHat true true] := by
    decide +kernel
  have hrefused : (runWith (fun _ _ => True) fresh refusedCall).map log =
      some [.authenticate 1 false, .onError (.request (.authenticate 1)) .UNABLE_TO_PROCESS 0,
        .onAuthenticationSucceeded 7 zeroHat false false] := by
    decide +kernel
  obtain ⟨s, hs, hlog⟩ := Option.map_eq_some_iff.mp hfailed
  obtain ⟨s', hs', hlog'⟩ := Option.map_eq_some_iff.mp hrefused
  refine ⟨⟨s, reachWith_run (.create _ _ _ _) hs, by simp [hlog], ?_⟩,
    s', reachWith_run (.create _ _ _ _) hs', hlog', ?_⟩
  · intro hlawful
    obtain ⟨-, -, hfound, -⟩ := hlawful [.authenticate 1 false] _ [] hlog
    cases hfound
  · intro hlawful
    obtain ⟨-, ⟨call, hrunning⟩, -⟩ := hlawful [_, _] _ [] hlog'
    -- the error has ended the only call
    have hlast := (@running_snoc [.authenticate 1 false] _ call).mp hrunning
    simp only [Entry.Ends, reduceCtorEq, false_or, Source.request.injEq,
      Request.authenticate.injEq] at hlast
    rcases (@running_snoc [] _ call).mp hlast.2 with heq | hnone
    · cases heq
      exact hlast.1 rfl
    · exact not_since_nil hnone.2

end Session

end Mindone.Fingerprint
