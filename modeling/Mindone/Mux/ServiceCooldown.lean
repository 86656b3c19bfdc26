import Mindone.Mux.ServicePublication
import Mindone.Mux.SessionRetries

/-!
# Mindone.Mux.ServiceCooldown

**A flapping channel does not restart the modem in a loop.** In daemon mode `recovery_tick`
asks for a new multiplexer at most once in 300 seconds, also across restarts. The cool-down is
kept by the session on the clock of its driver, taken over by the service on its own clock when
the driver is closed, and given to the session of the next driver.

Both clocks are taken to read one `time` of the world, in nanoseconds, that never runs back, as
the service's clock and `Instant` do on the device; the moments are those at which a turn that
escalates has read the clock. Each clock cuts the time since its own beginning to milliseconds,
and so the distance may come out one millisecond short: `Slack` says when. The sum of `now` and
the cool-down is a saturating one, so the distance is only kept below the largest time of a
`u64`.
-/

namespace Mindone.Mux.Service

open Mindone.Lib

variable {E ω : Type}

/-- **The clocks advance together**: both read the world's time, with an offset between them,
and nothing turns it back. The time is in nanoseconds since the service's clock began. -/
structure Lockstep (outside : Outside E ω) (time : ω → Nat) (offset : Nat) : Prop where
  prepare : ∀ endpoint w, time w ≤ time (outside.prepare endpoint w).2
  read : ∀ endpoint size w, time w ≤ time (outside.read endpoint size w).2
  write : ∀ endpoint bytes w, time w ≤ time (outside.write endpoint bytes w).2
  openEndpoint : ∀ c w, time w ≤ time (outside.openEndpoint c w).2
  epochsTaken : ∀ w, time w ≤ time (outside.epochsTaken w).2
  set : ∀ property value w, time w ≤ time (outside.set property value w).2
  openSerial : ∀ w, time w ≤ time (outside.openSerial w).2
  poll : ∀ interests timeout w, time w ≤ time (outside.poll interests timeout w).2
  clock : ∀ w, time w ≤ time (outside.clock w).2
  instant : ∀ w, time w ≤ time (outside.instant w).2
  /-- The service's clock gives milliseconds that fit into a `u64`. -/
  clock_reads : ∀ {w n}, (outside.clock w).1 = some n → n = time w / nanosPerMs ∧ n ≤ u64Max
  instant_reads : ∀ w, (outside.instant w).1 = time w + offset

/-- The services in daemon mode. -/
inductive DaemonReach (outside : Outside E ω) : Service E ω → Prop
  | start {config : Config} {w : ω} {generation nextWrite : Nat} {s : Service E ω} (baud pin : Int)
      (h : new outside config w generation nextWrite = some s) :
      DaemonReach outside (s.daemonMode baud pin)
  | next {s : Service E ω} (h : DaemonReach outside s) (input : Input) :
      DaemonReach outside (s.next outside input)

/-! ### Time goes on -/

section Time

variable {outside : Outside E ω} {time : ω → Nat} {offset : Nat}
  (hlock : Lockstep outside time offset)
include hlock

theorem Lockstep.hostSet (property : Property) (value : Value) (h : Host ω) :
    time h.world ≤ time (h.set outside property value).2.world := by
  unfold Host.set
  split
  · exact Nat.le_refl _
  dsimp only
  split
  · exact hlock.set _ _ _
  · exact hlock.set _ _ _

theorem Lockstep.setBoth (first second : Property × Value) (h : Host ω) :
    time h.world ≤ time (h.setBoth outside first second).2.world := by
  unfold Host.setBoth
  dsimp only
  split
  · exact Nat.le_trans (hlock.hostSet _ _ _) (hlock.hostSet _ _ _)
  · exact hlock.hostSet _ _ _

theorem Lockstep.initializeProperties (h : Host ω) :
    time h.world ≤ time (h.initializeProperties outside).2.world := by
  unfold Host.initializeProperties
  split
  · exact Nat.le_refl _
  dsimp only
  split
  · exact hlock.setBoth _ _ _
  · exact hlock.setBoth _ _ _

theorem Lockstep.recover (value : Value) (h : Host ω) :
    time h.world ≤ time (h.recover outside value).2.world := by
  unfold Host.recover
  split
  · exact hlock.setBoth _ _ _
  · exact Nat.le_refl _

theorem Lockstep.apply (event : Runtime.Event) (h : Host ω) :
    time h.world ≤ time (h.apply outside event).2.world := by
  unfold Host.apply
  split
  · exact Nat.le_refl _
  split
  · unfold Host.ready
    split
    · split
      · exact hlock.hostSet _ _ _
      · exact Nat.le_refl _
    dsimp only
    split
    · exact hlock.setBoth _ _ _
    · exact hlock.setBoth _ _ _
  · exact hlock.hostSet _ _ _
  · exact hlock.hostSet _ _ _

theorem Lockstep.waitReady (interests : List Runtime.Interest) (now : Nat) (deadline : Option Nat)
    (maximum : Nat) (h : Host ω) :
    time h.world ≤ time (waitReady outside interests now deadline maximum h).2.world := by
  unfold Service.waitReady
  split
  · exact Nat.le_refl _
  dsimp only [Host.lift]
  have hpoll := hlock.poll interests
    (deadline.elim maximum fun due => min maximum (due - now)) h.world
  split
  · rename_i h' heq
    rw [← (Prod.mk.inj heq).2]
    exact hpoll
  · rename_i h' heq
    rw [← (Prod.mk.inj heq).2]
    exact hpoll
  · rename_i masks h' heq
    rw [← (Prod.mk.inj heq).2]
    exact hpoll

/-- In a turn, with the cool-down as a parameter. -/
theorem Lockstep.heeded (start : Nat) (P : Nat → Prop) : Runtime.Heeded outside.env
    (fun h e => start ≤ time h.world ∧ P e) fun h _ => start ≤ time h.world where
  weaken hK := hK.1
  prepare hK := ⟨Nat.le_trans hK.1 (hlock.prepare _ _), hK.2⟩
  openEndpoint hK := ⟨Nat.le_trans hK.1 (hlock.openEndpoint _ _), hK.2⟩
  epochsTaken hK := ⟨Nat.le_trans hK.1 (hlock.epochsTaken _), hK.2⟩
  read hK := ⟨Nat.le_trans hK.1 (hlock.read _ _ _), hK.2⟩
  write hK := ⟨Nat.le_trans hK.1 (hlock.write _ _ _), hK.2⟩
  accepted hK _ := ⟨Nat.le_trans hK.1 (hlock.apply _ _), hK.2⟩
  rejected hK _ := Nat.le_trans hK.1 (hlock.apply _ _)

end Time

/-! ### Cutting to milliseconds -/

/-- An instant on the service's clock. -/
def serviceMs (offset instant : Nat) : Nat := (instant - offset) / nanosPerMs

/-- How many milliseconds the cutting may lose between two moments of the world. -/
def Slack (time : ω → Nat) (slack : Nat) : Prop :=
  ∀ w w', time w' ≤ time w →
    time w / nanosPerMs ≤ time w' / nanosPerMs + (time w - time w') / nanosPerMs + slack

/-- At most one. -/
theorem slack_one (time : ω → Nat) : Slack time 1 := by
  intro w w' hle
  unfold nanosPerMs
  omega

/-- None, when all moments lie in one fraction of a millisecond. -/
theorem slack_zero {time : ω → Nat}
    (haligned : ∀ w w', time w % nanosPerMs = time w' % nanosPerMs) : Slack time 0 := by
  intro w w' hle
  have hfraction := haligned w w'
  unfold nanosPerMs at hfraction ⊢
  omega

theorem serviceMs_mono {offset a b : Nat} (h : a ≤ b) : serviceMs offset a ≤ serviceMs offset b :=
  Nat.div_le_div_right (Nat.sub_le_sub_right h offset)

/-- Whole milliseconds of the driver's clock are whole ones of the service's clock. -/
theorem serviceMs_add {offset origin : Nat} (h : offset ≤ origin) (n : Nat) :
    serviceMs offset (origin + n * nanosPerMs) = serviceMs offset origin + n := by
  unfold serviceMs nanosPerMs
  omega

theorem serviceMs_instant (offset now : Nat) : serviceMs offset (now + offset) = now / nanosPerMs := by
  rw [serviceMs, Nat.add_sub_cancel]

/-- What the driver's clock has read is not ahead of the service's clock. -/
theorem serviceMs_reading {offset origin instant n : Nat} (h : offset ≤ origin)
    (hread : origin + n * nanosPerMs ≤ instant) :
    serviceMs offset origin + n ≤ serviceMs offset instant := by
  rw [← serviceMs_add h]
  exact serviceMs_mono hread

/-! ### The driver -/

/-- A runtime that has failed stays so. -/
theorem alive_of_drive {env : Runtime.Env E ω} {r : Runtime E ω} {now : Nat}
    {events : List Runtime.Ready} {limits : Runtime.Limits}
    (h : (Runtime.drive env r now events limits).2.state ≠ .failed) : r.state ≠ .failed := by
  intro hfailed
  unfold Runtime.drive at h
  rw [if_pos (.inr hfailed)] at h
  exact h hfailed

/-- It does not escalate either. -/
theorem alive_of_escalates {env : Runtime.Env E ω} {r : Runtime E ω} {now : Nat}
    {events : List Runtime.Ready} {limits : Runtime.Limits}
    (h : Runtime.escalates env r now events limits = true) : r.state ≠ .failed := by
  intro hfailed
  unfold Runtime.escalates at h
  rw [if_pos (.inr hfailed)] at h
  cases h

/-- The moment `a` has rested when `due` is reached, in milliseconds of the service's clock. The
cutting may lose the slack. The sum of a saturating addition may fall short of it, but not of
the largest time. -/
def Rests (offset slack due a : Nat) : Prop :=
  serviceMs offset a + 300000 ≤ due + slack ∨ u64Max ≤ due

theorem Rests.mono {offset slack due due' a : Nat} (h : Rests offset slack due a)
    (hle : due ≤ due') : Rests offset slack due' a := by
  unfold Rests at h ⊢
  omega

/-- Two moments are apart. -/
abbrev Apart (offset slack a b : Nat) : Prop := Rests offset slack (serviceMs offset b) a

/-- **The invariant of a driver**: its session escalates only when all moments have rested. -/
structure Driver.Cool (time : ω → Nat) (offset slack : Nat) (h : Host ω) (escalations : List Nat)
    (driver : Driver E ω) : Prop where
  born : ∃ w, driver.origin = time w + offset
  lastNow : driver.origin + driver.runtime.lastNow * nanosPerMs ≤ time h.world + offset
  rests : driver.runtime.state ≠ .failed → ∀ a ∈ escalations,
    Rests offset slack
      (serviceMs offset driver.origin + driver.runtime.session.escalationAfter) a

/-- The moments are apart, and the driver respects them. -/
structure Driver.Paced (time : ω → Nat) (offset slack : Nat) (h : Host ω) (escalations : List Nat)
    (driver : Driver E ω) : Prop extends Driver.Cool time offset slack h escalations driver where
  apart : escalations.Pairwise (Apart offset slack)

/-- What a step of a driver leaves: the moments apart, and a driver that respects them unless
the step has failed. -/
structure Driver.Stepped (time : ω → Nat) (offset slack : Nat) (h : Host ω)
    (escalations : List Nat)
    (result : Option Runtime.Report × Driver E ω × Host ω × List Nat) : Prop where
  later : time h.world ≤ time result.2.2.1.world
  apart : (escalations ++ result.2.2.2).Pairwise (Apart offset slack)
  cool : ∀ report, result.1 = some report →
    result.2.1.Cool time offset slack result.2.2.1 (escalations ++ result.2.2.2) ∧
      report.state = result.2.1.runtime.state

section Drivers

variable {outside : Outside E ω} {time : ω → Nat} {offset slack : Nat}
  (hlock : Lockstep outside time offset) (hslack : Slack time slack)

theorem Driver.Cool.later {h h' : Host ω} {escalations : List Nat} {driver : Driver E ω}
    (hcool : driver.Cool time offset slack h escalations) (hle : time h.world ≤ time h'.world) :
    driver.Cool time offset slack h' escalations :=
  ⟨hcool.born, Nat.le_trans hcool.lastNow (Nat.add_le_add_right hle offset), hcool.rests⟩

include hslack in
/-- A moment has rested 300 seconds of the driver's clock after the reading that gave it. -/
theorem Driver.rests_after {driver : Driver E ω} (hborn : ∃ w, driver.origin = time w + offset)
    {instant : Nat} (hinstant : ∃ w, instant = time w + offset) {now : Nat}
    (hnow : now = (instant - driver.origin) / nanosPerMs) (hle : driver.origin ≤ instant) :
    Rests offset slack (serviceMs offset driver.origin + (now + 300000)) instant := by
  obtain ⟨w, hw⟩ := hborn
  obtain ⟨w', hw'⟩ := hinstant
  have hlost := hslack w' w (by omega)
  have hms : serviceMs offset instant = time w' / nanosPerMs := by
    rw [hw', serviceMs_instant]
  have horigin : serviceMs offset driver.origin = time w / nanosPerMs := by
    rw [hw, serviceMs_instant]
  have helapsed : instant - driver.origin = time w' - time w := by omega
  rw [helapsed] at hnow
  left
  omega

include hlock

/-- A reading of the driver's clock. -/
theorem Driver.now_reads {driver : Driver E ω} {h : Host ω} {now : Nat}
    (hnow : (driver.now outside h).1 = some now) :
    h.instant outside = time h.world + offset ∧
      now = (h.instant outside - driver.origin) / nanosPerMs := by
  unfold Driver.now at hnow
  dsimp only [Host.lift] at hnow
  split_ifs at hnow
  cases hnow
  exact ⟨hlock.instant_reads _, rfl⟩

theorem Driver.now_time (driver : Driver E ω) (h : Host ω) :
    time h.world ≤ time (driver.now outside h).2.world := hlock.instant _

include hslack

/-- **A turn.** The cool-down is over when it escalates, and starts again. -/
theorem Driver.turn_paced {driver : Driver E ω} {h : Host ω} {escalations : List Nat}
    (hpaced : driver.Paced time offset slack h escalations) {instant now : Nat}
    (hinstant : ∃ w, instant = time w + offset) (hle : driver.origin ≤ instant)
    (hlater : instant ≤ time h.world + offset)
    (hnow : now = (instant - driver.origin) / nanosPerMs) (events : List Runtime.Ready)
    (limits : Runtime.Limits) :
    let result := driver.turn outside instant now events limits h
    time h.world ≤ time result.2.2.1.world ∧
      result.2.1.Paced time offset slack result.2.2.1 (escalations ++ result.2.2.2) ∧
      result.1.state = result.2.1.runtime.state := by
  intro result
  generalize hruntime : ({ driver.runtime with
    context := { driver.runtime.context with world := h } } : Runtime E (Host ω)) = r
  have hworld : r.context.world = h := by rw [← hruntime]
  have hstate : r.state = driver.runtime.state := by rw [← hruntime]
  have hesc : r.session.escalationAfter = driver.runtime.session.escalationAfter := by
    rw [← hruntime]
  have hlast : r.lastNow = driver.runtime.lastNow := by rw [← hruntime]
  have hresult : result = ((Runtime.drive outside.env r now events limits).1,
      { driver with runtime := (Runtime.drive outside.env r now events limits).2 },
      (Runtime.drive outside.env r now events limits).2.context.world,
      if Runtime.escalates outside.env r now events limits then [instant] else []) := by
    rw [← hruntime]
    rfl
  rw [hresult]
  -- the cool-down in the turn, and the time
  have hstart : time h.world ≤ time r.context.world.world ∧
      r.session.escalationAfter = r.session.escalationAfter := ⟨by rw [hworld], rfl⟩
  have hK := hlock.heeded (time h.world) (· = r.session.escalationAfter)
  have hL := hlock.heeded (time h.world) (· = now + 300000)
  obtain ⟨hkept, htime, hlastNow⟩ := hK.drive hL (fun hK _ => ⟨hK.1, rfl⟩) events limits hstart
  have hdue : Runtime.escalates outside.env r now events limits = true →
      r.session.escalationAfter ≤ now := hK.escalates_due (fun hK hle => hK.2 ▸ hle) hstart
  have hreport := Runtime.drive_report_state outside.env r now events limits
  have halive : (Runtime.drive outside.env r now events limits).2.state ≠ .failed →
      r.state ≠ .failed := alive_of_drive
  have hrests := hpaced.rests
  rw [← hstate, ← hesc] at hrests
  -- the reading of the driver's clock, on both clocks
  have hread : driver.origin + now * nanosPerMs ≤ instant := by
    have hcut := Nat.div_mul_le_self (instant - driver.origin) nanosPerMs
    rw [← hnow] at hcut
    omega
  have hreached : serviceMs offset driver.origin + now ≤ serviceMs offset instant := by
    obtain ⟨w, hw⟩ := hpaced.born
    exact serviceMs_reading (hw ▸ Nat.le_add_left _ _) hread
  have hescalating : Runtime.escalates outside.env r now events limits = true →
      ∀ a ∈ escalations, Rests offset slack (serviceMs offset driver.origin + now) a := by
    intro hescalates a ha
    exact (hrests (alive_of_escalates hescalates) a ha).mono
      (Nat.add_le_add_left (hdue hescalates) _)
  generalize Runtime.drive outside.env r now events limits = after
    at hkept htime hlastNow hreport halive ⊢
  have hlast' : driver.origin + after.2.lastNow * nanosPerMs ≤
      time after.2.context.world.world + offset := by
    have hlow := hpaced.lastNow
    rcases hlastNow with heq | heq
    · rw [heq, hlast]
      omega
    · rw [heq]
      omega
  refine ⟨htime, ?_, hreport⟩
  cases hescalates : Runtime.escalates outside.env r now events limits with
  | false =>
      rw [hescalates, if_neg Bool.false_ne_true] at hkept
      rw [if_neg Bool.false_ne_true, List.append_nil]
      refine ⟨⟨hpaced.born, hlast', fun hok a ha => ?_⟩, hpaced.apart⟩
      show Rests offset slack
        (serviceMs offset driver.origin + after.2.session.escalationAfter) a
      rw [(hkept hok).2]
      exact hrests (halive hok) a ha
  | true =>
      rw [hescalates, if_pos rfl] at hkept
      rw [if_pos rfl]
      refine ⟨⟨hpaced.born, hlast', fun hok a ha => ?_⟩, ?_⟩
      · show Rests offset slack
          (serviceMs offset driver.origin + after.2.session.escalationAfter) a
        rw [(hkept hok).2]
        rcases List.mem_append.mp ha with hold | hnew
        · exact (hescalating hescalates a hold).mono
            (Nat.add_le_add_left (Nat.le_add_right _ _) _)
        · rw [List.mem_singleton.mp hnew]
          exact Driver.rests_after hslack hpaced.born hinstant hnow hle
      · refine List.pairwise_append.mpr ⟨hpaced.apart, List.pairwise_singleton _ _, ?_⟩
        intro a ha b hb
        rw [List.mem_singleton.mp hb]
        exact (hescalating hescalates a ha).mono hreached

/-- **A step of the driver.** -/
theorem Driver.step_paced {driver : Driver E ω} {h : Host ω} {escalations : List Nat}
    (hpaced : driver.Paced time offset slack h escalations) (maximum : Nat)
    (limits : Runtime.Limits) :
    Driver.Stepped time offset slack h escalations (driver.step outside maximum limits h) := by
  have horigin : driver.origin ≤ time h.world + offset :=
    Nat.le_trans (Nat.le_add_right _ _) hpaced.lastNow
  -- the turn that ends the step: the clock is read in one host, and the turn is in the next one
  have hturn : ∀ (h₁ h₂ : Host ω) (now : Nat) (events : List Runtime.Ready),
      time h.world ≤ time h₁.world → driver.now outside h₁ = (some now, h₂) →
      Driver.Stepped time offset slack h escalations
        (some (driver.turn outside (h₁.instant outside) now events limits h₂).1,
          (driver.turn outside (h₁.instant outside) now events limits h₂).2) := by
    intro h₁ h₂ now events hle hnow
    obtain ⟨hinstant, hreads⟩ := Driver.now_reads hlock (by rw [hnow])
    have hafter := Driver.now_time hlock driver h₁
    rw [hnow] at hafter
    have hle₂ := Nat.le_trans hle hafter
    obtain ⟨htime, hpaced', hreport⟩ := Driver.turn_paced hlock hslack
      ⟨hpaced.toCool.later hle₂, hpaced.apart⟩ ⟨_, hinstant⟩
      (hinstant ▸ Nat.le_trans horigin (Nat.add_le_add_right hle offset))
      (hinstant ▸ Nat.add_le_add_right hafter offset) hreads events limits
    refine ⟨Nat.le_trans hle₂ htime, hpaced'.apart, ?_⟩
    rintro _ ⟨⟩
    exact ⟨hpaced'.toCool, hreport⟩
  have hstop : ∀ (d : Driver E ω) (h' : Host ω), time h.world ≤ time h'.world →
      Driver.Stepped time offset slack h escalations (none, d, h', []) := by
    intro d h' hle
    refine ⟨hle, ?_, ?_⟩
    · show (escalations ++ []).Pairwise _
      rw [List.append_nil]
      exact hpaced.apart
    · rintro _ ⟨⟩
  have hfirst := Driver.now_time hlock driver h
  unfold Driver.step
  dsimp only
  split
  · rename_i h₁ hnow₁
    rw [hnow₁] at hfirst
    exact hstop _ _ hfirst
  · rename_i now₁ h₁ hnow₁
    rw [hnow₁] at hfirst
    split
    · exact hturn h h₁ now₁ [] (Nat.le_refl _) hnow₁
    · have hwait := hlock.waitReady driver.runtime.interests now₁ driver.runtime.nextDeadline
        maximum h₁
      split
      · rename_i h₂ hwaited
        rw [hwaited] at hwait
        exact hstop _ _ (Nat.le_trans hfirst hwait)
      · rename_i events h₂ hwaited
        rw [hwaited] at hwait
        have hsecond := Driver.now_time hlock driver h₂
        split
        · rename_i h₃ hnow₃
          rw [hnow₃] at hsecond
          exact hstop _ _ (Nat.le_trans (Nat.le_trans hfirst hwait) hsecond)
        · rename_i now₃ h₃ hnow₃
          exact hturn h₂ h₃ now₃ events (Nat.le_trans hfirst hwait) hnow₃

end Drivers

/-! ### The service -/

/-- The phases that open the modem. -/
def Phase.opens : Phase → Bool
  | .starting | .restarting _ => true
  | _ => false

/-- **The invariant of the service**: the moments are apart, and both the driver and the
service without one wait until they have rested. -/
structure Cool (time : ω → Nat) (offset slack : Nat) (s : Service E ω) : Prop where
  daemon : s.daemon.isSome = true
  apart : s.escalations.Pairwise (Apart offset slack)
  driver : ∀ d, s.driver = some d → d.Cool time offset slack s.host s.escalations
  opens : s.phase.opens = true → ∀ a ∈ s.escalations, Rests offset slack s.escalationAfter a

/-- The service has ended: it does not open the modem again. -/
structure Ended (s s' : Service E ω) : Prop where
  daemon : s'.daemon = s.daemon
  escalations : s'.escalations = s.escalations
  driver : s'.driver = none
  phase : s'.phase.opens = false

theorem Cool.ended {time : ω → Nat} {offset slack : Nat} {s s' : Service E ω}
    (hcool : Cool time offset slack s) (h : Ended s s') : Cool time offset slack s' where
  daemon := h.daemon ▸ hcool.daemon
  apart := h.escalations ▸ hcool.apart
  driver d hd := absurd (h.driver.symm.trans hd) (by simp)
  opens hopens := absurd (h.phase.symm.trans hopens) (by simp)

@[simp] theorem close_escalations (s : Service E ω) : s.close.escalations = s.escalations := by
  unfold close
  split
  · rfl
  · rfl

@[simp] theorem close_escalationAfter (s : Service E ω) :
    s.close.escalationAfter = s.escalationAfter := by
  unfold close
  split
  · rfl
  · rfl

@[simp] theorem close_driver (s : Service E ω) : s.close.driver = none := by
  unfold close
  split
  · assumption
  · rfl

section Steps

variable {outside : Outside E ω} {time : ω → Nat} {offset slack : Nat} {s s' s₀ : Service E ω}

theorem finish_ended {exit : Exit} (hdaemon : s.daemon = s₀.daemon)
    (hsame : s.escalations = s₀.escalations) : Ended s₀ (s.finish exit) :=
  ⟨(close_daemon s).trans hdaemon, (close_escalations s).trans hsame, close_driver s, rfl⟩

/-- The clock is read. -/
theorem now_cases (hlock : Lockstep outside time offset) (s : Service E ω) :
    (∃ s', s.now outside = (none, s') ∧ Ended s s') ∨
    ∃ now host, s.now outside = (some now, { s with host, lastNow := now }) ∧
      now = time s.host.world / nanosPerMs ∧ time s.host.world ≤ time host.world := by
  have hlater := hlock.clock s.host.world
  unfold Service.now
  dsimp only [Host.lift]
  cases hreading : (outside.clock s.host.world).1 with
  | none => exact .inl ⟨_, rfl, finish_ended rfl rfl⟩
  | some now =>
      obtain ⟨rfl, -⟩ := hlock.clock_reads hreading
      dsimp only
      split
      · exact .inr ⟨_, _, rfl, rfl, hlater⟩
      · exact .inl ⟨_, rfl, finish_ended rfl rfl⟩

variable (hlock : Lockstep outside time offset) (hslack : Slack time slack)
include hlock

theorem recovery_ended {now : Nat} (hdaemon : s.daemon = s₀.daemon)
    (hsame : s.escalations = s₀.escalations) : Ended s₀ (s.recovery outside now) := by
  have hdaemon' := (close_daemon s).trans hdaemon
  have hsame' := (close_escalations s).trans hsame
  unfold Service.recovery
  dsimp only
  split
  · exact finish_ended hdaemon' hsame'
  split
  swap
  · exact finish_ended hdaemon' hsame'
  rcases now_cases hlock { s.close with host := (s.close.host.recover outside .one).2 } with
    ⟨s', hnow, hended⟩ | ⟨now', host, hnow, -, -⟩
  · rw [hnow]
    exact ⟨hended.daemon.trans hdaemon', hended.escalations.trans hsame', hended.driver,
      hended.phase⟩
  · rw [hnow]
    dsimp only
    split
    · exact finish_ended hdaemon' hsame'
    · exact ⟨hdaemon', hsame', close_driver s, rfl⟩

theorem failed_ended {now : Nat} {error : Runtime.Error} (hdaemon : s.daemon = s₀.daemon)
    (hsame : s.escalations = s₀.escalations) : Ended s₀ (s.failed outside now error) := by
  have hdaemon' : ({ s with runtimeError := some error } : Service E ω).close.daemon = s₀.daemon :=
    (close_daemon _).trans hdaemon
  have hsame' : ({ s with runtimeError := some error } : Service E ω).close.escalations =
      s₀.escalations := (close_escalations _).trans hsame
  unfold Service.failed
  dsimp only
  split
  · exact finish_ended hdaemon' hsame'
  split
  · exact finish_ended hdaemon' hsame'
  split
  · exact finish_ended hdaemon' hsame'
  split
  · exact finish_ended hdaemon' hsame'
  · exact recovery_ended hlock hdaemon' hsame'

/-- A new driver starts its clock behind the opening, with a cool-down that is over. -/
theorem newDriver_fresh (s : Service E ω) (serial : E) (channels : List ChannelConfig) :
    (s.newDriver outside serial channels).2 =
        { s with host := (s.newDriver outside serial channels).2.host } ∧
      ∀ driver, (s.newDriver outside serial channels).1 = .ok driver →
        driver.origin = time s.host.world + offset ∧ driver.runtime.lastNow = 0 ∧
        driver.origin ≤ time (s.newDriver outside serial channels).2.host.world + offset := by
  have hmade := (hlock.heeded (time s.host.world) fun _ => True).new serial channels
    ({ s with host := (s.host.lift outside.instant).2 } : Service E ω).chatConfig
    0 s.generation s.nextWrite (w := (s.host.lift outside.instant).2) ⟨hlock.instant _, trivial⟩
  unfold Service.newDriver
  dsimp only
  split
  · exact ⟨rfl, fun driver hd => by cases hd⟩
  · rename_i runtime host hnew
    rw [hnew] at hmade
    obtain ⟨⟨htime, -⟩, hfresh⟩ := hmade
    refine ⟨rfl, ?_⟩
    rintro _ ⟨⟩
    dsimp only [Host.lift]
    rw [hlock.instant_reads]
    exact ⟨rfl, (hfresh runtime rfl).2.2, Nat.add_le_add_right htime offset⟩

/-- **The modem is opened**: the driver takes over what is left of the cool-down. -/
theorem Cool.openModem (hcool : Cool time offset slack s)
    (hrests : ∀ a ∈ s.escalations, Rests offset slack s.escalationAfter a) {now : Nat}
    (hnow : now ≤ time s.host.world / nanosPerMs) :
    Cool time offset slack (s.openModem outside now) := by
  unfold Service.openModem
  dsimp only
  split
  -- Without a session to open the service has ended.
  swap
  · exact hcool.ended (finish_ended rfl rfl)
  have hinit := hlock.initializeProperties s.host
  have hopen := hlock.openSerial (s.host.initializeProperties outside).2.world
  split
  · exact hcool.ended (recovery_ended hlock rfl rfl)
  rename_i serial channels _
  -- What the service looks like once the serial line is open.
  generalize hs₁ : ({ s with
    host := { ((s.host.initializeProperties outside).2.lift outside.openSerial).2 with
      log := ((s.host.initializeProperties outside).2.lift outside.openSerial).2.log ++
        [Log.opened] } } : Service E ω) = s₁
  have htime : time s.host.world ≤ time s₁.host.world := by
    rw [← hs₁]
    exact Nat.le_trans hinit hopen
  have hdaemon : s₁.daemon = s.daemon := by rw [← hs₁]
  have hescalations : s₁.escalations = s.escalations := by rw [← hs₁]
  have hafter : s₁.escalationAfter = s.escalationAfter := by rw [← hs₁]
  -- The new driver starts its own clock, not earlier than the service's.
  obtain ⟨hsame, hfresh⟩ := newDriver_fresh hlock s₁ serial channels
  split
  · rename_i error s₂ hnew
    rw [hnew] at hsame
    dsimp only at hsame
    refine hcool.ended (failed_ended hlock ?_ ?_)
    · rw [hsame]
      exact hdaemon
    · rw [hsame]
      exact hescalations
  · rename_i driver s₂ hnew
    rw [hnew] at hsame hfresh
    obtain ⟨horigin, hlast, hlater⟩ := hfresh driver rfl
    dsimp only at hsame hlater
    have hdaemon₂ : s₂.daemon = s.daemon := by rw [hsame, hdaemon]
    have hescalations₂ : s₂.escalations = s.escalations := by rw [hsame, hescalations]
    have hafter₂ : s₂.escalationAfter = s.escalationAfter := by rw [hsame, hafter]
    rw [if_pos (hdaemon₂ ▸ hcool.daemon), hafter₂]
    refine ⟨hdaemon₂ ▸ hcool.daemon, hescalations₂ ▸ hcool.apart, ?_, fun hopens => nomatch hopens⟩
    rintro _ ⟨⟩
    -- Its first escalation is due when the rest of the cool-down has passed on that clock.
    refine ⟨⟨_, horigin⟩, ?_, fun _ a ha => ?_⟩
    · show driver.origin + driver.runtime.lastNow * nanosPerMs ≤ _
      rw [hlast, Nat.zero_mul]
      exact hlater
    · refine (hrests a (hescalations₂ ▸ ha)).mono ?_
      show _ ≤ serviceMs offset driver.origin + (s.escalationAfter - now)
      rw [horigin, serviceMs_instant]
      have hlate := Nat.div_le_div_right (c := nanosPerMs) htime
      omega

/-- **The driver has closed**: the service keeps what is left of its cool-down. -/
theorem Cool.observed (hcool : Cool time offset slack s) {driver : Driver E ω}
    (hdriver : s.driver = some driver) {report : Runtime.Report}
    (hstate : report.state = driver.runtime.state) {h : Host ω}
    (hdriverCool : driver.Cool time offset slack h s.escalations) {now : Nat}
    (hnow : now = time h.world / nanosPerMs) :
    Cool time offset slack (s.observed outside now report) := by
  unfold Service.observed
  cases hreport : report.state with
  | failed => exact hcool.ended (failed_ended hlock rfl rfl)
  | closed =>
      dsimp only
      split
      · refine hcool.ended (finish_ended ?_ ?_)
        · rw [close_daemon]
        · rw [close_escalations]
      · refine ⟨?_, ?_, ?_, ?_⟩
        · show (close _).daemon.isSome = true
          rw [close_daemon]
          exact hcool.daemon
        · show (close _).escalations.Pairwise _
          rw [close_escalations]
          exact hcool.apart
        · intro d hd
          cases (close_driver _).symm.trans hd
        · intro _ a ha
          rw [close_escalations] at ha
          show Rests offset slack (close _).escalationAfter a
          rw [close_escalationAfter, hdriver]
          have hrests := hdriverCool.rests (by rw [← hstate, hreport]; simp) a ha
          -- the driver's clock has not run longer than the service's one
          have hran : serviceMs offset driver.origin + driver.runtime.lastNow ≤ now := by
            obtain ⟨w, hw⟩ := hdriverCool.born
            rw [hnow, ← serviceMs_instant offset]
            exact serviceMs_reading (hw ▸ Nat.le_add_left _ _) hdriverCool.lastNow
          dsimp only [Option.elim, Runtime.recoveryCooldown, Session.recoveryCooldown]
          unfold Rests at hrests ⊢
          omega
  | startup => exact hcool
  | multiplexing => exact hcool
  | peerClosing => exact hcool

omit hlock in
theorem Cool.later (hcool : Cool time offset slack s) {host : Host ω} {lastNow : Nat}
    (hle : time s.host.world ≤ time host.world) :
    Cool time offset slack { s with host, lastNow } :=
  ⟨hcool.daemon, hcool.apart, fun d hd => (hcool.driver d hd).later hle, hcool.opens⟩

/-- Waiting for a deadline; what is due then finds a service in the same phase. -/
theorem Cool.waitFor (hcool : Cool time offset slack s) (now deadline maximum : Nat)
    {due : Service E ω → Nat → Service E ω}
    (hdue : ∀ s' now', Cool time offset slack s' → s'.phase = s.phase →
      now' ≤ time s'.host.world / nanosPerMs →
      Cool time offset slack (due s' now')) :
    Cool time offset slack (s.waitFor outside now deadline maximum due) := by
  unfold Service.waitFor
  dsimp only
  have htime : time s.host.world ≤ time
      (if now < deadline then waitReady outside [] now (some deadline) maximum s.host
        else (some [], s.host)).2.world := by
    split
    · exact hlock.waitReady _ _ _ _ _
    · exact Nat.le_refl _
  generalize (if now < deadline then waitReady outside [] now (some deadline) maximum s.host
    else (some [], s.host)) = waited at htime ⊢
  split
  · exact hcool.ended (finish_ended rfl rfl)
  have hwaited : Cool time offset slack { s with host := waited.2 } := hcool.later htime
  rcases now_cases hlock { s with host := waited.2 } with
    ⟨s', hnow, hended⟩ | ⟨now', host, hnow, hreads, hlater⟩
  · rw [hnow]
    exact hwaited.ended hended
  · rw [hnow]
    dsimp only
    have hs' : Cool time offset slack { s with host, lastNow := now' } := hwaited.later hlater
    split
    · exact hdue _ _ hs' rfl (hreads ▸ Nat.div_le_div_right hlater)
    · exact hs'

include hslack in
/-- **A step in `Running`.** -/
theorem Cool.drive (hcool : Cool time offset slack s) {driver : Driver E ω}
    (hdriver : s.driver = some driver) (hphase : s.phase = .running) (maximum : Nat)
    (limits : Runtime.Limits) : Cool time offset slack (s.drive outside driver maximum limits) := by
  obtain ⟨hlater, hapart, hstep⟩ :=
    Driver.step_paced hlock hslack ⟨hcool.driver driver hdriver, hcool.apart⟩ maximum limits
  rw [drive_eq]
  generalize hs₁ : afterDriver outside s driver maximum limits = s₁
  have hdaemon : s₁.daemon.isSome = true := by
    rw [← hs₁]
    exact hcool.daemon
  have hescalations : s₁.escalations = s.escalations ++
      (driver.step outside maximum limits s.host).2.2.2 := by rw [← hs₁]; rfl
  have hhost : s₁.host = (driver.step outside maximum limits s.host).2.2.1 := by rw [← hs₁]; rfl
  have hdriver₁ : s₁.driver = some (driver.step outside maximum limits s.host).2.1 := by
    rw [← hs₁]
    rfl
  have hphase₁ : s₁.phase = .running := by
    rw [← hs₁]
    exact hphase
  rw [← hescalations] at hapart hstep
  rw [← hhost] at hlater hstep
  -- the driver is only looked at when the step has not failed
  have hended : ∀ s', Ended s₁ s' → Cool time offset slack s' := fun s' h =>
    ⟨h.daemon ▸ hdaemon, h.escalations ▸ hapart,
      fun d hd => absurd (h.driver.symm.trans hd) (by simp),
      fun hopens => absurd (h.phase.symm.trans hopens) (by simp)⟩
  rcases now_cases hlock s₁ with ⟨s', hnow, hs'⟩ | ⟨now', host', hnow, hreads, hlater'⟩
  · rw [hnow]
    exact hended s' hs'
  · rw [hnow]
    cases hanswer : (driver.step outside maximum limits s.host).1 with
    | none =>
        dsimp only [heard]
        exact hended _ (recovery_ended hlock rfl rfl)
    | some report =>
        dsimp only [heard]
        obtain ⟨hdriverCool, hstate⟩ := hstep report hanswer
        have hlocal : Cool time offset slack { s₁ with host := host', lastNow := now' } := by
          refine ⟨hdaemon, hapart, ?_, ?_⟩
          · intro d hd
            cases hdriver₁.symm.trans hd
            exact hdriverCool.later hlater'
          · intro hopens
            dsimp only at hopens
            rw [hphase₁] at hopens
            cases hopens
        exact hlocal.observed hlock hdriver₁ hstate hdriverCool hreads

include hslack in
/-- **A step of the service.** -/
theorem Cool.step (hcool : Cool time offset slack s) (maximum : Nat) (limits : Runtime.Limits) :
    Cool time offset slack (s.step outside maximum limits) := by
  unfold Service.step
  split
  · exact hcool
  split
  · exact hcool.ended (finish_ended rfl rfl)
  rcases now_cases hlock s with ⟨s', hnow, hended⟩ | ⟨now, host, hnow, hreads, hlater⟩
  · rw [hnow]
    exact hcool.ended hended
  rw [hnow]
  have hs' : Cool time offset slack { s with host, lastNow := now } := hcool.later hlater
  dsimp only
  split
  · rename_i hphase
    exact hs'.openModem hlock (hs'.opens (congrArg Phase.opens hphase))
      (hreads ▸ Nat.div_le_div_right hlater)
  · rename_i hphase
    split
    · rename_i driver hdriver
      exact hs'.drive hlock hslack hdriver hphase maximum limits
    · exact hs'
  · rename_i deadline hphase
    refine hs'.waitFor hlock now deadline maximum fun s'' now' hs'' hsame hnow' => ?_
    exact hs''.openModem hlock (hs''.opens (congrArg Phase.opens (hsame.trans hphase))) hnow'
  · rename_i deadline hphase
    refine hs'.waitFor hlock now deadline maximum fun s'' _ hs'' _ _ => ?_
    exact hs''.ended (finish_ended rfl rfl)
  · exact hs'

end Steps

/-! ### Runs -/

/-- **The invariant holds in every run.** -/
theorem DaemonReach.cool {outside : Outside E ω} {time : ω → Nat} {offset slack : Nat}
    (hlock : Lockstep outside time offset) (hslack : Slack time slack) {s : Service E ω}
    (h : DaemonReach outside s) :
    Cool time offset slack s := by
  induction h with
  | @start config w generation nextWrite s baud pin hnew =>
      unfold Service.new at hnew
      split at hnew
      · cases hnew
        refine ⟨rfl, .nil, ?_, ?_⟩
        · rintro d ⟨⟩
        · rintro _ a ⟨⟩
      · cases hnew
  | next _ input ih =>
      cases input with
      | daemonMode baud pin =>
          exact ⟨rfl, ih.apart, fun d hd => (ih.driver d hd).later (Nat.le_refl _), ih.opens⟩
      | step maximum limits => exact ih.step hlock hslack maximum limits
      | stop =>
          show Cool time offset slack (Service.stop _)
          unfold Service.stop
          split
          · exact ih
          · exact ih.ended (finish_ended rfl rfl)

/-- **The rate of restarts.** Any two moments at which a new multiplexer is asked for are 300
seconds apart on the service's clock, less the millisecond that the two clocks may cut off
between them, also with new sessions, runtimes and drivers between the moments, unless the
service's clock has come to its largest time. The millisecond is not missing when all readings
lie in one fraction of a millisecond. Recovery sends `SABM` three times at most on each channel
of a session. -/
theorem escalations_apart {outside : Outside E ω} {time : ω → Nat} {offset : Nat}
    (hlock : Lockstep outside time offset) {s : Service E ω} (h : DaemonReach outside s) :
    s.escalations.Pairwise (fun a b => serviceMs offset a + 299999 ≤ serviceMs offset b ∨
        u64Max ≤ serviceMs offset b) ∧
      ((∀ w w', time w % nanosPerMs = time w' % nanosPerMs) →
        s.escalations.Pairwise (fun a b => serviceMs offset a + 300000 ≤ serviceMs offset b ∨
          u64Max ≤ serviceMs offset b)) ∧
      ∀ (σ : Type) (sink : Sink σ) (c : Dlci) (config : List ChannelConfig) (limit : Nat)
        (session : Session), Session.new config limit = .ok session →
        ∀ (w : σ) (ops : List Session.Operation),
          Session.recoverySabms sink c (session, w) ops ≤ 3 := by
  refine ⟨?_, fun haligned => (h.cool hlock (slack_zero haligned)).apart,
    fun _ sink c _ _ _ hnew w ops => Session.recoverySabms_le sink c hnew w ops⟩
  refine (h.cool hlock (slack_one time)).apart.imp fun hrests => ?_
  exact hrests.imp_left Nat.le_of_succ_le_succ

/-! ### Two episodes

A modem that accepts its channels and then disconnects the first of them, again and again. The
world counts its time in units of a part of a millisecond. -/

structure Episode where
  time : Nat
  /-- How long each `poll` takes, and what it finds on the serial line. -/
  polls : List (Nat × Nat)
  serial : List (List UInt8)

/-- The world with `unit` nanoseconds in its unit. -/
def episode (unit : Nat) : Outside Nat Episode where
  prepare _ w := (true, w)
  descriptor endpoint := endpoint
  read endpoint _ w :=
    match endpoint, w.serial with
    | 0, bytes :: rest => ((.transferred bytes.length, bytes), { w with serial := rest })
    | _, _ => ((.fault .wouldBlock, []), w)
  write _ input w := (.transferred input.length, w)
  openEndpoint c w := (some c.val, w)
  epochsTaken w := (0, w)
  set _ _ w := (true, w)
  openSerial w := (some (0, [⟨1, false⟩, ⟨2, false⟩]), w)
  clock w :=
    let now := w.time * unit / nanosPerMs
    (if now ≤ u64Max then some now else none, w)
  instant w := (w.time * unit, w)
  poll interests _ w :=
    match w.polls with
    | [] => (.interrupted, w)
    | (advance, mask) :: rest =>
        (.events (interests.map fun i => if i.token.endpoint = .serial then mask else 0),
          { w with time := w.time + advance, polls := rest })

/-- The start-up dialogue, and `UA` on all channels with `DISC` on the first. -/
def flapping : List (List UInt8) :=
  Runtime.scriptedAnswers ((⟨3, 0x73, []⟩ : Frame).wire ++ (⟨7, 0x73, []⟩ : Frame).wire ++
    (⟨11, 0x73, []⟩ : Frame).wire ++ (⟨7, 0x53, []⟩ : Frame).wire)

/-- Two multiplexers with `ms` units in a millisecond: the first asks for the second `late`
units behind its last try, and closes two seconds and `closing` units later. -/
def episodePolls (ms late closing last : Nat) : List (Nat × Nat) :=
  let dialogue := [(20000 * ms, 0), (0, 1), (0, 1), (0, 1), (0, 1)]
  let tries := [(1000 * ms, 0), (1000 * ms, 0), (1000 * ms, 0)]
  dialogue ++ tries ++ [(1000 * ms + late, 0), (2000 * ms + closing, 0), (5000 * ms, 0)] ++
    dialogue ++ tries ++ [(1000 * ms, 0), (last, 0)]

/-- The service in an episode that begins at `start`, after twenty-two steps. -/
def episodeAfter (unit start : Nat) (polls : List (Nat × Nat)) : Option (Service Nat Episode) :=
  (Service.new (episode unit) ⟨64, 0, false⟩ ⟨start, polls, flapping ++ flapping⟩ 0 0).map fun s =>
    (List.replicate 22 (.step 1000 Runtime.scriptedLimits)).foldl (next (episode unit))
      (s.daemonMode 0 (-1))

/-- In tenths of a millisecond: the first driver begins at a half of one, asks at four tenths and
closes at a half again. -/
def cutEpisode : Option (Service Nat Episode) :=
  episodeAfter 100000 5 (episodePolls 10 9 1 2689990)

/-- In milliseconds, close to the largest time of the service's clock. -/
def lateEpisode : Option (Service Nat Episode) :=
  episodeAfter nanosPerMs (u64Max - 124000) (episodePolls 1 0 0 69000)

/-- The clocks of the episode run in lockstep. -/
theorem episode_lockstep (unit : Nat) :
    Lockstep (episode unit) (fun w => w.time * unit) 0 where
  prepare _ _ := Nat.le_refl _
  read endpoint size w := by
    show w.time * unit ≤ ((episode unit).read endpoint size w).2.time * unit
    unfold episode
    dsimp only
    split
    · exact Nat.le_refl _
    · exact Nat.le_refl _
  write _ _ _ := Nat.le_refl _
  openEndpoint _ _ := Nat.le_refl _
  epochsTaken _ := Nat.le_refl _
  set _ _ _ := Nat.le_refl _
  openSerial _ := Nat.le_refl _
  poll interests timeout w := by
    show w.time * unit ≤ ((episode unit).poll interests timeout w).2.time * unit
    unfold episode
    dsimp only
    split
    · exact Nat.le_refl _
    · exact Nat.mul_le_mul_right unit (Nat.le_add_right _ _)
  clock _ := Nat.le_refl _
  instant _ := Nat.le_refl _
  clock_reads := by
    intro w n hreads
    unfold episode at hreads
    dsimp only at hreads
    split at hreads
    · rename_i hfits
      cases hreads
      exact ⟨rfl, hfits⟩
    · cases hreads
  instant_reads _ := rfl

theorem episodeAfter_reach {unit start : Nat} {polls : List (Nat × Nat)} {s : Service Nat Episode}
    (h : episodeAfter unit start polls = some s) : DaemonReach (episode unit) s := by
  obtain ⟨s₀, hnew, rfl⟩ := Option.map_eq_some_iff.mp h
  have hrun : ∀ (inputs : List Input) (s : Service Nat Episode), DaemonReach (episode unit) s →
      DaemonReach (episode unit) (inputs.foldl (next (episode unit)) s) := by
    intro inputs
    induction inputs with
    | nil => exact fun _ hs => hs
    | cons input rest ih => exact fun s hs => ih _ (hs.next input)
  exact hrun _ _ (.start 0 (-1) hnew)

theorem cutEpisode_escalations :
    cutEpisode.map (·.escalations) = some [24001400000, 324000500000] := by
  decide +kernel

theorem lateEpisode_escalations :
    lateEpisode.map (·.escalations) =
      some [(u64Max - 100000) * nanosPerMs, u64Max * nanosPerMs] := by
  decide +kernel

/-- The first episode has the shortest distance, and the second one is in whole milliseconds. -/
theorem escalations_apart_episodes :
    (∃ s, cutEpisode = some s ∧ s.escalations = [24001400000, 324000500000] ∧
      s.escalations.Pairwise (fun a b => serviceMs 0 a + 299999 ≤ serviceMs 0 b ∨
        u64Max ≤ serviceMs 0 b)) ∧
    ∃ s, lateEpisode = some s ∧
      s.escalations = [(u64Max - 100000) * nanosPerMs, u64Max * nanosPerMs] ∧
      s.escalations.Pairwise (fun a b => serviceMs 0 a + 300000 ≤ serviceMs 0 b ∨
        u64Max ≤ serviceMs 0 b) := by
  obtain ⟨s, hend, hescalations⟩ := Option.map_eq_some_iff.mp cutEpisode_escalations
  obtain ⟨s', hend', hescalations'⟩ := Option.map_eq_some_iff.mp lateEpisode_escalations
  refine ⟨⟨s, hend, hescalations, ?_⟩, s', hend', hescalations', ?_⟩
  · exact (escalations_apart (episode_lockstep 100000) (episodeAfter_reach hend)).1
  · refine (escalations_apart (episode_lockstep nanosPerMs) (episodeAfter_reach hend')).2.1 ?_
    intro w w'
    rw [Nat.mul_mod_left, Nat.mul_mod_left]

/-- The two clocks may cut off a millisecond, and the sum of the time and the cool-down is cut
off at the end of the clock. -/
theorem escalations_not_apart :
    (¬ ∀ (E ω : Type) (outside : Outside E ω) (time : ω → Nat) (offset : Nat),
      Lockstep outside time offset → ∀ s : Service E ω, DaemonReach outside s →
        s.escalations.Pairwise (fun a b => serviceMs offset a + 300000 ≤ serviceMs offset b ∨
          u64Max ≤ serviceMs offset b)) ∧
    ¬ ∀ (E ω : Type) (outside : Outside E ω) (time : ω → Nat) (offset : Nat),
      Lockstep outside time offset → ∀ s : Service E ω, DaemonReach outside s →
        s.escalations.Pairwise (fun a b => serviceMs offset a + 299999 ≤ serviceMs offset b) := by
  refine ⟨fun hclaim => ?_, fun hclaim => ?_⟩
  · obtain ⟨s, hend, hescalations⟩ := Option.map_eq_some_iff.mp cutEpisode_escalations
    have hapart := hclaim Nat Episode _ _ 0 (episode_lockstep 100000) s (episodeAfter_reach hend)
    rw [hescalations] at hapart
    revert hapart
    decide
  · obtain ⟨s, hend, hescalations⟩ := Option.map_eq_some_iff.mp lateEpisode_escalations
    have hapart := hclaim Nat Episode _ _ 0 (episode_lockstep nanosPerMs) s
      (episodeAfter_reach hend)
    rw [hescalations] at hapart
    revert hapart
    decide

end Mindone.Mux.Service
