import Mindone.Radio.Core.Core

/-!
# Mindone.Radio.Core.Runs

The runs of the radio core, and **the induction over them**. `Sound` lists what the core does as
single steps: a step of the boot, an event that is handled, a call of an engine, a reset. An
invariant that each of them keeps holds in every state that a run reaches (`Sound.reach`).

An invariant also speaks of the events that an engine emitted and that still wait to be dispatched.
-/

set_option linter.dupNamespace false

namespace Mindone.Radio.Core

open At (Channels Event Heard)
open Mindone.Lib
open Mindone.Mux (checkedAdd)
open State (Source Update)

/-! ### Runs -/

inductive Act
  | submit (request : Request) (serial : Int) (now : Nat)
  | readable (channel : Nat) (bytes : List UInt8) (now : Nat)
  | written (channel token n now : Nat)
  | tick (now : Nat)
  | reset (now : Nat)
  | reconnect (now : Nat)
  deriving DecidableEq

/-- The core after a call, whether the call returned or failed. -/
def Core.next (c : Core) : Act → Core
  | .submit request serial now => c.submit request serial now
  | .readable channel bytes now => endState (onReadable channel bytes now c)
  | .written channel token n now => endState (onWritten channel token n now c)
  | .tick now => endState (tick now c)
  | .reset now => endState (onReset now c)
  | .reconnect now => endState (onReconnect now c)

/-- **The cores that the calls which are `ok` can reach.** -/
inductive ReachWith (ok : Core → Act → Prop) : Core → Prop
  | new {now nextWrite : Nat} {c : Core} (h : Core.new now nextWrite = .ok c) : ReachWith ok c
  | step {c : Core} (h : ReachWith ok c) (act : Act) (hok : ok c act) : ReachWith ok (c.next act)

/-- **The cores a run can reach.** -/
abbrev Reach : Core → Prop := ReachWith fun _ _ => True

theorem ReachWith.mono {ok ok' : Core → Act → Prop} (hok : ∀ c act, ok c act → ok' c act) {c : Core}
    (h : ReachWith ok c) : ReachWith ok' c := by
  induction h with
  | new h => exact .new h
  | step _ act hact ih => exact ih.step act (hok _ act hact)

/-- Where a script leads. -/
def Core.play (c : Core) (acts : List Act) : Core := acts.foldl Core.next c

/-- Every call of a script is `ok`. -/
def Obeys (ok : Core → Act → Prop) : List Act → Core → Prop
  | [], _ => True
  | act :: acts, c => ok c act ∧ Obeys ok acts (c.next act)

instance Obeys.decide (ok : Core → Act → Prop) [∀ c act, Decidable (ok c act)] :
    (acts : List Act) → (c : Core) → Decidable (Obeys ok acts c)
  | [], _ => isTrue trivial
  | _ :: acts, _ => @instDecidableAnd _ _ _ (Obeys.decide ok acts _)

theorem ReachWith.play {ok : Core → Act → Prop} {c : Core} (h : ReachWith ok c) (acts : List Act)
    (hobeys : Obeys ok acts c) : ReachWith ok (c.play acts) := by
  induction acts generalizing c with
  | nil => exact h
  | cons act acts ih => exact ih (h.step act hobeys.1) hobeys.2

/-- Where a script leads from a new core can be computed. -/
theorem ReachWith.of_script (ok : Core → Act → Prop) [∀ c act, Decidable (ok c act)]
    (acts : List Act) (P : Core → Prop) [∀ c, Decidable (P c)]
    (h : ((Core.new 0 0).toOption.any fun c => decide (Obeys ok acts c ∧ P (c.play acts))) = true) :
    ∃ c, ReachWith ok c ∧ P c := by
  cases hnew : Core.new 0 0 with
  | error error =>
      rw [hnew] at h
      cases h
  | ok c =>
      rw [hnew] at h
      obtain ⟨hobeys, hP⟩ := of_decide_eq_true (p := Obeys ok acts c ∧ P (c.play acts)) h
      exact ⟨c.play acts, (ReachWith.new hnew).play acts hobeys, hP⟩

/-- A line, with its end. -/
def ended (line : Text) : List UInt8 := line ++ [0x0d]

/-- Every step of the boot is written and answered. -/
def bootScript : List Act :=
  (bootSteps.zipIdx 1).flatMap fun (step, token) =>
    [.written step.channel token (step.command.length + 1) 0,
      .readable step.channel (ended (text "OK")) 0]

/-! ### What the services do not touch -/

structure Steady (c c' : Core) : Prop where
  now : c'.now = c.now
  available : c'.available = c.available
  ready : c'.ready = c.ready
  nextId : c'.nextId = c.nextId
  boot : c'.boot = c.boot
  bootActive : c'.bootActive = c.bootActive
  bootDeadline : c'.bootDeadline = c.bootDeadline
  internalDeadlines : c'.internalDeadlines = c.internalDeadlines
  notification : c'.notification = c.notification
  submitted : c'.submitted = c.submitted

namespace Steady

theorem refl (c : Core) : Steady c c := ⟨rfl, rfl, rfl, rfl, rfl, rfl, rfl, rfl, rfl, rfl⟩

theorem trans {c c' c'' : Core} (h : Steady c c') (h' : Steady c' c'') : Steady c c'' where
  now := h'.now.trans h.now
  available := h'.available.trans h.available
  ready := h'.ready.trans h.ready
  nextId := h'.nextId.trans h.nextId
  boot := h'.boot.trans h.boot
  bootActive := h'.bootActive.trans h.bootActive
  bootDeadline := h'.bootDeadline.trans h.bootDeadline
  internalDeadlines := h'.internalDeadlines.trans h.internalDeadlines
  notification := h'.notification.trans h.notification
  submitted := h'.submitted.trans h.submitted

theorem foldl {α : Type} {f : Core → α → Core} (hf : ∀ c a, Steady c (f c a)) (xs : List α)
    (c : Core) : Steady c (xs.foldl f c) := by
  induction xs generalizing c with
  | nil => exact .refl c
  | cons a rest ih => exact (hf c a).trans (ih (f c a))

end Steady

namespace Core

variable (c : Core)

theorem indicate_steady (indication : Indication) : Steady c (c.indicate indication) :=
  ⟨rfl, rfl, rfl, rfl, rfl, rfl, rfl, rfl, rfl, rfl⟩

theorem apply_steady (source : Source) (update : Update) (now : Nat) :
    Steady c (c.apply source update now) := by
  have hmodel : ∀ model, Steady c { c with model } :=
    fun _ => ⟨rfl, rfl, rfl, rfl, rfl, rfl, rfl, rfl, rfl, rfl⟩
  unfold apply
  dsimp only
  split
  · split
    · exact (hmodel _).trans (indicate_steady ..)
    · exact hmodel _
  · split
    · exact (hmodel _).trans (indicate_steady ..)
    · exact hmodel _
  · exact (hmodel _).trans (indicate_steady ..)
  · exact (hmodel _).trans (indicate_steady ..)
  · exact hmodel _

theorem finish_steady (id : Int) (error : RadioError) (value : Option Value) :
    Steady c (c.finish id error value) := by
  unfold finish
  split
  · exact .refl c
  · exact ⟨rfl, rfl, rfl, rfl, rfl, rfl, rfl, rfl, rfl, rfl⟩

theorem collect_steady (now : Nat) : Steady c (c.collect now) := by
  have hcollected : Steady c c.collected := ⟨rfl, rfl, rfl, rfl, rfl, rfl, rfl, rfl, rfl, rfl⟩
  unfold collect
  refine hcollected.trans ?_
  exact (Steady.foldl (fun c _ => apply_steady c ..) _ _).trans
    (.foldl (fun c _ => finish_steady c ..) _ _)

theorem serve_steady (id : Int) (request : Request) (deadline : Nat) :
    Steady c (c.serve id request deadline) := by
  cases request with
  | network request => exact ⟨rfl, rfl, rfl, rfl, rfl, rfl, rfl, rfl, rfl, rfl⟩
  | modem request => exact ⟨rfl, rfl, rfl, rfl, rfl, rfl, rfl, rfl, rfl, rfl⟩

theorem execute_steady (id : Int) (request : Request) (now : Nat) :
    Steady c (c.execute id request now) := by
  unfold execute
  split
  · exact finish_steady c ..
  · rename_i deadline _
    have hdeadline : Steady c (c.setDeadline id deadline) :=
      ⟨rfl, rfl, rfl, rfl, rfl, rfl, rfl, rfl, rfl, rfl⟩
    exact (hdeadline.trans (serve_steady _ ..)).trans (collect_steady _ _)

theorem executeWaiting_steady (now : Nat) (id : Int) : Steady c (c.executeWaiting now id) := by
  unfold executeWaiting
  split
  · exact .refl c
  · have hwaiting : Steady c (c.clearWaiting id) :=
      ⟨rfl, rfl, rfl, rfl, rfl, rfl, rfl, rfl, rfl, rfl⟩
    exact hwaiting.trans (execute_steady _ ..)

theorem noteEind_steady (line : Text) : Steady c (c.noteEind line) := by
  unfold noteEind
  split
  · exact ⟨rfl, rfl, rfl, rfl, rfl, rfl, rfl, rfl, rfl, rfl⟩
  · exact .refl c

theorem observe_steady (event : Event) (now : Nat) : Steady c (c.observe event now) := by
  unfold observe
  split
  · split
    · exact (noteEind_steady c _).trans (apply_steady _ ..)
    · exact noteEind_steady c _
  · exact .refl c

theorem observeAll_steady (lines : List Text) (now : Nat) : Steady c (c.observeAll lines now) :=
  .foldl (fun c update => apply_steady c .query update now) _ _

theorem networkEvent_steady (channel : Nat) (event : Event) :
    Steady c (c.networkEvent channel event) := ⟨rfl, rfl, rfl, rfl, rfl, rfl, rfl, rfl, rfl, rfl⟩

theorem modemEvent_steady (channel : Nat) (event : Event) (heard : Heard) :
    Steady c (c.modemEvent channel event heard) :=
  ⟨rfl, rfl, rfl, rfl, rfl, rfl, rfl, rfl, rfl, rfl⟩

theorem handle_steady (channel : Nat) (event : Event) (heard : Heard) (now : Nat) :
    Steady c (c.handle channel event heard now) :=
  (((networkEvent_steady c ..).trans (collect_steady ..)).trans (modemEvent_steady ..)).trans
    (collect_steady ..)

theorem takeBoot_now (channel : Nat) (event : Event) (now : Nat) :
    (c.takeBoot channel event now).2.now = c.now ∧
      (c.takeBoot channel event now).2.available = c.available := by
  unfold takeBoot
  split
  · dsimp only
    split
    · exact ⟨(observeAll_steady _ ..).now, (observeAll_steady _ ..).available⟩
    · exact ⟨rfl, rfl⟩
  · exact ⟨rfl, rfl⟩

theorem takeBoot_bootActive {channel : Nat} {event : Event} {now : Nat} {answer : BootAnswer}
    {c' : Core} (h : c.takeBoot channel event now = (some answer, c')) : c'.bootActive = none := by
  unfold takeBoot at h
  split at h
  · dsimp only at h
    split at h
    · cases h
      rfl
    · cases h
  · cases h

theorem abandon_steady : Steady c c.abandon :=
  .foldl (fun c id => finish_steady c id .radioNotAvailable none) _ _

theorem renew_steady (generation : Nat) : Steady c (c.renew generation) :=
  ⟨rfl, rfl, rfl, rfl, rfl, rfl, rfl, rfl, rfl, rfl⟩

theorem enter_now (id : Int) (request : Request) (serial : Int) (deadline now : Nat) :
    (c.enter id request serial deadline now).now = c.now := by
  unfold enter
  rw [(collect_steady _ now).now]
  split
  · rw [(execute_steady ..).now]
  · rfl

theorem clearBoot_now : c.clearBoot.now = c.now ∧ c.clearBoot.available = c.available :=
  ⟨rfl, rfl⟩

theorem failAll_now (generation now : Nat) :
    (c.failAll generation now).now = c.now ∧
      (c.failAll generation now).available = c.available := by
  have hcollected : Steady c ((c.abandon.renew generation).collect now) :=
    ((abandon_steady c).trans (renew_steady ..)).trans (collect_steady ..)
  unfold failAll
  rw [(indicate_steady ..).now, (indicate_steady ..).now, (clearBoot_now _).1,
    (indicate_steady ..).available, (indicate_steady ..).available, (clearBoot_now _).2]
  exact ⟨hcollected.now, hcollected.available⟩

end Core

/-! ### What the core does -/

/-- Events that wait to be dispatched, each with its channel. -/
abbrev Todo := List (Nat × Event × Heard)

/-- The calls that the core makes of its engines. -/
inductive CallAt (now : Nat) : At.Call → Prop
  | tick : CallAt now (.tick now)
  | feed (bytes : List UInt8) : CallAt now (.feed now bytes)
  | acceptWritten (token n : Nat) : CallAt now (.acceptWritten now token n)

/-- **What keeps an invariant keeps it in every run** (`Sound.reach`): the single steps of the core,
with the events `todo` that are still to be dispatched. A reset without a further generation leaves
the boot as it is; an invariant that rules this out is `tidy`, and no step begins before the last
one is over. -/
structure Sound (tidy : Prop) (ok : Core → Act → Prop) (I : Todo → Core → Prop) : Prop where
  initial {now nextWrite : Nat} {channels : Channels}
    (h : Channels.new now channelIds prefixes nextWrite = .ok channels) :
    I [] (.initial now channels)
  clocked {c : Core} {now : Nat} (h : I [] c) (hnow : c.now ≤ now) : I [] { c with now }
  /-- A request is answered at once. -/
  refused {c : Core} (h : I [] c) (serial : Int) (error : RadioError) :
    I [] ((c.noteSubmitted serial).respond serial error)
  numbered {c : Core} (h : I [] c) (serial : Int) (error : RadioError) (hid : c.nextId ≠ i32Max) :
    I [] (({ c.noteSubmitted serial with nextId := c.nextId + 1 } : Core).respond serial error)
  entered {c : Core} (h : I [] c) (request : Request) (serial : Int) {deadline : Nat}
    (havailable : c.available) (hid : c.nextId ≠ i32Max)
    (hdeadline : checkedAdd c.now (if c.ready then commandTimeoutMs else bootTimeoutMs) =
      some deadline) :
    I [] ((c.noteSubmitted serial).enter (c.nextId + 1) request serial deadline c.now)
  called {c : Core} (h : I [] c) {channel : Nat} {e : At.Engine} {call : At.Call}
    (havailable : c.available) (hget : c.channels.get channel = some e) (hcall : CallAt c.now call)
    (hfed : ∀ bytes, call = .feed c.now bytes →
      ∃ c₀, ok c₀ (.readable channel bytes c.now) ∧ c = { c₀ with now := c.now }) :
    I ((callEvents channel call e).map (channel, ·)) (c.called channel call e)
  skipped {c : Core} {event : Nat × Event × Heard} {todo : Todo} (h : I (event :: todo) c)
    (havailable : c.available = false) : I todo c
  /-- An event is handled; where it answered a boot step, what comes behind it can be dropped. -/
  handled {c c' : Core} {channel : Nat} {event : Event × Heard} {todo : Todo}
    {answer : Option Core.BootAnswer} (h : I ((channel, event) :: todo) c)
    (havailable : c.available)
    (hboot : (c.observe event.1 c.now).takeBoot channel event.1 c.now = (answer, c')) :
    I todo (c'.handle channel event.1 event.2 c.now) ∧
      (answer.isSome → I [] (c'.handle channel event.1 event.2 c.now))
  stepTaken {c : Core} {todo : Todo} {step : BootStep} {boot : List BootStep}
    (h : I todo c) (hnone : tidy → c.bootActive = none) (hboot : c.boot = step :: boot) :
    I todo { c with boot }
  booted {c : Core} {todo : Todo} {step : BootStep} {boot : List BootStep} {channels : Channels}
    {id deadline : Nat} (h : I todo c) (havailable : c.available) (hnone : tidy → c.bootActive = none)
    (hboot : c.boot = step :: boot) (hdeadline : checkedAdd c.now commandTimeoutMs = some deadline)
    (hrequest : c.channels.request step.channel step.command step.expectedPrefix 32 deadline =
      (.ok id, channels)) :
    I todo ({ c with boot }.booting step channels id deadline)
  bootRefused {c : Core} {todo : Todo} {step : BootStep} {boot : List BootStep}
    {channels : Channels} {error : At.Error} {deadline : Nat} (h : I todo c)
    (hnone : tidy → c.bootActive = none) (hboot : c.boot = step :: boot)
    (hrequest : c.channels.request step.channel step.command step.expectedPrefix 32 deadline =
      (.error error, channels)) : I todo { c with boot, channels }
  fallback {c : Core} {todo : Todo} (h : I todo c) (hnone : tidy → c.bootActive = none) :
    I todo { c with boot := egregFallback :: c.boot }
  readied {c : Core} {todo : Todo} (h : I todo c) (havailable : c.available)
    (hnone : tidy → c.bootActive = none) (hboot : c.boot = []) : I todo (c.readied c.now)
  restored {c : Core} {todo : Todo} {deadline : Nat} (h : I todo c) (havailable : c.available)
    (hready : c.ready) (hdeadline : checkedAdd c.now commandTimeoutMs = some deadline) :
    I todo (c.restored deadline c.now)
  executed {c : Core} {todo : Todo} (h : I todo c) (havailable : c.available) (hready : c.ready)
    (id : Int) : I todo (c.executeWaiting c.now id)
  failed {c : Core} {todo : Todo} {generation : Nat} (h : I todo c) (havailable : c.available)
    (hgeneration : checkedAdd c.model.generation 1 = some generation) (todo' : Todo) :
    I todo' (c.halt.failAll generation c.now)
  exhausted {c : Core} {todo : Todo} (h : I todo c) (havailable : c.available)
    (hgeneration : checkedAdd c.model.generation 1 = none) (todo' : Todo) : I todo' c.halt
  /-- The core is connected again; the boot begins. -/
  reconnected {c : Core} {nextWrite : Nat} {channels : Channels} (h : I [] c)
    (havailable : c.available = false)
    (hok : ∃ c₀, ok c₀ (.reconnect c.now) ∧ c = { c₀ with now := c.now })
    (hchannels : Channels.new c.now channelIds prefixes nextWrite = .ok channels) :
    I [] { c with channels, available := true } ∧ (tidy → c.bootActive = none)
  begun {c : Core} {deadline : Nat} (h : I [] c) (havailable : c.available)
    (hnone : tidy → c.bootActive = none) (hdeadline : checkedAdd c.now bootTimeoutMs = some deadline) :
    I [] { c with bootDeadline := some deadline, boot := bootSteps }
  notified {c : Core} (h : I [] c) (notification : At.Framer) : I [] { c with notification }
  lined {c : Core} (h : I [] c) (line : List UInt8) : I [(0, .urc line true, ⟨0, none⟩)] c

/-! ### The induction -/

section Induction

variable {tidy : Prop} {ok : Core → Act → Prop} {I : Todo → Core → Prop} {c : Core} {now : Nat}

/-- The invariant at the time of a call. -/
def Timed (I : Todo → Core → Prop) (now : Nat) (todo : Todo) (c : Core) : Prop :=
  I todo c ∧ c.now = now

theorem clock_spec (now : Nat) (c : Core) :
    Ends (clock now) c (fun _ c' => c.now ≤ now ∧ c' = { c with now }) fun _ c' => c' = c := by
  unfold clock
  rw [ends_bind, ends_get, ends_ite]
  split
  · exact (ends_throw _).mpr rfl
  · rename_i hnow
    exact ends_set.mpr ⟨Nat.le_of_not_lt hnow, rfl⟩

/-- What a reset leaves. -/
def Stopped (I : Todo → Core → Prop) (now : Nat) (c : Core) : Prop :=
  (∀ todo, Timed I now todo c) ∧ c.available = false

/-- The core gives the modem up. -/
theorem giveUp_sound (h : Sound tidy ok I) {todo : Todo} (hc : Timed I now todo c)
    (havailable : c.available) :
    Ends (giveUp now) c (fun _ c' => Stopped I now c') fun _ c' => Stopped I now c' := by
  obtain ⟨hI, rfl⟩ := hc
  unfold giveUp
  rw [ends_bind, ends_get, ends_ite, if_pos havailable]
  cases hgeneration : checkedAdd c.model.generation 1 with
  | none =>
      dsimp only
      rw [ends_bind, ends_set, ends_throw]
      exact ⟨fun todo' => ⟨h.exhausted hI havailable hgeneration todo', rfl⟩, rfl⟩
  | some generation =>
      dsimp only
      rw [ends_set]
      obtain ⟨hnow, hstopped⟩ := c.halt.failAll_now generation c.now
      exact ⟨fun todo' => ⟨h.failed hI havailable hgeneration todo', hnow⟩, hstopped⟩

/-- The modem has been reset. -/
theorem onReset_sound (h : Sound tidy ok I) {todo : Todo} (hc : Timed I now todo c)
    (havailable : c.available) :
    Ends (onReset now) c (fun _ c' => Stopped I now c') fun _ c' => Stopped I now c' := by
  have hsame : clock now c = .ok ⟨⟩ c := by
    obtain ⟨-, rfl⟩ := hc
    unfold clock
    rw [run_get_bind, if_neg (Nat.lt_irrefl _)]
    rfl
  unfold onReset
  rw [ends_bind, ends_of_ok hsame]
  exact giveUp_sound h hc havailable

/-- A step of the boot is submitted. -/
theorem startBoot_sound (h : Sound tidy ok I) {todo : Todo} {step : BootStep}
    {boot : List BootStep} (hc : Timed I now todo c) (hdrop : Timed I now [] c)
    (havailable : c.available) (hnone : tidy → c.bootActive = none) (hboot : c.boot = step :: boot) :
    Ends (startBoot step now) { c with boot } (fun _ c' => Timed I now todo c')
      fun _ c' => Timed I now [] c' := by
  obtain ⟨hI, rfl⟩ := hc
  unfold startBoot
  cases hdeadline : checkedAdd c.now commandTimeoutMs with
  | none =>
      dsimp only
      rw [ends_throw]
      exact ⟨h.stepTaken hdrop.1 hnone hboot, rfl⟩
  | some deadline =>
      dsimp only
      rw [ends_bind, ends_get]
      cases hrequest :
        c.channels.request step.channel step.command step.expectedPrefix 32 deadline with
      | mk result channels =>
      cases result with
      | error error =>
          dsimp only
          rw [ends_bind, ends_set, ends_throw]
          exact ⟨h.bootRefused hdrop.1 hnone hboot hrequest, rfl⟩
      | ok id =>
          dsimp only
          rw [ends_set]
          exact ⟨h.booted hI havailable hnone hboot hdeadline hrequest, rfl⟩

/-- What the boot's end keeps. -/
theorem executeAll_sound (h : Sound tidy ok I) {todo : Todo} (hc : Timed I now todo c)
    (havailable : c.available) (hready : c.ready) : Timed I now todo (c.executeAll now) := by
  unfold Core.executeAll
  generalize c.invocations.map Prod.fst = ids
  induction ids generalizing c with
  | nil => exact hc
  | cons id rest ih =>
      have hsteady := c.executeWaiting_steady now id
      obtain ⟨hI, rfl⟩ := hc
      refine ih ⟨h.executed hI havailable hready id, hsteady.now⟩ ?_ ?_
      · rw [hsteady.available]
        exact havailable
      · rw [hsteady.ready]
        exact hready

theorem restored_steady (deadline now : Nat) : Steady c (c.restored deadline now) := by
  have hservice : ∀ network channels, Steady c { c with network, channels } :=
    fun _ _ => ⟨rfl, rfl, rfl, rfl, rfl, rfl, rfl, rfl, rfl, rfl⟩
  exact (hservice _ _).trans (Core.collect_steady ..)

/-- The boot is over. -/
theorem finishBoot_sound (h : Sound tidy ok I) {todo : Todo} (hc : Timed I now todo c)
    (hdrop : Timed I now [] c) (havailable : c.available) (hnone : tidy → c.bootActive = none)
    (hboot : c.boot = []) :
    Ends (finishBoot now) c (fun _ c' => Timed I now todo c') fun _ c' => Timed I now [] c' := by
  obtain ⟨hI, rfl⟩ := hc
  have hsteady := Core.apply_steady
    { c with bootActive := none, bootDeadline := none, ready := true } .transport (.radio .off) c.now
  have havailable' : (c.readied c.now).available := hsteady.available.trans havailable
  have hnow : (c.readied c.now).now = c.now := hsteady.now
  unfold finishBoot
  rw [ends_bind, ends_modify]
  cases hdeadline : checkedAdd c.now commandTimeoutMs with
  | none =>
      dsimp only
      rw [ends_throw]
      exact ⟨h.readied hdrop.1 havailable hnone hboot, hnow⟩
  | some deadline =>
      dsimp only
      rw [ends_modify]
      have hrestored := h.restored (h.readied hI havailable hnone hboot) havailable' hsteady.ready
        (show checkedAdd (c.readied c.now).now commandTimeoutMs = some deadline by
          rw [hnow]
          exact hdeadline)
      rw [hnow] at hrestored
      have hkept := restored_steady (c := c.readied c.now) deadline c.now
      exact executeAll_sound h ⟨hrestored, hkept.now.trans hnow⟩
        (hkept.available.trans havailable') (hkept.ready.trans hsteady.ready)

/-- The boot goes on to its next step, or is over. -/
theorem advanceBoot_sound (h : Sound tidy ok I) {todo : Todo} (hc : Timed I now todo c)
    (hdrop : Timed I now [] c) (havailable : c.available) (hnone : tidy → c.bootActive = none) :
    Ends (advanceBoot now) c (fun _ c' => Timed I now todo c') fun _ c' => Timed I now [] c' := by
  unfold advanceBoot
  rw [ends_bind, ends_get]
  split
  · rename_i step boot hboot
    rw [ends_bind, ends_set]
    exact startBoot_sound h hc hdrop havailable hnone hboot
  · rename_i hboot
    exact finishBoot_sound h hc hdrop havailable hnone hboot

/-- A step of the boot has been answered. -/
theorem bootCompleted_sound (h : Sound tidy ok I) {todo : Todo} {answer : Core.BootAnswer}
    (hc : Timed I now todo c) (hdrop : Timed I now [] c) (havailable : c.available)
    (hnone : c.bootActive = none) :
    Ends (bootCompleted answer now) c (fun _ c' => Timed I now todo c')
      fun _ c' => Timed I now [] c' := by
  have hadvanced := advanceBoot_sound h hc hdrop havailable fun _ => hnone
  unfold bootCompleted
  rw [ends_ite]
  split
  · exact hadvanced
  rw [ends_ite]
  split
  · rw [ends_bind, ends_modify]
    exact advanceBoot_sound h ⟨h.fallback hc.1 fun _ => hnone, hc.2⟩
      ⟨h.fallback hdrop.1 fun _ => hnone, hdrop.2⟩ havailable fun _ => hnone
  rw [ends_ite]
  split
  · exact (onReset_sound h hc havailable).mono (fun _ _ hstop => hstop.1 todo)
      fun _ _ hstop => hstop.1 []
  · exact hadvanced

/-- **One event.** -/
theorem dispatch_sound (h : Sound tidy ok I) {todo : Todo} {channel : Nat} {event : Event × Heard}
    (hc : Timed I now ((channel, event) :: todo) c) :
    Ends (dispatch channel now event) c (fun _ c' => Timed I now todo c')
      fun _ c' => Timed I now [] c' := by
  unfold dispatch
  rw [ends_bind, ends_get, ends_ite]
  split
  · rename_i havailable
    obtain ⟨hI, rfl⟩ := hc
    cases hboot : (c.observe event.1 c.now).takeBoot channel event.1 c.now with
    | mk answer c' =>
    have htaken := (c.observe event.1 c.now).takeBoot_now channel event.1 c.now
    have hobserved := c.observe_steady event.1 c.now
    have hsteady := c'.handle_steady channel event.1 event.2 c.now
    rw [hboot, hobserved.now, hobserved.available] at htaken
    obtain ⟨hI', hdrop⟩ := h.handled hI havailable hboot
    have hnow := hsteady.now.trans htaken.1
    have havailable' : (c'.handle channel event.1 event.2 c.now).available :=
      (hsteady.available.trans htaken.2).trans havailable
    dsimp only
    rw [ends_bind, ends_set, ends_ite]
    split
    · exact (onReset_sound h ⟨hI', hnow⟩ havailable').mono (fun _ _ hstop => hstop.1 todo)
        fun _ _ hstop => hstop.1 []
    · cases answer with
      | none => exact (ends_pure _).mpr ⟨hI', hnow⟩
      | some answer =>
          refine bootCompleted_sound h ⟨hI', hnow⟩ ⟨hdrop rfl, hnow⟩ havailable' ?_
          exact hsteady.bootActive.trans (Core.takeBoot_bootActive _ hboot)
  · rename_i hunavailable
    exact (ends_pure _).mpr ⟨h.skipped hc.1 (Bool.not_eq_true _ ▸ hunavailable), hc.2⟩

theorem dispatchAll_sound (h : Sound tidy ok I) {channel : Nat} {events : List (Event × Heard)}
    (hc : Timed I now (events.map (channel, ·)) c) :
    Ends (events.forM (dispatch channel now)) c (fun _ c' => Timed I now [] c')
      fun _ c' => Timed I now [] c' :=
  ends_forM (I := fun rest c => Timed I now (rest.map (channel, ·)) c)
    (fun _ _ _ hrest => dispatch_sound h hrest) hc

/-- **A call of an engine**, with the events that it emits. -/
theorem callEngine_sound (h : Sound tidy ok I) {channel : Nat} {call : At.Call}
    (hc : Timed I now [] c) (havailable : c.available) (hcall : CallAt now call)
    (hfed : ∀ bytes, call = .feed now bytes →
      ∃ c₀, ok c₀ (.readable channel bytes now) ∧ c = { c₀ with now := now }) :
    Ends (callEngine channel call now) c (fun _ c' => Timed I now [] c')
      fun _ c' => Timed I now [] c' := by
  unfold callEngine
  rw [ends_bind, ends_get]
  split
  · exact (ends_throw _).mpr hc
  · rename_i e hget
    obtain ⟨hI, rfl⟩ := hc
    rw [ends_bind, ends_set, ends_bind]
    refine (dispatchAll_sound h ⟨h.called hI havailable hget hcall hfed, rfl⟩).mono ?_
      fun _ _ hc' => hc'
    intro _ c' hc'
    rw [ends_bind, ends_get]
    dsimp only
    rw [ends_ite]
    split
    · rename_i hfailed
      rw [ends_bind]
      refine (onReset_sound h hc' hfailed.2).mono ?_ fun _ _ hstop => hstop.1 []
      exact fun _ _ hstop => (ends_pure _).mpr (hstop.1 [])
    · exact (ends_pure _).mpr hc'

/-- Each engine is ticked, until the modem is given up. -/
theorem pumpFrom_sound (h : Sound tidy ok I) (channels : List Nat) (hc : Timed I now [] c)
    (havailable : c.available) :
    Ends (pumpFrom now channels) c (fun _ c' => Timed I now [] c')
      fun _ c' => Timed I now [] c' := by
  induction channels generalizing c with
  | nil => exact (ends_pure _).mpr hc
  | cons channel rest ih =>
      unfold pumpFrom
      rw [ends_bind]
      refine (callEngine_sound h hc havailable .tick nofun).mono ?_ fun _ _ hc' => hc'
      intro _ c' hc'
      rw [ends_bind, ends_get, ends_ite]
      split
      · rename_i havailable'
        exact ih hc' havailable'
      · exact (ends_pure _).mpr hc'

theorem pump_sound (h : Sound tidy ok I) (hc : Timed I now [] c) :
    Ends (pump now) c (fun _ c' => Timed I now [] c') fun _ c' => Timed I now [] c' := by
  unfold pump
  rw [ends_bind, ends_get, ends_ite]
  split
  · rename_i havailable
    exact pumpFrom_sound h channelIds hc havailable
  · exact (ends_pure _).mpr hc

/-- A deadline that has passed stops the core; else nothing happens. -/
theorem expire_sound (h : Sound tidy ok I) (hc : Timed I now [] c) :
    Ends (expire now) c (fun _ c' => Timed I now [] c' ∧ (c'.available → c' = c))
      fun _ c' => Timed I now [] c' := by
  unfold expire
  rw [ends_bind, ends_get, ends_ite]
  split
  · rename_i hdue
    have havailable : c.available := by
      unfold Core.nextDeadline at hdue
      split at hdue
      · assumption
      · cases hdue
    refine (onReset_sound h hc havailable).mono ?_ fun _ _ hstop => hstop.1 []
    intro _ c' hstop
    exact ⟨hstop.1 [], fun hav => absurd hav (by simp [hstop.2])⟩
  · exact (ends_pure _).mpr ⟨hc, fun _ => rfl⟩

theorem notify_sound (h : Sound tidy ok I) (byte : UInt8) (hc : Timed I now [] c) :
    Ends (notify now byte) c (fun _ c' => Timed I now [] c') fun _ c' => Timed I now [] c' := by
  unfold notify
  rw [ends_bind, ends_get]
  dsimp only
  rw [ends_bind, ends_set]
  have hpushed := h.notified hc.1 (c.notification.push byte).1
  split
  · rename_i line _
    exact dispatch_sound h ⟨h.lined hpushed line, hc.2⟩
  · exact (ends_pure _).mpr ⟨hpushed, hc.2⟩

/-! ### The calls -/

/-- Bytes have come in on a channel. -/
theorem onReadable_sound (h : Sound tidy ok I) {channel : Nat} {bytes : List UInt8}
    (hc : I [] c) (hok : ok c (.readable channel bytes now)) :
    I [] (endState (onReadable channel bytes now c)) := by
  refine ends_endState.mp (?_ : Ends _ c (fun _ => I []) fun _ => I [])
  unfold onReadable
  rw [ends_bind]
  refine (clock_spec now c).mono ?_ fun _ _ hsame => hsame ▸ hc
  rintro _ c' ⟨hnow, rfl⟩
  have hclocked : Timed I now [] { c with now } := ⟨h.clocked hc hnow, rfl⟩
  rw [ends_bind, ends_get, ends_ite]
  split
  · rw [ends_bind]
    refine (expire_sound h hclocked).mono ?_ fun _ _ hc' => hc'.1
    rintro _ c' ⟨hc', hsame⟩
    rw [ends_bind, ends_get, ends_ite]
    split
    · rename_i havailable
      have hpump : ∀ c', Timed I now [] c' →
          Ends (pump now) c' (fun _ => I []) fun _ => I [] := fun c' hc' =>
        (pump_sound h hc').mono (fun _ _ hc' => hc'.1) fun _ _ hc' => hc'.1
      dsimp only
      rw [ends_ite]
      split
      · rw [ends_bind]
        refine (ends_forM (I := fun _ => Timed I now [])
          (fun byte _ _ hrest => notify_sound h byte hrest) hc').mono ?_ fun _ _ hc' => hc'.1
        exact fun _ c' hc' => hpump c' hc'
      · rw [ends_bind]
        refine (callEngine_sound h hc' havailable (.feed bytes) ?_).mono ?_ fun _ _ hc' => hc'.1
        · rintro _ hcall
          cases hcall
          exact ⟨c, hok, hsame havailable⟩
        · exact fun _ c' hc' => hpump c' hc'
    · exact (ends_pure _).mpr hc'.1
  · exact (ends_pure _).mpr hclocked.1

/-- Bytes have been written on a channel. -/
theorem onWritten_sound (h : Sound tidy ok I) {channel token n : Nat} (hc : I [] c) :
    I [] (endState (onWritten channel token n now c)) := by
  refine ends_endState.mp (?_ : Ends _ c (fun _ => I []) fun _ => I [])
  unfold onWritten
  rw [ends_bind]
  refine (clock_spec now c).mono ?_ fun _ _ hsame => hsame ▸ hc
  rintro _ c' ⟨hnow, rfl⟩
  have hclocked : Timed I now [] { c with now } := ⟨h.clocked hc hnow, rfl⟩
  rw [ends_bind, ends_get]
  split
  · exact (ends_throw _).mpr hclocked.1
  rw [ends_ite]
  split
  · rw [ends_bind]
    refine (expire_sound h hclocked).mono ?_ fun _ _ hc' => hc'.1
    rintro _ c' ⟨hc', -⟩
    rw [ends_bind, ends_get, ends_ite]
    split
    · rename_i havailable
      rw [ends_bind]
      refine (callEngine_sound h hc' havailable (.acceptWritten token n) nofun).mono ?_
        fun _ _ hc' => hc'.1
      intro error c' hc'
      cases error with
      | none => exact (ends_pure _).mpr hc'.1
      | some error => exact (ends_throw _).mpr hc'.1
    · exact (ends_throw _).mpr hc'.1
  · exact (ends_throw _).mpr hclocked.1

/-- Time has passed. -/
theorem tick_sound (h : Sound tidy ok I) (hc : I [] c) : I [] (endState (tick now c)) := by
  refine ends_endState.mp (?_ : Ends _ c (fun _ => I []) fun _ => I [])
  unfold tick
  rw [ends_bind]
  refine (clock_spec now c).mono ?_ fun _ _ hsame => hsame ▸ hc
  rintro _ c' ⟨hnow, rfl⟩
  rw [ends_bind]
  have hclocked : Timed I now [] { c with now } := ⟨h.clocked hc hnow, rfl⟩
  refine (expire_sound h hclocked).mono ?_ fun _ _ hc' => hc'.1
  rintro _ c' ⟨hc', -⟩
  exact (pump_sound h hc').mono (fun _ _ hc' => hc'.1) fun _ _ hc' => hc'.1

theorem onReset_call (h : Sound tidy ok I) (hc : I [] c) : I [] (endState (onReset now c)) := by
  refine ends_endState.mp (?_ : Ends _ c (fun _ => I []) fun _ => I [])
  unfold onReset
  rw [ends_bind]
  refine (clock_spec now c).mono ?_ fun _ _ hsame => hsame ▸ hc
  rintro _ c' ⟨hnow, rfl⟩
  have hclocked : Timed I now [] { c with now } := ⟨h.clocked hc hnow, rfl⟩
  by_cases havailable : c.available
  · exact (giveUp_sound h hclocked havailable).mono (fun _ _ hstop => (hstop.1 []).1)
      fun _ _ hstop => (hstop.1 []).1
  · unfold giveUp
    rw [ends_bind, ends_get, ends_ite, if_neg havailable]
    exact (ends_pure _).mpr hclocked.1

/-- The boot begins. -/
theorem beginBoot_sound (h : Sound tidy ok I) (hc : Timed I now [] c) (havailable : c.available)
    (hnone : tidy → c.bootActive = none) :
    Ends (beginBoot now) c (fun _ c' => Timed I now [] c') fun _ c' => Timed I now [] c' := by
  obtain ⟨hI, rfl⟩ := hc
  -- `unfold` would have the kernel count up to the time-out
  generalize hbegin : beginBoot = begin_
  delta beginBoot at hbegin
  subst hbegin
  dsimp only
  cases hdeadline : checkedAdd c.now bootTimeoutMs with
  | none => exact (ends_throw _).mpr ⟨hI, rfl⟩
  | some deadline =>
      dsimp only
      rw [ends_bind, ends_modify]
      have hbegun := h.begun hI havailable hnone hdeadline
      exact advanceBoot_sound h ⟨hbegun, rfl⟩ ⟨hbegun, rfl⟩ havailable hnone

/-- The modem is there again. -/
theorem onReconnect_sound (h : Sound tidy ok I) (hc : I [] c) (hok : ok c (.reconnect now)) :
    I [] (endState (onReconnect now c)) := by
  refine ends_endState.mp (?_ : Ends _ c (fun _ => I []) fun _ => I [])
  unfold onReconnect
  rw [ends_bind]
  refine (clock_spec now c).mono ?_ fun _ _ hsame => hsame ▸ hc
  rintro _ c' ⟨hnow, rfl⟩
  have hclocked : I [] { c with now } := h.clocked hc hnow
  rw [ends_bind, ends_get, ends_ite]
  split
  · exact (ends_throw _).mpr hclocked
  rename_i hunavailable
  split
  · exact (ends_throw _).mpr hclocked
  rename_i channels hchannels
  obtain ⟨hI, hnone⟩ :=
    h.reconnected hclocked (by simpa using hunavailable) ⟨c, hok, rfl⟩ hchannels
  rw [ends_bind, ends_set, ends_bind]
  have hfresh : Timed I now [] _ := ⟨hI, rfl⟩
  refine (beginBoot_sound h hfresh rfl hnone).mono ?_ fun _ _ hc' => hc'.1
  exact fun _ _ hc' => (pump_sound h hc').mono (fun _ _ hc' => hc'.1) fun _ _ hc' => hc'.1

/-- A request of a client. -/
theorem submit_sound (h : Sound tidy ok I) (request : Request) (serial : Int) (hc : I [] c) :
    I [] (c.submit request serial now) := by
  unfold Core.submit
  dsimp only
  split
  · exact h.refused hc serial .invalidArguments
  rename_i hnow
  have hclocked : I [] { c with now } := h.clocked hc (Nat.le_of_not_lt hnow)
  split
  · exact h.refused hclocked serial .radioNotAvailable
  rename_i havailable
  split
  · exact h.refused hclocked serial .internalErr
  rename_i hroom
  split
  · exact h.numbered hclocked serial .internalErr fun hid => hroom (.inr hid)
  · rename_i deadline hdeadline
    have hentered := h.entered hclocked request serial
      (not_not.mp havailable) (fun hid => hroom (.inr hid)) hdeadline
    split
    · refine ends_endState.mp (?_ : Ends _ _ (fun _ => I []) fun _ => I [])
      have hnow' : Timed I now [] _ := ⟨hentered, Core.enter_now ..⟩
      exact (pump_sound h hnow').mono (fun _ _ hc' => hc'.1) fun _ _ hc' => hc'.1
    · exact hentered

/-- A new core. -/
theorem new_sound (h : Sound tidy ok I) {nextWrite : Nat} (hnew : Core.new now nextWrite = .ok c) :
    I [] c := by
  unfold Core.new at hnew
  split at hnew
  · cases hnew
  rename_i channels hchannels
  split at hnew
  · rename_i c' hrun
    cases hnew
    have hends : Ends (beginBoot now *> pump now : Step Unit) (.initial now channels)
        (fun _ => Timed I now []) fun _ => Timed I now [] := by
      rw [seqRight_eq_bind, ends_bind]
      refine (beginBoot_sound h ⟨h.initial hchannels, rfl⟩ rfl fun _ => rfl).mono ?_
        fun _ _ hc' => hc'
      exact fun _ _ hc' => pump_sound h hc'
    exact (hends.of_ok hrun).1
  · cases hnew

/-- **The induction over runs.** -/
theorem Sound.reach (h : Sound tidy ok I) (hreach : ReachWith ok c) : I [] c := by
  induction hreach with
  | new hnew => exact new_sound h hnew
  | step _ act hok ih =>
      cases act with
      | submit request serial now => exact submit_sound h request serial ih
      | readable channel bytes now => exact onReadable_sound h ih hok
      | written channel token n now => exact onWritten_sound h ih
      | tick now => exact tick_sound h ih
      | reset now => exact onReset_call h ih
      | reconnect now => exact onReconnect_sound h ih hok

end Induction

end Mindone.Radio.Core
